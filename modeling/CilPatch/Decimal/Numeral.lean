import CilPatch.Decimal.Shortest
import CilPatch.Text.Digits

/-!
# Numerals of binary numbers

A number is written with its shortest digits: positionally, and then with at least one digit
behind the point, if it is zero or not below `10 ^ -4` and below `10 ^ 16`; otherwise with one
digit before the point and a power of ten, `1.5e-7` or `5e-324`.
-/

namespace CilPatch.Decimal

open CilPatch.Text

/-- from which decimal exponent and below which one a number is written positionally -/
structure Style where
  least : Int
  bound : Int

/-- literals of code are positional from `0.0001` up to, but not including, `1e16` -/
def codeStyle : Style := ⟨-4, 16⟩

namespace Digits

def zeros (n : Nat) : String := String.ofList (List.replicate n '0')

/-- the exponent of the leading digit -/
def leading (d : Digits) : Int := d.exponent + (decimal d.digits).length - 1

/-- with a point and at least one digit on either side of it -/
def positional (d : Digits) : String :=
  let ds := (decimal d.digits).toList
  let point := d.exponent + ds.length
  if point ≤ 0 then "0." ++ zeros point.natAbs ++ String.ofList ds
  else if ds.length ≤ point.natAbs then
    String.ofList ds ++ zeros (point.natAbs - ds.length) ++ ".0"
  else String.ofList (ds.take point.natAbs) ++ "." ++ String.ofList (ds.drop point.natAbs)

/-- one digit, the others behind the point if there are any, and the power of ten -/
def scientific (d : Digits) : String :=
  let ds := (decimal d.digits).toList
  let tail := if ds.length ≤ 1 then "" else "." ++ String.ofList (ds.drop 1)
  String.ofList (ds.take 1) ++ tail ++ "e" ++ signed d.leading

def text (style : Style) (d : Digits) : String :=
  if style.least ≤ d.leading ∧ d.leading < style.bound then d.positional else d.scientific

end Digits

def sign (negative : Bool) : String := if negative then "-" else ""

def Datum.text (style : Style) : Datum → String
  | .notANumber => "NaN"
  | .infinite negative => sign negative ++ "inf"
  | .zero negative => sign negative ++ "0.0"
  | .finite negative x => sign negative ++ x.shortest.text style

def Format.numeral (f : Format) (bits : Nat) : String := (f.decode bits).text codeStyle

end CilPatch.Decimal
