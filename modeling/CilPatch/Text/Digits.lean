/-!
# Numerals of fixed least width

Every listing writes a label as a decimal numeral and a code position as a hexadecimal one, both
filled up with zeros on the left.

* `fillLeft w c s`   `s` behind as many `c` as it lacks to `w` characters;
* `decimal4 n`       at least four decimal digits;
* `hex4 n`           at least four lower-case hexadecimal digits.
-/

namespace CilPatch.Text

/-- `s` behind as many `c` as it lacks to `w` characters -/
def fillLeft (w : Nat) (c : Char) (s : String) : String :=
  String.ofList (List.replicate (w - s.length) c) ++ s

/-- `s` before as many blanks as it lacks to `w` characters -/
def fillRight (w : Nat) (s : String) : String :=
  s ++ String.ofList (List.replicate (w - s.length) ' ')

/-- the lower-case hexadecimal numeral of `n` -/
def hex (n : Nat) : String := String.ofList (Nat.toDigits 16 n)

/-- the hexadecimal numeral of `n` with at least four digits -/
def hex4 (n : Nat) : String := fillLeft 4 '0' (hex n)

def decimal (n : Nat) : String := n.repr

/-- the decimal numeral of `n` with at least four digits -/
def decimal4 (n : Nat) : String := fillLeft 4 '0' (decimal n)

/-- the decimal numeral of `z`, a minus sign before it if `z` is negative -/
def signed (z : Int) : String :=
  if z < 0 then "-" ++ decimal z.natAbs else decimal z.natAbs

theorem fillLeft_of_le {w : Nat} {c : Char} {s : String} (h : w ≤ s.length) :
    fillLeft w c s = s := by
  simp [fillLeft, Nat.sub_eq_zero_of_le h]

theorem length_fillLeft (w : Nat) (c : Char) (s : String) :
    (fillLeft w c s).length = max w s.length := by
  simp only [fillLeft, String.length_append, String.length_ofList, List.length_replicate]
  omega

end CilPatch.Text
