import CilPatch.Decimal.Binary

/-!
# The shortest decimal that reads back

A binary number stands for every real that rounds to it: an interval around it, its two ends
included if the mantissa is even.  `Magnitude.shortest` is the decimal of that interval with the
fewest digits, and among those the nearest to the number, of two equally near ones the larger.

The search goes from coarse to fine over the grids `10 ^ p`.  If some point of a grid lies in the
interval, so does one of the two neighbours of the number on that grid, hence two points per grid
are all that has to be tried.  Everything is exact arithmetic on natural numbers.
-/

namespace CilPatch.Decimal

/-- the decimal `digits * 10 ^ exponent` -/
structure Digits where
  digits : Nat
  exponent : Int
deriving DecidableEq

/-- a number and the interval of the reals that round to it, over one denominator -/
structure Span where
  low : Nat
  value : Nat
  high : Nat
  denominator : Nat
  closed : Bool

namespace Span

/-- `k / scale` is not below the lower end -/
def aboveLow (s : Span) (k scale : Nat) : Bool :=
  s.low * scale < k * s.denominator || s.closed && s.low * scale == k * s.denominator

/-- `k / scale` is not above the upper end -/
def belowHigh (s : Span) (k scale : Nat) : Bool :=
  k * s.denominator < s.high * scale || s.closed && k * s.denominator == s.high * scale

/-- the span with its reals divided by `10 ^ p` -/
def rescale (s : Span) (p : Int) : Span :=
  if p < 0 then
    let t := Nat.pow 10 p.natAbs
    { s with low := s.low * t, value := s.value * t, high := s.high * t }
  else { s with denominator := s.denominator * Nat.pow 10 p.natAbs }

/-- the point of the grid of whole numbers that is taken, if one lies in the span: the neighbour
below the value if it is the nearer one, the neighbour above it on a tie -/
def wholePoint (s : Span) : Option Nat :=
  let k := s.value / s.denominator
  let r := s.value % s.denominator
  let down := k != 0 && s.aboveLow k 1
  let up := s.belowHigh (k + 1) 1
  if up && (!down || s.denominator ≤ 2 * r) then some (k + 1)
  else if down then some k
  else none

/-- the first grid from `10 ^ p` downwards that has a point in the span; after `n` grids without
one, the neighbour below on the next -/
def search (s : Span) : Nat → Int → Digits
  | 0, p => let t := s.rescale p; ⟨t.value / t.denominator, p⟩
  | n + 1, p =>
    match (s.rescale p).wholePoint with
    | some k => ⟨k, p⟩
    | none => search s n (p - 1)

end Span

namespace Magnitude

/-- the interval of a number, in units of a quarter of its last binary place -/
def span (x : Magnitude) : Span :=
  let e := x.exponent - 2
  let up := if e < 0 then 1 else Nat.pow 2 e.natAbs
  { low := (4 * x.mantissa - (if x.narrowBelow then 1 else 2)) * up
    value := 4 * x.mantissa * up
    high := (4 * x.mantissa + 2) * up
    denominator := if e < 0 then Nat.pow 2 e.natAbs else 1
    closed := x.mantissa % 2 == 0 }

/-- an exponent whose power of ten is above the number: `30103 / 100000` is just above the decimal
logarithm of two -/
def coarsest (x : Magnitude) : Int :=
  (x.exponent + (x.mantissa.log2 + 1 : Nat)) * 30103 / 100000 + 2

/-- the shortest decimal that rounds to the number; a grid finer than the last binary place is
reached after as many steps as the mantissa has bits -/
def shortest (x : Magnitude) : Digits :=
  x.span.search (x.mantissa.log2 + 6) x.coarsest

end Magnitude

end CilPatch.Decimal
