/-!
# Binary floating point as bit patterns

A number is kept as the bits it is stored in, so that two patterns are told apart even where the
numbers compare equal, and a pattern that is no number is kept too.

* `Format.decode`   sign, mantissa and exponent of a pattern;
* `Format.equal`    comparison of the numbers: no pattern that is no number equals anything, and
                    the two zeros are equal.
-/

namespace CilPatch.Decimal

/-- widths of the exponent and of the stored fraction -/
structure Format where
  exponentBits : Nat
  fractionBits : Nat

def binary32 : Format := ⟨8, 23⟩

def binary64 : Format := ⟨11, 52⟩

/-- a positive number `mantissa * 2 ^ exponent`; below a power of two the neighbour on the lower
side is only half as far away (`narrowBelow`) -/
structure Magnitude where
  mantissa : Nat
  exponent : Int
  narrowBelow : Bool

inductive Datum where
  | notANumber
  | infinite (negative : Bool)
  | zero (negative : Bool)
  | finite (negative : Bool) (value : Magnitude)

namespace Format

def fractions (f : Format) : Nat := Nat.pow 2 f.fractionBits

/-- the number of exponent fields; the last one is kept for what is no finite number -/
def exponents (f : Format) : Nat := Nat.pow 2 f.exponentBits

def fraction (f : Format) (bits : Nat) : Nat := bits % f.fractions

def exponentField (f : Format) (bits : Nat) : Nat := bits / f.fractions % f.exponents

def negative (f : Format) (bits : Nat) : Bool := bits / f.fractions / f.exponents % 2 == 1

/-- the exponent of the unit of a number with exponent field 0 or 1 -/
def leastExponent (f : Format) : Int := 2 - (f.exponents / 2 : Nat) - f.fractionBits

def isNumber (f : Format) (bits : Nat) : Bool :=
  f.exponentField bits + 1 != f.exponents || f.fraction bits == 0

def isZero (f : Format) (bits : Nat) : Bool :=
  f.exponentField bits == 0 && f.fraction bits == 0

def decode (f : Format) (bits : Nat) : Datum :=
  let e := f.exponentField bits
  let m := f.fraction bits
  if e + 1 = f.exponents then
    if m = 0 then .infinite (f.negative bits) else .notANumber
  else if e = 0 then
    if m = 0 then .zero (f.negative bits)
    else .finite (f.negative bits) ⟨m, f.leastExponent, false⟩
  else
    .finite (f.negative bits)
      ⟨m + f.fractions, f.leastExponent + (e - 1 : Nat), m == 0 && e != 1⟩

/-- the numbers of two patterns are equal -/
def equal (f : Format) (a b : Nat) : Bool :=
  f.isNumber a && f.isNumber b && (a == b || f.isZero a && f.isZero b)

theorem equal_self (f : Format) (a : Nat) : f.equal a a = f.isNumber a := by
  simp [equal]

theorem equal_comm (f : Format) (a b : Nat) : f.equal a b = f.equal b a := by
  unfold equal
  rw [Bool.and_comm (f.isNumber a), Bool.and_comm (f.isZero a), Bool.beq_comm]

end Format

end CilPatch.Decimal
