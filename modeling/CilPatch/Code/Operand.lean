import CilPatch.Code.Label
import CilPatch.Code.Opcode
import CilPatch.Decimal.Numeral
import CilPatch.Types.Reference

/-!
# Operands

A numeric literal keeps its stored bits (`Literal`), so that a search can tell every bit pattern
apart.  `Literal.equal` and `Operand.equal` compare what is meant: floating point literals by
their numbers, everything else by identity.
-/

namespace CilPatch

open CilPatch.Text CilPatch.Decimal

/-- a number that an instruction loads; floating point numbers as bit patterns -/
inductive Literal where
  | int32 (value : Int32)
  | int64 (value : Int64)
  | float32 (bits : UInt32)
  | float64 (bits : UInt64)
deriving DecidableEq

namespace Literal

/-- the type of the loaded value -/
def type : Literal → CilType
  | int32 _ => .i4
  | int64 _ => .i8
  | float32 _ => .r4
  | float64 _ => .r8

def kind : Literal → OperandKind
  | int32 _ => .int32
  | int64 _ => .int64
  | float32 _ => .float32
  | float64 _ => .float64

def text : Literal → String
  | int32 v => signed v.toInt
  | int64 v => signed v.toInt
  | float32 bits => binary32.numeral bits.toNat
  | float64 bits => binary64.numeral bits.toNat

/-- the literal as a 64-bit word: integers with their sign, floating point numbers as stored -/
def word : Literal → UInt64
  | int32 v => v.toInt64.toUInt64
  | int64 v => v.toUInt64
  | float32 bits => bits.toUInt64
  | float64 bits => bits

/-- the two literals have the same width and the same number -/
def equal : Literal → Literal → Bool
  | int32 a, int32 b => a == b
  | int64 a, int64 b => a == b
  | float32 a, float32 b => binary32.equal a.toNat b.toNat
  | float64 a, float64 b => binary64.equal a.toNat b.toNat
  | _, _ => false

end Literal

inductive Operand where
  | none
  | literal (value : Literal)
  | string (value : String)
  | local (index : Nat)
  | argument (index : Nat)
  | method (target : MethodRef)
  | field (target : FieldRef)
  | type (type : CilType)
  | label (target : Label)
  | switch (targets : List Label)
deriving DecidableEq

namespace Operand

def kind : Operand → OperandKind
  | none => .none
  | literal v => v.kind
  | string _ => .string
  | .local _ => .local
  | argument _ => .argument
  | method _ => .method
  | field _ => .field
  | type _ => .type
  | label _ => .label
  | switch _ => .switch

/-- the operand in assembly notation -/
def text? : Operand → Option String
  | none => Option.none
  | literal v => some v.text
  | string s => some (quoted s)
  | .local i => some ("V_" ++ decimal i)
  | argument i => some ("A_" ++ decimal i)
  | method m => some m.text
  | field f => some f.text
  | type t => some t.text
  | label l => some l.text
  | switch ls => some ("(" ++ Label.listText ls ++ ")")

/-- the operand as a constructor term -/
def term : Operand → String
  | none => "None"
  | literal v => Term.applied "Immediate" [Term.applied v.kind.term [v.text]]
  | string s => Term.applied "String" [quoted s]
  | .local i => Term.applied "Local" [decimal i]
  | argument i => Term.applied "Argument" [decimal i]
  | method m => Term.applied "Method" [m.term]
  | field f => Term.applied "Field" [f.term]
  | type t => Term.applied "Type" [t.term]
  | label l => Term.applied "Label" [l.term]
  | switch ls => Term.applied "Switch" [Term.list (ls.map Label.term)]

/-- the labels that the operand refers to -/
def labels : Operand → List Label
  | label l => [l]
  | switch ls => ls
  | _ => []

/-- equality up to the bit patterns of equal numbers; what is no number equals nothing -/
def equal : Operand → Operand → Bool
  | literal a, literal b => a.equal b
  | a, b => a == b

end Operand

end CilPatch
