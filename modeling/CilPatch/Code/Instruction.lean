import CilPatch.Code.Operand

/-!
# Instructions

An operation, its operand and the labels that mark the instruction.  The operand need not be of
the kind that the operation expects: only `Instruction.checked?` looks.
-/

namespace CilPatch

structure Instruction where
  opcode : Opcode
  operand : Operand := .none
  /-- in the order in which they were attached -/
  labels : List Label := []
deriving DecidableEq

/-- an operand of another kind than the operation expects -/
structure OperandMismatch where
  opcode : Opcode
  actual : OperandKind
deriving DecidableEq

def OperandMismatch.message (e : OperandMismatch) : String :=
  e.opcode.mnemonic ++ " expects a " ++ e.opcode.operandKind.term ++ " operand, got " ++
    e.actual.term

namespace Instruction

/-- an unmarked instruction, if the operand is of the expected kind -/
def checked? (opcode : Opcode) (operand : Operand) : Except OperandMismatch Instruction :=
  if opcode.operandKind = operand.kind then .ok { opcode, operand }
  else .error ⟨opcode, operand.kind⟩

def nop : Instruction := { opcode := .nop }

def loadInt32 (v : Int32) : Instruction := { opcode := .ldcI4, operand := .literal (.int32 v) }

def unlabeled (i : Instruction) : Instruction := { i with labels := [] }

def hasLabel (i : Instruction) (l : Label) : Bool := i.labels.contains l

/-- the labels that the operand refers to, whatever the operation does with them -/
def targets (i : Instruction) : List Label := i.operand.labels

/-- the labels that the instruction carries or refers to -/
def mentioned (i : Instruction) : List Label := i.labels ++ i.targets

def loadsInt32 (i : Instruction) (v : Int32) : Bool :=
  i.opcode == .ldcI4 && i.operand == .literal (.int32 v)

def method? (i : Instruction) : Option MethodRef :=
  match i.operand with
  | .method m => some m
  | _ => none

def field? (i : Instruction) : Option FieldRef :=
  match i.operand with
  | .field f => some f
  | _ => none

/-- mnemonic and operand, without the labels -/
def text (i : Instruction) : String :=
  match i.operand.text? with
  | none => i.opcode.mnemonic
  | some s => i.opcode.mnemonic ++ " " ++ s

/-- equality up to the bit patterns of equal numbers, the labels in order -/
def equal (a b : Instruction) : Bool :=
  a.opcode == b.opcode && a.operand.equal b.operand && a.labels == b.labels

theorem checked?_eq_ok_iff {opcode : Opcode} {operand : Operand} {i : Instruction} :
    checked? opcode operand = .ok i ↔
      opcode.operandKind = operand.kind ∧ i = { opcode, operand } := by
  unfold checked?
  split <;> simp_all [eq_comm]

end Instruction

end CilPatch
