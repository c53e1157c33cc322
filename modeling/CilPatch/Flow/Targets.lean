import CilPatch.Fault
import CilPatch.Code.Body

/-!
# Where the labels of a body point

* `Body.labelIndex`     every attached label with its position; fails on a label that is attached
                        twice;
* `Body.checkTargets`   fails on the first reference to a label that the index does not hold;
* `Body.isLeader`       the positions at which a block begins: the first one, every place that an
                        instruction refers to, and every place behind a terminal instruction.
-/

namespace CilPatch

/-- the positions of labels, each label once -/
abbrev LabelIndex := List (Label × Nat)

namespace Body

/-- put attachments into an index, one after the other -/
def indexAll (known : LabelIndex) : List (Label × Nat) → Except BodyFault LabelIndex
  | [] => .ok known
  | (l, i) :: rest =>
    match known.lookup l with
    | some first => .error (.duplicateLabel l first i)
    | none => indexAll ((l, i) :: known) rest

def labelIndex (b : Body) : Except BodyFault LabelIndex := indexAll [] b.attachments

/-- every reference to a label with the instruction that makes it and its position, in order -/
def references (b : Body) : List (Nat × Instruction × Label) :=
  b.code.zipIdx.flatMap fun (x, i) => x.targets.map (i, x, ·)

/-- the first reference to a label that is not in the index -/
def danglingReference? (b : Body) (index : LabelIndex) : Option (Nat × Instruction × Label) :=
  b.references.find? fun (_, _, l) => (index.lookup l).isNone

def checkTargets (b : Body) (index : LabelIndex) : Except BodyFault Unit :=
  match b.danglingReference? index with
  | some (i, x, l) => .error (.danglingLabel i x l)
  | none => .ok ()

/-- the positions that instructions refer to -/
def targetPositions (b : Body) (index : LabelIndex) : List Nat :=
  b.references.filterMap fun (_, _, l) => index.lookup l

/-- `i` lies behind a terminal instruction -/
def followsTerminal (b : Body) : Nat → Bool
  | 0 => false
  | i + 1 =>
    match b.instruction? i with
    | some x => x.opcode.isTerminal
    | none => false

/-- a block begins at `i`, where `targets` are the positions that are referred to -/
def isLeader (b : Body) (targets : List Nat) (i : Nat) : Bool :=
  i == 0 || targets.contains i || b.followsTerminal i

/-- the positions at which blocks begin, in order -/
def leaders (b : Body) (index : LabelIndex) : List Nat :=
  let targets := b.targetPositions index
  (List.range b.length).filter (b.isLeader targets)

end Body

end CilPatch
