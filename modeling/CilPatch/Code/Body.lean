import CilPatch.Code.Instruction
import CilPatch.Code.Region

/-!
# Method bodies

The instructions of a method in order, its protected regions, and the number from which fresh
labels are taken.  An instruction is known by its position; labels move with the instructions
that carry them.

* `ofCode`, `push`, `reserve`   keep `nextLabel` above every label that the code mentions;
* `markLabel`                   moves a label, so that afterwards it marks one instruction;
* `resolve`, `labelTargets`     where a label points: at the first instruction that carries it.
-/

namespace CilPatch

open CilPatch.Text

/-- one more than every label that `code` mentions -/
def labelCeiling (code : List Instruction) : Nat :=
  (code.flatMap Instruction.mentioned).foldl (fun n l => max n (l.id + 1)) 0

structure Body where
  code : List Instruction := []
  regions : List Region := []
  nextLabel : Nat := 0
deriving DecidableEq

/-- a label was to be attached behind the last instruction -/
structure NoInstruction where
  label : Label
  index : Nat
  length : Nat
deriving DecidableEq

def NoInstruction.message (e : NoInstruction) : String :=
  "Cannot mark " ++ e.label.text ++ " at index " ++ decimal e.index ++ " - stream has " ++
    decimal e.length ++ " instructions"

namespace Body

def ofCode (code : List Instruction) : Body := { code, nextLabel := labelCeiling code }

def length (b : Body) : Nat := b.code.length

def isEmpty (b : Body) : Bool := b.code.isEmpty

def instruction? (b : Body) (i : Nat) : Option Instruction := b.code[i]?

def hasRegions (b : Body) : Bool := !b.regions.isEmpty

/-- take fresh labels from above every label that `code` mentions -/
def reserve (b : Body) (code : List Instruction) : Body :=
  { b with nextLabel := max b.nextLabel (labelCeiling code) }

def push (b : Body) (i : Instruction) : Body :=
  let b := b.reserve [i]
  { b with code := b.code ++ [i] }

def addRegion (b : Body) (r : Region) : Body := { b with regions := b.regions ++ [r] }

/-- a fresh label, attached nowhere -/
def defineLabel (b : Body) : Label × Body :=
  (⟨b.nextLabel⟩, { b with nextLabel := b.nextLabel + 1 })

/-- attach `l` to the instruction at `i` and detach it from all others -/
def markLabel (b : Body) (i : Nat) (l : Label) : Except NoInstruction Body :=
  if i < b.length then
    let detached := b.code.map fun x => { x with labels := x.labels.filter (· != l) }
    .ok { b with
      code := detached.modify i fun x => { x with labels := x.labels ++ [l] }
      nextLabel := max b.nextLabel (l.id + 1) }
  else .error ⟨l, i, b.length⟩

/-- the position of the first instruction that carries `l` -/
def resolve (b : Body) (l : Label) : Option Nat := b.code.findIdx? (·.hasLabel l)

/-- every attachment of a label with the position of its instruction, in order -/
def attachments (b : Body) : List (Label × Nat) :=
  b.code.zipIdx.flatMap fun (x, i) => x.labels.map (·, i)

/-- the position of every attached label; of several attachments the first counts -/
def labelTargets (b : Body) : List (Label × Nat) :=
  b.attachments.foldl
    (fun known entry => if (known.lookup entry.1).isSome then known else known ++ [entry]) []

/-- equality up to the bit patterns of equal numbers; the source of fresh labels counts -/
def equal (a b : Body) : Bool :=
  a.code.length == b.code.length && (a.code.zip b.code).all (fun (x, y) => x.equal y) &&
    a.regions == b.regions && a.nextLabel == b.nextLabel

end Body

end CilPatch
