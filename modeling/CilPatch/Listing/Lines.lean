import CilPatch.Code.Body
import CilPatch.Stack.Profile

/-!
# Listings of bodies

One line per instruction, `IL_xxxx: mnemonic operand`, behind one line `L_nnnn:` for each of its
labels; the protected regions come first.  An annotated listing shows behind every instruction the
stack on which it runs.
-/

namespace CilPatch

open CilPatch.Text

namespace Body

def line (i : Nat) (x : Instruction) : String := positionText i ++ ": " ++ x.text

def labelLines (x : Instruction) : List String := x.labels.map fun l => l.text ++ ":"

def regionLines (b : Body) : List String := b.regions.map Region.text

def lines (b : Body) : List String :=
  b.regionLines ++ b.code.zipIdx.flatMap fun (x, i) => labelLines x ++ [line i x]

def joinLines (ls : List String) : String := String.join (ls.map (· ++ "\n"))

def text (b : Body) : String := joinLines b.lines

/-! ## annotated listings -/

/-- the length in bytes of the longest instruction line: the column of the annotations -/
def width (b : Body) : Nat :=
  b.code.zipIdx.foldl (fun w (x, i) => max w (line i x).utf8ByteSize) 0

/-- height and types of a stack, or that control never comes -/
def annotation : Option Stack → String
  | none => "unreachable"
  | some [] => "[0]"
  | some s => "[" ++ decimal s.depth ++ "] " ++ s.text

/-- the listing with the stacks of a profile; lines are filled up by characters -/
def annotated (b : Body) (p : Profile) : String :=
  let w := b.width
  joinLines (b.regionLines ++ b.code.zipIdx.flatMap fun (x, i) =>
    labelLines x ++ [fillRight w (line i x) ++ "  // " ++ annotation (p.entry? i)])

end Body

end CilPatch
