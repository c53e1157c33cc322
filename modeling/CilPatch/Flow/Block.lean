import CilPatch.Code.Body

/-!
# Basic blocks

A block is a stretch `start, …, stop - 1` of positions that control enters at the first and leaves
at the last.  `Block.cut` cuts the positions below `length` at given starting points, which must
be increasing and begin with 0.
-/

namespace CilPatch

structure Block where
  /-- its place among the blocks of the body -/
  id : Nat
  start : Nat
  stop : Nat
deriving DecidableEq

namespace Block

def size (b : Block) : Nat := b.stop - b.start

def isEmpty (b : Block) : Bool := b.stop == b.start

def last (b : Block) : Nat := b.stop - 1

def contains (b : Block) (i : Nat) : Bool := b.start ≤ i && i < b.stop

def positions (b : Block) : List Nat := List.range' b.start b.size

/-- the stretches between neighbouring starting points, the last one up to `length` -/
def cut (length : Nat) (starts : List Nat) : List Block :=
  go 0 starts
where
  go (id : Nat) : List Nat → List Block
    | [] => []
    | [start] => [⟨id, start, length⟩]
    | start :: next :: rest => ⟨id, start, next⟩ :: go (id + 1) (next :: rest)

/-- the instructions of the block with their positions -/
def instructions (b : Block) (body : Body) : List (Nat × Instruction) :=
  b.positions.zip (body.code.drop b.start)

end Block

end CilPatch
