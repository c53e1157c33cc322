import CilPatch.Types.Subtyping

/-!
# Stacks of types

What is known about the evaluation stack at one point of a body: the types of its values, the
topmost first.  Texts show a stack from the bottom up.

`merge` is the stack at a point that two paths reach: slot by slot the join of what the two
leave.  Stacks of different height do not merge.
-/

namespace CilPatch

/-- the types on a stack, the topmost first -/
abbrev Stack := List CilType

namespace Stack

/-- the stack with these types, given from the bottom up -/
def ofSlots (slots : List CilType) : Stack := slots.reverse

/-- the types from the bottom up -/
def slots (s : Stack) : List CilType := s.reverse

def depth (s : Stack) : Nat := s.length

def push (s : Stack) (t : CilType) : Stack := t :: s

/-- the topmost type and the stack below it -/
def pop? (s : Stack) : Option (CilType × Stack) :=
  match s with
  | [] => none
  | t :: rest => some (t, rest)

/-- the `n` topmost types, from the bottom up, and the stack below them -/
def popMany? (s : Stack) (n : Nat) : Option (List CilType × Stack) :=
  if n ≤ s.depth then some ((s.take n).reverse, s.drop n) else none

def top? (s : Stack) : Option CilType := s.head?

def text (s : Stack) : String := CilType.listText s.slots

/-- slot by slot the join, the first stack being the one that is held -/
def merge (h : Hierarchy) (held arriving : Stack) : Option Stack :=
  if held.depth = arriving.depth then some (List.zipWith h.join held arriving) else none

theorem merge_isSome_iff (h : Hierarchy) (a b : Stack) :
    (merge h a b).isSome = true ↔ a.depth = b.depth := by
  unfold merge
  split <;> simp_all

theorem depth_merge {h : Hierarchy} {a b m : Stack} (hm : merge h a b = some m) :
    m.depth = a.depth := by
  unfold merge at hm
  split at hm
  · next e =>
    rw [← Option.some.inj hm]
    simp only [depth, List.length_zipWith] at e ⊢
    omega
  · exact absurd hm (by simp)

theorem merge_self (h : Hierarchy) (s : Stack) : merge h s s = some s := by
  have hz : List.zipWith h.join s s = s := by
    induction s with
    | nil => rfl
    | cons t s ih => rw [List.zipWith_cons_cons, h.join_self, ih]
  rw [merge, if_pos rfl, hz]

end Stack

end CilPatch
