import CilPatch.Patching.Patch

/-!
# Rosters

A roster lists what is registered for each target.  It is kept by target: a target has one list, and
a list that has become empty is to be taken out, so that the targets of a roster are those for
which something is registered.

Every registration carries a number.  It says how many there were before it, for whatever target,
and so it tells the order of two patches of one priority.  It is a natural number: a counter of 64
bits would agree with it for the first `2 ^ 64` registrations, which no registry lives to see.
-/

namespace CilPatch

structure Registration where
  /-- how many registrations there were before -/
  number : Nat
  patch : Patch

namespace Registration

/-- by priority, and by number where that is the same -/
def precedes (x y : Registration) : Bool :=
  x.patch.priority < y.patch.priority ||
    (x.patch.priority == y.patch.priority && decide (x.number ≤ y.number))

theorem precedes_iff {x y : Registration} :
    x.precedes y = true ↔
      x.patch.priority < y.patch.priority ∨
        x.patch.priority = y.patch.priority ∧ x.number ≤ y.number := by
  unfold precedes
  simp only [Bool.or_eq_true, Bool.and_eq_true, decide_eq_true_eq, beq_iff_eq]

end Registration

/-- the lists by target, in no order -/
abbrev Roster := List (String × List Registration)

namespace Roster

def targets (R : Roster) : List String := R.map (·.1)

/-- what is registered for a target -/
def listed (R : Roster) (target : String) : List Registration := (R.lookup target).getD []

/-- how many registrations there are, for all targets together -/
def size : Roster → Nat
  | [] => 0
  | row :: R => row.2.length + size R

/-- take out a target and its list -/
def erase (R : Roster) (target : String) : Roster := R.filter (·.1 != target)

/-- give a target this list instead of the one that it has -/
def put (R : Roster) (target : String) (list : List Registration) : Roster :=
  (target, list) :: R.erase target

/-- keep the patches that satisfy `keep`, even if that leaves an empty list -/
def retain (R : Roster) (keep : Patch → Bool) : Roster :=
  R.map fun row => (row.1, row.2.filter fun x => keep x.patch)

/-- take out the targets whose lists are empty -/
def dropEmpty (R : Roster) : Roster := R.filter fun row => !row.2.isEmpty

/-! ## what is listed -/

theorem lookup_erase (R : Roster) (target other : String) :
    (R.erase target).lookup other = if other = target then none else R.lookup other :=
  lookup_filter_ne R target other

theorem listed_erase (R : Roster) (target other : String) :
    (R.erase target).listed other = if other = target then [] else R.listed other := by
  unfold listed
  rw [lookup_erase]
  split
  · rfl
  · rfl

theorem listed_put (R : Roster) (target other : String) (list : List Registration) :
    (R.put target list).listed other = if other = target then list else R.listed other := by
  by_cases ho : other = target
  · unfold listed put
    rw [if_pos ho, List.lookup_cons, beq_iff_eq.mpr ho]
    rfl
  · have hne : (other == target) = false := by simpa using ho
    have herase := listed_erase R target other
    unfold listed put at *
    rw [if_neg ho] at herase ⊢
    rw [List.lookup_cons, hne]
    exact herase

theorem listed_retain (R : Roster) (keep : Patch → Bool) (target : String) :
    (R.retain keep).listed target = (R.listed target).filter fun x => keep x.patch := by
  unfold listed retain
  induction R with
  | nil => rfl
  | cons row R ih =>
    obtain ⟨name, list⟩ := row
    rw [List.map_cons, List.lookup_cons, List.lookup_cons]
    cases target == name with
    | true => rfl
    | false => exact ih

end Roster

end CilPatch
