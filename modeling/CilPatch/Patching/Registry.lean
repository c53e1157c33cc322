import CilPatch.Listing.Lines
import CilPatch.Patching.Report
import CilPatch.Patching.Roster
import CilPatch.Patching.Settings

/-!
# Registries

A registry holds a roster with the patches of every target method, and what has been learnt about
their owners: how often each has failed since its last success, who is in quarantine, and the last
edits that were applied.

Under one owner and anchor a target has at most one patch; a new one takes the place of the old one
and goes to the end.  Its number is new as well: numbers are given out in sequence, and none is ever
given out again, whatever is removed.
-/

namespace CilPatch

/-- one applied edit, with the listings before and after it -/
structure AppliedEdit where
  target : String
  owner : String
  anchor : String
  before : String
  after : String
  warningCount : Nat
deriving DecidableEq

/-- failures in a row by owner; an owner without an entry has none -/
abbrev Tally := List (String × Nat)

namespace Tally

def count (t : Tally) (owner : String) : Nat := (t.lookup owner).getD 0

def reset (t : Tally) (owner : String) : Tally := t.filter fun entry => entry.1 != owner

def increment (t : Tally) (owner : String) : Tally := (owner, t.count owner + 1) :: t.reset owner

theorem count_reset (t : Tally) (owner other : String) :
    (t.reset owner).count other = if other = owner then 0 else t.count other := by
  unfold count reset
  rw [lookup_filter_ne]
  split
  · rfl
  · rfl

theorem count_increment (t : Tally) (owner other : String) :
    (t.increment owner).count other
      = if other = owner then t.count owner + 1 else t.count other := by
  unfold increment
  by_cases hx : other = owner
  · simp [count, hx]
  · have hne : (other == owner) = false := by simpa using hx
    have hc := count_reset t owner other
    rw [if_neg hx] at hc ⊢
    rw [← hc]
    unfold count
    rw [List.lookup_cons, hne]

end Tally

structure Registry where
  settings : Settings
  hierarchy : Hierarchy := .empty
  registrations : Roster := []
  /-- the number of the next registration -/
  sequence : Nat := 0
  tally : Tally := []
  quarantined : List String := []
  /-- the newest last -/
  history : List AppliedEdit := []

namespace Registry

/-! ## registration -/

/-- register a patch in place of one of the same target, owner and anchor -/
def register (r : Registry) (target : String) (p : Patch) : Registry :=
  let others := (r.registrations.listed target).filter fun x => !x.patch.isKeyed p.owner p.anchor
  { r with
    registrations := r.registrations.put target (others ++ [⟨r.sequence, p⟩])
    sequence := r.sequence + 1 }

/-- remove what is registered for a target under an anchor, of one owner if one is given, and say
how many registrations these were -/
def unregister (r : Registry) (target anchor : String) (owner : Option String) : Nat × Registry :=
  match r.registrations.lookup target with
  | none => (0, r)
  | some list =>
    let left := list.filter fun x =>
      x.patch.anchor != anchor || owner.any fun o => x.patch.owner != o
    let registrations :=
      if left.isEmpty then r.registrations.erase target else r.registrations.put target left
    (list.length - left.length, { r with registrations })

/-- remove everything of an owner, or everything, and say how many registrations these were -/
def unregisterAll (r : Registry) (owner : Option String) : Nat × Registry :=
  let registrations :=
    match owner with
    | some o => (r.registrations.retain fun p => p.owner != o).dropEmpty
    | none => []
  (r.registrations.size - registrations.size, { r with registrations })

def clear (r : Registry) : Registry :=
  { r with registrations := [], tally := [], quarantined := [], history := [] }

/-- the patches of a target in the order in which they run: by priority, and in the order of
registration where that is the same -/
def patches (r : Registry) (target : String) : List Patch :=
  ((r.registrations.listed target).mergeSort Registration.precedes).map (·.patch)

/-- the targets with patches, in alphabetical order -/
def targets (r : Registry) : List String := r.registrations.targets.mergeSort fun a b => a ≤ b

/-! ## owners -/

def isQuarantined (r : Registry) (owner : String) : Bool := r.quarantined.contains owner

def quarantinedOwners (r : Registry) : List String := r.quarantined.mergeSort fun a b => a ≤ b

def failureCount (r : Registry) (owner : String) : Nat := r.tally.count owner

/-- lift the quarantine of an owner, and say whether there was one -/
def clearQuarantine (r : Registry) (owner : String) : Bool × Registry :=
  (r.isQuarantined owner,
    { r with tally := r.tally.reset owner, quarantined := r.quarantined.filter (· != owner) })

def countFailure (r : Registry) (owner : String) : Registry :=
  let r := { r with tally := r.tally.increment owner }
  if r.settings.quarantinesAfter (r.failureCount owner) && !r.isQuarantined owner then
    { r with quarantined := r.quarantined ++ [owner] }
  else r

def countSuccess (r : Registry) (owner : String) : Registry :=
  { r with tally := r.tally.reset owner }

/-- remember an applied edit, at the cost of the oldest ones if there is no room -/
def remember (r : Registry) (s : AppliedEdit) : Registry :=
  let room := r.settings.historyCapacity
  if room = 0 then r
  else { r with history := r.history.drop (r.history.length + 1 - room) ++ [s] }

end Registry

end CilPatch
