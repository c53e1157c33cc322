import CilPatch.Types.CilType

/-!
# Which type may stand for which

A hierarchy knows for some classes their direct base; nothing forbids that the bases run in a
circle.  `assignable` says where a value of one type may be used as another, and `join` is the
more general of two types if one of them is, `unknown` otherwise: the type of a stack slot in
which two paths of control leave different types.

`ancestors` follows the bases for as many steps as there are registered classes.  More steps show
nothing new: a longer chain has passed some class twice.  A `Walk` counts no steps; it remembers
where it has been and turns back when it comes there again.  Both find the same (`walk_derives`).
-/

namespace CilPatch

/-- the rows of one name are gone, and the others are found as before -/
theorem lookup_filter_ne {α : Type} (rows : List (String × α)) (name other : String) :
    (rows.filter (·.1 != name)).lookup other =
      if other = name then none else rows.lookup other := by
  induction rows with
  | nil => simp
  | cons row rows ih =>
    obtain ⟨first, value⟩ := row
    by_cases hn : first = name
    · rw [List.filter_cons_of_neg (by simpa using hn), ih]
      by_cases ho : other = name
      · rw [if_pos ho, if_pos ho]
      · have hne : (other == first) = false := by simpa [hn] using ho
        rw [List.lookup_cons, hne]
    · rw [List.filter_cons_of_pos (by simpa using hn), List.lookup_cons, List.lookup_cons, ih]
      by_cases ho : other = first
      · simp [ho, hn]
      · have hne : (other == first) = false := by simpa using ho
        rw [hne]

/-- direct bases by class name; a name occurs at most once on the left -/
structure Hierarchy where
  bases : List (String × String) := []
deriving DecidableEq

namespace Hierarchy

def empty : Hierarchy := {}

/-- register `base` as the base of `derived`, in place of an earlier one -/
def addBase (h : Hierarchy) (derived base : String) : Hierarchy :=
  ⟨(derived, base) :: h.bases.filter fun entry => entry.1 != derived⟩

def base? (h : Hierarchy) (name : String) : Option String := h.bases.lookup name

/-- the classes above `name`, at most `n` steps up -/
def climb (h : Hierarchy) : Nat → String → List String
  | 0, _ => []
  | n + 1, name =>
    match h.base? name with
    | none => []
    | some base => base :: h.climb n base

def ancestors (h : Hierarchy) (name : String) : List String := h.climb h.bases.length name

/-- `base` is reached from `derived` in one or more steps -/
def derives (h : Hierarchy) (derived base : String) : Bool := (h.ancestors derived).contains base

/-! ## the walk up -/

/-- a walk in search of `base` that stands at a class and has seen some: it has found the base,
has come to a class without one, or goes on to a class that it has not seen yet -/
inductive Walk (h : Hierarchy) (base : String) : List String → String → Bool → Prop
  | top {seen : List String} {current : String} (hb : h.base? current = none) :
    Walk h base seen current false
  | found {seen : List String} {current : String} (hb : h.base? current = some base) :
    Walk h base seen current true
  | circle {seen : List String} {current next : String} (hb : h.base? current = some next)
    (hne : next ≠ base) (hseen : next ∈ seen) : Walk h base seen current false
  | up {seen : List String} {current next : String} {found : Bool}
    (hb : h.base? current = some next) (hne : next ≠ base) (hseen : next ∉ seen)
    (rest : Walk h base (next :: seen) next found) : Walk h base seen current found

/-- how many of the bases are of a class that a walk has not seen -/
def unseen (h : Hierarchy) (seen : List String) : Nat := h.bases.countP fun row => row.2 ∉ seen

variable {h : Hierarchy} {seen : List String} {current next : String}

/-- a base that is found stands in the table -/
theorem mem_bases_of_base? (hb : h.base? current = some next) : (current, next) ∈ h.bases := by
  obtain ⟨before, after, hbases, -⟩ := List.lookup_eq_some_iff.mp hb
  rw [hbases]
  exact List.mem_append_right _ List.mem_cons_self

/-- with every class that it goes on to, a walk has seen more of the bases -/
theorem unseen_cons_lt (hb : h.base? current = some next) (hseen : next ∉ seen) :
    h.unseen (next :: seen) < h.unseen seen := by
  obtain ⟨before, after, hbases⟩ := List.append_of_mem (mem_bases_of_base? hb)
  have hmono : ∀ rows : List (String × String),
      rows.countP (fun row => row.2 ∉ next :: seen) ≤ rows.countP fun row => row.2 ∉ seen := by
    intro rows
    refine List.countP_mono_left fun row _ hrow => ?_
    simp only [decide_eq_true_eq, List.mem_cons, not_or] at hrow ⊢
    exact hrow.2
  have hbefore := hmono before
  have hafter := hmono after
  unfold unseen
  rw [hbases, List.countP_append, List.countP_append, List.countP_cons_of_neg (by simp),
    List.countP_cons_of_pos (by simpa using hseen)]
  omega

theorem climb_of_none (hb : h.base? current = none) (n : Nat) : h.climb n current = [] := by
  cases n with
  | zero => rfl
  | succ n =>
    rw [climb]
    simp only [hb]

theorem climb_succ (hb : h.base? current = some next) (n : Nat) :
    h.climb (n + 1) current = next :: h.climb n next := by
  rw [climb]
  simp only [hb]

/-- from a class that has been seen, no steps lead out of those whose bases have all been seen -/
theorem climb_subset_of_closed
    (hclosed : ∀ name above, name ∈ seen → h.base? name = some above → above ∈ seen)
    (n : Nat) (hcurrent : current ∈ seen) : ∀ name ∈ h.climb n current, name ∈ seen := by
  induction n generalizing current with
  | zero => exact fun _ hname => absurd hname List.not_mem_nil
  | succ n ih =>
    cases hb : h.base? current with
    | none =>
      rw [climb_of_none hb]
      exact fun _ hname => absurd hname List.not_mem_nil
    | some next =>
      have hnext := hclosed current next hcurrent hb
      rw [climb_succ hb]
      intro name hname
      rcases List.mem_cons.mp hname with rfl | hname
      · exact hnext
      · exact ih hnext name hname

/-- of the classes that a walk has seen, only the one where it stands may have a base that it has
not seen -/
def Passed (h : Hierarchy) (seen : List String) (current : String) : Prop :=
  ∀ name above, name ∈ seen → h.base? name = some above → name = current ∨ above ∈ seen

theorem Passed.up (hp : h.Passed seen current) (hb : h.base? current = some next) :
    h.Passed (next :: seen) next := by
  intro name above hname habove
  rcases List.mem_cons.mp hname with e | hname
  · exact .inl e
  · rcases hp name above hname habove with rfl | hmem
    · rw [hb] at habove
      exact .inr (Option.some.inj habove ▸ List.mem_cons_self)
    · exact .inr (List.mem_cons_of_mem _ hmem)

/-- a walk that comes to a class that it has seen would not see another one -/
theorem Passed.climb_subset (hp : h.Passed seen current) (hb : h.base? current = some next)
    (hseen : next ∈ seen) (n : Nat) : ∀ name ∈ h.climb n current, name ∈ seen := by
  have hclosed : ∀ name above, name ∈ seen → h.base? name = some above → above ∈ seen := by
    intro name above hname habove
    rcases hp name above hname habove with rfl | hmem
    · rw [hb] at habove
      exact Option.some.inj habove ▸ hseen
    · exact hmem
  intro name hname
  cases n with
  | zero => exact absurd hname List.not_mem_nil
  | succ n =>
    rw [climb_succ hb] at hname
    rcases List.mem_cons.mp hname with rfl | hname
    · exact hseen
    · exact climb_subset_of_closed hclosed n hseen name hname

/-- as many steps as there are bases that it has not seen find what a walk finds -/
theorem walk_climb {base : String} {n : Nat} (hn : h.unseen seen ≤ n) (hbase : base ∉ seen)
    (hp : h.Passed seen current) :
    Walk h base seen current ((h.climb n current).contains base) := by
  induction n using Nat.strongRecOn generalizing seen current with
  | ind n ih =>
    cases hb : h.base? current with
    | none =>
      rw [climb_of_none hb]
      exact .top hb
    | some next =>
      by_cases hseen : next ∈ seen
      · have hnot : (h.climb n current).contains base = false := by
          rw [← Bool.not_eq_true, List.contains_iff_mem]
          exact fun hmem => hbase (hp.climb_subset hb hseen n base hmem)
        rw [hnot]
        exact .circle hb (fun e => hbase (e ▸ hseen)) hseen
      · have hless := unseen_cons_lt hb hseen
        cases n with
        | zero => omega
        | succ n =>
          rw [climb_succ hb, List.contains_cons]
          by_cases hfound : next = base
          · rw [hfound, beq_self_eq_true, Bool.true_or]
            exact .found (hfound ▸ hb)
          · have hne : (base == next) = false := by simpa using Ne.symm hfound
            have hbase' : base ∉ next :: seen := by simpa [Ne.symm hfound] using hbase
            rw [hne, Bool.false_or]
            exact .up hb hfound hseen (ih n (Nat.lt_succ_self n) (by omega) hbase' (hp.up hb))

/-- **The walk from a class finds what `derives` says.** -/
theorem walk_derives (h : Hierarchy) (derived base : String) :
    Walk h base [] derived (h.derives derived base) := by
  refine walk_climb ?_ List.not_mem_nil fun _ _ hname => absurd hname List.not_mem_nil
  exact List.countP_le_length

/-! ## types -/

/-- a value of type `source` may be used where `target` is asked for -/
def assignable (h : Hierarchy) (source target : CilType) : Bool :=
  source == target || target.isUnknown ||
    match source, target with
    | .null, t => t.isReference
    | s, .object => s.isReference
    | .classType derived, .classType base => h.derives derived base
    | .array s, .array t => s.isReference && t.isReference && h.assignable s t
    | s, .i4 => s.widened == .i4
    | _, _ => false

/-- the more general of two types, `unknown` if neither is; where either would do, the first -/
def join (h : Hierarchy) (held arriving : CilType) : CilType :=
  if held = arriving then held
  else if held.isUnknown || arriving.isUnknown then .unknown
  else if h.assignable arriving held then held
  else if h.assignable held arriving then arriving
  else .unknown

theorem base?_addBase (h : Hierarchy) (derived base name : String) :
    (h.addBase derived base).base? name = if name = derived then some base else h.base? name := by
  unfold addBase base?
  by_cases e : name = derived
  · simp [e]
  · have hne : (name == derived) = false := by simpa using e
    rw [List.lookup_cons, hne, if_neg e]
    exact (lookup_filter_ne h.bases derived name).trans (if_neg e)

theorem assignable_self (h : Hierarchy) (t : CilType) : h.assignable t t = true := by
  unfold assignable
  simp

theorem assignable_unknown (h : Hierarchy) (t : CilType) : h.assignable t .unknown = true := by
  unfold assignable
  simp [CilType.isUnknown]

theorem join_self (h : Hierarchy) (t : CilType) : h.join t t = t := by
  simp [join]

/-- a join is one of the two types or says nothing -/
theorem join_eq_or (h : Hierarchy) (a b : CilType) :
    h.join a b = a ∨ h.join a b = b ∨ h.join a b = .unknown := by
  unfold join
  split
  · exact .inl rfl
  · split
    · exact .inr (.inr rfl)
    · split
      · exact .inl rfl
      · split
        · exact .inr (.inl rfl)
        · exact .inr (.inr rfl)

end Hierarchy

end CilPatch
