import CilPatch.Proofs.Patching.Isolation

/-!
# The patches of a run, one by one

With one patch a run does one of three things (`offer_cases`): it holds the patch back, it counts a
failure against the owner, or it goes on with the edited body.

`Registry.reached` is the state in which a run comes to its `k`-th patch.  The outcomes so far are
the first `k` of the report (`outcomes_reached`), and what every offer keeps holds in all of these
states (`reached_induction`).
-/

namespace CilPatch

def Patch.outcome (p : Patch) (status : Status) (warnings : List Warning) : Outcome :=
  { owner := p.owner, anchor := p.anchor, priority := p.priority, status, warnings }

namespace Registry

variable {target : String} {body : Body} {signature : Option Signature} {s : RunState} {p : Patch}

/-! ## one patch -/

/-- quarantine comes before all other reasons -/
theorem heldBack?_of_isQuarantined {r : Registry} (h : r.isQuarantined p.owner = true)
    (applied : List String) : r.heldBack? applied p = some .quarantined := by
  unfold heldBack?
  rw [if_pos h]

theorem not_isQuarantined_of_heldBack? {r : Registry} {applied : List String}
    (h : r.heldBack? applied p = none) : r.isQuarantined p.owner = false := by
  rw [← Bool.not_eq_true]
  intro hq
  rw [heldBack?_of_isQuarantined hq] at h
  cases h

theorem offer_of_heldBack? (target : String) (signature : Option Signature) {status : Status}
    (h : s.registry.heldBack? s.applied p = some status) :
    offer target signature s p = { s with outcomes := s.outcomes ++ [p.outcome status []] } := by
  unfold offer
  rw [h]
  rfl

/-- what a run makes of one patch: it holds it back, it counts a failure, or it applies it -/
theorem offer_cases (target : String) (signature : Option Signature) (s : RunState) (p : Patch) :
    (∃ status, s.registry.heldBack? s.applied p = some status ∧
      offer target signature s p = { s with outcomes := s.outcomes ++ [p.outcome status []] }) ∨
    (∃ cause warnings, s.registry.heldBack? s.applied p = none ∧
      s.registry.attempt signature s.baseline p = (.error cause, warnings) ∧
      offer target signature s p = { s with
        registry := s.registry.countFailure p.owner
        outcomes := s.outcomes ++ [p.outcome (.failed cause.message) warnings] }) ∨
    (∃ edited warnings, s.registry.heldBack? s.applied p = none ∧
      s.registry.attempt signature s.baseline p = (.ok edited, warnings) ∧
      offer target signature s p =
        { registry := (s.registry.countSuccess p.owner).remember
            (appliedEdit target p s.baseline edited warnings)
          baseline := edited
          applied := s.applied ++ [p.anchor]
          outcomes := s.outcomes ++ [p.outcome .applied warnings] }) := by
  cases hheld : s.registry.heldBack? s.applied p with
  | some status => exact .inl ⟨status, rfl, offer_of_heldBack? target signature hheld⟩
  | none =>
    refine .inr ?_
    unfold offer
    rw [hheld]
    cases hattempt : s.registry.attempt signature s.baseline p with
    | mk result warnings =>
      cases result with
      | error cause => exact .inl ⟨cause, warnings, rfl, rfl, rfl⟩
      | ok edited => exact .inr ⟨edited, warnings, rfl, rfl, rfl⟩

/-- to run a patch changes neither the settings nor the hierarchy -/
theorem offer_fixed (target : String) (signature : Option Signature) (s : RunState) (p : Patch) :
    (offer target signature s p).registry.settings = s.registry.settings ∧
      (offer target signature s p).registry.hierarchy = s.registry.hierarchy := by
  obtain ⟨status, -, he⟩ | ⟨cause, warnings, -, -, he⟩ | ⟨edited, warnings, -, -, he⟩ :=
    offer_cases target signature s p
  · rw [he]
    exact ⟨rfl, rfl⟩
  · obtain ⟨owners, ho⟩ := s.registry.countFailure_eq p.owner
    rw [he, ho]
    exact ⟨rfl, rfl⟩
  · obtain ⟨edits, hr⟩ := (s.registry.countSuccess p.owner).remember_eq
      (appliedEdit target p s.baseline edited warnings)
    rw [he, hr]
    exact ⟨rfl, rfl⟩

theorem foldl_offer_outcomes (target : String) (signature : Option Signature) (s : RunState)
    (ps : List Patch) :
    ∃ os : List Outcome, os.length = ps.length ∧
      (ps.foldl (offer target signature) s).outcomes = s.outcomes ++ os := by
  induction ps generalizing s with
  | nil => exact ⟨[], rfl, (List.append_nil _).symm⟩
  | cons p ps ih =>
    obtain ⟨o, ho, -, -⟩ := offer_outcomes target signature s p
    obtain ⟨os, hl, hos⟩ := ih (offer target signature s p)
    refine ⟨o :: os, by rw [List.length_cons, List.length_cons, hl], ?_⟩
    rw [List.foldl_cons, hos, ho, List.append_assoc]
    rfl

/-! ## the states of a run -/

/-- the state in which a run comes to its `k`-th patch, and the last state from the end on -/
def reached (r : Registry) (target : String) (body : Body) (signature : Option Signature)
    (k : Nat) : RunState :=
  ((r.patches target).take k).foldl (offer target signature) (r.startOf body)

variable {r : Registry} {k : Nat}

theorem reached_succ (hp : (r.patches target)[k]? = some p) :
    r.reached target body signature (k + 1)
      = offer target signature (r.reached target body signature k) p := by
  unfold reached
  rw [List.take_add_one, hp, Option.toList_some, List.foldl_append]
  rfl

theorem reached_of_le (h : (r.patches target).length ≤ k) :
    r.reached target body signature k
      = r.reached target body signature (r.patches target).length := by
  unfold reached
  rw [List.take_of_length_le h, List.take_length]

/-- the end of a run is the last of its states -/
theorem run_eq_reached (r : Registry) (target : String) (body : Body)
    (signature : Option Signature) :
    let s := r.reached target body signature (r.patches target).length
    r.run target body signature = (⟨target, s.baseline, s.outcomes⟩, s.registry) := by
  unfold reached
  rw [List.take_length]
  rfl

/-- from any of its states on, a run goes through the remaining patches -/
theorem foldl_drop_reached (r : Registry) (target : String) (body : Body)
    (signature : Option Signature) (k : Nat) :
    ((r.patches target).drop k).foldl (offer target signature) (r.reached target body signature k)
      = r.reached target body signature (r.patches target).length := by
  unfold reached
  rw [← List.foldl_append, List.take_append_drop, List.take_length]

theorem reached_induction {motive : RunState → Prop} (start : motive (r.startOf body))
    (offer : ∀ s, ∀ p ∈ r.patches target, motive s → motive (offer target signature s p))
    (k : Nat) : motive (r.reached target body signature k) := by
  induction k with
  | zero => exact start
  | succ k ih =>
    cases hp : (r.patches target)[k]? with
    | some p =>
      rw [reached_succ hp]
      exact offer _ p (List.mem_of_getElem? hp) ih
    | none =>
      have hk := List.getElem?_eq_none_iff.mp hp
      rw [reached_of_le (Nat.le_succ_of_le hk), ← reached_of_le hk]
      exact ih

theorem reached_fixed (r : Registry) (target : String) (body : Body)
    (signature : Option Signature) (k : Nat) :
    (r.reached target body signature k).registry.settings = r.settings ∧
      (r.reached target body signature k).registry.hierarchy = r.hierarchy := by
  refine reached_induction (motive := fun s => s.registry.settings = r.settings ∧
    s.registry.hierarchy = r.hierarchy) ⟨rfl, rfl⟩ (fun s p _ ih => ?_) k
  obtain ⟨hs, hh⟩ := offer_fixed target signature s p
  exact ⟨hs.trans ih.1, hh.trans ih.2⟩

/-- the `k`-th state has the outcomes of the first `k` patches -/
theorem outcomes_reached (r : Registry) (target : String) (body : Body)
    (signature : Option Signature) (k : Nat) :
    (r.reached target body signature k).outcomes
      = (r.run target body signature).1.outcomes.take k := by
  obtain ⟨os, hos, hfirst⟩ :=
    foldl_offer_outcomes target signature (r.startOf body) ((r.patches target).take k)
  obtain ⟨more, hmore, hlast⟩ := foldl_offer_outcomes target signature
    (r.reached target body signature k) ((r.patches target).drop k)
  have hreached : (r.reached target body signature k).outcomes = os := hfirst
  have hrun : (r.run target body signature).1.outcomes = os ++ more := by
    rw [foldl_drop_reached, hreached] at hlast
    rw [run_eq_reached, ← hlast]
  rw [List.length_take] at hos
  rw [List.length_drop] at hmore
  rw [hreached, hrun]
  rcases Nat.le_total k (r.patches target).length with hk | hk
  · rw [List.take_left' (by omega)]
  · have hnil : more = [] := List.length_eq_zero_iff.mp (by omega)
    rw [hnil, List.append_nil, List.take_of_length_le (by omega)]

/-- the `k`-th outcome of the report is what the offer of the `k`-th patch adds -/
theorem outcome_at {o : Outcome} (hp : (r.patches target)[k]? = some p)
    (ho : (offer target signature (r.reached target body signature k) p).outcomes
      = (r.reached target body signature k).outcomes ++ [o]) :
    (r.run target body signature).1.outcomes[k]? = some o := by
  rw [← reached_succ hp, outcomes_reached, outcomes_reached, List.take_add_one] at ho
  cases hk : (r.run target body signature).1.outcomes[k]? with
  | none =>
    rw [hk] at ho
    exact absurd (List.append_cancel_left ho) (by simp)
  | some o' =>
    rw [hk] at ho
    exact congrArg some (List.cons.inj (List.append_cancel_left ho)).1

end Registry

end CilPatch
