import CilPatch.Proofs.Cursor.Builds
import CilPatch.Proofs.Patching.Offers

/-!
# What a validating run hands out

A patch that is run is applied just when its edit is done and the build passes: the warnings, if
they count, and the verification of the edited body, if the settings ask for it (`attempt_ok_iff`).
All bodies of a run are verified in the same way, as an edit that only uses operations of its cursor
cannot change how.

So in a validating run that starts from a body that verifies, every baseline verifies, and in
particular the last one, which is handed out (`applied_iff_passes`).
-/

namespace CilPatch

/-- if the edit is done, all that it did were operations of the cursor; it may look at the cursor to
choose them -/
def Edit.UsesOperations (e : Edit) : Prop :=
  ∀ c, (e c).2 = .done → ∃ ks, (e c).1 = Command.runAll ks c

theorem Script.edit_usesOperations (steps : List ScriptStep) :
    (Script.edit steps).UsesOperations := by
  induction steps with
  | nil =>
    intro c _
    exact ⟨[], rfl⟩
  | cons step steps ih =>
    intro c hdone
    cases step with
    | command k =>
      obtain ⟨ks, hks⟩ := ih (k.run c) hdone
      exact ⟨k :: ks, hks⟩
    | fail cause => cases hdone
    | crash message => cases hdone

/-- to verify the body gives no error -/
def Verifier.Accepts (v : Verifier) (body : Body) : Prop := ∃ verdict, v.verify body = .ok verdict

instance (v : Verifier) (body : Body) : Decidable (v.Accepts body) :=
  match h : v.verify body with
  | .ok verdict => .isTrue ⟨verdict, h⟩
  | .error _ => .isFalse fun ⟨_, h'⟩ => nomatch h.symm.trans h'

namespace Registry

variable {r : Registry} {target : String} {body : Body} {signature : Option Signature}
  {s : RunState} {p : Patch}

/-! ## one patch -/

/-- what the edit of a patch makes of a body, and how it ends -/
def trial (r : Registry) (signature : Option Signature) (baseline : Body) (p : Patch) :
    Cursor × Ending :=
  p.edit (.ofBody baseline (r.verifier signature))

/-- the edit of a patch is done, there are no warnings if they count, and what it has made of a body
verifies if bodies are verified -/
structure Passes (r : Registry) (signature : Option Signature) (baseline : Body) (p : Patch) :
    Prop where
  done : (r.trial signature baseline p).2 = .done
  /-- the patch may say itself whether warnings count -/
  silent : p.strict.getD r.settings.strict = true → (r.trial signature baseline p).1.warnings = []
  verified : r.settings.validate = true →
    (r.verifier signature).Accepts (r.trial signature baseline p).1.body

/-- an edit that only uses operations is verified in the way of the registry -/
theorem verifier_trial (hp : p.edit.UsesOperations) {baseline : Body}
    (hdone : (r.trial signature baseline p).2 = .done) :
    (r.trial signature baseline p).1.verifier = r.verifier signature := by
  obtain ⟨ks, hks⟩ := hp _ hdone
  have hcursor : (r.trial signature baseline p).1
      = Command.runAll ks (.ofBody baseline (r.verifier signature)) := hks
  rw [hcursor, Command.verifier_runAll]
  rfl

/-- an attempt succeeds just when the patch passes, and gives the edited body -/
theorem attempt_ok_iff (hp : p.edit.UsesOperations) {baseline edited : Body} :
    (r.attempt signature baseline p).1 = .ok edited ↔
      r.Passes signature baseline p ∧ (r.trial signature baseline p).1.body = edited := by
  have hnot : (r.trial signature baseline p).2 ≠ .done → ¬r.Passes signature baseline p := by
    intro hend h
    exact hend h.done
  have hverify : (r.trial signature baseline p).2 = .done →
      ((∃ verdict, (r.trial signature baseline p).1.verify = .ok verdict) ↔
        (r.verifier signature).Accepts (r.trial signature baseline p).1.body) := by
    intro hend
    unfold Cursor.verify Verifier.Accepts
    rw [verifier_trial hp hend]
  have htrial : p.edit (.ofBody baseline (r.verifier signature)) = r.trial signature baseline p :=
    rfl
  unfold attempt
  rw [htrial]
  cases hend : (r.trial signature baseline p).2 with
  | failed cause => simp [hnot, hend]
  | crashed message => simp [hnot, hend]
  | done =>
    simp only [hend]
    rw [Cursor.build_ok_iff, hverify hend]
    constructor
    · rintro ⟨hsilent, hverified, hbody⟩
      exact ⟨⟨hend, hsilent, hverified⟩, hbody⟩
    · rintro ⟨h, hbody⟩
      exact ⟨h.silent, h.verified, hbody⟩

/-- it only matters what the registry verifies, and how -/
theorem attempt_congr {r' : Registry} (hs : r'.settings = r.settings)
    (hh : r'.hierarchy = r.hierarchy) (baseline : Body) (p : Patch) :
    r'.attempt signature baseline p = r.attempt signature baseline p := by
  unfold attempt verifier
  rw [hs, hh]

/-! ## the baseline -/

/-- a patch that is not applied leaves the baseline -/
theorem offer_baseline {o : Outcome}
    (ho : (offer target signature s p).outcomes = s.outcomes ++ [o]) (hst : o.status ≠ .applied) :
    (offer target signature s p).baseline = s.baseline := by
  obtain ⟨status, -, he⟩ | ⟨cause, warnings, -, -, he⟩ | ⟨edited, warnings, -, -, he⟩ :=
    offer_cases target signature s p
  · rw [he]
  · rw [he]
  · rw [he] at ho
    obtain rfl : p.outcome .applied warnings = o := (List.cons.inj (List.append_cancel_left ho)).1
    exact absurd rfl hst

theorem foldl_offer_baseline {ps : List Patch} {os : List Outcome}
    (hos : (ps.foldl (offer target signature) s).outcomes = s.outcomes ++ os)
    (hst : ∀ o ∈ os, o.status ≠ .applied) :
    (ps.foldl (offer target signature) s).baseline = s.baseline := by
  induction ps generalizing s os with
  | nil => rfl
  | cons p ps ih =>
    obtain ⟨o, ho, -, -⟩ := offer_outcomes target signature s p
    obtain ⟨more, -, hmore⟩ := foldl_offer_outcomes target signature (offer target signature s p) ps
    have hcons : os = o :: more := by
      rw [List.foldl_cons, hmore, ho, List.append_assoc] at hos
      exact (List.append_cancel_left hos).symm
    subst hcons
    have hrest := ih hmore fun o ho => hst o (List.mem_cons_of_mem _ ho)
    rw [List.foldl_cons, hrest]
    exact offer_baseline ho (hst o List.mem_cons_self)

/-! ## runs -/

theorem attempt_reached (r : Registry) (target : String) (body : Body)
    (signature : Option Signature) (k : Nat) (baseline : Body) (p : Patch) :
    (r.reached target body signature k).registry.attempt signature baseline p
      = r.attempt signature baseline p := by
  obtain ⟨hs, hh⟩ := reached_fixed r target body signature k
  exact attempt_congr hs hh baseline p

/-- what a run makes of one patch: an outcome, and the next baseline -/
theorem reached_cases (body : Body) (signature : Option Signature) (hops : p.edit.UsesOperations)
    {k : Nat} (hp : (r.patches target)[k]? = some p) :
    let baseline := (r.reached target body signature k).baseline
    let next := (r.reached target body signature (k + 1)).baseline
    ∃ status warnings,
      (r.run target body signature).1.outcomes[k]? = some (p.outcome status warnings) ∧
      (status.isSkipped = true ∧ next = baseline ∨
        status = .applied ∧ r.Passes signature baseline p ∧
          next = (r.trial signature baseline p).1.body ∨
        (∃ message, status = .failed message) ∧ ¬r.Passes signature baseline p ∧
          next = baseline) := by
  intro baseline next
  have hnext : next = (offer target signature (r.reached target body signature k) p).baseline := by
    show (r.reached target body signature (k + 1)).baseline = _
    rw [reached_succ hp]
  obtain ⟨status, hheld, he⟩ | ⟨cause, warnings, -, hattempt, he⟩ |
    ⟨edited, warnings, -, hattempt, he⟩ :=
    offer_cases target signature (r.reached target body signature k) p
  · have ho := outcome_at hp (by rw [he])
    rw [he] at hnext
    exact ⟨status, [], ho, .inl ⟨isSkipped_of_heldBack? hheld, hnext⟩⟩
  · rw [attempt_reached] at hattempt
    have hnot : ¬r.Passes signature baseline p := by
      intro h
      have hok := (attempt_ok_iff hops).mpr ⟨h, rfl⟩
      rw [hattempt] at hok
      cases hok
    have ho := outcome_at hp (by rw [he])
    rw [he] at hnext
    exact ⟨_, warnings, ho, .inr (.inr ⟨⟨_, rfl⟩, hnot, hnext⟩)⟩
  · rw [attempt_reached] at hattempt
    have hok : (r.attempt signature baseline p).1 = .ok edited := by rw [hattempt]
    obtain ⟨hpasses, hbody⟩ := (attempt_ok_iff hops).mp hok
    have ho := outcome_at hp (by rw [he])
    rw [he] at hnext
    exact ⟨.applied, warnings, ho, .inr (.inl ⟨rfl, hpasses, hnext.trans hbody.symm⟩)⟩

/-- if nothing is applied from the `k`-th patch on, the `k`-th baseline is handed out -/
theorem body_eq_baseline {k : Nat}
    (h : ∀ o ∈ (r.run target body signature).1.outcomes.drop k, o.status ≠ .applied) :
    (r.run target body signature).1.body = (r.reached target body signature k).baseline := by
  have hall : (r.reached target body signature (r.patches target).length).outcomes
      = (r.reached target body signature k).outcomes
        ++ (r.run target body signature).1.outcomes.drop k := by
    rw [outcomes_reached r target body signature k, List.take_append_drop, run_eq_reached]
  rw [← foldl_drop_reached r target body signature k] at hall
  have hlast := foldl_offer_baseline hall h
  rw [foldl_drop_reached] at hlast
  rw [run_eq_reached]
  exact hlast

/-- if bodies are verified, every baseline is -/
theorem accepts_baseline (hops : ∀ p ∈ r.patches target, p.edit.UsesOperations)
    (hv : r.settings.validate = true) (hbody : (r.verifier signature).Accepts body) (k : Nat) :
    (r.verifier signature).Accepts (r.reached target body signature k).baseline := by
  induction k with
  | zero => exact hbody
  | succ k ih =>
    cases hp : (r.patches target)[k]? with
    | none =>
      have hk := List.getElem?_eq_none_iff.mp hp
      rw [reached_of_le (Nat.le_succ_of_le hk), ← reached_of_le hk]
      exact ih
    | some p =>
      have hp' := hops p (List.mem_of_getElem? hp)
      obtain ⟨status, warnings, -, ⟨-, hnext⟩ | ⟨-, hpasses, hnext⟩ | ⟨-, -, hnext⟩⟩ :=
        reached_cases body signature hp' hp
      · rw [hnext]
        exact ih
      · rw [hnext]
        exact hpasses.verified hv
      · rw [hnext]
        exact ih

/-- **What a validating run hands out has been verified.**  A patch that is not skipped is applied
just when its edit is done and what it has made passes the checks that are in force; otherwise it
fails.  Handed out is what the last applied patch has made of the baseline, or the body itself if
there is none, and so if bodies are verified and the first one is accepted then the last one is,
whatever the patches do to their cursors. -/
theorem applied_iff_passes (r : Registry) (target : String) (body : Body)
    (signature : Option Signature) (hops : ∀ p ∈ r.patches target, p.edit.UsesOperations) :
    let rep := (r.run target body signature).1
    let baseline (k : Nat) : Body := (r.reached target body signature k).baseline
    (∀ k p, (r.patches target)[k]? = some p → ∃ status warnings,
      rep.outcomes[k]? = some (p.outcome status warnings) ∧
      (status.isSkipped = false →
        (status = .applied ↔ r.Passes signature (baseline k) p) ∧
        (status = .applied ∨ ∃ message, status = .failed message))) ∧
    ((∀ o ∈ rep.outcomes, o.status ≠ .applied) → rep.body = body) ∧
    (∀ k p o, (r.patches target)[k]? = some p → rep.outcomes[k]? = some o →
      o.status = .applied → (∀ later ∈ rep.outcomes.drop (k + 1), later.status ≠ .applied) →
      rep.body = (r.trial signature (baseline k) p).1.body) ∧
    (r.settings.validate = true → (r.verifier signature).Accepts body →
      (r.verifier signature).Accepts rep.body) := by
  intro rep baseline
  refine ⟨?_, ?_, ?_, ?_⟩
  · intro k p hp
    obtain ⟨status, warnings, ho, hcases⟩ :=
      reached_cases body signature (hops p (List.mem_of_getElem? hp)) hp
    refine ⟨status, warnings, ho, fun hrun => ?_⟩
    obtain ⟨hskipped, -⟩ | ⟨rfl, hpasses, -⟩ | ⟨⟨message, rfl⟩, hnot, -⟩ := hcases
    · rw [hskipped] at hrun
      cases hrun
    · exact ⟨iff_of_true rfl hpasses, .inl rfl⟩
    · have hne : Status.failed message ≠ .applied := by simp
      exact ⟨iff_of_false hne hnot, .inr ⟨message, rfl⟩⟩
  · intro hnone
    exact body_eq_baseline (k := 0) hnone
  · intro k p o hp ho hst hlater
    obtain ⟨status, warnings, ho', hcases⟩ :=
      reached_cases body signature (hops p (List.mem_of_getElem? hp)) hp
    have hstatus : status = .applied := by
      obtain rfl : o = p.outcome status warnings := Option.some.inj (ho.symm.trans ho')
      exact hst
    subst hstatus
    obtain ⟨hskipped, -⟩ | ⟨-, -, hnext⟩ | ⟨⟨message, hfailed⟩, -⟩ := hcases
    · cases hskipped
    · have hlast := body_eq_baseline hlater
      exact hlast.trans hnext
    · cases hfailed
  · intro hv hbody
    show (r.verifier signature).Accepts (r.run target body signature).1.body
    rw [run_eq_reached]
    exact accepts_baseline hops hv hbody _

/-- the first patch takes a value from an empty stack, the second one does nothing -/
def guarded : Registry :=
  registerAll { settings := .default } "Game::Tick"
    [{ owner := "clock", anchor := "drop", edit := Script.edit
        [.command (.insertBefore [{ opcode := .pop }])] },
     { owner := "log", anchor := "pad", edit := Script.edit
        [.command (.insertBefore [{ opcode := .nop }])] }]

/-- the first patch is not applied, and what is handed out verifies -/
theorem applied_iff_passes_guarded :
    let rep := (guarded.run "Game::Tick" (.ofCode [{ opcode := .ret }]) none).1
    (∀ o, rep.outcomes[0]? = some o → o.status ≠ .applied) ∧
      (guarded.verifier none).Accepts rep.body := by
  intro rep
  have hpatches : guarded.patches "Game::Tick" = guarded.registered "Game::Tick" :=
    patches_of_pairwise (by decide)
  have hops : ∀ p ∈ guarded.patches "Game::Tick", p.edit.UsesOperations := by
    intro p hp
    rw [hpatches] at hp
    rcases List.mem_cons.mp hp with rfl | hp
    · exact Script.edit_usesOperations _
    · rcases List.mem_cons.mp hp with rfl | hp
      · exact Script.edit_usesOperations _
      · cases hp
  have hbody : (guarded.verifier none).Accepts (.ofCode [{ opcode := .ret }]) := by decide +kernel
  have hdrop : ¬(guarded.verifier none).Accepts
      (.ofCode [{ opcode := .pop }, { opcode := .ret }]) := by decide +kernel
  obtain ⟨h, -, -, hlast⟩ :=
    applied_iff_passes guarded "Game::Tick" (.ofCode [{ opcode := .ret }]) none hops
  refine ⟨?_, hlast rfl hbody⟩
  intro o ho hst
  obtain ⟨status, warnings, ho', hchecked⟩ := h 0 _ (by rw [hpatches]; rfl)
  obtain rfl : o = _ := Option.some.inj (ho.symm.trans ho')
  have hstatus : status = .applied := hst
  subst hstatus
  have hpasses := (hchecked rfl).1.mp rfl
  exact hdrop (hpasses.verified rfl)

end Registry

end CilPatch
