import CilPatch.Proofs.Patching.Offers
import CilPatch.Proofs.Patching.Sessions

/-!
# Owners in quarantine

What a registry holds against an owner is what the log of its session says (`Registry.Follows`):
the tally counts the failures since the owner was last forgiven, and the owner is in quarantine when
there are as many as the settings allow.  There are never more, as no patch of an owner in
quarantine is run.

One patch of a run keeps the registry in step with the log (`Follows.offer`), and so does every
operation (`Follows.perform`).
-/

namespace CilPatch

theorem Outcome.event?_of_isSkipped {o : Outcome} (h : o.status.isSkipped = true) :
    o.event? = none := by
  unfold event?
  cases hst : o.status with
  | applied | failed =>
    rw [hst] at h
    cases h
  | quarantined | missing | conflict => rfl

namespace Event

variable {owner : String} {log : List Event} {e : Event}

theorem failuresOf_append_forgives (h : e.forgives owner = true) :
    failuresOf owner (log ++ [e]) = 0 := by
  unfold failuresOf
  rw [List.rtakeWhile_concat_neg _ _ _ (by simp [h])]
  rfl

theorem failuresOf_append_failed (owner : String) (log : List Event) :
    failuresOf owner (log ++ [.failed owner]) = failuresOf owner log + 1 := by
  unfold failuresOf
  rw [List.rtakeWhile_concat_pos _ _ _ (by rfl), List.count_append]
  simp

/-- what concerns others only changes nothing -/
theorem failuresOf_append_other (hf : e.forgives owner = false) (hne : e ≠ .failed owner) :
    failuresOf owner (log ++ [e]) = failuresOf owner log := by
  unfold failuresOf
  rw [List.rtakeWhile_concat_pos _ _ _ (by simp [hf]), List.count_append]
  simp [hne]

example :
    failuresOf "clock" [.failed "clock", .applied "clock", .failed "clock", .pardoned "log"]
      = 1 := by decide

end Event

namespace Registry

variable {r r' : Registry} {owner other : String} {n : Nat}

/-! ## one owner -/

/-- the registry holds `n` failures against the owner -/
structure Holds (r : Registry) (owner : String) (n : Nat) : Prop where
  counted : r.failureCount owner = n
  quarantined : r.isQuarantined owner = true ↔
    0 < r.settings.quarantineThreshold ∧ r.settings.quarantineThreshold ≤ n
  bounded : 0 < r.settings.quarantineThreshold → n ≤ r.settings.quarantineThreshold

theorem Holds.none (hc : r.failureCount owner = 0) (hq : r.isQuarantined owner = false) :
    Holds r owner 0 where
  counted := hc
  quarantined := by
    rw [hq, Bool.false_eq_true, false_iff]
    omega
  bounded _ := Nat.zero_le _

theorem Holds.congr (h : Holds r owner n) (hs : r'.settings = r.settings)
    (hc : r'.failureCount owner = r.failureCount owner)
    (hq : r'.isQuarantined owner = r.isQuarantined owner) : Holds r' owner n where
  counted := by rw [hc, h.counted]
  quarantined := by rw [hq, hs, h.quarantined]
  bounded := by
    rw [hs]
    exact h.bounded

theorem settings_countFailure (r : Registry) (owner : String) :
    (r.countFailure owner).settings = r.settings := by
  obtain ⟨owners, ho⟩ := r.countFailure_eq owner
  rw [ho]

theorem failureCount_countFailure (r : Registry) (owner other : String) :
    (r.countFailure owner).failureCount other
      = if other = owner then r.failureCount owner + 1 else r.failureCount other := by
  obtain ⟨owners, ho⟩ := r.countFailure_eq owner
  rw [ho]
  exact Tally.count_increment r.tally owner other

theorem isQuarantined_countFailure (r : Registry) (owner other : String) :
    (r.countFailure owner).isQuarantined other = true ↔ r.isQuarantined other = true ∨
      other = owner ∧ r.settings.quarantinesAfter (r.failureCount owner + 1) = true := by
  have hcount : (r.tally.increment owner).count owner = r.failureCount owner + 1 := by
    rw [Tally.count_increment, if_pos rfl]
    rfl
  rw [← hcount]
  unfold countFailure
  dsimp only
  split
  next h =>
    obtain ⟨hafter, -⟩ := Bool.and_eq_true_iff.mp h
    have hafter' : r.settings.quarantinesAfter ((r.tally.increment owner).count owner) = true :=
      hafter
    simp [isQuarantined, hafter']
  next h =>
    show r.isQuarantined other = true ↔ _
    constructor
    · exact .inl
    · rintro (hq | ⟨rfl, hafter⟩)
      · exact hq
      · -- it is time for quarantine and there is no new one, so there is one already
        by_contra hq
        apply h
        have hfree : (!r.isQuarantined other) = true := by simpa using hq
        exact Bool.and_eq_true_iff.mpr ⟨hafter, hfree⟩

/-- one more failure, which may put the owner into quarantine -/
theorem Holds.fail (h : Holds r owner n) (hfree : r.isQuarantined owner = false) :
    Holds (r.countFailure owner) owner (n + 1) := by
  have hless : 0 < r.settings.quarantineThreshold → n < r.settings.quarantineThreshold := by
    intro ht
    by_contra hn
    have hq : r.isQuarantined owner = true := h.quarantined.mpr ⟨ht, by omega⟩
    rw [hq] at hfree
    cases hfree
  refine ⟨?_, ?_, ?_⟩
  · rw [failureCount_countFailure, if_pos rfl, h.counted]
  · rw [isQuarantined_countFailure, settings_countFailure, hfree, h.counted]
    simp only [Settings.quarantinesAfter, Bool.and_eq_true, bne_iff_ne, decide_eq_true_eq]
    constructor
    · rintro (hq | ⟨-, ht, hn⟩)
      · cases hq
      · exact ⟨by omega, hn⟩
    · rintro ⟨ht, hn⟩
      exact .inr ⟨trivial, by omega, hn⟩
  · rw [settings_countFailure]
    intro ht
    exact hless ht

theorem Holds.fail_other (h : Holds r other n) (hne : other ≠ owner) :
    Holds (r.countFailure owner) other n := by
  apply h.congr (r.settings_countFailure owner)
  · rw [failureCount_countFailure, if_neg hne]
  · rw [Bool.eq_iff_iff, isQuarantined_countFailure]
    simp [hne]

/-! ## all owners -/

/-- what the registry holds against owners is what the log says -/
structure Follows (settings : Settings) (r : Registry) (log : List Event) : Prop where
  fixed : r.settings = settings
  holds (owner : String) : Holds r owner (Event.failuresOf owner log)

namespace Follows

variable {settings : Settings} {log : List Event}

/-- where failures count at all, to be in quarantine is to have reached the threshold -/
theorem isQuarantined_iff (h : Follows settings r log) (ht : 0 < settings.quarantineThreshold) :
    r.isQuarantined owner = true ↔
      settings.quarantineThreshold ≤ Event.failuresOf owner log := by
  rw [(h.holds owner).quarantined, h.fixed]
  exact and_iff_right ht

theorem new (settings : Settings) (hierarchy : Hierarchy) :
    Follows settings { settings, hierarchy } [] :=
  ⟨rfl, fun _ => Holds.none rfl rfl⟩

/-- what touches neither the settings nor what is known of owners changes nothing -/
theorem congr (h : Follows settings r log) (hs : r'.settings = r.settings)
    (ht : r'.tally = r.tally) (hq : r'.quarantined = r.quarantined) : Follows settings r' log := by
  refine ⟨hs.trans h.fixed, fun owner => (h.holds owner).congr hs ?_ ?_⟩
  · unfold failureCount
    rw [ht]
  · unfold isQuarantined
    rw [hq]

theorem fail (h : Follows settings r log) (hfree : r.isQuarantined owner = false) :
    Follows settings (r.countFailure owner) (log ++ [.failed owner]) := by
  refine ⟨?_, fun other => ?_⟩
  · rw [settings_countFailure]
    exact h.fixed
  · by_cases ho : other = owner
    · rw [ho, Event.failuresOf_append_failed]
      exact (h.holds owner).fail hfree
    · have hne : Event.failed owner ≠ .failed other := by
        intro he
        exact ho (Event.failed.inj he).symm
      rw [Event.failuresOf_append_other rfl hne]
      exact (h.holds other).fail_other ho

/-- the owner is forgiven and out of quarantine, and nothing is different for the others -/
theorem forgive (h : Follows settings r log) {e : Event} {owners : List String}
    (hself : e.forgives owner = true) (howner : owner ∉ owners)
    (hothers : ∀ other, other ≠ owner → e.forgives other = false ∧ e ≠ .failed other ∧
      (other ∈ owners ↔ other ∈ r.quarantined)) :
    Follows settings { r with tally := r.tally.reset owner, quarantined := owners }
      (log ++ [e]) := by
  refine ⟨h.fixed, fun other => ?_⟩
  by_cases ho : other = owner
  · rw [ho, Event.failuresOf_append_forgives hself]
    apply Holds.none
    · show (r.tally.reset owner).count owner = 0
      rw [Tally.count_reset, if_pos rfl]
    · simpa [isQuarantined] using howner
  · obtain ⟨hf, hne, hsame⟩ := hothers other ho
    rw [Event.failuresOf_append_other hf hne]
    refine (h.holds other).congr rfl ?_ ?_
    · show (r.tally.reset owner).count other = r.tally.count other
      rw [Tally.count_reset, if_neg ho]
    · simp [isQuarantined, hsame]

theorem succeed (h : Follows settings r log) (hfree : r.isQuarantined owner = false) :
    Follows settings (r.countSuccess owner) (log ++ [.applied owner]) := by
  have howner : owner ∉ r.quarantined := by simpa [isQuarantined] using hfree
  refine h.forgive (by simp [Event.forgives]) howner fun other ho => ?_
  have hne : owner ≠ other := Ne.symm ho
  simp [Event.forgives, hne]

theorem pardon (h : Follows settings r log) (owner : String) :
    Follows settings (r.clearQuarantine owner).2 (log ++ [.pardoned owner]) := by
  refine h.forgive (by simp [Event.forgives]) (by simp) fun other ho => ?_
  have hne : owner ≠ other := Ne.symm ho
  simp [Event.forgives, hne, ho]

theorem clear (h : Follows settings r log) : Follows settings r.clear (log ++ [.cleared]) := by
  refine ⟨h.fixed, fun owner => ?_⟩
  rw [Event.failuresOf_append_forgives rfl]
  exact Holds.none rfl rfl

/-! ## runs -/

theorem offer {s : RunState}
    (h : Follows settings s.registry (log ++ s.outcomes.filterMap Outcome.event?))
    (target : String) (signature : Option Signature) (p : Patch) :
    Follows settings (offer target signature s p).registry
      (log ++ (Registry.offer target signature s p).outcomes.filterMap Outcome.event?) := by
  obtain ⟨status, hheld, he⟩ | ⟨cause, warnings, hheld, -, he⟩ |
    ⟨edited, warnings, hheld, -, he⟩ := offer_cases target signature s p
  · have hsilent : (p.outcome status []).event? = none :=
      Outcome.event?_of_isSkipped (isSkipped_of_heldBack? hheld)
    rw [he]
    simp only [List.filterMap_append, List.filterMap_cons, hsilent, List.filterMap_nil,
      List.append_nil]
    exact h
  · have hevent : (p.outcome (.failed cause.message) warnings).event? = some (.failed p.owner) :=
      rfl
    rw [he]
    simp only [List.filterMap_append, List.filterMap_cons, hevent, List.filterMap_nil,
      ← List.append_assoc]
    exact h.fail (not_isQuarantined_of_heldBack? hheld)
  · have hevent : (p.outcome .applied warnings).event? = some (.applied p.owner) := rfl
    have hsuccess := h.succeed (not_isQuarantined_of_heldBack? hheld)
    obtain ⟨edits, hr⟩ := (s.registry.countSuccess p.owner).remember_eq
      (appliedEdit target p s.baseline edited warnings)
    rw [he]
    simp only [List.filterMap_append, List.filterMap_cons, hevent, List.filterMap_nil,
      ← List.append_assoc, hr]
    exact hsuccess.congr rfl rfl rfl

/-- the registry is in step with the log at every patch of a run -/
theorem reached (h : Follows settings r log) (target : String) (body : Body)
    (signature : Option Signature) (k : Nat) :
    let s := r.reached target body signature k
    Follows settings s.registry (log ++ s.outcomes.filterMap Outcome.event?) := by
  have hstart : Follows settings r (log ++ []) := by
    rw [List.append_nil]
    exact h
  exact reached_induction
    (motive := fun s => Follows settings s.registry (log ++ s.outcomes.filterMap Outcome.event?))
    hstart (fun _ p _ hs => hs.offer target signature p) k

theorem run (h : Follows settings r log) (target : String) (body : Body)
    (signature : Option Signature) :
    Follows settings (r.run target body signature).2
      (log ++ (r.run target body signature).1.events) := by
  rw [run_eq_reached]
  exact h.reached target body signature _

theorem runMany (h : Follows settings r log) (jobs : List Job) :
    Follows settings (r.runMany jobs).2 (log ++ (r.runMany jobs).1.flatMap Report.events) := by
  induction jobs generalizing r log with
  | nil =>
    show Follows settings r (log ++ [])
    rw [List.append_nil]
    exact h
  | cons j jobs ih =>
    have hrest := ih (h.run j.target j.body j.signature)
    rw [List.append_assoc] at hrest
    exact hrest

/-! ## sessions -/

theorem perform (h : Follows settings r log) (op : Operation) :
    Follows settings (op.perform r) (log ++ op.events r) := by
  cases op with
  | register | unregisterAll =>
    rw [Operation.events, List.append_nil]
    exact h.congr rfl rfl rfl
  | unregister target anchor owner =>
    obtain ⟨R, hR⟩ := r.unregister_eq target anchor owner
    rw [Operation.events, List.append_nil, Operation.perform, hR]
    exact h.congr rfl rfl rfl
  | clear => exact h.clear
  | clearQuarantine owner => exact h.pardon owner
  | run j => exact h.run j.target j.body j.signature
  | apply j => exact h.run j.target j.body j.signature
  | runMany jobs => exact h.runMany jobs

theorem performAll (h : Follows settings r log) (ops : List Operation) :
    Follows settings (Operation.performAll ops r) (log ++ Operation.log ops r) := by
  induction ops generalizing r log with
  | nil =>
    show Follows settings r (log ++ [])
    rw [List.append_nil]
    exact h
  | cons op ops ih =>
    have hrest := ih (h.perform op)
    rw [List.append_assoc] at hrest
    exact hrest

end Follows

/-- **Failures put owners into quarantine, and nothing else does.**  After any operations on a new
registry, and at every patch of a run that follows, the tally of an owner counts its failures since
it was last forgiven, and the owner is in quarantine if and only if they have reached the threshold.
They never exceed it: an edit is only run below the threshold, and at the threshold every patch of
the owner is skipped. -/
theorem quarantined_by_failures (settings : Settings) (hierarchy : Hierarchy)
    (ops : List Operation) :
    let start : Registry := { settings, hierarchy }
    let r := Operation.performAll ops start
    let log := Operation.log ops start
    Follows settings r log ∧
    ∀ (target : String) (body : Body) (signature : Option Signature) (k : Nat) (p : Patch),
      (r.patches target)[k]? = some p →
      let s := r.reached target body signature k
      let log := log ++ s.outcomes.filterMap Outcome.event?
      Follows settings s.registry log ∧
      (0 < settings.quarantineThreshold → s.registry.heldBack? s.applied p = none →
        Event.failuresOf p.owner log < settings.quarantineThreshold) ∧
      (0 < settings.quarantineThreshold →
        settings.quarantineThreshold ≤ Event.failuresOf p.owner log →
        (offer target signature s p = { s with
          outcomes := s.outcomes ++ [p.outcome .quarantined []] }) ∧
        (r.run target body signature).1.outcomes[k]? = some (p.outcome .quarantined [])) := by
  intro start r log
  have hfollows : Follows settings r log := (Follows.new settings hierarchy).performAll ops
  refine ⟨hfollows, fun target body signature k p hp => ?_⟩
  intro s log'
  have hs : Follows settings s.registry log' := hfollows.reached target body signature k
  refine ⟨hs, ?_, ?_⟩
  · intro ht hheld
    have hfree := not_isQuarantined_of_heldBack? hheld
    rw [← Bool.not_eq_true, hs.isQuarantined_iff ht] at hfree
    exact Nat.lt_of_not_le hfree
  · intro ht hn
    have hq : s.registry.isQuarantined p.owner = true := (hs.isQuarantined_iff ht).mpr hn
    have hoffer := offer_of_heldBack? target signature (heldBack?_of_isQuarantined hq s.applied)
    exact ⟨hoffer, outcome_at hp (by rw [hoffer])⟩

/-- an edit that always fails -/
def refusal : Patch :=
  { owner := "clock", anchor := "skip", edit := Script.edit [.fail (.custom "no match")] }

/-- the owner fails on one of two targets -/
def spreading : List Operation :=
  [.register "Game::Tick" refusal, .register "Game::Draw" refusal,
    .run ⟨"Game::Tick", .ofCode [{ opcode := .ret }], none⟩]

/-- it is then skipped on the other one -/
theorem quarantined_by_failures_spreading :
    let r := Operation.performAll spreading { settings := .strictest }
    (r.run "Game::Draw" (.ofCode [{ opcode := .ret }]) none).1.outcomes[0]?
      = some (refusal.outcome .quarantined []) := by
  intro r
  have hlog : Operation.log spreading { settings := .strictest } = [.failed "clock"] := by
    simp only [spreading, Operation.log, Operation.perform, Operation.events, run]
    rw [@patches_of_registered _ "Game::Tick" refusal rfl]
    decide +kernel
  have hdraw : r.patches "Game::Draw" = [refusal] := by
    apply patches_of_registered
    simp only [r, spreading, Operation.performAll, List.foldl, Operation.perform, run]
    rw [@patches_of_registered _ "Game::Tick" refusal rfl]
    rfl
  have hp : (r.patches "Game::Draw")[0]? = some refusal := by
    rw [hdraw]
    rfl
  obtain ⟨-, h⟩ := quarantined_by_failures .strictest .empty spreading
  refine ((h "Game::Draw" (.ofCode [{ opcode := .ret }]) none 0 refusal hp).2.2 (by decide) ?_).2
  show 1 ≤ Event.failuresOf "clock" (Operation.log spreading { settings := .strictest } ++ [])
  rw [hlog]
  decide

end Registry

end CilPatch
