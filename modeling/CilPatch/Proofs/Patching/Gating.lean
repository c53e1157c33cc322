import CilPatch.Proofs.Patching.Offers

/-!
# Dependencies and conflicts

The anchors that a run has applied when it comes to a patch are those of the applied outcomes so far
(`applied_reached`).  From these and from the quarantine of the owner follows what becomes of the
patch (`Patch.Gated`): quarantine comes before missing dependencies, and these come before
conflicts; a patch with none of the three is run.

That the edit of a patch is run, and how often, cannot be seen in a report.  `recorded` is a run in
which an edit can only be called by writing the call down; it goes the way of the run that it
records, with one call for each patch that is not skipped.

So a patch is applied only behind all that it depends on and behind nothing that it conflicts with
(`run_gated`).
-/

namespace CilPatch

/-! ## what has been applied -/

theorem Status.isApplied_iff {status : Status} : status.isApplied = true ↔ status = .applied := by
  cases status <;> simp [isApplied]

/-- the anchors of the applied outcomes in front of the `k`-th one -/
def Report.appliedBefore (rep : Report) (k : Nat) : List String :=
  ((rep.outcomes.take k).filter (·.status.isApplied)).map (·.anchor)

theorem Report.mem_appliedBefore {rep : Report} {k : Nat} {anchor : String} :
    anchor ∈ rep.appliedBefore k ↔
      ∃ o ∈ rep.outcomes.take k, o.anchor = anchor ∧ o.status = .applied := by
  unfold appliedBefore
  rw [List.mem_map]
  constructor
  · rintro ⟨o, ho, rfl⟩
    obtain ⟨ho, hst⟩ := List.mem_filter.mp ho
    exact ⟨o, ho, rfl, Status.isApplied_iff.mp hst⟩
  · rintro ⟨o, ho, rfl, hst⟩
    exact ⟨o, List.mem_filter.mpr ⟨ho, Status.isApplied_iff.mpr hst⟩, rfl⟩

/-! ## the gate -/

namespace Patch

/-- the dependencies that have not been applied -/
def missingFrom (p : Patch) (applied : List String) : List String :=
  p.dependsOn.filter fun anchor => anchor ∉ applied

/-- the conflicting anchors that have been applied -/
def conflictsAmong (p : Patch) (applied : List String) : List String :=
  p.conflictsWith.filter fun anchor => anchor ∈ applied

theorem missingFrom_eq_nil_iff {p : Patch} {applied : List String} :
    p.missingFrom applied = [] ↔ ∀ anchor ∈ p.dependsOn, anchor ∈ applied := by
  unfold missingFrom
  simp [List.filter_eq_nil_iff]

theorem conflictsAmong_eq_nil_iff {p : Patch} {applied : List String} :
    p.conflictsAmong applied = [] ↔ ∀ anchor ∈ p.conflictsWith, anchor ∉ applied := by
  unfold conflictsAmong
  simp [List.filter_eq_nil_iff]

/-- what becomes of a patch if these anchors have been applied before it, by whether its owner is in
quarantine -/
structure Gated (p : Patch) (quarantined : Bool) (applied : List String) (status : Status) :
    Prop where
  quarantined_iff : status = .quarantined ↔ quarantined = true
  missing_iff : ∀ anchors, status = .missing anchors ↔
    quarantined = false ∧ p.missingFrom applied ≠ [] ∧ p.missingFrom applied = anchors
  conflict_iff : ∀ anchors, status = .conflict anchors ↔
    quarantined = false ∧ p.missingFrom applied = [] ∧
      p.conflictsAmong applied ≠ [] ∧ p.conflictsAmong applied = anchors
  run_iff : (status = .applied ∨ ∃ message, status = .failed message) ↔
    quarantined = false ∧ p.missingFrom applied = [] ∧ p.conflictsAmong applied = []

/-- a patch that is run has all that it depends on and nothing that it conflicts with before it -/
structure Grounded (p : Patch) (before : List Outcome) : Prop where
  dependsOn : ∀ anchor ∈ p.dependsOn, ∃ o ∈ before, o.anchor = anchor ∧ o.status = .applied
  conflictsWith : ∀ o ∈ before, o.anchor ∈ p.conflictsWith → o.status ≠ .applied

end Patch

namespace Registry

variable {r : Registry} {target : String} {body : Body} {signature : Option Signature}
  {s : RunState} {p : Patch} {applied : List String} {k : Nat}

/-- why a patch is held back, in the order in which the reasons count -/
theorem heldBack?_cases (r : Registry) (applied : List String) (p : Patch) :
    (r.isQuarantined p.owner = true ∧ r.heldBack? applied p = some .quarantined) ∨
    (r.isQuarantined p.owner = false ∧ p.missingFrom applied ≠ [] ∧
      r.heldBack? applied p = some (.missing (p.missingFrom applied))) ∨
    (r.isQuarantined p.owner = false ∧ p.missingFrom applied = [] ∧
      p.conflictsAmong applied ≠ [] ∧
      r.heldBack? applied p = some (.conflict (p.conflictsAmong applied))) ∨
    (r.isQuarantined p.owner = false ∧ p.missingFrom applied = [] ∧
      p.conflictsAmong applied = [] ∧ r.heldBack? applied p = none) := by
  have hmissing : p.dependsOn.filter (fun anchor => !applied.contains anchor)
      = p.missingFrom applied := by
    unfold Patch.missingFrom
    exact List.filter_congr fun anchor _ => by simp
  have hconflicting : p.conflictsWith.filter applied.contains = p.conflictsAmong applied := by
    unfold Patch.conflictsAmong
    exact List.filter_congr fun anchor _ => by simp
  unfold heldBack?
  rw [hmissing, hconflicting]
  cases hq : r.isQuarantined p.owner with
  | true => exact .inl ⟨rfl, rfl⟩
  | false =>
    refine .inr ?_
    cases hm : p.missingFrom applied with
    | cons anchor anchors => exact .inl ⟨rfl, List.cons_ne_nil _ _, rfl⟩
    | nil =>
      refine .inr ?_
      cases hc : p.conflictsAmong applied with
      | cons anchor anchors => exact .inl ⟨rfl, rfl, List.cons_ne_nil _ _, rfl⟩
      | nil => exact .inr ⟨rfl, rfl, rfl, rfl⟩

theorem gated_of_heldBack? {status : Status} (h : r.heldBack? applied p = some status) :
    p.Gated (r.isQuarantined p.owner) applied status := by
  obtain ⟨hq, he⟩ | ⟨hq, hm, he⟩ | ⟨hq, hm, hc, he⟩ | ⟨-, -, -, he⟩ := heldBack?_cases r applied p
  · obtain rfl := Option.some.inj (h.symm.trans he)
    constructor <;> simp [hq]
  · obtain rfl := Option.some.inj (h.symm.trans he)
    constructor <;> simp [hq, hm]
  · obtain rfl := Option.some.inj (h.symm.trans he)
    constructor <;> simp [hq, hm, hc]
  · cases h.symm.trans he

theorem gated_of_run {status : Status} (h : r.heldBack? applied p = none)
    (hst : status = .applied ∨ ∃ message, status = .failed message) :
    p.Gated (r.isQuarantined p.owner) applied status := by
  obtain ⟨-, he⟩ | ⟨-, -, he⟩ | ⟨-, -, -, he⟩ | ⟨hq, hm, hc, -⟩ := heldBack?_cases r applied p
  · cases h.symm.trans he
  · cases h.symm.trans he
  · cases h.symm.trans he
  · rcases hst with rfl | ⟨message, rfl⟩
    · constructor <;> simp [hq, hm, hc]
    · constructor <;> simp [hq, hm, hc]

/-! ## the anchors of a run -/

/-- the anchors applied so far are those of the applied outcomes so far -/
theorem applied_reached (r : Registry) (target : String) (body : Body)
    (signature : Option Signature) (k : Nat) :
    (r.reached target body signature k).applied
      = (r.run target body signature).1.appliedBefore k := by
  have hstate : (r.reached target body signature k).applied
      = ((r.reached target body signature k).outcomes.filter (·.status.isApplied)).map
          (·.anchor) := by
    refine reached_induction (motive := fun s => s.applied =
      (s.outcomes.filter (·.status.isApplied)).map (·.anchor)) rfl (fun s p _ ih => ?_) k
    obtain ⟨status, hheld, he⟩ | ⟨cause, warnings, -, -, he⟩ | ⟨edited, warnings, -, -, he⟩ :=
      offer_cases target signature s p
    · have hst : (p.outcome status []).status.isApplied = false := not_applied_of_heldBack? hheld
      rw [he]
      simp [hst, ih]
    · have hst : (p.outcome (.failed cause.message) warnings).status.isApplied = false := rfl
      rw [he]
      simp [hst, ih]
    · have hst : (p.outcome .applied warnings).status.isApplied = true := rfl
      rw [he]
      simp [hst, ih]
      rfl
  rw [hstate, outcomes_reached]
  rfl

/-! ## recorded runs -/

/-- the edit of a patch was called on a cursor -/
structure Call where
  patch : Patch
  cursor : Cursor

abbrev Recorded := StateM (List Call)

/-- call the edit of a patch, and write it down -/
def call (p : Patch) (c : Cursor) : Recorded (Cursor × Ending) := do
  modify (· ++ [⟨p, c⟩])
  return p.edit c

def attemptRecorded (r : Registry) (signature : Option Signature) (baseline : Body) (p : Patch) :
    Recorded (Except Failure Body × List Warning) := do
  let (cursor, ending) ← call p (.ofBody baseline (r.verifier signature))
  let result :=
    match ending with
    | .done => cursor.build (r.settings.buildOptions p.strict)
    | .failed cause => .error cause
    | .crashed message => .error (crashCause message)
  return (result, cursor.warnings)

def offerRecorded (target : String) (signature : Option Signature) (s : RunState) (p : Patch) :
    Recorded RunState := do
  match s.registry.heldBack? s.applied p with
  | some status => return { s with outcomes := s.outcomes ++ [p.outcome status []] }
  | none =>
    match ← s.registry.attemptRecorded signature s.baseline p with
    | (.ok edited, warnings) =>
      return {
        registry := (s.registry.countSuccess p.owner).remember
          (appliedEdit target p s.baseline edited warnings)
        baseline := edited
        applied := s.applied ++ [p.anchor]
        outcomes := s.outcomes ++ [p.outcome .applied warnings] }
    | (.error cause, warnings) =>
      return { s with
        registry := s.registry.countFailure p.owner
        outcomes := s.outcomes ++ [p.outcome (.failed cause.message) warnings] }

/-- a run that writes down the calls of edits -/
def runRecorded (r : Registry) (target : String) (body : Body) (signature : Option Signature) :
    Recorded (Report × Registry) := do
  let s ← (r.patches target).foldlM (offerRecorded target signature) (r.startOf body)
  return ({ target, body := s.baseline, outcomes := s.outcomes }, s.registry)

/-- what is called for one patch -/
def callsFor (signature : Option Signature) (s : RunState) (p : Patch) : List Call :=
  match s.registry.heldBack? s.applied p with
  | some _ => []
  | none => [⟨p, .ofBody s.baseline (s.registry.verifier signature)⟩]

theorem run_offerRecorded (target : String) (signature : Option Signature) (s : RunState)
    (p : Patch) (calls : List Call) :
    (offerRecorded target signature s p).run calls
      = (offer target signature s p, calls ++ callsFor signature s p) := by
  unfold callsFor
  cases hheld : s.registry.heldBack? s.applied p with
  | some status =>
    rw [offer_of_heldBack? target signature hheld]
    unfold offerRecorded
    rw [hheld, List.append_nil]
    rfl
  | none =>
    have hattempt : (s.registry.attemptRecorded signature s.baseline p).run calls
        = (s.registry.attempt signature s.baseline p,
          calls ++ [⟨p, .ofBody s.baseline (s.registry.verifier signature)⟩]) := rfl
    unfold offerRecorded offer
    rw [hheld]
    simp only [StateT.run_bind, hattempt]
    cases s.registry.attempt signature s.baseline p with
    | mk result warnings => cases result <;> rfl

/-- what is called for the `k`-th patch of a run, nothing if there is no such patch -/
def callsAt (r : Registry) (target : String) (body : Body) (signature : Option Signature)
    (k : Nat) : List Call :=
  match (r.patches target)[k]? with
  | none => []
  | some p => callsFor signature (r.reached target body signature k) p

/-- a recorded run goes through the states of the run, and has so far recorded the calls for the
patches so far -/
theorem run_foldlM_offerRecorded (r : Registry) (target : String) (body : Body)
    (signature : Option Signature) (k : Nat) :
    (((r.patches target).take k).foldlM (offerRecorded target signature) (r.startOf body)).run []
      = (r.reached target body signature k,
        (List.range k).flatMap (r.callsAt target body signature)) := by
  induction k with
  | zero => rfl
  | succ k ih =>
    rw [List.range_succ, List.flatMap_append, List.flatMap_singleton]
    cases hp : (r.patches target)[k]? with
    | none =>
      -- behind the last patch nothing is called any more, and the state stays
      have hk := List.getElem?_eq_none_iff.mp hp
      have hcalls : r.callsAt target body signature k = [] := by
        unfold callsAt
        rw [hp]
      rw [hcalls, List.append_nil, reached_of_le (Nat.le_succ_of_le hk), ← reached_of_le hk, ← ih,
        List.take_of_length_le hk, List.take_of_length_le (Nat.le_succ_of_le hk)]
    | some p =>
      have hcalls : r.callsAt target body signature k
          = callsFor signature (r.reached target body signature k) p := by
        unfold callsAt
        rw [hp]
      have hone : ∀ s calls, ([p].foldlM (offerRecorded target signature) s).run calls
          = (offerRecorded target signature s p).run calls := fun _ _ => rfl
      rw [hcalls, reached_succ hp, List.take_add_one, hp, Option.toList_some, List.foldlM_append,
        StateT.run_bind, ih]
      exact (hone _ _).trans (run_offerRecorded target signature _ p _)

theorem run_runRecorded (r : Registry) (target : String) (body : Body)
    (signature : Option Signature) :
    (r.runRecorded target body signature).run []
      = (r.run target body signature,
        (List.range (r.patches target).length).flatMap (r.callsAt target body signature)) := by
  have hall := run_foldlM_offerRecorded r target body signature (r.patches target).length
  rw [List.take_length] at hall
  unfold runRecorded
  rw [StateT.run_bind, hall, run_eq_reached]
  rfl

/-! ## runs -/

/-- a patch that is run has been let through, and so was called for once -/
theorem reached_gated (body : Body) (signature : Option Signature)
    (hp : (r.patches target)[k]? = some p) :
    let s := r.reached target body signature k
    ∃ status warnings,
      (r.run target body signature).1.outcomes[k]? = some (p.outcome status warnings) ∧
      p.Gated (s.registry.isQuarantined p.owner) s.applied status ∧
      callsFor signature s p = if status.isSkipped then [] else
        [⟨p, .ofBody s.baseline (s.registry.verifier signature)⟩] := by
  intro s
  obtain ⟨status, hheld, he⟩ | ⟨cause, warnings, hheld, -, he⟩ | ⟨edited, warnings, hheld, -, he⟩ :=
    offer_cases target signature s p
  · refine ⟨status, [], outcome_at hp (by rw [he]), gated_of_heldBack? hheld, ?_⟩
    unfold callsFor
    rw [hheld, if_pos (isSkipped_of_heldBack? hheld)]
  · refine ⟨.failed cause.message, warnings, outcome_at hp (by rw [he]),
      gated_of_run hheld (.inr ⟨_, rfl⟩), ?_⟩
    unfold callsFor
    rw [hheld]
    rfl
  · refine ⟨.applied, warnings, outcome_at hp (by rw [he]), gated_of_run hheld (.inl rfl), ?_⟩
    unfold callsFor
    rw [hheld]
    rfl

end Registry

theorem Patch.Gated.grounded {p : Patch} {quarantined : Bool} {rep : Report} {k : Nat}
    {status : Status} (h : p.Gated quarantined (rep.appliedBefore k) status)
    (hst : status = .applied) : p.Grounded (rep.outcomes.take k) := by
  obtain ⟨-, hmissing, hconflicting⟩ := h.run_iff.mp (.inl hst)
  constructor
  · intro anchor hanchor
    exact Report.mem_appliedBefore.mp (missingFrom_eq_nil_iff.mp hmissing anchor hanchor)
  · intro o ho hanchor happlied
    exact conflictsAmong_eq_nil_iff.mp hconflicting o.anchor hanchor
      (Report.mem_appliedBefore.mpr ⟨o, ho, rfl, happlied⟩)

/-- to depend on what has not been applied is to be skipped -/
theorem Patch.Gated.isSkipped {p : Patch} {quarantined : Bool} {rep : Report} {k : Nat}
    {status : Status} (h : p.Gated quarantined (rep.appliedBefore k) status) {anchor : String}
    (hanchor : anchor ∈ p.dependsOn)
    (hnot : ∀ o ∈ rep.outcomes.take k, o.anchor = anchor → o.status ≠ .applied) :
    status.isSkipped = true := by
  have hrun : ¬(status = .applied ∨ ∃ message, status = .failed message) := by
    intro hst
    have hmissing := (h.run_iff.mp hst).2.1
    obtain ⟨o, ho, he, happlied⟩ :=
      Report.mem_appliedBefore.mp (missingFrom_eq_nil_iff.mp hmissing anchor hanchor)
    exact hnot o ho he happlied
  cases status with
  | applied => exact absurd (.inl rfl) hrun
  | failed message => exact absurd (.inr ⟨message, rfl⟩) hrun
  | quarantined | missing | conflict => rfl

namespace Registry

/-- **Every patch of a run is gated by the ones before it.**  Each has one outcome, which follows
from the quarantine of its owner and from the anchors that have been applied when the run comes to
it; its edit is called once if it is not skipped, and not at all otherwise.  So whatever is applied
has everything that it depends on applied before it, and nothing that it conflicts with.  A patch
that depends on an anchor without an applied outcome before it is skipped, whether that anchor has
failed, was skipped itself, comes later or does not come at all. -/
theorem run_gated (r : Registry) (target : String) (body : Body) (signature : Option Signature) :
    let rep := (r.run target body signature).1
    let state (k : Nat) : RunState := r.reached target body signature k
    let calls (k : Nat) : List Call := r.callsAt target body signature k
    rep.outcomes.length = (r.patches target).length ∧
    (r.runRecorded target body signature).run []
      = (r.run target body signature, (List.range rep.outcomes.length).flatMap calls) ∧
    ∀ k p, (r.patches target)[k]? = some p →
      ∃ status warnings, rep.outcomes[k]? = some (p.outcome status warnings) ∧
        p.Gated ((state k).registry.isQuarantined p.owner) (rep.appliedBefore k) status ∧
        (calls k = if status.isSkipped then [] else
          [⟨p, .ofBody (state k).baseline ((state k).registry.verifier signature)⟩]) ∧
        (status = .applied → p.Grounded (rep.outcomes.take k)) ∧
        ∀ anchor ∈ p.dependsOn,
          (∀ o ∈ rep.outcomes.take k, o.anchor = anchor → o.status ≠ .applied) →
          status.isSkipped = true := by
  intro rep state calls
  have hlength : rep.outcomes.length = (r.patches target).length := by
    obtain ⟨os, hos, hall⟩ :=
      foldl_offer_outcomes target signature (r.startOf body) (r.patches target)
    have houtcomes : rep.outcomes = os := hall
    rw [houtcomes, hos]
  refine ⟨hlength, ?_, ?_⟩
  · rw [hlength]
    exact run_runRecorded r target body signature
  · intro k p hp
    obtain ⟨status, warnings, ho, hgated, hcalls⟩ := reached_gated body signature hp
    rw [applied_reached] at hgated
    refine ⟨status, warnings, ho, hgated, ?_, hgated.grounded, fun anchor => hgated.isSkipped⟩
    rw [← hcalls]
    show r.callsAt target body signature k = _
    unfold callsAt
    rw [hp]

/-- The first patch is applied, and the second one breaks off.  Of the others one depends on both,
one must not come behind the first, and one is by the owner of the second. -/
def crowded : List Patch :=
  [{ owner := "core", anchor := "base", edit := Script.edit [] },
   { owner := "rogue", anchor := "broken", edit := Script.edit [.crash none] },
   { owner := "addon", anchor := "fix", edit := Script.edit [], dependsOn := ["base", "broken"] },
   { owner := "rival", anchor := "instead", edit := Script.edit [], conflictsWith := ["base"] },
   { owner := "rogue", anchor := "again", edit := Script.edit [], dependsOn := ["base"] }]

/-- the last three patches are skipped, each for a reason of its own -/
theorem run_gated_crowded :
    let r := registerAll { settings := ⟨1, false, false, 0, .skip⟩ } "Game::Tick" crowded
    let rep := (r.run "Game::Tick" {} none).1
    rep.outcomes[2]?.map (·.status) = some (.missing ["broken"]) ∧
      rep.outcomes[3]?.map (·.status) = some (.conflict ["base"]) ∧
      rep.outcomes[4]?.map (·.status) = some .quarantined := by
  intro r rep
  have hpatches : r.patches "Game::Tick" = crowded := patches_of_pairwise (by decide)
  have hstate : ∀ k, r.reached "Game::Tick" {} none k =
      (crowded.take k).foldl (offer "Game::Tick" none) (r.startOf {}) := by
    intro k
    unfold reached
    rw [hpatches]
  have happlied : ∀ k < 5, 0 < k → rep.appliedBefore k = ["base"] := by
    intro k hk hpos
    rw [← applied_reached, hstate]
    revert k
    decide +kernel
  have hquarantined : ∀ k < 5, 1 < k →
      (r.reached "Game::Tick" {} none k).registry.quarantined = ["rogue"] := by
    intro k hk hpos
    rw [hstate]
    revert k
    decide +kernel
  have hgated : ∀ k p, crowded[k]? = some p → 1 < k → k < 5 →
      ∃ status, rep.outcomes[k]?.map (·.status) = some status ∧
        p.Gated (["rogue"].contains p.owner) ["base"] status := by
    intro k p hp hpos hk
    obtain ⟨-, -, hall⟩ := run_gated r "Game::Tick" {} none
    obtain ⟨status, warnings, ho, hgated, -⟩ := hall k p (by rw [hpatches]; exact hp)
    unfold isQuarantined at hgated
    rw [happlied k hk (by omega), hquarantined k hk hpos] at hgated
    exact ⟨status, by rw [ho]; rfl, hgated⟩
  refine ⟨?_, ?_, ?_⟩
  · obtain ⟨status, ho, hgated⟩ := hgated 2 _ rfl (by decide) (by decide)
    exact ho.trans (congrArg some ((hgated.missing_iff _).mpr (by decide)))
  · obtain ⟨status, ho, hgated⟩ := hgated 3 _ rfl (by decide) (by decide)
    exact ho.trans (congrArg some ((hgated.conflict_iff _).mpr (by decide)))
  · obtain ⟨status, ho, hgated⟩ := hgated 4 _ rfl (by decide) (by decide)
    exact ho.trans (congrArg some (hgated.quarantined_iff.mpr (by decide)))

end Registry

end CilPatch
