import CilPatch.Proofs.Patching.Registrations

/-!
# Patches that fail leave no trace

Of the patches of a run some are applied; the others are held back, or they fail after any number
of edits.  What is run with the applied ones only, in a registry that knows nothing of the others,
goes the same way: every patch starts from the same body, gives the same warnings and is applied,
and the last body is the same (`rerun_applied`).

* `taken?`         what a run gets out of one patch, if it is applied;
* `applications`   the patches that a run applies, each with the body that it starts from;
* `Mirrors`        what the two runs have in common: all but the patches that are not applied.
-/

namespace CilPatch

def Outcome.key (o : Outcome) : String × String := (o.owner, o.anchor)

/-- the patch was applied with this outcome -/
def Outcome.tookIn (o : Outcome) (p : Patch) : Bool :=
  p.isKeyed o.owner o.anchor && o.status.isApplied

theorem Outcome.tookIn_of_key_eq {o : Outcome} {p : Patch} (h : o.key = p.key) :
    o.tookIn p = o.status.isApplied := by
  unfold tookIn
  rw [Patch.isKeyed_iff.mpr h.symm, Bool.true_and]

theorem Outcome.tookIn_of_key_ne {o : Outcome} {p : Patch} (h : o.key ≠ p.key) :
    o.tookIn p = false := by
  have hp : p.isKeyed o.owner o.anchor = false := by
    rw [← Bool.not_eq_true, Patch.isKeyed_iff]
    exact Ne.symm h
  unfold tookIn
  rw [hp, Bool.false_and]

/-- the report says that the patch was applied -/
def Report.tookIn (rep : Report) (p : Patch) : Bool := rep.outcomes.any (·.tookIn p)

/-! ## one patch -/

namespace RunState

/-- the new baseline and the warnings of a patch, if it is applied -/
def taken? (s : RunState) (signature : Option Signature) (p : Patch) :
    Option (Body × List Warning) :=
  match s.registry.heldBack? s.applied p, s.registry.attempt signature s.baseline p with
  | none, (.ok edited, warnings) => some (edited, warnings)
  | _, _ => none

/-- the second run is the first without the patches that are not applied -/
structure Mirrors (s s' : RunState) : Prop where
  settings : s'.registry.settings = s.registry.settings
  hierarchy : s'.registry.hierarchy = s.registry.hierarchy
  trusted : s'.registry.quarantined = []
  baseline : s'.baseline = s.baseline
  applied : s'.applied = s.applied
  outcomes : s'.outcomes = s.outcomes.filter (·.status.isApplied)

end RunState

namespace Registry

variable {signature : Option Signature} {s : RunState} {p : Patch}

theorem isSkipped_of_heldBack? {r : Registry} {applied : List String} {status : Status}
    (h : r.heldBack? applied p = some status) : status.isSkipped = true := by
  unfold heldBack? at h
  split at h
  · cases h; rfl
  · dsimp only at h
    split at h
    · cases h; rfl
    · split at h
      · cases h; rfl
      · cases h

theorem not_applied_of_heldBack? {r : Registry} {applied : List String} {status : Status}
    (h : r.heldBack? applied p = some status) : status.isApplied = false := by
  have hskipped := isSkipped_of_heldBack? h
  cases status with
  | applied | failed => cases hskipped
  | quarantined | missing | conflict => rfl

/-- what is left of a patch that is applied -/
theorem offer_of_taken (target : String) {edited : Body} {warnings : List Warning}
    (h : s.taken? signature p = some (edited, warnings)) :
    ∃ edits, offer target signature s p =
      { registry := { s.registry with tally := s.registry.tally.reset p.owner, history := edits }
        baseline := edited
        applied := s.applied ++ [p.anchor]
        outcomes := s.outcomes ++ [⟨p.owner, p.anchor, p.priority, .applied, warnings⟩] } := by
  unfold RunState.taken? at h
  split at h
  next hheld hattempt =>
    cases h
    obtain ⟨edits, he⟩ := (s.registry.countSuccess p.owner).remember_eq
      (appliedEdit target p s.baseline edited warnings)
    refine ⟨edits, ?_⟩
    unfold offer
    rw [hheld]
    dsimp only
    rw [hattempt]
    dsimp only
    rw [he]
    rfl
  · cases h

/-- what is left of one that is not: an outcome, and what it says about the owner -/
theorem offer_of_not_taken (target : String) (h : s.taken? signature p = none) :
    ∃ status warnings tally owners, status.isApplied = false ∧
      offer target signature s p = { s with
        registry := { s.registry with tally, quarantined := owners }
        outcomes := s.outcomes ++ [⟨p.owner, p.anchor, p.priority, status, warnings⟩] } := by
  unfold offer
  dsimp only
  cases hheld : s.registry.heldBack? s.applied p with
  | some status =>
    exact ⟨status, [], s.registry.tally, s.registry.quarantined,
      not_applied_of_heldBack? hheld, rfl⟩
  | none =>
    dsimp only
    split
    next edited warnings hattempt =>
      unfold RunState.taken? at h
      rw [hheld, hattempt] at h
      cases h
    next cause warnings _ =>
      obtain ⟨owners, ho⟩ := s.registry.countFailure_eq p.owner
      refine ⟨.failed cause.message, warnings, s.registry.tally.increment p.owner, owners, rfl, ?_⟩
      rw [ho]

/-- every patch has one outcome -/
theorem offer_outcomes (target : String) (signature : Option Signature) (s : RunState)
    (p : Patch) :
    ∃ o : Outcome, (offer target signature s p).outcomes = s.outcomes ++ [o] ∧ o.key = p.key ∧
      o.status.isApplied = (s.taken? signature p).isSome := by
  cases hx : s.taken? signature p with
  | none =>
    obtain ⟨status, warnings, tally, owners, hst, he⟩ := offer_of_not_taken target hx
    rw [he]
    exact ⟨_, rfl, rfl, hst⟩
  | some x =>
    obtain ⟨edits, he⟩ := offer_of_taken target hx
    rw [he]
    exact ⟨_, rfl, rfl, rfl⟩

end Registry

namespace RunState

variable {target : String} {signature : Option Signature} {s s' : RunState} {p : Patch}

/-- a patch that is applied would be applied without the others as well -/
theorem Mirrors.taken? (h : Mirrors s s') {x : Body × List Warning}
    (hx : s.taken? signature p = some x) : s'.taken? signature p = some x := by
  have hheld : s.registry.heldBack? s.applied p = none →
      s'.registry.heldBack? s.applied p = none := by
    unfold Registry.heldBack? Registry.isQuarantined
    rw [h.trusted]
    intro hn
    split at hn
    · cases hn
    · exact hn
  have hattempt : s'.registry.attempt signature s.baseline p
      = s.registry.attempt signature s.baseline p := by
    unfold Registry.attempt Registry.verifier
    rw [h.settings, h.hierarchy]
  unfold RunState.taken? at hx ⊢
  rw [h.applied, h.baseline, hattempt]
  split at hx
  next hn hok =>
    rw [hheld hn, hok]
    exact hx
  · cases hx

theorem Mirrors.offer_taken (target : String) (h : Mirrors s s') {x : Body × List Warning}
    (hx : s.taken? signature p = some x) :
    Mirrors (Registry.offer target signature s p) (Registry.offer target signature s' p) := by
  obtain ⟨edits, he⟩ := Registry.offer_of_taken target hx
  obtain ⟨edits', he'⟩ := Registry.offer_of_taken target (h.taken? hx)
  rw [he, he']
  exact
    { settings := h.settings
      hierarchy := h.hierarchy
      trusted := h.trusted
      baseline := rfl
      applied := by rw [h.applied]
      outcomes := by rw [h.outcomes, List.filter_append]; rfl }

theorem Mirrors.offer_not_taken (target : String) (h : Mirrors s s')
    (hn : s.taken? signature p = none) :
    Mirrors (Registry.offer target signature s p) s' := by
  obtain ⟨status, warnings, tally, owners, hst, he⟩ :=
    Registry.offer_of_not_taken target hn
  rw [he]
  exact
    { settings := h.settings
      hierarchy := h.hierarchy
      trusted := h.trusted
      baseline := h.baseline
      applied := h.applied
      outcomes := by rw [h.outcomes, List.filter_append]; simp [hst] }

/-! ## all patches -/

/-- the patches that are applied, each with the body that it starts from -/
def applications (target : String) (signature : Option Signature) (s : RunState) :
    List Patch → List (Patch × Body)
  | [] => []
  | p :: ps =>
    let rest := applications target signature (Registry.offer target signature s p) ps
    if (s.taken? signature p).isSome then (p, s.baseline) :: rest else rest

theorem applications_cons_of_taken {x : Body × List Warning}
    (hx : s.taken? signature p = some x) (ps : List Patch) :
    s.applications target signature (p :: ps) = (p, s.baseline) ::
      (Registry.offer target signature s p).applications target signature ps := by
  show (if (s.taken? signature p).isSome then _ else _) = _
  rw [hx]
  rfl

theorem applications_cons_of_not_taken (hn : s.taken? signature p = none) (ps : List Patch) :
    s.applications target signature (p :: ps)
      = (Registry.offer target signature s p).applications target signature ps := by
  show (if (s.taken? signature p).isSome then _ else _) = _
  rw [hn]
  rfl

/-- with the others left out, each of them starts from the same body and is applied -/
theorem Mirrors.foldl_offer (target : String) (signature : Option Signature)
    (h : Mirrors s s') (ps : List Patch) :
    let kept := (s.applications target signature ps).map (·.1)
    Mirrors (ps.foldl (Registry.offer target signature) s)
        (kept.foldl (Registry.offer target signature) s') ∧
      s'.applications target signature kept = s.applications target signature ps := by
  induction ps generalizing s s' with
  | nil => exact ⟨h, rfl⟩
  | cons p ps ih =>
    cases hx : s.taken? signature p with
    | none =>
      rw [applications_cons_of_not_taken hx]
      exact ih (h.offer_not_taken target hx)
    | some x =>
      have hrest := ih (h.offer_taken target hx)
      rw [applications_cons_of_taken hx, List.map_cons]
      refine ⟨hrest.1, ?_⟩
      rw [applications_cons_of_taken (h.taken? hx), hrest.2, h.baseline]

/-- the outcomes of a run tell which of its patches are applied, as no two have the same key -/
theorem outcomes_foldl (target : String) (signature : Option Signature) (s : RunState)
    {ps : List Patch} (hps : (ps.map Patch.key).Nodup) :
    ∃ os : List Outcome,
      (ps.foldl (Registry.offer target signature) s).outcomes = s.outcomes ++ os ∧
      os.map Outcome.key = ps.map Patch.key ∧
      (s.applications target signature ps).map (·.1) = ps.filter fun p => os.any (·.tookIn p) := by
  induction ps generalizing s with
  | nil => exact ⟨[], (List.append_nil _).symm, rfl, rfl⟩
  | cons p ps ih =>
    rw [List.map_cons, List.nodup_cons] at hps
    obtain ⟨hp, hps⟩ := hps
    obtain ⟨o, ho, hkey, hst⟩ := Registry.offer_outcomes target signature s p
    obtain ⟨os, hos, hkeys, happ⟩ := ih (Registry.offer target signature s p) hps
    refine ⟨o :: os, ?_, ?_, ?_⟩
    · rw [List.foldl_cons, hos, ho, List.append_assoc]
      rfl
    · rw [List.map_cons, List.map_cons, hkey, hkeys]
    · have hhead : (o :: os).any (·.tookIn p) = (s.taken? signature p).isSome := by
        have hothers : os.any (·.tookIn p) = false := by
          rw [List.any_eq_false]
          intro q hq
          rw [Outcome.tookIn_of_key_ne, Bool.not_eq_true]
          intro hqp
          exact hp (hqp ▸ hkeys ▸ List.mem_map_of_mem hq)
        rw [List.any_cons, hothers, Bool.or_false, Outcome.tookIn_of_key_eq hkey, hst]
      have htail : (ps.filter fun q => (o :: os).any (·.tookIn q))
          = ps.filter fun q => os.any (·.tookIn q) := by
        refine List.filter_congr fun q hq => ?_
        have hne : o.key ≠ q.key := fun h => hp (hkey ▸ h ▸ List.mem_map_of_mem hq)
        rw [List.any_cons, Outcome.tookIn_of_key_ne hne, Bool.false_or]
      rw [List.filter_cons, hhead, htail, ← happ]
      cases hx : s.taken? signature p with
      | none => rw [applications_cons_of_not_taken hx]; rfl
      | some x => rw [applications_cons_of_taken hx]; rfl

end RunState

/-! ## a run of what was applied -/

namespace Registry

/-- the state in which a run begins -/
def startOf (r : Registry) (body : Body) : RunState := { registry := r, baseline := body }

/-- the patches that a run applies, each with the body that it starts from -/
def applications (r : Registry) (target : String) (body : Body) (signature : Option Signature) :
    List (Patch × Body) :=
  (r.startOf body).applications target signature (r.patches target)

/-- `f` goes by the same settings and hierarchy as `r` but mistrusts nobody, and of the patches
for `target` it holds those that were applied -/
structure Keeps (f r : Registry) (target : String) (rep : Report) : Prop where
  settings : f.settings = r.settings
  hierarchy : f.hierarchy = r.hierarchy
  trusted : f.quarantined = []
  patches : f.patches target = (r.patches target).filter rep.tookIn

/-- a new registry in which the patches that were applied are registered in their old order -/
def keeping (r : Registry) (target : String) (rep : Report) : Registry :=
  registerAll { settings := r.settings, hierarchy := r.hierarchy } target
    ((r.registered target).filter rep.tookIn)

theorem Reachable.keeping_reachable (r : Registry) (target : String) (rep : Report) :
    Reachable (r.keeping target rep) :=
  (Reachable.new r.settings r.hierarchy).registerAll target _

theorem Reachable.keeps_keeping {r : Registry} (hr : r.Reachable) (target : String)
    (rep : Report) : (r.keeping target rep).Keeps r target rep := by
  obtain ⟨R, n, hR⟩ := registerAll_eq { settings := r.settings, hierarchy := r.hierarchy } target
    ((r.registered target).filter rep.tookIn)
  have hkeys : (((r.registered target).filter rep.tookIn).map Patch.key).Nodup :=
    (hr.nodup_registered target).sublist (List.filter_sublist.map _)
  have hreg : (r.keeping target rep).registered target = (r.registered target).filter rep.tookIn :=
    registered_registerAll _ target _ hkeys
  have hpatches : (r.keeping target rep).patches target = (r.patches target).filter rep.tookIn := by
    rw [(Reachable.keeping_reachable r target rep).patches_eq, hr.patches_eq, hreg,
      Patch.filter_inOrder]
  exact
    { settings := by unfold keeping; rw [hR]
      hierarchy := by unfold keeping; rw [hR]
      trusted := by unfold keeping; rw [hR]
      patches := hpatches }

/-- **Patches that are not applied leave no trace.**  There is a new registry with what the run of
`r` applied, and in every such registry the run applies all of it again: each patch starts from
the same body and has the same outcome, warnings included, and the last body is the same. -/
theorem rerun_applied {r : Registry} (hr : r.Reachable) (target : String) (body : Body)
    (signature : Option Signature) :
    let first := (r.run target body signature).1
    (∃ f : Registry, f.Reachable ∧ f.Keeps r target first) ∧
    ∀ f : Registry, f.Keeps r target first →
      (f.run target body signature).1
        = { first with outcomes := first.outcomes.filter (·.status.isApplied) } ∧
      (f.run target body signature).1.isClean = true ∧
      f.applications target body signature = r.applications target body signature := by
  intro first
  refine ⟨⟨r.keeping target first, Reachable.keeping_reachable r target first,
    hr.keeps_keeping target first⟩, fun f hf => ?_⟩
  obtain ⟨os, hos, -, happ⟩ :=
    RunState.outcomes_foldl target signature (r.startOf body) (hr.nodup_patches target)
  have hfirst : first.outcomes = os := hos
  have hkept : f.patches target = (r.applications target body signature).map (·.1) := by
    rw [hf.patches]
    unfold Report.tookIn
    rw [hfirst]
    exact happ.symm
  have hstart : RunState.Mirrors (r.startOf body) (f.startOf body) :=
    { settings := hf.settings
      hierarchy := hf.hierarchy
      trusted := hf.trusted
      baseline := rfl
      applied := rfl
      outcomes := rfl }
  obtain ⟨hm, hagain⟩ := hstart.foldl_offer target signature (r.patches target)
  have hrun : (f.run target body signature).1
      = { first with outcomes := first.outcomes.filter (·.status.isApplied) } := by
    show Report.mk target ((f.patches target).foldl _ (f.startOf body)).baseline
      ((f.patches target).foldl _ (f.startOf body)).outcomes = _
    rw [hkept]
    unfold applications
    rw [hm.baseline, hm.outcomes]
    rfl
  refine ⟨hrun, ?_, ?_⟩
  · rw [hrun]
    unfold Report.isClean
    rw [List.all_filter, List.all_eq_true]
    intro o _
    cases o.status.isApplied <;> rfl
  · unfold applications at hkept ⊢
    rw [hkept]
    exact hagain

/-- one patch fails after it has taken a label and inserted an instruction, which puts its owner
into quarantine and holds back the next one; the last is applied -/
def mixedPatches : Registry :=
  registerAll { settings := { Settings.strictest with validate := false } } "Game::Tick"
    [{ owner := "clock", anchor := "skip", edit := Script.edit
        [.command .defineLabel, .command (.insertBefore [{ opcode := .ldnull }]),
          .fail (.custom "no match")] },
     { owner := "clock", anchor := "double", edit := Script.edit [] },
     { owner := "log", anchor := "mark", edit := Script.edit
        [.command .defineLabel, .command (.markLabel ⟨0⟩)] }]

theorem rerun_applied_mixedPatches :
    mixedPatches.Reachable ∧
      (mixedPatches.run "Game::Tick" (.ofCode [{ opcode := .ret }]) none).1.applied = ["mark"] ∧
      ∃ f : Registry, f.Reachable ∧
        (f.run "Game::Tick" (.ofCode [{ opcode := .ret }]) none).1.body
          = { code := [{ opcode := .ret, labels := [⟨0⟩] }], nextLabel := 1 } := by
  have hr : mixedPatches.Reachable := (Reachable.new _ .empty).registerAll "Game::Tick" _
  have hpatches : mixedPatches.patches "Game::Tick" = mixedPatches.registered "Game::Tick" :=
    patches_of_pairwise (by decide)
  have happlied : (mixedPatches.run "Game::Tick" (.ofCode [{ opcode := .ret }]) none).1.applied
      = ["mark"] := by
    unfold run
    rw [hpatches]
    decide +kernel
  have hbody : (mixedPatches.run "Game::Tick" (.ofCode [{ opcode := .ret }]) none).1.body
      = { code := [{ opcode := .ret, labels := [⟨0⟩] }], nextLabel := 1 } := by
    unfold run
    rw [hpatches]
    decide +kernel
  obtain ⟨⟨f, hf, hkeeps⟩, hagain⟩ :=
    rerun_applied hr "Game::Tick" (.ofCode [{ opcode := .ret }]) none
  refine ⟨hr, happlied, f, hf, ?_⟩
  rw [(hagain f hkeeps).1]
  exact hbody

end Registry

end CilPatch
