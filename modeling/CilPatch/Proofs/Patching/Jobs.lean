import CilPatch.Proofs.Patching.Validation

/-!
# Jobs in any order

Of what earlier runs have left in a registry a run sees only who is in quarantine.  Tallies and
history are written and never read, except that a failure looks at the tally to decide whether its
owner is to be put into quarantine.

So registries that differ in nothing else are `Similar`, and as long as nobody is put into
quarantine (`Spares`) a run reports the same in both and leaves a similar registry behind
(`Similar.run`).  Then every job of a list has the report that it has alone, and so it has the same
one in every order (`jobs_commute`).
-/

namespace CilPatch

namespace Registry

/-- the two registries differ in nothing but tallies and history -/
structure Similar (r r' : Registry) : Prop where
  settings : r'.settings = r.settings
  hierarchy : r'.hierarchy = r.hierarchy
  registrations : r'.registrations = r.registrations
  quarantined : r'.quarantined = r.quarantined

/-- these outcomes put nobody into quarantine: there is no quarantine, or none of them is a
failure -/
def Spares (r : Registry) (os : List Outcome) : Prop :=
  r.settings.quarantineThreshold = 0 ∨ ∀ o ∈ os, o.status.isFailed = false

variable {r r' : Registry}

theorem Similar.refl (r : Registry) : Similar r r := ⟨rfl, rfl, rfl, rfl⟩

theorem Similar.symm (h : Similar r r') : Similar r' r :=
  ⟨h.settings.symm, h.hierarchy.symm, h.registrations.symm, h.quarantined.symm⟩

theorem Similar.trans {r'' : Registry} (h : Similar r r') (h' : Similar r' r'') :
    Similar r r'' where
  settings := h'.settings.trans h.settings
  hierarchy := h'.hierarchy.trans h.hierarchy
  registrations := h'.registrations.trans h.registrations
  quarantined := h'.quarantined.trans h.quarantined

theorem Similar.spares (h : Similar r r') {os : List Outcome} (hs : r.Spares os) :
    r'.Spares os := by
  unfold Spares at hs ⊢
  rw [h.settings]
  exact hs

theorem Spares.of_append {os more : List Outcome} (h : r.Spares (os ++ more)) : r.Spares os :=
  h.imp_right fun hf o ho => hf o (List.mem_append_left _ ho)

theorem Similar.patches (h : Similar r r') (target : String) :
    r'.patches target = r.patches target := by
  unfold Registry.patches
  rw [h.registrations]

theorem Similar.heldBack? (h : Similar r r') (applied : List String) (p : Patch) :
    r'.heldBack? applied p = r.heldBack? applied p := by
  unfold Registry.heldBack? isQuarantined
  rw [h.quarantined]

/-! ## one patch -/

theorem similar_countSuccess (r : Registry) (owner : String) (e : AppliedEdit) :
    Similar r ((r.countSuccess owner).remember e) := by
  obtain ⟨edits, he⟩ := (r.countSuccess owner).remember_eq e
  rw [he]
  exact ⟨rfl, rfl, rfl, rfl⟩

/-- where there is no quarantine, a failure is only counted -/
theorem similar_countFailure (ht : r.settings.quarantineThreshold = 0) (owner : String) :
    Similar r (r.countFailure owner) := by
  have hnever : ∀ n, r.settings.quarantinesAfter n = false := by
    intro n
    unfold Settings.quarantinesAfter
    rw [ht]
    rfl
  unfold countFailure
  dsimp only
  rw [hnever, Bool.false_and]
  exact ⟨rfl, rfl, rfl, rfl⟩

/-- if it puts nobody into quarantine, an offer leaves a similar registry -/
theorem similar_offer {target : String} {signature : Option Signature} {s : RunState} {p : Patch}
    (h : s.registry.Spares (offer target signature s p).outcomes) :
    Similar s.registry (offer target signature s p).registry := by
  obtain ⟨status, -, he⟩ | ⟨cause, warnings, -, -, he⟩ | ⟨edited, warnings, -, -, he⟩ :=
    offer_cases target signature s p
  · rw [he]
    exact .refl _
  · rw [he] at h ⊢
    rcases h with ht | hf
    · exact similar_countFailure ht p.owner
    · cases hf _ (List.mem_append_right _ List.mem_cons_self)
  · rw [he]
    exact similar_countSuccess _ _ _

end Registry

namespace RunState

variable {target : String} {signature : Option Signature} {s s' : RunState} {p : Patch}

/-- the two runs have come to the same point, in similar registries -/
structure Similar (s s' : RunState) : Prop where
  registry : s.registry.Similar s'.registry
  baseline : s'.baseline = s.baseline
  applied : s'.applied = s.applied
  outcomes : s'.outcomes = s.outcomes

/-- what becomes of a patch is the same in both -/
theorem Similar.offer (h : Similar s s')
    (hs : s.registry.Spares (Registry.offer target signature s p).outcomes) :
    Similar (Registry.offer target signature s p) (Registry.offer target signature s' p) := by
  have hheld : s'.registry.heldBack? s'.applied p = s.registry.heldBack? s.applied p := by
    rw [h.registry.heldBack?, h.applied]
  have hattempt : s'.registry.attempt signature s'.baseline p
      = s.registry.attempt signature s.baseline p := by
    rw [Registry.attempt_congr h.registry.settings h.registry.hierarchy, h.baseline]
  have hsame : (Registry.offer target signature s' p).baseline
        = (Registry.offer target signature s p).baseline ∧
      (Registry.offer target signature s' p).applied
        = (Registry.offer target signature s p).applied ∧
      (Registry.offer target signature s' p).outcomes
        = (Registry.offer target signature s p).outcomes := by
    unfold Registry.offer
    rw [hheld, hattempt, h.applied, h.outcomes]
    cases s.registry.heldBack? s.applied p with
    | some status => exact ⟨h.baseline, rfl, rfl⟩
    | none =>
      cases s.registry.attempt signature s.baseline p with
      | mk result warnings =>
        cases result with
        | ok edited => exact ⟨rfl, rfl, rfl⟩
        | error cause => exact ⟨h.baseline, rfl, rfl⟩
  obtain ⟨hbaseline, happlied, houtcomes⟩ := hsame
  have hs' : s'.registry.Spares (Registry.offer target signature s' p).outcomes := by
    rw [houtcomes]
    exact h.registry.spares hs
  exact
    { registry := ((Registry.similar_offer hs).symm.trans h.registry).trans
        (Registry.similar_offer hs')
      baseline := hbaseline
      applied := happlied
      outcomes := houtcomes }

/-- two runs through the same patches stay at the same points, and the registry of the first one
stays similar to what it was -/
theorem Similar.foldl_offer (h : Similar s s') (ps : List Patch)
    (hs : s.registry.Spares (ps.foldl (Registry.offer target signature) s).outcomes) :
    s.registry.Similar (ps.foldl (Registry.offer target signature) s).registry ∧
      Similar (ps.foldl (Registry.offer target signature) s)
        (ps.foldl (Registry.offer target signature) s') := by
  induction ps generalizing s s' with
  | nil => exact ⟨.refl _, h⟩
  | cons p ps ih =>
    have hfirst : s.registry.Spares (Registry.offer target signature s p).outcomes := by
      obtain ⟨os, -, hos⟩ := Registry.foldl_offer_outcomes target signature
        (Registry.offer target signature s p) ps
      rw [List.foldl_cons, hos] at hs
      exact hs.of_append
    have hregistry := Registry.similar_offer hfirst
    obtain ⟨hrest, hsame⟩ := ih (h.offer hfirst) (hregistry.spares hs)
    exact ⟨hregistry.trans hrest, hsame⟩

end RunState

namespace Registry

variable {r r' : Registry}

/-! ## jobs -/

/-- the report of a job that is run alone -/
def reportOf (r : Registry) (j : Job) : Report := (r.run j.target j.body j.signature).1

theorem runMany_cons (r : Registry) (j : Job) (jobs : List Job) :
    (r.runMany (j :: jobs)).1
      = r.reportOf j :: ((r.run j.target j.body j.signature).2.runMany jobs).1 := rfl

/-- a run that puts nobody into quarantine reports the same in a similar registry, and leaves one
behind -/
theorem Similar.run (h : Similar r r') (j : Job) (hs : r.Spares (r.reportOf j).outcomes) :
    r'.reportOf j = r.reportOf j ∧ Similar r (r'.run j.target j.body j.signature).2 := by
  have hstart : RunState.Similar (r.startOf j.body) (r'.startOf j.body) := ⟨h, rfl, rfl, rfl⟩
  obtain ⟨hkept, hsame⟩ := hstart.foldl_offer (r.patches j.target) hs
  have hpatches := h.patches j.target
  constructor
  · unfold reportOf Registry.run
    rw [hpatches, Report.mk.injEq]
    exact ⟨rfl, hsame.baseline, hsame.outcomes⟩
  · unfold Registry.run
    rw [hpatches]
    exact hkept.trans hsame.registry

/-- jobs that put nobody into quarantine when each is run alone have these reports in a row, too -/
theorem Similar.runMany (h : Similar r r') {jobs : List Job}
    (hs : ∀ j ∈ jobs, r.Spares (r.reportOf j).outcomes) :
    (r'.runMany jobs).1 = jobs.map r.reportOf := by
  induction jobs generalizing r' with
  | nil => rfl
  | cons j jobs ih =>
    obtain ⟨hreport, hkept⟩ := h.run j (hs j List.mem_cons_self)
    rw [runMany_cons, List.map_cons, hreport,
      ih hkept fun j hj => hs j (List.mem_cons_of_mem _ hj)]

/-- if a row of jobs puts nobody into quarantine, none of them does when it is run alone -/
theorem Similar.spares_alone (h : Similar r r') {jobs : List Job}
    (hs : ∀ rep ∈ (r'.runMany jobs).1, r.Spares rep.outcomes) :
    ∀ j ∈ jobs, r.Spares (r.reportOf j).outcomes := by
  induction jobs generalizing r' with
  | nil => exact fun _ hj => absurd hj List.not_mem_nil
  | cons j jobs ih =>
    rw [runMany_cons] at hs
    have hhead : r.Spares (r'.reportOf j).outcomes := hs _ List.mem_cons_self
    obtain ⟨hreport, -⟩ := h.symm.run j (h.spares hhead)
    rw [← hreport] at hhead
    obtain ⟨-, hkept⟩ := h.run j hhead
    intro k hk
    rcases List.mem_cons.mp hk with rfl | hk
    · exact hhead
    · exact ih hkept (fun rep hrep => hs rep (List.mem_cons_of_mem _ hrep)) k hk

/-- **Jobs commute.**  If there is no quarantine, or none of the jobs has a failure, then in every
order each job has the report that it has alone. -/
theorem jobs_commute (r : Registry) {jobs jobs' : List Job} (hjobs : jobs'.Perm jobs)
    (h : r.settings.quarantineThreshold = 0 ∨
      ∀ rep ∈ (r.runMany jobs).1, ∀ o ∈ rep.outcomes, o.status.isFailed = false) :
    (r.runMany jobs).1 = jobs.map r.reportOf ∧
    (r.runMany jobs').1 = jobs'.map r.reportOf ∧
    ∀ (i i' : Nat) (j : Job), jobs[i]? = some j → jobs'[i']? = some j →
      (r.runMany jobs).1[i]? = some (r.reportOf j) ∧
        (r.runMany jobs').1[i']? = some (r.reportOf j) := by
  have hspared : ∀ rep ∈ (r.runMany jobs).1, r.Spares rep.outcomes := fun rep hrep =>
    h.imp_right fun hf => hf rep hrep
  have halone := (Similar.refl r).spares_alone hspared
  have hreports := (Similar.refl r).runMany halone
  have hreports' := (Similar.refl r).runMany fun j hj => halone j (hjobs.mem_iff.mp hj)
  refine ⟨hreports, hreports', fun i i' j hi hi' => ⟨?_, ?_⟩⟩
  · rw [hreports, List.getElem?_map, hi]
    rfl
  · rw [hreports', List.getElem?_map, hi']
    rfl

/-- on one target a patch is applied, on the other one it waits for an anchor -/
def twoTargets : Registry :=
  let settings := { Settings.strictest with validate := false }
  registerAll (registerAll { settings } "Game::Tick"
      [{ owner := "clock", anchor := "mark", edit := Script.edit
          [.command .defineLabel, .command (.markLabel ⟨0⟩)] }]) "Game::Draw"
    [{ owner := "clock", anchor := "frame", dependsOn := ["mark"], edit := Script.edit [] }]

def tick : Job := ⟨"Game::Tick", .ofCode [{ opcode := .ret }], none⟩

def draw : Job := ⟨"Game::Draw", .ofCode [{ opcode := .ret }], none⟩

theorem jobs_commute_twoTargets :
    (∀ rep ∈ (twoTargets.runMany [tick, draw]).1, ∀ o ∈ rep.outcomes,
        o.status.isFailed = false) ∧
      (twoTargets.runMany [draw, tick]).1 = (twoTargets.runMany [tick, draw]).1.reverse := by
  have hclean : ∀ rep ∈ (twoTargets.runMany [tick, draw]).1, ∀ o ∈ rep.outcomes,
      o.status.isFailed = false := by
    simp only [Registry.runMany, Registry.run, tick, draw]
    rw [@patches_of_registered _ "Game::Tick" _ rfl, @patches_of_registered _ "Game::Draw" _ rfl]
    decide +kernel
  have hperm : [draw, tick].Perm [tick, draw] := List.Perm.swap tick draw []
  obtain ⟨hgiven, hswapped, -⟩ := jobs_commute twoTargets hperm (.inr hclean)
  refine ⟨hclean, ?_⟩
  rw [hswapped, hgiven]
  rfl

end Registry

end CilPatch
