import Mathlib.Data.List.Nodup
import CilPatch.Proofs.Code.Splice
import CilPatch.Proofs.Stack.Faults
import CilPatch.Proofs.Stack.Progress

/-!
# Which bodies are accepted

`Body.Verifiable` says what a body must be like for the verifier to accept it, in terms of its
instructions and the paths through them: no blocks, no order of visits, and no hierarchy.
`verify_ok_iff` is the equivalence.  The heights that the verifier records are described in the same
way (`depth?_eq_some_iff`), so that whoever compares the verdicts on two bodies need only compare
their paths.
-/

namespace CilPatch

namespace Body

/-- control may run past the last instruction -/
def RunsOff (b : Body) : Prop :=
  ∃ x passed, b.Path passed (b.length - 1) ∧ b.instruction? (b.length - 1) = some x ∧
    x.opcode.fallsThrough = true

/-- whatever an instruction refers to is attached to some instruction -/
def Resolved (b : Body) : Prop :=
  ∀ i x l, b.instruction? i = some x → l ∈ x.targets → ∃ j, b.Attached l j

/-- control comes to an instruction with one height only -/
def Level (b : Body) (sig : Option Signature) : Prop :=
  ∀ i d d', b.ReachedWith sig i d → b.ReachedWith sig i d' → d = d'

/-- an instruction can be carried out wherever control comes to it -/
def Carried (b : Body) (sig : Option Signature) : Prop :=
  ∀ i x s, b.ReachedWith sig i s.depth → b.instruction? i = some x →
    ∃ t, x.transfer sig i s = .ok t

/-- every reference leads somewhere, control stays inside, comes to each instruction with one
height only, and the instruction can be carried out there -/
structure Verifiable (b : Body) (sig : Option Signature) : Prop where
  nonempty : 0 < b.length
  unique : b.LabelsUnique
  resolved : b.Resolved
  stays : ¬b.RunsOff
  level : b.Level sig
  carried : b.Carried sig

variable {b : Body} {sig : Option Signature}

/-- a path is followed if all that it passes can be carried out -/
theorem Path.exists_reachedWith {passed : List Nat} {i : Nat} (path : b.Path passed i)
    (hc : b.Carried sig) : ∃ d, b.ReachedWith sig i d := by
  induction path with
  | start hpos => exact ⟨0, reachedWith_start hpos⟩
  | step _ hsucc ih =>
    obtain ⟨_, passed, s, path, hs, rfl⟩ := ih
    have hr : b.ReachedWith sig _ s.depth := ⟨passed, s, path, hs, rfl⟩
    obtain ⟨x, hx, -⟩ := id hsucc
    obtain ⟨t, ht⟩ := hc _ x s hr hx
    exact ⟨_, hr.step hx ht hsucc⟩

end Body

/-- no fault can be shown in a body that is verifiable -/
theorem Body.Verifiable.not_witnessed {b : Body} {sig : Option Signature} (hb : b.Verifiable sig)
    (fault : BodyFault) : ¬fault.Witnessed b sig := by
  intro h
  -- the height of a witness is that of a stack which says nothing about types
  have carried : ∀ i x d, b.ReachedWith sig i d → b.instruction? i = some x →
      ∃ t, x.transfer sig i (List.replicate d CilType.unknown) = .ok t := by
    intro i x d hr hx
    refine hb.carried i x _ ?_ hx
    rw [Stack.depth, List.length_replicate]
    exact hr
  cases fault with
  | duplicateLabel l first second => exact hb.unique.not_attachedTwice h
  | danglingLabel i x l =>
    obtain ⟨hx, hl, hnone⟩ := h
    obtain ⟨j, hj⟩ := hb.resolved i x l hx hl
    exact hnone j hj
  | fallsOffEnd i =>
    rcases h with ⟨hnil, -⟩ | ⟨hi, ⟨x, hx, hft⟩, passed, path⟩
    · have hpos := hb.nonempty
      rw [Body.length, hnil] at hpos
      cases hpos
    · have hlast : b.length - 1 = i := by omega
      exact hb.stays ⟨x, passed, hlast.symm ▸ path, hlast.symm ▸ hx, hft⟩
  | stackUnderflow i x required available =>
    obtain ⟨hx, hr, ⟨e, he, rfl⟩, hlt⟩ := h
    obtain ⟨t, ht⟩ := carried i x available hr hx
    have hd : Stack.depth (List.replicate available CilType.unknown) = available :=
      List.length_replicate
    rcases Instruction.transfer_eq_ok_iff.mp ht with ⟨hc, -⟩ | ⟨e', he', hle, -⟩
    · rw [hd, he] at hc
      cases hc
    · rw [hd] at he' hle
      rw [he] at he'
      cases he'
      omega
  | invalidOperand i x =>
    obtain ⟨hx, ⟨d, hr⟩, hop, hm⟩ := h
    obtain ⟨t, ht⟩ := carried i x d hr hx
    have hnone := Instruction.demand_of_method?_eq_none hop hm sig
    rcases Instruction.transfer_eq_ok_iff.mp ht with ⟨hc, -⟩ | ⟨e, he, -⟩
    · rw [hnone] at hc
      cases hc
    · rw [hnone] at he
      cases he
  | heightMismatch k i held arriving =>
    obtain ⟨-, hheld, harriving, hne⟩ := h
    exact hne (hb.level i _ _ hheld harriving)

/-! ## the verifier -/

/-- a profile that solves the body records the height with which control comes to an instruction -/
theorem Profile.Solves.depth?_eq_some_iff {prof : Profile} {b : Body} {sig : Option Signature}
    {h : Hierarchy} (hp : prof.Solves b sig h) {i d : Nat} :
    prof.depth? i = some d ↔ b.ReachedWith sig i d := by
  have hdepth : prof.depth? i = (prof.point? i).map (·.before.depth) := by
    unfold depth? entry?
    rw [Option.map_map]
    rfl
  rw [hdepth]
  constructor
  · intro hd
    obtain ⟨q, hq, rfl⟩ := Option.map_eq_some_iff.mp hd
    exact hp.reached i q hq
  · rintro ⟨passed, s, path, hs, rfl⟩
    obtain ⟨s', q, hs', hq, hfits⟩ := hp.follow path
    rw [hs] at hs'
    cases hs'
    rw [hq]
    exact congrArg some hfits.depth_eq.symm

/-- a body is verifiable if it has a graph and a profile that solves it -/
theorem Profile.Solves.verifiable {prof : Profile} {b : Body} {sig : Option Signature}
    {h : Hierarchy} {g : FlowGraph} (hp : prof.Solves b sig h) (hu : b.LabelsUnique)
    (hg : FlowGraph.ofBody b = .ok g) : b.Verifiable sig := by
  obtain ⟨⟨index, hix⟩, hrefines, hfalls⟩ := FlowGraph.checked_of_ofBody hg
  refine ⟨hrefines.nonempty, hu, ?_, ?_, ?_, ?_⟩
  · intro i x l hx hl
    obtain ⟨j, hj⟩ := hix.resolved i x l hx hl
    exact ⟨j, (hix.lookup l j).mp hj⟩
  · rintro ⟨x, passed, path, hx, hft⟩
    obtain ⟨blk, hblk, hstop⟩ := hrefines.last
    have hpos := hrefines.nonempty
    have hbounds := hrefines.bounds hblk
    exact FlowGraph.not_mem_order_of_fallsOff hfalls hx hft
      (hrefines.mem_order_of_path path hblk (by omega) (by omega))
  · intro i d d' hd hd'
    have e := hp.depth?_eq_some_iff.mpr hd
    rw [hp.depth?_eq_some_iff.mpr hd'] at e
    exact (Option.some.inj e).symm
  · intro i x s hr hx
    have hdepth := hp.depth?_eq_some_iff.mpr hr
    obtain ⟨m, hm, hd⟩ := Option.map_eq_some_iff.mp hdepth
    obtain ⟨q, hq, rfl⟩ := Option.map_eq_some_iff.mp hm
    obtain ⟨x', hx', htr⟩ := hp.carried i q hq
    rw [hx] at hx'
    cases hx'
    obtain ⟨t, ht, -⟩ := Instruction.transfer_ok_of_depth_eq hd htr
    exact ⟨t, ht⟩

namespace Verifier

variable {v : Verifier} {b : Body}

/-- a body without a flow graph is refused for what it lacks -/
theorem verify_of_error (v : Verifier) (hr : b.hasRegions = false) {f : Failure}
    (hf : FlowGraph.ofBody b = .error f) : v.verify b = .error f := by
  unfold verify
  rw [hr, if_neg Bool.false_ne_true, hf]

/-- a body with a flow graph is judged by its analysis -/
theorem verify_of_ok (v : Verifier) (hr : b.hasRegions = false) {g : FlowGraph}
    (hg : FlowGraph.ofBody b = .ok g) :
    v.verify b = (Analysis.start b g v.signature v.hierarchy).profile.map .analyzed := by
  unfold verify
  rw [hr, if_neg Bool.false_ne_true, hg]
  cases hp : (Analysis.start b g v.signature v.hierarchy).profile <;> simp only [hp] <;> rfl

/-- **What is accepted can be read off the paths through the body.** -/
theorem verify_ok_iff (v : Verifier) (hr : b.hasRegions = false) (hu : b.LabelsUnique) :
    (∃ w, v.verify b = .ok w) ↔ b.Verifiable v.signature := by
  cases hg : FlowGraph.ofBody b with
  | error f =>
    obtain ⟨fault, -, hfault⟩ := FlowGraph.ofBody_witnessed hg v.signature
    rw [v.verify_of_error hr hg]
    exact ⟨fun ⟨w, hw⟩ => (by cases hw), fun hb => absurd hfault (hb.not_witnessed fault)⟩
  | ok g =>
    have ha : (Analysis.start b g v.signature v.hierarchy).Proper := ⟨hg, rfl⟩
    rw [v.verify_of_ok hr hg]
    cases hprof : (Analysis.start b g v.signature v.hierarchy).profile with
    | error f =>
      obtain ⟨fault, -, hfault⟩ := Analysis.profile_witnessed ha hprof
      exact ⟨fun ⟨w, hw⟩ => (by cases hw), fun hb => absurd hfault (hb.not_witnessed fault)⟩
    | ok prof =>
      have hp : prof.Solves b v.signature v.hierarchy := Analysis.profile_solves ha hprof
      exact ⟨fun _ => hp.verifiable hu hg, fun _ => ⟨_, rfl⟩⟩

theorem verify_of_not_labelsUnique (v : Verifier) (hr : b.hasRegions = false)
    (hu : ¬b.LabelsUnique) : ∃ l first second,
      v.verify b = .error (.illFormed (.duplicateLabel l first second)) := by
  cases hindex : b.labelIndex with
  | ok index => exact absurd (Body.labelsUnique_of_labelIndex hindex) hu
  | error fault =>
    obtain ⟨l, first, second, rfl, -⟩ := Body.labelIndex_error hindex
    refine ⟨l, first, second, v.verify_of_error hr ?_⟩
    have hne : ¬b.isEmpty = true := by
      intro he
      unfold Body.LabelsUnique Body.labels at hu
      rw [List.isEmpty_iff.mp he] at hu
      exact hu List.nodup_nil
    unfold FlowGraph.ofBody
    rw [if_neg hne, hindex]

/-- **A body is refused for a label that is attached twice** whenever there is one and the body is
looked at. -/
theorem verify_duplicateLabel_iff (v : Verifier) : (∃ l first second,
      v.verify b = .error (.illFormed (.duplicateLabel l first second))) ↔
    b.hasRegions = false ∧ ¬b.LabelsUnique := by
  refine ⟨?_, fun ⟨hr, hu⟩ => v.verify_of_not_labelsUnique hr hu⟩
  rintro ⟨l, first, second, h⟩
  cases hr : b.hasRegions with
  | true =>
    unfold verify at h
    rw [if_pos hr] at h
    split at h <;> cases h
  | false =>
    refine ⟨rfl, fun hu => ?_⟩
    -- the fault comes from the checks of the labels or from the analysis, and is true either way
    have htwice : (BodyFault.duplicateLabel l first second).Witnessed b v.signature := by
      cases hg : FlowGraph.ofBody b with
      | error f =>
        obtain ⟨fault, rfl, hfault⟩ := FlowGraph.ofBody_witnessed hg v.signature
        rw [v.verify_of_error hr hg] at h
        cases h
        exact hfault
      | ok g =>
        rw [v.verify_of_ok hr hg] at h
        cases hp : (Analysis.start b g v.signature v.hierarchy).profile with
        | error f =>
          obtain ⟨fault, rfl, hfault⟩ :=
            Analysis.profile_witnessed (a := .start b g v.signature v.hierarchy) ⟨hg, rfl⟩ hp
          rw [hp] at h
          cases h
          exact hfault
        | ok prof =>
          rw [hp] at h
          cases h
    exact hu.not_attachedTwice htwice

end Verifier

end CilPatch
