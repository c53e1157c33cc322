import CilPatch.Proofs.Stack.Acceptance
import CilPatch.Proofs.Stack.Heights

/-!
# The verdict does not depend on the hierarchy

Types decide which start moves up, and so how often each block is visited and which types are
recorded in the end.  They decide neither whether a body is accepted nor what is wrong with it:
under any two hierarchies the search takes the same course as far as heights go, so it fails in both
at the same place (`Analysis.solve_alike`) or in neither, and the heights recorded are those of the
paths through the body (`Profile.Solves.sameHeights`).
-/

namespace CilPatch

/-! ## failures -/

/-- the same failure, but for the types on the two stacks that differ in height -/
inductive Failure.Alike : Failure → Failure → Prop where
  | same (f : Failure) : Alike f f
  | heights {k offset : Nat} {held held' arriving arriving' : Stack} :
      held.depth = held'.depth → arriving.depth = arriving'.depth →
        Alike (.illFormed (.heightMismatch k offset held arriving))
          (.illFormed (.heightMismatch k offset held' arriving'))

/-- only a height mismatch is another without its types -/
theorem Failure.blank_cases (f : Failure) :
    f.blank = f ∨ ∃ k offset held arriving,
      f = .illFormed (.heightMismatch k offset held arriving) := by
  cases f with
  | illFormed fault =>
    cases fault with
    | heightMismatch k offset held arriving => exact .inr ⟨k, offset, held, arriving, rfl⟩
    | _ => exact .inl rfl
  | _ => exact .inl rfl

/-- what is the same without its types is alike -/
theorem Failure.alike_of_blank_eq {f f' : Failure} (h : f.blank = f'.blank) : f.Alike f' := by
  rcases f.blank_cases with e | ⟨k, offset, held, arriving, rfl⟩
  · rcases f'.blank_cases with e' | ⟨k, offset, held, arriving, rfl⟩
    · rw [← e, ← e', h]
      exact .same _
    · rw [← e, h]
      exact .heights (Stack.depth_blank _) (Stack.depth_blank _)
  · rcases f'.blank_cases with e' | ⟨k', offset', held', arriving', rfl⟩
    · rw [← e', ← h]
      exact .heights (Stack.depth_blank _).symm (Stack.depth_blank _).symm
    · obtain ⟨rfl, rfl, hheld, harriving⟩ :=
        BodyFault.heightMismatch.inj (Failure.illFormed.inj h)
      have hd := congrArg Stack.depth hheld
      have hd' := congrArg Stack.depth harriving
      rw [Stack.depth_blank, Stack.depth_blank] at hd hd'
      exact .heights hd hd'

/-! ## profiles -/

/-- the heights before and behind an instruction -/
def Point.heights (q : Point) : Nat × Nat := (q.before.depth, q.after.depth)

namespace Profile

/-- two profiles that differ in nothing but types and the number of visits -/
structure SameHeights (p p' : Profile) : Prop where
  entry : ∀ i, p.depth? i = p'.depth? i
  exit : ∀ i, (p.exit? i).map Stack.depth = (p'.exit? i).map Stack.depth
  reachable : ∀ i, p.isReachable i = p'.isReachable i
  maxDepth : p.maxDepth = p'.maxDepth
  blockCount : p.blockCount = p'.blockCount

variable {p p' : Profile} {b : Body} {sig : Option Signature} {h h' : Hierarchy}

theorem depth?_eq (p : Profile) (i : Nat) :
    p.depth? i = ((p.point? i).map Point.heights).map Prod.fst := by
  unfold depth? entry?
  rw [Option.map_map, Option.map_map]
  rfl

theorem exit?_depth (p : Profile) (i : Nat) :
    (p.exit? i).map Stack.depth = ((p.point? i).map Point.heights).map Prod.snd := by
  unfold exit?
  rw [Option.map_map, Option.map_map]
  rfl

theorem isReachable_eq (p : Profile) (i : Nat) :
    p.isReachable i = ((p.point? i).map Point.heights).isSome := by
  unfold isReachable entry?
  rw [Option.isSome_map, Option.isSome_map]

theorem maxDepth_eq (p : Profile) :
    p.maxDepth = (p.points.map (·.map Point.heights)).foldl (fun n d =>
      match d with
      | none => n
      | some (before, after) => max n (max before after)) 0 := by
  unfold maxDepth
  rw [List.foldl_map]
  congr 1
  funext n o
  cases o <;> rfl

/-- profiles of one body that agree on all points -/
theorem sameHeights_of_points (hp : ∀ i, (p.point? i).map Point.heights =
    (p'.point? i).map Point.heights) (hlen : p.points.length = p'.points.length)
    (hcount : p.blockCount = p'.blockCount) : p.SameHeights p' where
  entry i := by rw [depth?_eq, depth?_eq, hp]
  exit i := by rw [exit?_depth, exit?_depth, hp]
  reachable i := by rw [isReachable_eq, isReachable_eq, hp]
  maxDepth := by
    rw [maxDepth_eq, maxDepth_eq]
    congr 1
    refine List.ext_getElem? fun i => ?_
    rw [List.getElem?_map, List.getElem?_map]
    by_cases hi : i < p.points.length
    · have hi' : i < p'.points.length := hlen ▸ hi
      have hpi := hp i
      unfold point? at hpi
      rw [List.getElem?_eq_getElem hi, List.getElem?_eq_getElem hi'] at hpi ⊢
      exact congrArg some hpi
    · rw [List.getElem?_eq_none (Nat.not_lt.mp hi), List.getElem?_eq_none (by omega)]
  blockCount := hcount

/-- **The heights are those of the paths**, under any hierarchy. -/
theorem Solves.heights_eq (hp : p.Solves b sig h) (hp' : p'.Solves b sig h') (i : Nat) :
    (p.point? i).map Point.heights = (p'.point? i).map Point.heights := by
  have hsame : p.depth? i = p'.depth? i :=
    Option.ext fun d => hp.depth?_eq_some_iff.trans hp'.depth?_eq_some_iff.symm
  rw [depth?_eq, depth?_eq, Option.map_map, Option.map_map] at hsame
  cases hq : p.point? i with
  | none =>
    rw [hq] at hsame
    rw [Option.map_eq_none_iff.mp hsame.symm]
  | some q =>
    rw [hq] at hsame
    obtain ⟨q', hq', hd⟩ := Option.map_eq_some_iff.mp hsame.symm
    obtain ⟨x, hx, ht⟩ := hp.carried i q hq
    obtain ⟨x', hx', ht'⟩ := hp'.carried i q' hq'
    rw [hx] at hx'
    cases hx'
    obtain ⟨t, ht'', hafter⟩ := Instruction.transfer_ok_of_depth_eq hd ht'
    rw [ht] at ht''
    cases ht''
    rw [hq']
    exact congrArg some (Prod.ext hd.symm hafter.symm)

end Profile

/-! ## analyses -/

namespace Analysis

variable {a : Analysis} {q : Progress} {prof : Profile}

/-- a block that has been run from its start is traced without a fault -/
theorem exists_traceBlock (hv : a.Valid q) (hc : ∀ k s, q.Held k s → a.Closed q k s) {k : Nat}
    {blk : Block} (hblk : a.graph.block? k = some blk) :
    ∃ points, a.traceBlock q.starts k blk = .ok points := by
  unfold traceBlock
  cases hs : q.starts[k]? with
  | none =>
    have hlt := FlowGraph.Refines.lt_blockCount hblk
    rw [Array.getElem?_eq_none_iff, hv.size] at hs
    omega
  | some o =>
    cases o with
    | none => exact ⟨_, rfl⟩
    | some s =>
      obtain ⟨t, ht, -⟩ := hc k s hs blk hblk
      cases htrace : a.traceCode s (blk.instructions a.body) with
      | error fault =>
        rw [traceCode_error htrace] at ht
        cases ht
      | ok points => exact ⟨points, by simp only [htrace]⟩

theorem exists_traceBlocks (hv : a.Valid q) (hc : ∀ k s, q.Held k s → a.Closed q k s)
    {bs : List (Block × Nat)} (hbs : ∀ entry ∈ bs, a.graph.block? entry.2 = some entry.1) :
    ∃ points, a.traceBlocks q.starts bs = .ok points := by
  induction bs with
  | nil => exact ⟨[], rfl⟩
  | cons entry bs ih =>
    obtain ⟨points, hpoints⟩ := exists_traceBlock hv hc (hbs entry List.mem_cons_self)
    obtain ⟨more, hmore⟩ := ih fun entry hentry => hbs entry (List.mem_cons_of_mem _ hentry)
    refine ⟨points ++ more, ?_⟩
    rw [traceBlocks, hpoints, hmore]

/-- the search over, the stacks around all instructions of the body are found -/
theorem exists_points (ha : a.Proper) (h : a.solve = .ok q) :
    ∃ points, a.traceBlocks q.starts a.graph.blocks.zipIdx = .ok points ∧
      points.length = a.body.length := by
  obtain ⟨hv, hc⟩ := closed_of_solve ha h
  obtain ⟨points, hpoints⟩ :=
    exists_traceBlocks hv hc fun _ hentry => FlowGraph.block?_of_mem_zipIdx hentry
  exact ⟨points, hpoints, (traceBlocks_ok ha.refines.tile hpoints).1⟩

/-- the last pass does not fail, since it repeats what the search has done -/
theorem profile_of_solve (ha : a.Proper) (h : a.solve = .ok q) :
    ∃ points, a.profile = .ok ⟨points, a.graph.blockCount, q.visits⟩ := by
  obtain ⟨points, hpoints, -⟩ := exists_points ha h
  refine ⟨points, ?_⟩
  unfold profile
  rw [h]
  simp only [hpoints]

theorem length_profile (ha : a.Proper) (h : a.profile = .ok prof) :
    prof.points.length = a.body.length := by
  obtain ⟨q, hf⟩ := finished_of_profile ha h
  exact (traceBlocks_ok ha.refines.tile hf.traced).1

/-- **The search fails in both analyses, and alike, or in neither.** -/
theorem solve_alike {b : Body} {g : FlowGraph} (hg : FlowGraph.ofBody b = .ok g)
    (sig : Option Signature) (h h' : Hierarchy) :
    (∃ q q', (start b g sig h).solve = .ok q ∧ (start b g sig h').solve = .ok q') ∨
      ∃ f f', (start b g sig h).solve = .error f ∧ (start b g sig h').solve = .error f' ∧
        f.Alike f' := by
  have hends := solve_ends (a := start b g sig h) ⟨hg, rfl⟩
  have hends' := solve_ends (a := start b g sig h') ⟨hg, rfl⟩
  have hseen : Progress.seen (start b g sig h).solve = Progress.seen (start b g sig h').solve :=
    hends.unique hends'
  cases hq : (start b g sig h).solve with
  | ok q =>
    cases hq' : (start b g sig h').solve with
    | ok q' => exact .inl ⟨q, q', rfl, rfl⟩
    | error f' =>
      rw [hq, hq'] at hseen
      cases hseen
  | error f =>
    cases hq' : (start b g sig h').solve with
    | ok q' =>
      rw [hq, hq'] at hseen
      cases hseen
    | error f' =>
      rw [hq, hq'] at hseen
      exact .inr ⟨f, f', rfl, rfl, Failure.alike_of_blank_eq (Except.error.inj hseen)⟩

/-- the whole analysis fails in both, and alike, or in neither -/
theorem profile_alike {b : Body} {g : FlowGraph} (hg : FlowGraph.ofBody b = .ok g)
    (sig : Option Signature) (h h' : Hierarchy) :
    (∃ prof prof', (start b g sig h).profile = .ok prof ∧ (start b g sig h').profile = .ok prof' ∧
        prof.SameHeights prof') ∨
      ∃ f f', (start b g sig h).profile = .error f ∧ (start b g sig h').profile = .error f' ∧
        f.Alike f' := by
  have ha : (start b g sig h).Proper := ⟨hg, rfl⟩
  have ha' : (start b g sig h').Proper := ⟨hg, rfl⟩
  rcases solve_alike hg sig h h' with ⟨q, q', hq, hq'⟩ | ⟨f, f', hf, hf', halike⟩
  · obtain ⟨points, hp⟩ := profile_of_solve ha hq
    obtain ⟨points', hp'⟩ := profile_of_solve ha' hq'
    have hsolves := profile_solves ha hp
    have hsolves' := profile_solves ha' hp'
    have hlen := (length_profile ha hp).trans (length_profile ha' hp').symm
    exact .inl ⟨_, _, hp, hp',
      Profile.sameHeights_of_points (hsolves.heights_eq hsolves') hlen rfl⟩
  · refine .inr ⟨f, f', ?_, ?_, halike⟩
    · unfold profile
      rw [hf]
    · unfold profile
      rw [hf']

end Analysis

/-! ## verdicts -/

/-- a body was analyzed twice, with the same heights, or refused twice, for the same failure -/
def Verdict.Alike (w w' : Except Failure Verdict) : Prop :=
  (∃ prof prof', w = .ok (.analyzed prof) ∧ w' = .ok (.analyzed prof') ∧ prof.SameHeights prof') ∨
    ∃ f f', w = .error f ∧ w' = .error f' ∧ f.Alike f'

namespace Verifier

variable {b : Body}

/-- bodies with protected regions are passed over or refused without a look at them -/
theorem verify_of_regions (v : Verifier) (hr : b.hasRegions = true) :
    v.verify b =
      match v.regionRule with
      | .skip => .ok (.notApplicable b.regions.length)
      | .reject => .error .notSupported := by
  unfold verify
  exact if_pos hr

/-- without protected regions, verdicts under two hierarchies are alike -/
theorem verify_alike (hr : b.hasRegions = false) (sig : Option Signature) (rule : RegionRule)
    (h h' : Hierarchy) :
    Verdict.Alike ((Verifier.mk sig h rule).verify b) ((Verifier.mk sig h' rule).verify b) := by
  cases hg : FlowGraph.ofBody b with
  | error f =>
    rw [verify_of_error _ hr hg, verify_of_error _ hr hg]
    exact .inr ⟨f, f, rfl, rfl, .same f⟩
  | ok g =>
    rw [verify_of_ok _ hr hg, verify_of_ok _ hr hg]
    rcases Analysis.profile_alike hg sig h h' with
      ⟨prof, prof', hp, hp', hsame⟩ | ⟨f, f', hf, hf', halike⟩
    · rw [hp, hp']
      exact .inl ⟨prof, prof', rfl, rfl, hsame⟩
    · rw [hf, hf']
      exact .inr ⟨f, f', rfl, rfl, halike⟩

end Verifier

/-- **The verdict does not depend on the hierarchy.**  Under any two of them the verdicts are alike,
or the body is passed over in both: just the bodies with protected regions are, where the rule is to
skip them. -/
theorem verdict_blind_to_hierarchy (b : Body) (sig : Option Signature) (rule : RegionRule)
    (h h' : Hierarchy) :
    let verdict := (Verifier.mk sig h rule).verify b
    let verdict' := (Verifier.mk sig h' rule).verify b
    (b.hasRegions = true ∧ rule = .skip ∧ verdict = .ok (.notApplicable b.regions.length) ∧
        verdict' = .ok (.notApplicable b.regions.length)) ∨
      ((b.hasRegions = false ∨ rule = .reject) ∧ Verdict.Alike verdict verdict') := by
  intro verdict verdict'
  cases hr : b.hasRegions with
  | false => exact .inr ⟨.inl rfl, Verifier.verify_alike hr sig rule h h'⟩
  | true =>
    have e : verdict = _ := Verifier.verify_of_regions _ hr
    have e' : verdict' = _ := Verifier.verify_of_regions _ hr
    rw [e, e']
    cases rule with
    | skip => exact .inl ⟨rfl, rfl, rfl, rfl⟩
    | reject => exact .inr ⟨.inr rfl, .inr ⟨_, _, rfl, rfl, .same _⟩⟩

/-- a method that does nothing but clean up behind nothing -/
def guardedReturn : Body :=
  { Body.ofCode
      [{ opcode := .nop, labels := [⟨0⟩] },
       { opcode := .endfinally, labels := [⟨1⟩] },
       { opcode := .ret, labels := [⟨2⟩] }] with
    regions := [⟨.finally, ⟨0⟩, ⟨1⟩, ⟨1⟩, ⟨2⟩⟩] }

/-- a body that is passed over is neither analyzed nor refused -/
theorem guardedReturn_passed_over :
    ¬Verdict.Alike ((Verifier.mk none .empty .skip).verify guardedReturn)
      ((Verifier.mk none circle .skip).verify guardedReturn) := by
  rw [Verifier.verify_of_regions _ rfl]
  rintro (⟨prof, -, e, -⟩ | ⟨f, -, e, -⟩)
  · cases e
  · cases e

end CilPatch
