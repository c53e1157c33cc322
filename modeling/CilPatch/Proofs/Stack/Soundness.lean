import CilPatch.Proofs.Stack.Budget

/-!
# A profile holds on every run

`Profile.Solves` says of a profile what can be said instruction by instruction: the first
instruction starts with the empty stack, the stacks around an instruction are those before and
behind its transfer, the stack behind an instruction fits the one before each of its successors,
and nothing is recorded where no path comes.  `profile_solves` reads it off the blocks, whose starts
no longer change once the iteration is done.

From there on blocks are forgotten.  `Profile.Solves.follow` goes along a path, and
`analyzed_sound` is the whole statement about the verifier.
-/

namespace CilPatch

/-- the profile fits the instructions of the body and the control flow between them -/
structure Profile.Solves (prof : Profile) (b : Body) (sig : Option Signature) (h : Hierarchy) :
    Prop where
  entry : ∃ q, prof.point? 0 = some q ∧ q.before = []
  carried : ∀ i q, prof.point? i = some q →
    ∃ x, b.instruction? i = some x ∧ x.transfer sig i q.before = .ok q.after
  onward : ∀ i j q, prof.point? i = some q → b.Successor i j →
    ∃ q', prof.point? j = some q' ∧ Stack.Fits h q.after q'.before
  reached : ∀ i q, prof.point? i = some q → b.ReachedWith sig i q.before.depth

namespace Analysis

variable {a : Analysis} {starts : Array (Option Stack)}

/-! ## the points of a block -/

theorem length_traceBlock {k : Nat} {blk : Block} {part : List (Option Point)}
    (hle : blk.stop ≤ a.body.length) (h : a.traceBlock starts k blk = .ok part) :
    part.length = blk.stop - blk.start := by
  unfold traceBlock at h
  split at h
  · cases h
  · cases h
    exact List.length_replicate
  · next s hs =>
    split at h
    · cases h
    · next points hpoints =>
      cases h
      rw [(traceCode_ok hpoints).1, Block.instructions_eq, Body.length_stretch _ hle]

/-- the points of the blocks stand one behind the other -/
theorem traceBlocks_ok {bs : List Block} {id lo : Nat} {points : List (Option Point)}
    (ht : Block.Tile id lo a.body.length bs)
    (h : a.traceBlocks starts (bs.zipIdx id) = .ok points) :
    points.length = a.body.length - lo ∧ ∀ k blk, bs[k]? = some blk →
      ∃ part, a.traceBlock starts (id + k) blk = .ok part ∧
        ∀ i, blk.start ≤ i → i < blk.stop → points[i - lo]? = part[i - blk.start]? := by
  induction bs generalizing id lo points with
  | nil =>
    cases h
    have e : lo = a.body.length := ht
    rw [e, Nat.sub_self]
    exact ⟨rfl, fun k blk hk => by cases hk⟩
  | cons c bs ih =>
    obtain ⟨-, rfl, hlt, hrest⟩ := ht
    have hle := hrest.le
    rw [List.zipIdx_cons, traceBlocks] at h
    split at h
    · cases h
    · next part hpart =>
      have hlen := length_traceBlock hle hpart
      split at h
      · cases h
      · next more hmore =>
        cases h
        obtain ⟨hlen', hget⟩ := ih hrest hmore
        refine ⟨by rw [List.length_append]; omega, fun k blk hk => ?_⟩
        cases k with
        | zero =>
          cases hk
          refine ⟨part, hpart, fun i h1 h2 => ?_⟩
          rw [List.getElem?_append_left (by omega)]
        | succ k =>
          obtain ⟨part', hpart', hsame⟩ := hget k blk hk
          obtain ⟨-, hge, -, -⟩ := hrest.get hk
          refine ⟨part', ?_, fun i h1 h2 => ?_⟩
          · rw [show id + (k + 1) = id + 1 + k by omega]
            exact hpart'
          · rw [List.getElem?_append_right (by omega), hlen,
              show i - c.start - (c.stop - c.start) = i - c.stop by omega]
            exact hsame i h1 h2

/-- what a profile records at an instruction of block `k`, whose start is `s` -/
structure Recorded (a : Analysis) (blk : Block) (s : Stack) (i : Nat) (q : Point) : Prop where
  before : a.runCode s (a.body.stretch blk.start i) = .ok q.before
  carried : ∃ x, a.body.instruction? i = some x ∧
    x.transfer a.signature i q.before = .ok q.after

theorem point?_of_block {q : Progress} {prof : Profile} (hg : a.graph.Refines a.body)
    (h : a.traceBlocks q.starts a.graph.blocks.zipIdx = .ok prof.points) {k i : Nat} {blk : Block}
    (hblk : a.graph.block? k = some blk) (h1 : blk.start ≤ i) (h2 : i < blk.stop) :
    (q.starts[k]? = some none ∧ prof.point? i = none) ∨
      ∃ s pt, q.Held k s ∧ prof.point? i = some pt ∧ a.Recorded blk s i pt := by
  obtain ⟨part, hpart, hsame⟩ :=
    (traceBlocks_ok hg.tile h).2 k blk ((FlowGraph.getElem?_blocks _ k).trans hblk)
  have hpoint : prof.point? i = part[i - blk.start]?.join := by
    have e := hsame i h1 h2
    rw [Nat.sub_zero] at e
    exact congrArg Option.join e
  rw [Nat.zero_add] at hpart
  rw [hpoint]
  unfold traceBlock at hpart
  split at hpart
  · cases hpart
  · next hn =>
    cases hpart
    have hin : i - blk.start < blk.size := by
      unfold Block.size
      omega
    rw [List.getElem?_replicate, if_pos hin]
    exact .inl ⟨hn, rfl⟩
  · next s hs =>
    split at hpart
    · cases hpart
    · next points hpoints =>
      cases hpart
      rw [Block.instructions_eq] at hpoints
      obtain ⟨pt, x, hget, hx, hrun, htr⟩ :=
        traceCode_stretch (hg.bounds hblk).2 hpoints h1 h2
      rw [hget]
      exact .inr ⟨s, pt, hs, rfl, hrun, x, hx, htr⟩

/-! ## the profile of a finished analysis -/

/-- the iteration has stopped at `q`, and the profile is traced from there -/
structure Finished (a : Analysis) (q : Progress) (prof : Profile) : Prop where
  proper : a.Proper
  valid : a.Valid q
  closed : ∀ k s, q.Held k s → a.Closed q k s
  traced : a.traceBlocks q.starts a.graph.blocks.zipIdx = .ok prof.points

/-- where the search ends, every block has been run from the start it has -/
theorem closed_of_solve {q : Progress} (ha : a.Proper) (h : a.solve = .ok q) :
    a.Valid q ∧ ∀ k s, q.Held k s → a.Closed q k s := by
  obtain ⟨hv, hs⟩ := run_ok ha (initial_ok ha).1 (initial_ok ha).2 h
  refine ⟨hv, fun k s hks => (hs k s hks).resolve_left ?_⟩
  rw [solve_done ha h]
  exact List.not_mem_nil

theorem finished_of_profile (ha : a.Proper) {prof : Profile} (h : a.profile = .ok prof) :
    ∃ q, a.Finished q prof := by
  unfold profile at h
  split at h
  · cases h
  · next q hq =>
    split at h
    · cases h
    · next points hpoints =>
      cases h
      obtain ⟨hv, hc⟩ := closed_of_solve ha hq
      exact ⟨q, ha, hv, hc, hpoints⟩

variable {q : Progress} {prof : Profile}

/-- a point lies in a block whose start is known, and is recorded from that start on -/
theorem Finished.recorded (hf : a.Finished q prof) {i : Nat} {pt : Point}
    (hpt : prof.point? i = some pt) :
    ∃ k blk s, a.graph.block? k = some blk ∧ blk.start ≤ i ∧ i < blk.stop ∧ q.Held k s ∧
      a.Recorded blk s i pt := by
  have hg := hf.proper.refines
  have hi : i < prof.points.length := by
    unfold Profile.point? at hpt
    rw [Option.join_eq_some_iff] at hpt
    exact (List.getElem?_eq_some_iff.mp hpt).1
  rw [(traceBlocks_ok hg.tile hf.traced).1] at hi
  obtain ⟨k, blk, hblk, h1, h2⟩ := hg.exists_block_at (show i < a.body.length by omega)
  rcases point?_of_block hg hf.traced hblk h1 h2 with ⟨-, hn⟩ | ⟨s, pt', hks, hpt', hrec⟩
  · rw [hn] at hpt
    cases hpt
  · rw [hpt] at hpt'
    cases hpt'
    exact ⟨k, blk, s, hblk, h1, h2, hks, hrec⟩

/-- a block whose start is known records all of its points -/
theorem Finished.point_of_held (hf : a.Finished q prof) {k i : Nat} {blk : Block} {s : Stack}
    (hblk : a.graph.block? k = some blk) (hks : q.Held k s) (h1 : blk.start ≤ i)
    (h2 : i < blk.stop) : ∃ pt, prof.point? i = some pt ∧ a.Recorded blk s i pt := by
  rcases point?_of_block hf.proper.refines hf.traced hblk h1 h2 with
    ⟨hn, -⟩ | ⟨s', pt, hks', hpt, hrec⟩
  · unfold Progress.Held at hks
    rw [hn] at hks
    cases hks
  · rw [hks.unique hks']
    exact ⟨pt, hpt, hrec⟩

/-- the first point of a block has the start of the block before it -/
theorem Finished.point_of_start (hf : a.Finished q prof) {k : Nat} {blk : Block} {s : Stack}
    (hblk : a.graph.block? k = some blk) (hks : q.Held k s) :
    ∃ pt, prof.point? blk.start = some pt ∧ pt.before = s := by
  obtain ⟨hlt, -⟩ := hf.proper.refines.bounds hblk
  obtain ⟨pt, hpt, hrec⟩ := hf.point_of_held hblk hks (Nat.le_refl _) hlt
  have hrun := hrec.before
  rw [Body.stretch_self] at hrun
  exact ⟨pt, hpt, (Except.ok.inj hrun).symm⟩

/-- the stack behind a recorded instruction is the one behind the stretch that it ends -/
theorem Recorded.after {blk : Block} {s : Stack} {i : Nat} {pt : Point}
    (h : a.Recorded blk s i pt) (h1 : blk.start ≤ i) :
    a.runCode s (a.body.stretch blk.start (i + 1)) = .ok pt.after := by
  obtain ⟨x, hx, htr⟩ := h.carried
  rw [Body.stretch_succ h1 hx, runCode_concat, h.before]
  exact htr

theorem Finished.onward (hf : a.Finished q prof) {i j : Nat} {pt : Point}
    (hpt : prof.point? i = some pt) (hsucc : a.body.Successor i j) :
    ∃ pt', prof.point? j = some pt' ∧ Stack.Fits a.hierarchy pt.after pt'.before := by
  have hg := hf.proper.refines
  obtain ⟨k, blk, s, hblk, h1, h2, hks, hrec⟩ := hf.recorded hpt
  have hafter := hrec.after h1
  by_cases hin : i + 1 < blk.stop
  · rw [(hg.inside k blk i hblk h1 hin j).mp hsucc]
    obtain ⟨pt', hpt', hrec'⟩ := hf.point_of_held hblk hks (show blk.start ≤ i + 1 by omega) hin
    have e := hrec'.before
    rw [hafter] at e
    rw [Except.ok.inj e]
    exact ⟨pt', hpt', Stack.fits_refl _ _⟩
  · have hlast : i = blk.last := by
      unfold Block.last
      omega
    rw [hlast] at hsucc
    obtain ⟨k', blk', hadj, hblk', rfl⟩ := (hg.outward k blk hblk j).mp hsucc
    obtain ⟨t, ht, hnext⟩ := hf.closed k s hks blk hblk
    obtain ⟨m, hm, hfits⟩ := hnext k' hadj
    obtain ⟨pt', hpt', hbefore⟩ := hf.point_of_start hblk' hm
    rw [Block.instructions_eq, show blk.stop = i + 1 by omega, hafter] at ht
    rw [Except.ok.inj ht]
    exact ⟨pt', hpt', hbefore ▸ hfits⟩

/-- **What the iteration finds solves the body.** -/
theorem profile_solves (ha : a.Proper) (h : a.profile = .ok prof) :
    prof.Solves a.body a.signature a.hierarchy := by
  obtain ⟨q, hf⟩ := finished_of_profile ha h
  have hg := ha.refines
  refine ⟨?_, ?_, fun i j pt hpt hsucc => hf.onward hpt hsucc, ?_⟩
  · obtain ⟨blk, hblk, hstart⟩ := hg.entry
    rw [← hstart]
    exact hf.point_of_start hblk hf.valid.entry
  · intro i pt hpt
    obtain ⟨k, blk, s, -, -, -, -, hrec⟩ := hf.recorded hpt
    exact hrec.carried
  · intro i pt hpt
    obtain ⟨k, blk, s, hblk, h1, h2, hks, hrec⟩ := hf.recorded hpt
    exact (ha.straight hblk).reachedWith (hg.bounds hblk).2 (hf.valid.reached k s blk hks hblk)
      h1 h2 hrec.before

end Analysis

/-! ## along a path -/

namespace Profile.Solves

variable {prof : Profile} {b : Body} {sig : Option Signature} {h : Hierarchy}

/-- what is on the stack where a path comes fits what is recorded there -/
theorem follow (hp : prof.Solves b sig h) {passed : List Nat} {i : Nat} (path : b.Path passed i) :
    ∃ s q, b.follow sig passed = some s ∧ prof.point? i = some q ∧ Stack.Fits h s q.before := by
  induction path with
  | start =>
    obtain ⟨q, hq, he⟩ := hp.entry
    exact ⟨[], q, Body.follow_nil, hq, he ▸ Stack.fits_refl h []⟩
  | step _ hsucc ih =>
    obtain ⟨s, q, hs, hq, hfits⟩ := ih
    obtain ⟨x, hx, htr⟩ := hp.carried _ q hq
    obtain ⟨t, ht, -⟩ := Instruction.transfer_ok_of_depth_eq hfits.depth_eq.symm htr
    obtain ⟨t', ht', hfits'⟩ := Instruction.transfer_mono hfits ht
    rw [htr] at ht'
    cases ht'
    obtain ⟨q', hq', hon⟩ := hp.onward _ _ q hq hsucc
    refine ⟨t, q', ?_, hq', Stack.fits_trans hfits' hon⟩
    rw [Body.follow_append, hs]
    exact Body.carryOut_eq_some_iff.mpr ⟨x, hx, ht⟩

theorem point?_isSome_iff (hp : prof.Solves b sig h) (i : Nat) :
    (prof.point? i).isSome = true ↔ ∃ passed, b.Path passed i := by
  constructor
  · intro hi
    obtain ⟨q, hq⟩ := Option.isSome_iff_exists.mp hi
    obtain ⟨passed, -, path, -, -⟩ := hp.reached i q hq
    exact ⟨passed, path⟩
  · rintro ⟨passed, path⟩
    obtain ⟨-, q, -, hq, -⟩ := hp.follow path
    rw [hq]
    rfl

end Profile.Solves

theorem verify_analyzed {v : Verifier} {b : Body} {prof : Profile}
    (h : v.verify b = .ok (.analyzed prof)) : prof.Solves b v.signature v.hierarchy := by
  unfold Verifier.verify at h
  split at h
  · split at h <;> cases h
  · split at h
    · cases h
    · next g hg =>
      split at h
      · cases h
      · next prof' hprof =>
        cases h
        exact Analysis.profile_solves ⟨hg, rfl⟩ hprof

/-- **What the verifier records is true of every run.**  Along every path the instructions can be
carried out, and the stack a path leaves fits the recorded one; stacks are recorded exactly where
paths come, and those behind an instruction follow from those before it. -/
theorem analyzed_sound {v : Verifier} {b : Body} {prof : Profile}
    (h : v.verify b = .ok (.analyzed prof)) :
    (∀ passed i, b.Path passed i → ∃ s m t, b.follow v.signature passed = some s ∧
        prof.entry? i = some m ∧ Stack.Fits v.hierarchy s m ∧
          b.follow v.signature (passed ++ [i]) = some t) ∧
      (∀ i, (prof.entry? i).isSome = true ↔ ∃ passed, b.Path passed i) ∧
      (∀ i, (prof.exit? i).isSome = true ↔ ∃ passed, b.Path passed i) ∧
      ∀ i m, prof.entry? i = some m → ∃ x t, b.instruction? i = some x ∧
        x.transfer v.signature i m = .ok t ∧ prof.exit? i = some t := by
  have hp := verify_analyzed h
  refine ⟨?_, ?_, ?_, ?_⟩
  · intro passed i path
    obtain ⟨s, q, hs, hq, hfits⟩ := hp.follow path
    obtain ⟨x, hx, htr⟩ := hp.carried i q hq
    obtain ⟨t, ht, -⟩ := Instruction.transfer_ok_of_depth_eq hfits.depth_eq.symm htr
    refine ⟨s, q.before, t, hs, congrArg (Option.map Point.before) hq, hfits, ?_⟩
    rw [Body.follow_append, hs]
    exact Body.carryOut_eq_some_iff.mpr ⟨x, hx, ht⟩
  · intro i
    rw [← hp.point?_isSome_iff]
    exact Bool.eq_iff_iff.mp Option.isSome_map
  · intro i
    rw [← hp.point?_isSome_iff]
    exact Bool.eq_iff_iff.mp Option.isSome_map
  · intro i m hm
    obtain ⟨q, hq, rfl⟩ := Option.map_eq_some_iff.mp hm
    obtain ⟨x, hx, htr⟩ := hp.carried i q hq
    exact ⟨x, q.after, hx, htr, congrArg (Option.map Point.after) hq⟩

/-- a loop that is entered again with a value on the stack -/
def keptLoop : Body := .ofCode
  [{ opcode := .ldcI4, operand := .literal (.int32 1) },
   { opcode := .dup, labels := [⟨0⟩] },
   { opcode := .brtrue, operand := .label ⟨0⟩ },
   { opcode := .pop },
   { opcode := .ret }]

def keptLoopProfile : Profile where
  points :=
    [some ⟨[], [.i4]⟩, some ⟨[.i4], [.i4, .i4]⟩, some ⟨[.i4, .i4], [.i4]⟩, some ⟨[.i4], []⟩,
      some ⟨[], []⟩]
  blockCount := 3
  visits := 3

theorem analyzed_sound_keptLoop :
    ({} : Verifier).verify keptLoop = .ok (.analyzed keptLoopProfile) ∧
      ∀ passed i, keptLoop.Path passed i → ∃ s m t, keptLoop.follow none passed = some s ∧
        keptLoopProfile.entry? i = some m ∧ Stack.Fits .empty s m ∧
          keptLoop.follow none (passed ++ [i]) = some t := by
  have h : ({} : Verifier).verify keptLoop = .ok (.analyzed keptLoopProfile) := by decide +kernel
  exact ⟨h, (analyzed_sound h).1⟩

end CilPatch
