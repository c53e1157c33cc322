import CilPatch.Proofs.Flow.Construction
import CilPatch.Proofs.Stack.Order
import CilPatch.Proofs.Stack.Paths
import CilPatch.Stack.Verify

/-!
# Runs of instructions without a jump

`Body.stretch b lo hi` holds the instructions from `lo` to before `hi`, so that a block is one
stretch (`Block.instructions_eq`) and each of its points the end of a shorter one
(`take_stretch`).  A stack at the start of a stretch gives by `runCode` the stack at each of its
points.

* `Straight.reachedWith`       what a path leaves at the start it leaves at every point;
* `Straight.witnessed`         a fault inside is witnessed if a path comes to the start;
* `traceCode_ok`               a trace records just these stacks.
-/

namespace CilPatch

namespace Body

variable {b : Body} {lo hi : Nat}

/-- the instructions from `lo` to before `hi` with their positions -/
def stretch (b : Body) (lo hi : Nat) : List (Nat × Instruction) :=
  (List.range' lo (hi - lo)).zip (b.code.drop lo)

theorem getElem?_stretch (b : Body) (lo hi k : Nat) :
    (b.stretch lo hi)[k]? =
      if k < hi - lo then (b.instruction? (lo + k)).map (lo + k, ·) else none := by
  unfold stretch instruction?
  rw [List.zip, List.getElem?_zipWith, List.getElem?_drop]
  by_cases hk : k < hi - lo
  · rw [if_pos hk, List.getElem?_range' hk, Nat.one_mul]
    cases b.code[lo + k]? <;> rfl
  · have hout : (List.range' lo (hi - lo))[k]? = none := by
      rw [List.getElem?_eq_none_iff, List.length_range']
      omega
    rw [if_neg hk, hout]

theorem take_stretch {i : Nat} (h : i ≤ hi) :
    (b.stretch lo hi).take (i - lo) = b.stretch lo i := by
  refine List.ext_getElem? fun k => ?_
  rw [List.getElem?_take, getElem?_stretch, getElem?_stretch]
  by_cases hk : k < i - lo
  · rw [if_pos hk, if_pos hk, if_pos (by omega)]
  · rw [if_neg hk, if_neg hk]

theorem stretch_self (b : Body) (lo : Nat) : b.stretch lo lo = [] := by
  unfold stretch
  rw [Nat.sub_self]
  rfl

theorem stretch_succ {i : Nat} {x : Instruction} (h : lo ≤ i) (hx : b.instruction? i = some x) :
    b.stretch lo (i + 1) = b.stretch lo i ++ [(i, x)] := by
  have hget : (b.stretch lo (i + 1))[i - lo]? = some (i, x) := by
    rw [getElem?_stretch, if_pos (by omega), show lo + (i - lo) = i by omega, hx]
    rfl
  calc b.stretch lo (i + 1)
      = (b.stretch lo (i + 1)).take (i - lo + 1) := by
        rw [show i - lo + 1 = i + 1 - lo by omega, take_stretch (Nat.le_refl _)]
    _ = b.stretch lo i ++ [(i, x)] := by
        rw [List.take_add_one, take_stretch (Nat.le_succ i), hget]
        rfl

theorem length_stretch (lo : Nat) (h : hi ≤ b.length) : (b.stretch lo hi).length = hi - lo := by
  unfold stretch
  rw [List.length_zip, List.length_range', List.length_drop]
  have h' : hi ≤ b.code.length := h
  omega

theorem exists_instruction {i : Nat} (h : i < b.length) : ∃ x, b.instruction? i = some x :=
  ⟨_, List.getElem?_eq_getElem h⟩

end Body

theorem Block.instructions_eq (blk : Block) (b : Body) :
    blk.instructions b = b.stretch blk.start blk.stop := rfl

namespace Analysis

variable {a : Analysis}

theorem runCode_cons (a : Analysis) (s : Stack) (i : Nat) (x : Instruction)
    (l : List (Nat × Instruction)) :
    a.runCode s ((i, x) :: l) = (x.transfer a.signature i s).bind fun t => a.runCode t l := by
  rw [runCode]
  cases x.transfer a.signature i s <;> rfl

theorem runCode_concat (a : Analysis) (s : Stack) (l : List (Nat × Instruction)) (i : Nat)
    (x : Instruction) :
    a.runCode s (l ++ [(i, x)]) = (a.runCode s l).bind fun t => x.transfer a.signature i t := by
  induction l generalizing s with
  | nil =>
    rw [List.nil_append, runCode_cons]
    show (x.transfer a.signature i s).bind _ = x.transfer a.signature i s
    cases x.transfer a.signature i s <;> rfl
  | cons y l ih =>
    rw [List.cons_append, runCode_cons, runCode_cons]
    cases y.2.transfer a.signature y.1 s with
    | error f => rfl
    | ok t => exact ih t

/-! ## the points of a stretch -/

/-- inside the stretch control goes on from each instruction to the next -/
def Straight (a : Analysis) (lo hi : Nat) : Prop :=
  ∀ i, lo ≤ i → i + 1 < hi → a.body.Successor i (i + 1)

variable {lo hi : Nat} {s : Stack}

/-- **What a path leaves at the start of a stretch it leaves at every point of it.** -/
theorem Straight.reachedWith (hs : a.Straight lo hi) (hle : hi ≤ a.body.length)
    (hr : a.body.ReachedWith a.signature lo s.depth) {i : Nat} (h1 : lo ≤ i) (h2 : i < hi)
    {u : Stack} (h : a.runCode s (a.body.stretch lo i) = .ok u) :
    a.body.ReachedWith a.signature i u.depth := by
  induction i, h1 using Nat.le_induction generalizing u with
  | base =>
    rw [Body.stretch_self] at h
    cases h
    exact hr
  | succ i h1 ih =>
    obtain ⟨x, hx⟩ := Body.exists_instruction (show i < a.body.length by omega)
    rw [Body.stretch_succ h1 hx, runCode_concat] at h
    obtain ⟨t, ht, h⟩ := bind_eq_ok h
    exact (ih (by omega) ht).step hx h (hs i h1 h2)

theorem Straight.witnessed (hs : a.Straight lo hi) (hlo : lo ≤ hi) (hle : hi ≤ a.body.length)
    (hr : a.body.ReachedWith a.signature lo s.depth) {f : BodyFault}
    (h : a.runCode s (a.body.stretch lo hi) = .error f) : f.Witnessed a.body a.signature := by
  -- the induction is on the first points, the whole stretch is the last of them
  suffices hpre : ∀ i, lo ≤ i → i ≤ hi → a.runCode s (a.body.stretch lo i) = .error f →
      f.Witnessed a.body a.signature from hpre hi hlo (Nat.le_refl _) h
  intro i h1 h2 h
  induction i, h1 using Nat.le_induction with
  | base =>
    rw [Body.stretch_self] at h
    cases h
  | succ i h1 ih =>
    obtain ⟨x, hx⟩ := Body.exists_instruction (show i < a.body.length by omega)
    rw [Body.stretch_succ h1 hx, runCode_concat] at h
    cases e : a.runCode s (a.body.stretch lo i) with
    | error f' =>
      rw [e] at h
      cases h
      exact ih (by omega) e
    | ok t =>
      rw [e] at h
      exact (hs.reachedWith hle hr h1 h2 e).witnessed hx h

/-- the stack behind a stretch is the one behind its last instruction -/
theorem runCode_last (hlt : lo < hi) (hle : hi ≤ a.body.length) {t : Stack}
    (h : a.runCode s (a.body.stretch lo hi) = .ok t) :
    ∃ u x, a.runCode s (a.body.stretch lo (hi - 1)) = .ok u ∧
      a.body.instruction? (hi - 1) = some x ∧ x.transfer a.signature (hi - 1) u = .ok t := by
  obtain ⟨x, hx⟩ := Body.exists_instruction (show hi - 1 < a.body.length by omega)
  rw [show hi = hi - 1 + 1 by omega, Body.stretch_succ (by omega) hx, runCode_concat] at h
  obtain ⟨u, hu, h⟩ := bind_eq_ok h
  exact ⟨u, x, hu, hx, h⟩

/-! ## traces -/

theorem traceCode_ok {l : List (Nat × Instruction)} {points : List (Option Point)}
    (h : a.traceCode s l = .ok points) :
    points.length = l.length ∧ ∀ k i x, l[k]? = some (i, x) →
      ∃ q, points[k]? = some (some q) ∧ a.runCode s (l.take k) = .ok q.before ∧
        x.transfer a.signature i q.before = .ok q.after := by
  induction l generalizing s points with
  | nil =>
    cases h
    exact ⟨rfl, fun k i x hk => by cases hk⟩
  | cons y l ih =>
    obtain ⟨j, y⟩ := y
    rw [traceCode] at h
    split at h
    · cases h
    · next t ht =>
      split at h
      · cases h
      · next more hmore =>
        cases h
        obtain ⟨hlen, hget⟩ := ih hmore
        refine ⟨congrArg Nat.succ hlen, fun k i x hk => ?_⟩
        cases k with
        | zero =>
          cases hk
          exact ⟨⟨s, t⟩, rfl, rfl, ht⟩
        | succ k =>
          obtain ⟨q, hq, hrun, htr⟩ := hget k i x hk
          refine ⟨q, hq, ?_, htr⟩
          rw [List.take_succ_cons, runCode_cons, ht]
          exact hrun

theorem traceCode_error {l : List (Nat × Instruction)} {f : BodyFault}
    (h : a.traceCode s l = .error f) : a.runCode s l = .error f := by
  induction l generalizing s with
  | nil => cases h
  | cons y l ih =>
    obtain ⟨j, y⟩ := y
    rw [traceCode] at h
    rw [runCode_cons]
    split at h
    · next f' hf =>
      cases h
      rw [hf]
      rfl
    · next t ht =>
      rw [ht]
      split at h
      · next f' hf =>
        cases h
        exact ih hf
      · cases h

/-- **A trace records the stacks before and behind each instruction.** -/
theorem traceCode_stretch (hle : hi ≤ a.body.length) {points : List (Option Point)}
    (h : a.traceCode s (a.body.stretch lo hi) = .ok points) {i : Nat} (h1 : lo ≤ i) (h2 : i < hi) :
    ∃ q x, points[i - lo]? = some (some q) ∧ a.body.instruction? i = some x ∧
      a.runCode s (a.body.stretch lo i) = .ok q.before ∧
        x.transfer a.signature i q.before = .ok q.after := by
  obtain ⟨x, hx⟩ := Body.exists_instruction (show i < a.body.length by omega)
  have hget : (a.body.stretch lo hi)[i - lo]? = some (i, x) := by
    rw [Body.getElem?_stretch, if_pos (by omega), show lo + (i - lo) = i by omega, hx]
    rfl
  obtain ⟨q, hq, hrun, htr⟩ := (traceCode_ok h).2 _ _ _ hget
  rw [Body.take_stretch (by omega)] at hrun
  exact ⟨q, x, hq, hx, hrun, htr⟩

end Analysis

end CilPatch
