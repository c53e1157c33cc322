import CilPatch.Proofs.Flow.Blocks
import CilPatch.Proofs.Stack.Arrival
import CilPatch.Proofs.Stack.Straight

/-!
# What holds throughout the iteration

* `Valid`      every start was left by some path, so that whatever goes wrong at a block goes wrong
               on a run of the body;
* `Settled`    a block that is not scheduled has been run from the start it has now, and what it
               leaves fits the starts of the blocks behind it.

Both hold at the beginning and are kept by every visit (`visit_ok`).  A visit that fails names a
fault that is witnessed (`visit_error`).
-/

namespace CilPatch

namespace Analysis

variable {a : Analysis} {p p' : Progress}

/-- the analysis is that of a body over its own flow graph -/
structure Proper (a : Analysis) : Prop where
  built : FlowGraph.ofBody a.body = .ok a.graph
  ordered : a.order = a.graph.order

theorem Proper.refines (ha : a.Proper) : a.graph.Refines a.body := FlowGraph.ofBody_ok ha.built

theorem Proper.straight (ha : a.Proper) {k : Nat} {blk : Block} (h : a.graph.block? k = some blk) :
    a.Straight blk.start blk.stop :=
  fun i h1 h2 => (ha.refines.inside k blk i h h1 h2 (i + 1)).mpr rfl

/-! ## the invariants -/

/-- what is known about the starts is true of some path -/
structure Valid (a : Analysis) (p : Progress) : Prop where
  size : p.starts.size = a.graph.blockCount
  entry : p.Held 0 []
  ordered : ∀ k s, p.Held k s → k ∈ a.order
  reached : ∀ k s blk, p.Held k s → a.graph.block? k = some blk →
    a.body.ReachedWith a.signature blk.start s.depth
  scheduled : ∀ r ∈ p.pending, r < a.order.length

/-- block `k` can be run from `s`, and what it leaves fits the starts of the blocks behind it -/
def Closed (a : Analysis) (p : Progress) (k : Nat) (s : Stack) : Prop :=
  ∀ blk, a.graph.block? k = some blk →
    ∃ t, a.runCode s (blk.instructions a.body) = .ok t ∧
      ∀ k', a.graph.graph.Adj k k' → ∃ m, p.Held k' m ∧ Stack.Fits a.hierarchy t m

def Settled (a : Analysis) (p : Progress) : Prop :=
  ∀ k s, p.Held k s → a.order.idxOf k ∈ p.pending ∨ a.Closed p k s

theorem Closed.mono (hg : a.Grows p p') {k : Nat} {s : Stack} (h : a.Closed p k s) :
    a.Closed p' k s := by
  intro blk hblk
  obtain ⟨t, ht, hsucc⟩ := h blk hblk
  refine ⟨t, ht, fun k' hk' => ?_⟩
  obtain ⟨m, hm, htm⟩ := hsucc k' hk'
  obtain ⟨m', hm', hmm'⟩ := hg.up k' m hm
  exact ⟨m', hm', Stack.fits_trans htm hmm'⟩

/-! ## arrivals -/

/-- some path comes to the start of block `k` with a stack as high as `t` -/
def Comes (a : Analysis) (k : Nat) (t : Stack) : Prop :=
  k ∈ a.order ∧ ∀ blk, a.graph.block? k = some blk →
    a.body.ReachedWith a.signature blk.start t.depth

theorem valid_put (hv : a.Valid p) {k : Nat} {m : Stack} (hk : k < p.starts.size)
    (hg : a.Grows p (p.put a k m)) (hc : a.Comes k m) : a.Valid (p.put a k m) where
  size := hg.size.trans hv.size
  entry := by
    obtain ⟨m', hm', hfits⟩ := hg.up 0 [] hv.entry
    rw [Stack.fits_nil_iff.mp hfits] at hm'
    exact hm'
  ordered := by
    intro k' s hs
    rcases (Progress.held_put hk _ _).mp hs with ⟨rfl, -⟩ | ⟨-, hs⟩
    · exact hc.1
    · exact hv.ordered k' s hs
  reached := by
    intro k' s blk hs hblk
    rcases (Progress.held_put hk _ _).mp hs with ⟨rfl, rfl⟩ | ⟨-, hs⟩
    · exact hc.2 blk hblk
    · exact hv.reached k' s blk hs hblk
  scheduled := by
    intro r hr
    rcases mem_schedule.mp hr with rfl | hr
    · exact List.idxOf_lt_length_of_mem hc.1
    · exact hv.scheduled r hr

theorem Valid.arrival (hv : a.Valid p) {k : Nat} {t : Stack} (hc : a.Comes k t)
    (h : a.Arrival p k t p') : a.Valid p' := by
  have hg := h.grows
  cases h with
  | first hn => exact valid_put hv (Array.getElem?_eq_some_iff.mp hn).1 hg hc
  | kept => exact hv
  | raised hh hm hne =>
    refine valid_put hv hh.lt hg ⟨hc.1, fun blk hblk => ?_⟩
    rw [← (Stack.fits_merge_right hm).depth_eq]
    exact hc.2 blk hblk

theorem Valid.arriveAll (hv : a.Valid p) {t : Stack} {ks : List Nat}
    (hc : ∀ k ∈ ks, a.Comes k t) (h : a.arriveAll t p ks = .ok p') : a.Valid p' :=
  arriveAll_induction (fun _ _ k hk hv h => hv.arrival (hc k hk) h) hv h

/-- arrivals fail only where two paths come with stacks of different height -/
theorem arriveAll_error (ha : a.Proper) (hv : a.Valid p) {t : Stack} {ks : List Nat}
    (hc : ∀ k ∈ ks, a.Comes k t) {f : Failure} (h : a.arriveAll t p ks = .error f) :
    ∃ fault, f = .illFormed fault ∧ fault.Witnessed a.body a.signature := by
  induction ks generalizing p with
  | nil => cases h
  | cons k ks ih =>
    rw [Analysis.arriveAll] at h
    split at h
    · next f' hf =>
      cases h
      obtain ⟨hk, hreach⟩ := hc k List.mem_cons_self
      rw [ha.ordered] at hk
      have hlt := ha.refines.lt_of_mem_order hk
      obtain ⟨blk, hblk⟩ := FlowGraph.Refines.exists_block hlt
      obtain ⟨held, hh, hd, rfl⟩ := arrive_error (hv.size.symm ▸ hlt) hblk hf
      refine ⟨_, rfl, ⟨a.graph, blk, ha.built, hblk, rfl⟩, ?_, hreach blk hblk, hd⟩
      exact hv.reached k held blk hh hblk
    · next q hq =>
      refine ih (hv.arrival (hc k List.mem_cons_self) (arrive_ok hq)) ?_ h
      exact fun k' hk' => hc k' (List.mem_cons_of_mem _ hk')

/-! ## visits -/

/-- what a block leaves comes to the blocks behind it -/
theorem comes_of_adj (ha : a.Proper) {k k' : Nat} {blk : Block} {s t : Stack} (hk : k ∈ a.order)
    (hblk : a.graph.block? k = some blk)
    (hr : a.body.ReachedWith a.signature blk.start s.depth)
    (ht : a.runCode s (blk.instructions a.body) = .ok t) (hadj : a.graph.graph.Adj k k') :
    a.Comes k' t := by
  have hg := ha.refines
  obtain ⟨hlt, hle⟩ := hg.bounds hblk
  rw [ha.ordered] at hk
  refine ⟨ha.ordered ▸ hg.mem_order_of_adj hk hadj, fun blk' hblk' => ?_⟩
  rw [Block.instructions_eq] at ht
  obtain ⟨u, x, hu, hx, htr⟩ := runCode_last hlt hle ht
  have hlast := (ha.straight hblk).reachedWith hle hr (by omega) (by omega) hu
  exact hlast.step hx htr ((hg.outward k blk hblk blk'.start).mpr ⟨k', blk', hadj, hblk', rfl⟩)

/-- everything that a visit can do -/
theorem visit_cases (ha : a.Proper) (hv : a.Valid p) {r : Nat} (hr : r < a.order.length) :
    ∃ k blk, a.order[r]? = some k ∧ a.graph.block? k = some blk ∧
      ((p.starts[k]? = some none ∧ a.visit r p = .ok p) ∨
        ∃ s, p.Held k s ∧
          ((∃ fault, a.runCode s (blk.instructions a.body) = .error fault ∧
              a.visit r p = .error (.illFormed fault)) ∨
            ∃ t next, a.runCode s (blk.instructions a.body) = .ok t ∧
              a.graph.graph.successors? k = some next ∧
                a.visit r p = a.arriveAll t p next)) := by
  have hg := ha.refines
  have hk : a.order[r]? = some a.order[r] := List.getElem?_eq_getElem hr
  have hlt : a.order[r] < a.graph.blockCount :=
    hg.lt_of_mem_order (ha.ordered ▸ List.getElem_mem hr)
  generalize a.order[r] = k at hk hlt
  obtain ⟨blk, hblk⟩ := FlowGraph.Refines.exists_block hlt
  obtain ⟨next, hnext, -⟩ := Digraph.successors?_isSome hg.sound hlt
  refine ⟨k, blk, hk, hblk, ?_⟩
  unfold visit
  rw [hk]
  simp only [hblk]
  cases hs : p.starts[k]? with
  | none =>
    rw [Array.getElem?_eq_none_iff, hv.size] at hs
    omega
  | some o =>
    cases o with
    | none => exact .inl ⟨rfl, rfl⟩
    | some s =>
      refine .inr ⟨s, hs, ?_⟩
      cases ht : a.runCode s (blk.instructions a.body) with
      | error fault => exact .inl ⟨fault, rfl, by simp only [ht]⟩
      | ok t => exact .inr ⟨t, next, rfl, hnext, by simp only [ht, hnext]⟩

/-- **A visit keeps the invariants**, and takes care of the block at the place `r`. -/
theorem visit_ok (ha : a.Proper) (hv : a.Valid p) {r : Nat} (hr : r < a.order.length)
    (hs : ∀ k s, p.Held k s → a.order[r]? = some k ∨ a.order.idxOf k ∈ p.pending ∨ a.Closed p k s)
    (h : a.visit r p = .ok p') : a.Valid p' ∧ a.Settled p' := by
  obtain ⟨k, blk, hk, hblk, hcase⟩ := visit_cases ha hv hr
  rcases hcase with ⟨hn, e⟩ | ⟨s, hh, hrun⟩
  · rw [e] at h
    cases h
    refine ⟨hv, fun k' s hs' => (hs k' s hs').resolve_left fun e' => ?_⟩
    rw [hk] at e'
    cases e'
    unfold Progress.Held at hs'
    rw [hn] at hs'
    cases hs'
  · rcases hrun with ⟨fault, -, e⟩ | ⟨t, next, ht, hnext, e⟩
    · rw [e] at h
      cases h
    rw [e] at h
    have hadj : ∀ k', a.graph.graph.Adj k k' ↔ k' ∈ next := Digraph.adj_iff_of_successors? hnext
    have hcomes : ∀ k' ∈ next, a.Comes k' t := fun k' hk' =>
      comes_of_adj ha (hv.ordered k s hh) hblk (hv.reached k s blk hh hblk) ht ((hadj k').mpr hk')
    have hg := arriveAll_grows h
    refine ⟨hv.arriveAll hcomes h, fun k' s' hs' => ?_⟩
    rcases hg.anew k' s' hs' with hold | hpend
    · rcases hs k' s' hold with e' | hpend | hclosed
      · rw [hk] at e'
        cases e'
        rw [← hh.unique hold]
        refine .inr fun blk' hblk' => ?_
        rw [hblk] at hblk'
        cases hblk'
        exact ⟨t, ht, fun c hc => arriveAll_fits h ((hadj c).mp hc)⟩
      · exact .inl (hg.pending _ hpend)
      · exact .inr (hclosed.mono hg)
    · exact .inl hpend

/-- **A visit that fails shows a fault of the body.** -/
theorem visit_error (ha : a.Proper) (hv : a.Valid p) {r : Nat} (hr : r < a.order.length)
    {f : Failure} (h : a.visit r p = .error f) :
    ∃ fault, f = .illFormed fault ∧ fault.Witnessed a.body a.signature := by
  obtain ⟨k, blk, hk, hblk, ⟨-, e⟩ | ⟨s, hh, ⟨fault, hf, e⟩ | ⟨t, next, ht, hnext, e⟩⟩⟩ :=
    visit_cases ha hv hr
  · rw [e] at h
    cases h
  · rw [e] at h
    cases h
    obtain ⟨hlt, hle⟩ := ha.refines.bounds hblk
    rw [Block.instructions_eq] at hf
    exact ⟨fault, rfl, (ha.straight hblk).witnessed (Nat.le_of_lt hlt) hle
      (hv.reached k s blk hh hblk) hf⟩
  · rw [e] at h
    refine arriveAll_error ha hv (fun k' hk' => ?_) h
    exact comes_of_adj ha (hv.ordered k s hh) hblk (hv.reached k s blk hh hblk) ht
      ((Digraph.adj_iff_of_successors? hnext k').mpr hk')

/-! ## runs -/

theorem held_initial (ha : a.Proper) {k : Nat} {s : Stack} :
    a.initial.Held k s ↔ k = 0 ∧ s = [] := by
  obtain ⟨blk, hblk, -⟩ := ha.refines.entry
  have h0 := FlowGraph.Refines.lt_blockCount hblk
  show ((Array.replicate a.graph.blockCount none).setIfInBounds 0 (some []))[k]? = _ ↔ _
  rw [Array.getElem?_setIfInBounds]
  by_cases e : k = 0
  · rw [e, if_pos rfl, if_pos (by rw [Array.size_replicate]; exact h0)]
    simp [eq_comm]
  · rw [if_neg (Ne.symm e), Array.getElem?_replicate]
    split <;> simp [e]

theorem initial_ok (ha : a.Proper) : a.Valid a.initial ∧ a.Settled a.initial := by
  have hg := ha.refines
  have hmem : 0 ∈ a.order := ha.ordered ▸ hg.entry_mem_order
  refine ⟨⟨?_, (held_initial ha).mpr ⟨rfl, rfl⟩, ?_, ?_, ?_⟩, ?_⟩
  · show ((Array.replicate a.graph.blockCount none).setIfInBounds 0 (some [])).size = _
    rw [Array.size_setIfInBounds, Array.size_replicate]
  · intro k s hs
    rw [((held_initial ha).mp hs).1]
    exact hmem
  · intro k s blk hs hblk
    obtain ⟨rfl, rfl⟩ := (held_initial ha).mp hs
    obtain ⟨blk', hblk', hstart⟩ := hg.entry
    rw [hblk] at hblk'
    cases hblk'
    rw [hstart]
    exact Body.reachedWith_start hg.nonempty
  · intro r hr
    rw [List.mem_singleton.mp hr]
    exact List.idxOf_lt_length_of_mem hmem
  · intro k s hs
    rw [((held_initial ha).mp hs).1]
    exact .inl List.mem_cons_self

/-- the first scheduled block is taken off the list, and nothing else changes -/
theorem Valid.pop (hv : a.Valid p) {r : Nat} {rest : List Nat} (hp : p.pending = r :: rest)
    (n : Nat) : a.Valid { p with pending := rest, visits := n } :=
  ⟨hv.size, hv.entry, hv.ordered, hv.reached, fun q hq =>
    hv.scheduled q (hp ▸ List.mem_cons_of_mem _ hq)⟩

theorem Settled.pop (hs : a.Settled p) (hv : a.Valid p) {r : Nat} {rest : List Nat}
    (hp : p.pending = r :: rest) (n : Nat) (k : Nat) (s : Stack) (h : p.Held k s) :
    a.order[r]? = some k ∨ a.order.idxOf k ∈ rest ∨
      a.Closed { p with pending := rest, visits := n } k s := by
  rcases hs k s h with hpend | hc
  · rw [hp] at hpend
    rcases List.mem_cons.mp hpend with e | hpend
    · refine .inl ?_
      rw [← e]
      exact List.getElem?_idxOf (hv.ordered k s h)
    · exact .inr (.inl hpend)
  · exact .inr (.inr hc)

theorem run_nil (n : Nat) (hp : p.pending = []) : a.run n p = .ok p := by
  cases n with
  | zero => rfl
  | succ n =>
    rw [run]
    simp only [hp]

theorem run_cons (n : Nat) {r : Nat} {rest : List Nat} (hp : p.pending = r :: rest) :
    a.run (n + 1) p =
      (a.visit r { p with pending := rest, visits := p.visits + 1 }).bind (a.run n) := by
  rw [run]
  simp only [hp]
  cases a.visit r { p with pending := rest, visits := p.visits + 1 } <;> rfl

theorem run_ok (ha : a.Proper) {n : Nat} (hv : a.Valid p) (hs : a.Settled p)
    (h : a.run n p = .ok p') : a.Valid p' ∧ a.Settled p' := by
  induction n generalizing p with
  | zero =>
    cases h
    exact ⟨hv, hs⟩
  | succ n ih =>
    cases hp : p.pending with
    | nil =>
      rw [run_nil _ hp] at h
      cases h
      exact ⟨hv, hs⟩
    | cons r rest =>
      rw [run_cons n hp] at h
      obtain ⟨q, hq, h⟩ := bind_eq_ok h
      have hr : r < a.order.length := hv.scheduled r (hp ▸ List.mem_cons_self)
      obtain ⟨hvq, hsq⟩ := visit_ok ha (hv.pop hp (p.visits + 1)) hr
        (hs.pop hv hp (p.visits + 1)) hq
      exact ih hvq hsq h

theorem run_error (ha : a.Proper) {n : Nat} (hv : a.Valid p) (hs : a.Settled p) {f : Failure}
    (h : a.run n p = .error f) :
    ∃ fault, f = .illFormed fault ∧ fault.Witnessed a.body a.signature := by
  induction n generalizing p with
  | zero => cases h
  | succ n ih =>
    cases hp : p.pending with
    | nil =>
      rw [run_nil _ hp] at h
      cases h
    | cons r rest =>
      rw [run_cons n hp] at h
      have hr : r < a.order.length := hv.scheduled r (hp ▸ List.mem_cons_self)
      have hv' := hv.pop hp (p.visits + 1)
      cases hq : a.visit r { p with pending := rest, visits := p.visits + 1 } with
      | error f' =>
        rw [hq] at h
        cases h
        exact visit_error ha hv' hr hq
      | ok q =>
        rw [hq] at h
        obtain ⟨hvq, hsq⟩ := visit_ok ha hv' hr (hs.pop hv hp (p.visits + 1)) hq
        exact ih hvq hsq h

end Analysis

end CilPatch
