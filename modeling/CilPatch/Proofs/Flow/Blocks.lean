import Mathlib.Data.Nat.Init
import CilPatch.Proofs.Flow.Construction

/-!
# Blocks along paths

What a graph that refines a body says about the blocks: the first one holds the first instruction
and the last one the last, every instruction lies in one of them, and the order of the graph lists
the blocks that control comes to.  A path along the edges of the graph is a path of the body
(`path_of_mem_order`), since inside a block control goes on from each instruction to the next
(`path_inside`); and a path of the body goes along the edges (`mem_order_of_path`).
-/

namespace CilPatch

namespace FlowGraph.Refines

variable {g : FlowGraph} {b : Body}

/-- the first block begins with the first instruction -/
theorem entry (hg : g.Refines b) : ∃ blk, g.block? 0 = some blk ∧ blk.start = 0 := by
  have ht := hg.tile
  rw [← getElem?_blocks]
  cases hb : g.blocks with
  | nil =>
    rw [hb] at ht
    exact absurd ht (Nat.ne_of_lt hg.nonempty)
  | cons blk bs =>
    rw [hb] at ht
    exact ⟨blk, rfl, ht.2.1⟩

theorem bounds (hg : g.Refines b) {k : Nat} {blk : Block} (h : g.block? k = some blk) :
    blk.start < blk.stop ∧ blk.stop ≤ b.length :=
  (hg.tile.get ((getElem?_blocks g k).trans h)).2.2

theorem exists_block {k : Nat} (h : k < g.blockCount) : ∃ blk, g.block? k = some blk :=
  ⟨_, Array.getElem?_eq_getElem h⟩

theorem lt_blockCount {k : Nat} {blk : Block} (h : g.block? k = some blk) : k < g.blockCount :=
  (Array.getElem?_eq_some_iff.mp h).1

theorem mem_order_iff (hg : g.Refines b) {k : Nat} :
    k ∈ g.order ↔ g.graph.Reachable 0 k := by
  obtain ⟨blk, hblk, -⟩ := hg.entry
  exact Digraph.mem_reversePostorder_iff hg.sound (lt_blockCount hblk)

theorem entry_mem_order (hg : g.Refines b) : 0 ∈ g.order := hg.mem_order_iff.mpr .refl

theorem mem_order_of_adj (hg : g.Refines b) {k k' : Nat} (hk : k ∈ g.order)
    (h : g.graph.Adj k k') : k' ∈ g.order :=
  hg.mem_order_iff.mpr ((hg.mem_order_iff.mp hk).tail h)

theorem lt_of_mem_order (hg : g.Refines b) {k : Nat} (hk : k ∈ g.order) : k < g.blockCount := by
  cases hg.mem_order_iff.mp hk with
  | refl =>
    obtain ⟨blk, hblk, -⟩ := hg.entry
    exact lt_blockCount hblk
  | tail _ h => exact h.lt_right hg.sound

/-- every instruction lies in a block -/
theorem exists_block_at (hg : g.Refines b) {i : Nat} (hi : i < b.length) :
    ∃ k blk, g.block? k = some blk ∧ blk.start ≤ i ∧ i < blk.stop := by
  obtain ⟨k, blk, hb, h1, h2, -⟩ := hg.tile.owner (Nat.zero_le i) hi
  exact ⟨k, blk, (getElem?_blocks g k).symm.trans hb, h1, h2⟩

/-- the last block ends with the last instruction -/
theorem last (hg : g.Refines b) :
    ∃ blk, g.block? (g.blockCount - 1) = some blk ∧ blk.stop = b.length := by
  obtain ⟨blk₀, hblk₀, -⟩ := hg.entry
  have hpos := lt_blockCount hblk₀
  obtain ⟨blk, hblk⟩ := exists_block (g := g) (show g.blockCount - 1 < g.blockCount by omega)
  refine ⟨blk, hblk, ?_⟩
  rcases hg.tile.next ((getElem?_blocks g _).trans hblk) with ⟨c, hc, -⟩ | ⟨-, hstop⟩
  · have hlt := (List.getElem?_eq_some_iff.mp hc).1
    rw [length_blocks] at hlt
    omega
  · exact hstop

/-! ## paths -/

theorem path_inside (hg : g.Refines b) {k : Nat} {blk : Block} (hblk : g.block? k = some blk)
    (hstart : ∃ passed, b.Path passed blk.start) {i : Nat} (h1 : blk.start ≤ i)
    (h2 : i < blk.stop) : ∃ passed, b.Path passed i := by
  induction i, h1 using Nat.le_induction with
  | base => exact hstart
  | succ i h1 ih =>
    obtain ⟨passed, path⟩ := ih (by omega)
    exact ⟨passed ++ [i], path.step ((hg.inside k blk i hblk h1 h2 (i + 1)).mpr rfl)⟩

/-- control comes to every block of the order -/
theorem path_of_mem_order (hg : g.Refines b) {k : Nat} (hk : k ∈ g.order) {blk : Block}
    (hblk : g.block? k = some blk) : ∃ passed, b.Path passed blk.start := by
  have hr := hg.mem_order_iff.mp hk
  clear hk
  induction hr generalizing blk with
  | refl =>
    obtain ⟨blk', hblk', hstart⟩ := hg.entry
    rw [hblk] at hblk'
    cases hblk'
    rw [hstart]
    exact ⟨[], .start hg.nonempty⟩
  | tail _ hadj ih =>
    obtain ⟨c, hc⟩ := exists_block (hadj.lt_left hg.sound)
    obtain ⟨hlt, -⟩ := hg.bounds hc
    have hin : c.start ≤ c.last ∧ c.last < c.stop := by
      unfold Block.last
      omega
    obtain ⟨passed, path⟩ := hg.path_inside hc (ih hc) hin.1 hin.2
    exact ⟨passed ++ [c.last],
      path.step ((hg.outward _ c hc blk.start).mpr ⟨_, blk, hadj, hblk, rfl⟩)⟩

/-- a block that control comes to is in the order -/
theorem mem_order_of_path (hg : g.Refines b) {passed : List Nat} {i : Nat}
    (path : b.Path passed i) {k : Nat} {blk : Block} (hblk : g.block? k = some blk)
    (h1 : blk.start ≤ i) (h2 : i < blk.stop) : k ∈ g.order := by
  have hget : ∀ {k blk}, g.block? k = some blk → g.blocks[k]? = some blk :=
    fun h => (getElem?_blocks g _).trans h
  induction path generalizing k blk with
  | start h0 =>
    obtain ⟨blk₀, hblk₀, hstart⟩ := hg.entry
    have hlt₀ := (hg.bounds hblk₀).1
    rw [hg.tile.eq_of_contains (hget hblk) (hget hblk₀) h1 h2 (Nat.le_of_eq hstart) (by omega)]
    exact hg.entry_mem_order
  | @step passed i j path hsucc ih =>
    obtain ⟨c, blkc, hblkc, hc1, hc2⟩ := hg.exists_block_at hsucc.lt_left
    have hc := ih hblkc hc1 hc2
    by_cases hin : i + 1 < blkc.stop
    · have hj := (hg.inside c blkc i hblkc hc1 hin j).mp hsucc
      rw [hg.tile.eq_of_contains (hget hblk) (hget hblkc) h1 h2 (by omega) (by omega)]
      exact hc
    · have hlast : i = blkc.last := by
        unfold Block.last
        omega
      rw [hlast] at hsucc
      obtain ⟨k', blk', hadj, hblk', hstart⟩ := (hg.outward c blkc hblkc j).mp hsucc
      have hlt' := (hg.bounds hblk').1
      rw [hg.tile.eq_of_contains (hget hblk) (hget hblk') h1 h2 (Nat.le_of_eq hstart) (by omega)]
      exact hg.mem_order_of_adj hc hadj

/-- control that reaches the last block reaches the last instruction -/
theorem path_of_last_mem_order (hg : g.Refines b) (h : g.blockCount - 1 ∈ g.order) :
    ∃ passed, b.Path passed (b.length - 1) := by
  obtain ⟨blk, hblk, hstop⟩ := hg.last
  obtain ⟨hlt, -⟩ := hg.bounds hblk
  exact hg.path_inside hblk (hg.path_of_mem_order h hblk) (by omega) (by omega)

end FlowGraph.Refines

end CilPatch
