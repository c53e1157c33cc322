import CilPatch.Proofs.Flow.Blocks
import CilPatch.Proofs.Graph.Tables

/-!
# The tables of a construction

The graph of a body is constructed from three tables: where the labels stand, which block a position
lies in, and the nodes that are there already.  Once the labels have been checked, whatever is looked
up in them is found (`InTables`): the checks are all that can refuse a body before its order is known.

* `built_discrete`, `built_connect`   graphs of blocks are built by adding nodes and edges;
* `Body.Indexed.inTables`             every number in the construction has its place.
-/

namespace CilPatch

namespace FlowGraph

theorem built_discrete (bs : List Block) : (discrete bs).Built := by
  unfold discrete
  induction bs using List.reverseRecOn with
  | nil => exact .empty
  | append_singleton bs blk ih =>
    rw [List.foldl_append]
    exact ih.addNode blk

theorem built_addEdges {g g' : Digraph Block EdgeKind} (hg : g.Built) {source : Nat}
    {es : List (Nat × EdgeKind)} (h : addEdges g source es = .ok g') : g'.Built := by
  induction es generalizing g with
  | nil =>
    cases h
    exact hg
  | cons e es ih =>
    unfold addEdges at h
    split at h
    · cases h
    · next g₁ h₁ => exact ih (hg.addEdge h₁) h

theorem built_connect {b : Body} {index : LabelIndex} {owner : List Nat} {count : Nat}
    {g g' : Digraph Block EdgeKind} (hg : g.Built) {bs : List Block}
    (h : connect b index owner count g bs = .ok g') : g'.Built := by
  induction bs generalizing g with
  | nil =>
    cases h
    exact hg
  | cons blk bs ih =>
    obtain ⟨es, -, h⟩ := bind_eq_ok h
    obtain ⟨g₁, hg₁, h⟩ := bind_eq_ok h
    exact ih (built_addEdges hg hg₁) h

theorem built_ofBody {b : Body} {g : FlowGraph} (h : ofBody b = .ok g) : g.graph.Built := by
  obtain ⟨index, -, -, hconnect, -⟩ := ofBody_eq_ok h
  exact built_connect (built_discrete _) hconnect

end FlowGraph

namespace Body

open FlowGraph

variable {b : Body} {index : LabelIndex}

/-- whatever is looked up while the graph of `b` is constructed is in the table it is looked for in;
`index` says where the labels stand -/
structure InTables (b : Body) (index : LabelIndex) : Prop where
  /-- a block is a stretch of the body, and stands in its place among the blocks -/
  stretch : ∀ (k : Nat) (blk : Block), (b.blocks index)[k]? = some blk →
    blk.id = k ∧ blk.start < blk.stop ∧ blk.stop ≤ b.length
  /-- each position has the number of a block, in which it lies -/
  owner : ∀ i < b.length, ∃ (k : Nat) (blk : Block),
    (Block.owners (b.blocks index))[i]? = some k ∧ (b.blocks index)[k]? = some blk ∧
      blk.start ≤ i ∧ i < blk.stop
  /-- the label of a reference stands at a position -/
  target : ∀ i x l, b.instruction? i = some x → l ∈ x.targets →
    ∃ j, index.lookup l = some j ∧ j < b.length
  /-- the edges out of a block end at blocks -/
  edges : ∀ blk ∈ b.blocks index, ∃ es,
    edgesOf b index (Block.owners (b.blocks index)) (b.blocks index).length blk = .ok es ∧
      ∀ e ∈ es, e.1 < (b.blocks index).length
  /-- the first blocks have been connected; then the tables of the graph fit -/
  graph : ∀ front back, b.blocks index = front ++ back → ∃ g,
    connect b index (Block.owners (b.blocks index)) (b.blocks index).length
        (discrete (b.blocks index)) front = .ok g ∧
      g.nodes.toList = b.blocks index ∧ g.Fitting ∧ g.Encloses 0
  /-- the last position lies in the last block -/
  last : (Block.owners (b.blocks index))[b.length - 1]? = some ((b.blocks index).length - 1)

theorem exists_owner (index : LabelIndex) {i : Nat} (hi : i < b.length) :
    ∃ (k : Nat) (blk : Block), (Block.owners (b.blocks index))[i]? = some k ∧
      (b.blocks index)[k]? = some blk ∧ blk.start ≤ i ∧ i < blk.stop := by
  have ht := tile_blocks index (Nat.lt_of_le_of_lt (Nat.zero_le i) hi)
  obtain ⟨k, blk, hblk, h1, h2, howner⟩ := ht.owner (Nat.zero_le i) hi
  rw [Nat.sub_zero, Nat.zero_add] at howner
  exact ⟨k, blk, howner, hblk, h1, h2⟩

theorem nodes_discrete (b : Body) (index : LabelIndex) :
    (discrete (b.blocks index)).nodes.toList = b.blocks index :=
  (discrete_spec (b.blocks index)).2.1

/-- **Labels that have been checked are all that a construction needs.** -/
theorem Indexed.inTables (hix : b.Indexed index) (h0 : 0 < b.length) : b.InTables index where
  stretch := by
    intro k blk hblk
    obtain ⟨hid, -, hlt, hle⟩ := (tile_blocks index h0).get hblk
    exact ⟨hid.trans (Nat.zero_add k), hlt, hle⟩
  owner := fun _ hi => exists_owner index hi
  target := by
    intro i x l hx hl
    obtain ⟨j, hj⟩ := hix.resolved i x l hx hl
    exact ⟨j, hj, lt_length_of_attached ((hix.lookup l j).mp hj)⟩
  edges := by
    intro blk hblk
    obtain ⟨-, es, hes, hlt⟩ := exists_edges hix h0 blk hblk
    have hcount : (discrete (b.blocks index)).nodeCount = (b.blocks index).length :=
      congrArg List.length (nodes_discrete b index)
    exact ⟨es, hes, fun e he => hcount ▸ hlt e.1 (List.mem_map_of_mem he)⟩
  graph := by
    intro front back hsplit
    have hfront : ∀ blk ∈ front, blk ∈ b.blocks index :=
      fun blk hblk => hsplit ▸ List.mem_append_left _ hblk
    obtain ⟨g, hg, -, hnodes, -⟩ := connect_ok (discrete_spec (b.blocks index)).1
      fun blk hblk => exists_edges hix h0 blk (hfront blk hblk)
    have hbuilt := built_connect (built_discrete _) hg
    have hblocks : g.nodes.toList = b.blocks index := by rw [hnodes, nodes_discrete]
    refine ⟨g, hg, hblocks, hbuilt.fitting, hbuilt.sound.encloses ?_⟩
    obtain ⟨k, blk, -, hblk, -⟩ := exists_owner index h0
    have hlt := (List.getElem?_eq_some_iff.mp (hblocks ▸ hblk)).1
    exact Nat.lt_of_le_of_lt (Nat.zero_le k) hlt
  last := by
    obtain ⟨k, blk, hk, hblk, h1, h2⟩ := exists_owner (b := b) index (Nat.sub_one_lt_of_lt h0)
    rw [hk]
    rcases (tile_blocks index h0).next hblk with ⟨c, hc, hstart⟩ | ⟨hlast, -⟩
    · -- a block behind it would begin past the end
      obtain ⟨-, -, hlt, hle⟩ := (tile_blocks index h0).get hc
      omega
    · exact congrArg some (Nat.eq_sub_of_add_eq hlast)

end Body

end CilPatch
