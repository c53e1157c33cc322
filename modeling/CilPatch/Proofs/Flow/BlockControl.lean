import CilPatch.Proofs.Flow.Blocks

/-!
# Blocks and their edges are the control flow

What is true of the graph that is built for a body, said of positions and instructions alone:

* `Block.Tile.flatMap_positions`   the blocks, one behind the other, list every position once;
* `blockAt?_eq_some_iff`           the table of blocks names the block that holds a position;
* `exists_start_iff`               a block starts where control can come from elsewhere than from
                                   the instruction before, and behind terminal instructions;
* `successor_iff_edge`             control goes on inside a block, or along an edge from the end of
                                   one block to the start of another.

`blocks_refine_control` puts them together.
-/

namespace CilPatch

/-! ## positions -/

namespace Block

/-- blocks that lie side by side list the positions between the ends -/
theorem Tile.flatMap_positions {id lo hi : Nat} {bs : List Block} (h : Tile id lo hi bs) :
    bs.flatMap positions = List.range' lo (hi - lo) := by
  induction bs generalizing id lo with
  | nil =>
    have e : lo = hi := h
    rw [e, Nat.sub_self]
    rfl
  | cons blk bs ih =>
    obtain ⟨-, rfl, hlt, hrest⟩ := h
    have hle := hrest.le
    rw [List.flatMap_cons, ih hrest]
    show List.range' blk.start (blk.stop - blk.start) ++ _ = _
    have hstop : blk.stop = blk.start + 1 * (blk.stop - blk.start) := by omega
    have hsize : hi - blk.start = blk.stop - blk.start + (hi - blk.stop) := by omega
    rw [hsize, ← List.range'_append, ← hstop]

end Block

/-! ## where blocks start -/

namespace Body

variable {b : Body} {index : LabelIndex}

/-- control may come to `i` from elsewhere than from the instruction before, or `i` lies behind a
terminal instruction -/
def StartsBlock (b : Body) (i : Nat) : Prop :=
  i < b.length ∧
    (i = 0 ∨ (∃ j x l, b.instruction? j = some x ∧ l ∈ x.targets ∧ b.Attached l i) ∨
      ∃ j x, i = j + 1 ∧ b.instruction? j = some x ∧ x.opcode.isTerminal = true)

theorem followsTerminal_iff {i : Nat} :
    b.followsTerminal i = true ↔
      ∃ j x, i = j + 1 ∧ b.instruction? j = some x ∧ x.opcode.isTerminal = true := by
  cases i with
  | zero => simp [followsTerminal]
  | succ i =>
    rw [followsTerminal]
    cases hx : b.instruction? i with
    | none => simp [hx]
    | some x => simp [hx]

theorem mem_targetPositions_iff (hix : b.Indexed index) {i : Nat} :
    i ∈ b.targetPositions index ↔
      ∃ j x l, b.instruction? j = some x ∧ l ∈ x.targets ∧ b.Attached l i := by
  rw [mem_targetPositions]
  simp only [hix.lookup]

theorem mem_leaders_iff (hix : b.Indexed index) {i : Nat} :
    i ∈ b.leaders index ↔ b.StartsBlock i := by
  rw [mem_leaders, mem_targetPositions_iff hix, followsTerminal_iff]
  exact Iff.rfl

end Body

namespace FlowGraph

variable {b : Body} {g : FlowGraph}

/-- the graph of a body holds the blocks of the body -/
theorem exists_index (h : ofBody b = .ok g) :
    ∃ index, b.Indexed index ∧ g.blocks = b.blocks index ∧
      g.blockOf = Block.owners (b.blocks index) := by
  obtain ⟨index, hix, h0, hconnect, howner, -⟩ := ofBody_eq_ok h
  obtain ⟨graph, hgraph, -, hnodes, -⟩ := connect_discrete hix h0
  rw [hconnect] at hgraph
  cases hgraph
  exact ⟨index, hix, hnodes, howner⟩

/-- the table of blocks names the block that holds a position -/
theorem blockAt?_eq_some_iff (h : ofBody b = .ok g) {i k : Nat} :
    g.blockAt? i = some k ↔
      ∃ blk, g.block? k = some blk ∧ blk.start ≤ i ∧ i < blk.stop := by
  obtain ⟨index, -, hblocks, howners⟩ := exists_index h
  have ht := (ofBody_ok h).tile
  rw [hblocks] at ht
  have hget : ∀ k, g.block? k = (b.blocks index)[k]? := by
    intro k
    rw [← getElem?_blocks, hblocks]
  unfold blockAt?
  simp only [howners, hget]
  constructor
  · intro hk
    have hlen := ht.length_owners
    have hi : i < b.length := by
      have hlt := (List.getElem?_eq_some_iff.mp hk).1
      omega
    obtain ⟨k', blk, hb, h1, h2, ho⟩ := ht.owner (Nat.zero_le i) hi
    rw [Nat.sub_zero, hk, Nat.zero_add] at ho
    rw [Option.some.inj ho]
    exact ⟨blk, hb, h1, h2⟩
  · rintro ⟨blk, hb, h1, h2⟩
    have hi := (ht.get hb).2.2.2
    obtain ⟨k', blk', hb', h1', h2', ho⟩ := ht.owner (Nat.zero_le i) (show i < b.length by omega)
    rw [ht.eq_of_contains hb hb' h1 h2 h1' h2']
    rw [Nat.sub_zero, Nat.zero_add] at ho
    exact ho

theorem isSome_blockAt?_iff (h : ofBody b = .ok g) {i : Nat} :
    (g.blockAt? i).isSome = true ↔ i < b.length := by
  rw [Option.isSome_iff_exists]
  constructor
  · rintro ⟨k, hk⟩
    obtain ⟨blk, hblk, -, hlt⟩ := (blockAt?_eq_some_iff h).mp hk
    have hle := ((ofBody_ok h).bounds hblk).2
    omega
  · intro hi
    obtain ⟨k, blk, hblk, h1, h2⟩ := (ofBody_ok h).exists_block_at hi
    exact ⟨k, (blockAt?_eq_some_iff h).mpr ⟨blk, hblk, h1, h2⟩⟩

theorem exists_start_iff (h : ofBody b = .ok g) {i : Nat} :
    (∃ k blk, g.block? k = some blk ∧ blk.start = i) ↔ b.StartsBlock i := by
  obtain ⟨index, hix, hblocks, -⟩ := exists_index h
  rw [← Body.mem_leaders_iff hix]
  constructor
  · rintro ⟨k, blk, hblk, rfl⟩
    rw [← getElem?_blocks, hblocks] at hblk
    rw [← Block.map_start_cut b.length (b.leaders index)]
    exact List.mem_map_of_mem (List.mem_of_getElem? hblk)
  · intro hi
    obtain ⟨k, blk, hblk, hstart⟩ := Body.exists_block_of_mem_leaders hi
    rw [← hblocks, getElem?_blocks] at hblk
    exact ⟨k, blk, hblk, hstart⟩

/-- control goes on inside a block, or along an edge from the end of a block to the start of one -/
theorem Refines.successor_iff_edge (hg : g.Refines b) {i j : Nat} :
    b.Successor i j ↔
      ∃ k blk, g.block? k = some blk ∧ blk.start ≤ i ∧ i < blk.stop ∧
        ((j = i + 1 ∧ j < blk.stop) ∨
          (i = blk.last ∧
            ∃ k' blk', g.graph.Adj k k' ∧ g.block? k' = some blk' ∧ blk'.start = j)) := by
  constructor
  · intro hsucc
    obtain ⟨k, blk, hblk, h1, h2⟩ := hg.exists_block_at hsucc.lt_left
    refine ⟨k, blk, hblk, h1, h2, ?_⟩
    by_cases hin : i + 1 < blk.stop
    · have hj := (hg.inside k blk i hblk h1 hin j).mp hsucc
      exact .inl ⟨hj, hj ▸ hin⟩
    · have hlast : i = blk.last := by
        unfold Block.last
        omega
      rw [hlast] at hsucc
      exact .inr ⟨hlast, (hg.outward k blk hblk j).mp hsucc⟩
  · rintro ⟨k, blk, hblk, h1, -, ⟨rfl, hin⟩ | ⟨rfl, hedge⟩⟩
    · exact (hg.inside k blk i hblk h1 hin (i + 1)).mpr rfl
    · exact (hg.outward k blk hblk j).mpr hedge

end FlowGraph

/-- **Blocks and edges say what the instructions say.**  The blocks are numbered in order, none is
empty, and one behind the other they list every position of the body once; the table of blocks names
the block of each position and nothing behind the end.  A block starts exactly at the first
instruction, at targets of references and behind terminal instructions.  Control goes from one
instruction to another exactly where they follow one another in a block, or where the first ends a
block, the second starts one, and an edge leads from the one block to the other. -/
theorem blocks_refine_control {b : Body} {g : FlowGraph} (h : FlowGraph.ofBody b = .ok g) :
    (∀ k blk, g.block? k = some blk → blk.id = k ∧ blk.start < blk.stop) ∧
      g.blocks.flatMap Block.positions = List.range b.length ∧
      (∀ i k, g.blockAt? i = some k ↔
        ∃ blk, g.block? k = some blk ∧ blk.start ≤ i ∧ i < blk.stop) ∧
      (∀ i, (g.blockAt? i).isSome = true ↔ i < b.length) ∧
      (∀ i, (∃ k blk, g.block? k = some blk ∧ blk.start = i) ↔ b.StartsBlock i) ∧
      ∀ i j, b.Successor i j ↔
        ∃ k blk, g.block? k = some blk ∧ blk.start ≤ i ∧ i < blk.stop ∧
          ((j = i + 1 ∧ j < blk.stop) ∨
            (i = blk.last ∧
              ∃ k' blk', g.graph.Adj k k' ∧ g.block? k' = some blk' ∧ blk'.start = j)) := by
  have hg := FlowGraph.ofBody_ok h
  refine ⟨fun k blk hblk => ?_, ?_, fun i k => FlowGraph.blockAt?_eq_some_iff h,
    fun i => FlowGraph.isSome_blockAt?_iff h, fun i => FlowGraph.exists_start_iff h,
    fun i j => hg.successor_iff_edge⟩
  · obtain ⟨hid, -, hlt, -⟩ := hg.tile.get ((FlowGraph.getElem?_blocks g k).trans hblk)
    exact ⟨hid.trans (Nat.zero_add k), hlt⟩
  · rw [hg.tile.flatMap_positions, Nat.sub_zero, List.range_eq_range']

/-- a switch into the middle of straight code, and a `nop` that names a label: it makes a block
start there but does not jump -/
def switchInto : Body := .ofCode
  [{ opcode := .ldcI4, operand := .literal (.int32 1) },
   { opcode := .switch, operand := .switch [⟨0⟩, ⟨1⟩] },
   { opcode := .nop, operand := .label ⟨2⟩ },
   { opcode := .nop, labels := [⟨0⟩] },
   { opcode := .nop, labels := [⟨2⟩] },
   { opcode := .ret, labels := [⟨1⟩] }]

theorem blocks_refine_control_switchInto :
    ∃ g, FlowGraph.ofBody switchInto = .ok g ∧
      g.blocks = [⟨0, 0, 2⟩, ⟨1, 2, 3⟩, ⟨2, 3, 4⟩, ⟨3, 4, 5⟩, ⟨4, 5, 6⟩] ∧
      switchInto.Successor 1 5 ∧ ¬switchInto.Successor 2 4 ∧
      ∀ i j, switchInto.Successor i j ↔
        ∃ k blk, g.block? k = some blk ∧ blk.start ≤ i ∧ i < blk.stop ∧
          ((j = i + 1 ∧ j < blk.stop) ∨
            (i = blk.last ∧
              ∃ k' blk', g.graph.Adj k k' ∧ g.block? k' = some blk' ∧ blk'.start = j)) := by
  have hgraph : (FlowGraph.ofBody switchInto).map FlowGraph.blocks =
      .ok [⟨0, 0, 2⟩, ⟨1, 2, 3⟩, ⟨2, 3, 4⟩, ⟨3, 4, 5⟩, ⟨4, 5, 6⟩] := by decide +kernel
  have hjump : switchInto.Successor 1 5 :=
    ⟨_, rfl, .inl ⟨rfl, ⟨1⟩, by decide, _, rfl, List.mem_singleton.mpr rfl⟩⟩
  have hstay : ¬switchInto.Successor 2 4 := by
    rintro ⟨x, hx, ⟨hbr, -⟩ | ⟨-, hj, -⟩⟩
    · cases hx
      cases hbr
    · cases hj
  cases hg : FlowGraph.ofBody switchInto with
  | error f =>
    rw [hg] at hgraph
    cases hgraph
  | ok g =>
    rw [hg] at hgraph
    obtain ⟨-, -, -, -, -, hcontrol⟩ := blocks_refine_control hg
    exact ⟨g, rfl, Except.ok.inj hgraph, hjump, hstay, hcontrol⟩

end CilPatch
