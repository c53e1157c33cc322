import CilPatch.Flow.FlowGraph
import CilPatch.Proofs.Flow.Control
import CilPatch.Proofs.Flow.Partition
import CilPatch.Proofs.Graph.Reachability

/-!
# A flow graph says what the instructions say

`FlowGraph.Refines g b` relates a graph to control flow between instructions: inside a block control
goes on to the next instruction and nowhere else, and the successors of the last instruction of a
block are the first instructions of the blocks to which edges lead.

* `Body.Indexed`          what the two checks before the construction establish;
* `edgesOf_ok`            the edges out of a block, read as successors of its last instruction;
* `connect_blocks`        connecting the blocks never fails and adds these edges and no others, so
                          that the graph refines the body;
* `ofIndexed_eq`          the graph is refused only if its last block is reached and falls through;
* `ofBody_cases`,
  `ofBody_eq_ok`,
  `ofBody_ok`             the same with the two checks in front.
-/

namespace CilPatch

theorem bind_eq_ok {ε α β : Type} {e : Except ε α} {f : α → Except ε β} {c : β}
    (h : e.bind f = .ok c) : ∃ b, e = .ok b ∧ f b = .ok c := by
  cases e with
  | error _ => cases h
  | ok b => exact ⟨b, rfl, h⟩

namespace Body

variable {b : Body} {index : LabelIndex}

/-- the index holds all attachments, and every reference leads to one of them -/
structure Indexed (b : Body) (index : LabelIndex) : Prop where
  lookup : ∀ l i, index.lookup l = some i ↔ b.Attached l i
  resolved : ∀ i x l, b.instruction? i = some x → l ∈ x.targets → ∃ j, index.lookup l = some j

/-! ## leaders -/

theorem mem_leaders {j : Nat} :
    j ∈ b.leaders index ↔
      j < b.length ∧ (j = 0 ∨ j ∈ b.targetPositions index ∨ b.followsTerminal j = true) := by
  unfold leaders isLeader
  simp [or_assoc]

theorem pairwise_leaders (b : Body) (index : LabelIndex) :
    (b.leaders index).Pairwise (· < ·) :=
  List.Pairwise.filter _ List.pairwise_lt_range

theorem head?_leaders (h : 0 < b.length) : (b.leaders index).head? = some 0 := by
  obtain ⟨n, hn⟩ : ∃ n, b.length = n + 1 := ⟨b.length - 1, by omega⟩
  unfold leaders
  rw [hn, List.range_succ_eq_map, List.filter_cons_of_pos (by rfl)]
  rfl

def blocks (b : Body) (index : LabelIndex) : List Block := Block.cut b.length (b.leaders index)

theorem tile_blocks (index : LabelIndex) (h : 0 < b.length) :
    Block.Tile 0 0 b.length (b.blocks index) :=
  Block.tile_cut (pairwise_leaders b index) (fun _ hj => (mem_leaders.mp hj).1) (head?_leaders h)

theorem exists_block_of_mem_leaders {j : Nat} (hj : j ∈ b.leaders index) :
    ∃ (k : Nat) (blk : Block), (b.blocks index)[k]? = some blk ∧ blk.start = j := by
  rw [← Block.map_start_cut b.length (b.leaders index)] at hj
  obtain ⟨blk, hb, hs⟩ := List.mem_map.mp hj
  obtain ⟨k, hk⟩ := List.mem_iff_getElem?.mp hb
  exact ⟨k, blk, hk, hs⟩

theorem owners_of_start {k : Nat} {blk : Block} (hb : (b.blocks index)[k]? = some blk)
    (h : 0 < b.length) : (Block.owners (b.blocks index))[blk.start]? = some k := by
  have ht := tile_blocks index h
  obtain ⟨-, -, hlt, hle⟩ := ht.get hb
  obtain ⟨k', blk', hb', h1, h2, ho⟩ := ht.owner (Nat.zero_le blk.start) (by omega)
  rw [ht.eq_of_contains hb hb' (Nat.le_refl _) hlt h1 h2]
  simpa using ho

/-- inside a block no instruction is terminal -/
theorem isTerminal_inside {k i : Nat} {blk : Block} {x : Instruction}
    (hb : (b.blocks index)[k]? = some blk) (h1 : blk.start ≤ i) (h2 : i + 1 < blk.stop)
    (hx : b.instruction? i = some x) : x.opcode.isTerminal = false := by
  have hi : i < b.length := (List.getElem?_eq_some_iff.mp hx).1
  have ht := tile_blocks index (Nat.zero_lt_of_lt hi)
  have hstop := (ht.get hb).2.2.2
  by_contra hterm
  rw [Bool.not_eq_false] at hterm
  have hfollows : b.followsTerminal (i + 1) = true := by
    rw [followsTerminal, hx]
    exact hterm
  have hleader : i + 1 ∈ b.leaders index := mem_leaders.mpr ⟨by omega, .inr (.inr hfollows)⟩
  obtain ⟨k', blk', hb', hs⟩ := exists_block_of_mem_leaders hleader
  have hlt' := (ht.get hb').2.2.1
  have e : k = k' := ht.eq_of_contains hb hb' (by omega) h2 (by omega) (by omega)
  rw [e, hb'] at hb
  cases hb
  omega

end Body

namespace FlowGraph

variable {b : Body} {index : LabelIndex}

/-! ## the edges out of a block -/

theorem isSome_jumpKind (op : Opcode) : (jumpKind op.flow).isSome = op.isBranch := by
  unfold Opcode.isBranch
  cases op.flow <;> rfl

theorem isSome_nextKind (op : Opcode) : (nextKind op.flow).isSome = op.fallsThrough := by
  unfold Opcode.fallsThrough
  cases op.flow <;> rfl

/-- a label that is referred to marks the start of a block -/
theorem targetBlock_ok (hix : b.Indexed index) {i : Nat} {x : Instruction} {l : Label}
    (hx : b.instruction? i = some x) (hl : l ∈ x.targets) :
    ∃ k blk, targetBlock index (Block.owners (b.blocks index)) l = .ok k ∧
      (b.blocks index)[k]? = some blk ∧ ∀ j, b.Attached l j ↔ blk.start = j := by
  obtain ⟨j, hj⟩ := hix.resolved i x l hx hl
  have hat := (hix.lookup l j).mp hj
  have hpos : j ∈ b.targetPositions index := Body.mem_targetPositions.mpr ⟨i, x, l, hx, hl, hj⟩
  have hlt := Body.lt_length_of_attached hat
  obtain ⟨k, blk, hb, rfl⟩ :=
    Body.exists_block_of_mem_leaders (Body.mem_leaders.mpr ⟨hlt, .inr (.inl hpos)⟩)
  refine ⟨k, blk, ?_, hb, fun j' => ?_⟩
  · unfold targetBlock
    simp only [hj, Body.owners_of_start hb (Nat.zero_lt_of_lt hlt)]
  · rw [← hix.lookup, hj, Option.some.injEq]

theorem mapM_ok {α β ε : Type} {f : α → Except ε β} {as : List α}
    (h : ∀ a ∈ as, ∃ c, f a = .ok c) :
    ∃ cs, as.mapM f = .ok cs ∧ ∀ c, c ∈ cs ↔ ∃ a ∈ as, f a = .ok c := by
  induction as with
  | nil => exact ⟨[], rfl, by simp⟩
  | cons a as ih =>
    obtain ⟨c, hc⟩ := h a List.mem_cons_self
    obtain ⟨cs, hcs, hmem⟩ := ih fun a' ha' => h a' (List.mem_cons_of_mem _ ha')
    refine ⟨c :: cs, ?_, fun c' => ?_⟩
    · rw [List.mapM_cons, hc, hcs]
      rfl
    · simp [hmem, hc, eq_comm]

theorem jumps_ok (hix : b.Indexed index) {i : Nat} {x : Instruction}
    (hx : b.instruction? i = some x) :
    ∃ js, jumps index (Block.owners (b.blocks index)) x = .ok js ∧
      ∀ k, k ∈ js.map (·.1) ↔ x.opcode.isBranch = true ∧ ∃ l ∈ x.targets,
        targetBlock index (Block.owners (b.blocks index)) l = .ok k := by
  unfold jumps
  have hk := isSome_jumpKind x.opcode
  split
  · next e =>
    rw [e] at hk
    refine ⟨[], rfl, fun k => ?_⟩
    rw [← hk]
    simp
  · next kind e =>
    rw [e] at hk
    have hall : ∀ l ∈ x.targets,
        ∃ k, targetBlock index (Block.owners (b.blocks index)) l = .ok k := by
      intro l hl
      obtain ⟨k, -, h, -⟩ := targetBlock_ok hix hx hl
      exact ⟨k, h⟩
    obtain ⟨ks, hks, hmem⟩ := mapM_ok hall
    refine ⟨ks.zipIdx.map fun q => (q.1, kind q.2), ?_, fun k => ?_⟩
    · rw [hks]
      rfl
    · rw [← hk, List.map_map, ← hmem]
      have hfst : ks.zipIdx.map ((·.1) ∘ fun q => (q.1, kind q.2)) = ks := List.zipIdx_map_fst 0 ks
      rw [hfst]
      simp

theorem mem_onward {count id k : Nat} {x : Instruction} :
    k ∈ (onward count id x).map (·.1) ↔
      x.opcode.fallsThrough = true ∧ k = id + 1 ∧ k < count := by
  have hk := isSome_nextKind x.opcode
  unfold onward
  split
  · next e =>
    rw [← hk, e]
    simp
  · next kind e =>
    rw [← hk, e]
    split
    · next hlt =>
      simp
      omega
    · next hlt =>
      simp
      omega

/-- the jumps of an instruction lead to the blocks of its targets -/
theorem exists_jump_iff (hix : b.Indexed index) {i : Nat} {x : Instruction}
    (hx : b.instruction? i = some x) (j : Nat) :
    (∃ k blk, (x.opcode.isBranch = true ∧ ∃ l ∈ x.targets,
        targetBlock index (Block.owners (b.blocks index)) l = .ok k) ∧
        (b.blocks index)[k]? = some blk ∧ blk.start = j) ↔
      x.opcode.isBranch = true ∧ ∃ l ∈ x.targets, b.Attached l j := by
  constructor
  · rintro ⟨k, blk, ⟨hbr, l, hl, htb⟩, hb, rfl⟩
    obtain ⟨k', blk', htb', hb', hstart⟩ := targetBlock_ok hix hx hl
    rw [htb] at htb'
    cases htb'
    rw [hb] at hb'
    cases hb'
    exact ⟨hbr, l, hl, (hstart _).mpr rfl⟩
  · rintro ⟨hbr, l, hl, hat⟩
    obtain ⟨k, blk, htb, hb, hstart⟩ := targetBlock_ok hix hx hl
    exact ⟨k, blk, ⟨hbr, l, hl, htb⟩, hb, (hstart j).mp hat⟩

/-- the next block starts behind the last instruction of a block -/
theorem exists_next_iff (index : LabelIndex) (h0 : 0 < b.length) {k : Nat} {blk : Block}
    (hb : (b.blocks index)[k]? = some blk) (j : Nat) :
    (∃ blk', (b.blocks index)[k + 1]? = some blk' ∧ blk'.start = j) ↔
      j = blk.last + 1 ∧ j < b.length := by
  have ht := Body.tile_blocks index h0
  have hlt := (ht.get hb).2.2.1
  have hlast : blk.last + 1 = blk.stop := by
    unfold Block.last
    omega
  rw [hlast]
  rcases ht.next hb with ⟨c, hc, hcs⟩ | ⟨hk, hstop⟩
  · obtain ⟨-, -, hlt', hle'⟩ := ht.get hc
    constructor
    · rintro ⟨blk', hb', rfl⟩
      rw [hc] at hb'
      cases hb'
      exact ⟨hcs, by omega⟩
    · rintro ⟨rfl, -⟩
      exact ⟨c, hc, hcs⟩
  · constructor
    · rintro ⟨blk', hb', -⟩
      have hlen := (List.getElem?_eq_some_iff.mp hb').1
      omega
    · rintro ⟨rfl, hj⟩
      omega

/-- **The edges out of a block lead where its last instruction leads.** -/
theorem edgesOf_ok (hix : b.Indexed index) {k : Nat} {blk : Block}
    (hb : (b.blocks index)[k]? = some blk) (h0 : 0 < b.length) :
    ∃ es, edgesOf b index (Block.owners (b.blocks index)) (b.blocks index).length blk = .ok es ∧
      (∀ k' ∈ es.map (·.1), k' < (b.blocks index).length) ∧
      ∀ j, b.Successor blk.last j ↔
        ∃ k' blk', k' ∈ es.map (·.1) ∧ (b.blocks index)[k']? = some blk' ∧ blk'.start = j := by
  obtain ⟨hid, -, hlt, hle⟩ := (Body.tile_blocks index h0).get hb
  have hlast : blk.last < b.code.length := by
    change blk.stop ≤ b.code.length at hle
    unfold Block.last
    omega
  have hx : b.instruction? blk.last = some b.code[blk.last] := List.getElem?_eq_getElem hlast
  generalize b.code[blk.last] = x at hx
  obtain ⟨js, hjs, hjump⟩ := jumps_ok hix hx
  refine ⟨js ++ onward (b.blocks index).length blk.id x, ?_, ?_, fun j => ?_⟩
  · unfold edgesOf
    rw [hx]
    show (jumps index (Block.owners (b.blocks index)) x).bind _ = _
    rw [hjs]
    rfl
  · intro k' hk'
    rw [List.map_append, List.mem_append, hjump, mem_onward] at hk'
    rcases hk' with ⟨-, l, hl, hk'⟩ | ⟨-, -, hk'⟩
    · obtain ⟨k'', blk', htb, hb', -⟩ := targetBlock_ok hix hx hl
      rw [hk'] at htb
      cases htb
      exact (List.getElem?_eq_some_iff.mp hb').1
    · exact hk'
  · rw [Body.successor_iff hx, ← exists_jump_iff hix hx, ← exists_next_iff index h0 hb]
    have hid : blk.id + 1 = k + 1 := by omega
    constructor
    · rintro (⟨k', blk', hk', hrest⟩ | ⟨hft, blk', hb', hs⟩)
      · refine ⟨k', blk', ?_, hrest⟩
        rw [List.map_append, List.mem_append, hjump]
        exact .inl hk'
      · refine ⟨k + 1, blk', ?_, hb', hs⟩
        rw [List.map_append, List.mem_append, mem_onward, hid]
        exact .inr ⟨hft, rfl, (List.getElem?_eq_some_iff.mp hb').1⟩
    · rintro ⟨k', blk', hk', hrest⟩
      rw [List.map_append, List.mem_append, hjump, mem_onward, hid] at hk'
      rcases hk' with hk' | ⟨hft, rfl, -⟩
      · exact .inl ⟨k', blk', hk', hrest⟩
      · exact .inr ⟨hft, blk', hrest⟩

/-! ## connecting the blocks -/

theorem foldl_addNode {g : Digraph Block EdgeKind} (hg : g.Sound) (bs : List Block) :
    (bs.foldl .addNode g).Sound ∧ (bs.foldl .addNode g).nodes.toList = g.nodes.toList ++ bs ∧
      ∀ v w, (bs.foldl .addNode g).Adj v w ↔ g.Adj v w := by
  induction bs generalizing g with
  | nil => exact ⟨hg, (List.append_nil _).symm, fun _ _ => Iff.rfl⟩
  | cons blk bs ih =>
    obtain ⟨hs, hn, ha⟩ := ih (hg.addNode blk)
    refine ⟨hs, ?_, fun v w => (ha v w).trans (Digraph.adj_addNode hg blk v w)⟩
    rw [List.foldl_cons, hn]
    show (g.nodes.push blk).toList ++ bs = _
    rw [Array.toList_push, List.append_assoc]
    rfl

/-- the blocks of a body as a graph: its nodes are they, and it has no edge -/
theorem discrete_spec (bs : List Block) :
    (discrete bs).Sound ∧ (discrete bs).nodes.toList = bs ∧ ∀ v w, ¬(discrete bs).Adj v w := by
  obtain ⟨hs, hn, ha⟩ := foldl_addNode (Digraph.Sound.empty (ν := Block) (ε := EdgeKind)) bs
  refine ⟨hs, hn, fun v w h => ?_⟩
  obtain ⟨ws, hws, -⟩ := (ha v w).mp h
  cases hws

theorem addEdges_ok {g : Digraph Block EdgeKind} (hg : g.Sound) {source : Nat}
    (hs : source < g.nodeCount) {es : List (Nat × EdgeKind)}
    (ht : ∀ k ∈ es.map (·.1), k < g.nodeCount) :
    ∃ g', addEdges g source es = .ok g' ∧ g'.Sound ∧ g'.nodes = g.nodes ∧
      ∀ v w, g'.Adj v w ↔ g.Adj v w ∨ (v = source ∧ w ∈ es.map (·.1)) := by
  induction es generalizing g with
  | nil => exact ⟨g, rfl, hg, rfl, by simp⟩
  | cons e es ih =>
    obtain ⟨t, kind⟩ := e
    rw [List.map_cons] at ht
    obtain ⟨g₁, h₁⟩ : ∃ g₁, g.addEdge source t kind = .ok g₁ :=
      Digraph.addEdge_isOk_iff.mpr ⟨hs, ht t List.mem_cons_self⟩
    have hn₁ := Digraph.nodes_addEdge h₁
    have hc₁ : g₁.nodeCount = g.nodeCount := congrArg Array.size hn₁
    obtain ⟨g', h', hs', hn', ha'⟩ := ih (hg.addEdge h₁) (hc₁ ▸ hs)
      fun k hk => hc₁ ▸ ht k (List.mem_cons_of_mem _ hk)
    refine ⟨g', ?_, hs', hn'.trans hn₁, fun v w => ?_⟩
    · unfold addEdges
      rw [h₁]
      exact h'
    · rw [ha', Digraph.adj_addEdge hg h₁, or_assoc, ← and_or_left, List.map_cons, List.mem_cons]

theorem connect_ok {b : Body} {index : LabelIndex} {owner : List Nat} {count : Nat}
    {g : Digraph Block EdgeKind} (hg : g.Sound) {bs : List Block}
    (h : ∀ blk ∈ bs, blk.id < g.nodeCount ∧
      ∃ es, edgesOf b index owner count blk = .ok es ∧ ∀ k ∈ es.map (·.1), k < g.nodeCount) :
    ∃ g', connect b index owner count g bs = .ok g' ∧ g'.Sound ∧ g'.nodes = g.nodes ∧
      ∀ v w, g'.Adj v w ↔ g.Adj v w ∨ ∃ blk ∈ bs, v = blk.id ∧
        ∃ es, edgesOf b index owner count blk = .ok es ∧ w ∈ es.map (·.1) := by
  induction bs generalizing g with
  | nil => exact ⟨g, rfl, hg, rfl, by simp⟩
  | cons blk bs ih =>
    obtain ⟨hid, es, hes, hlt⟩ := h blk List.mem_cons_self
    obtain ⟨g₁, h₁, hs₁, hn₁, ha₁⟩ := addEdges_ok hg hid hlt
    have hc₁ : g₁.nodeCount = g.nodeCount := congrArg Array.size hn₁
    obtain ⟨g', h', hs', hn', ha'⟩ := ih hs₁ fun c hc => by
      rw [hc₁]
      exact h c (List.mem_cons_of_mem _ hc)
    refine ⟨g', ?_, hs', hn'.trans hn₁, fun v w => ?_⟩
    · show (edgesOf b index owner count blk).bind _ = _
      rw [hes]
      show (addEdges g blk.id es).bind _ = _
      rw [h₁]
      exact h'
    · rw [ha', ha₁, or_assoc]
      simp [hes]

/-! ## the graph of a body -/

/-- edges and blocks say about the body what its instructions say -/
structure Refines (g : FlowGraph) (b : Body) : Prop where
  sound : g.graph.Sound
  nonempty : 0 < b.length
  tile : Block.Tile 0 0 b.length g.blocks
  inside : ∀ k blk i, g.block? k = some blk → blk.start ≤ i → i + 1 < blk.stop →
    ∀ j, b.Successor i j ↔ j = i + 1
  outward : ∀ k blk, g.block? k = some blk → ∀ j, b.Successor blk.last j ↔
    ∃ k' blk', g.graph.Adj k k' ∧ g.block? k' = some blk' ∧ blk'.start = j

theorem getElem?_blocks (g : FlowGraph) (k : Nat) : g.blocks[k]? = g.block? k :=
  Array.getElem?_toList

theorem block?_of_mem_zipIdx {g : FlowGraph} {entry : Block × Nat}
    (h : entry ∈ g.blocks.zipIdx) : g.block? entry.2 = some entry.1 := by
  rw [← getElem?_blocks]
  exact List.mem_zipIdx_iff_getElem?.mp h

theorem length_blocks (g : FlowGraph) : g.blocks.length = g.blockCount := rfl

/-- the edges out of each block are known, and both their ends are nodes -/
theorem exists_edges (hix : b.Indexed index) (h0 : 0 < b.length) :
    ∀ blk ∈ b.blocks index, blk.id < (discrete (b.blocks index)).nodeCount ∧
      ∃ es, edgesOf b index (Block.owners (b.blocks index)) (b.blocks index).length blk = .ok es ∧
        ∀ k ∈ es.map (·.1), k < (discrete (b.blocks index)).nodeCount := by
  intro blk hblk
  have hcount : (discrete (b.blocks index)).nodeCount = (b.blocks index).length :=
    congrArg List.length (discrete_spec (b.blocks index)).2.1
  have hk := (Body.tile_blocks index h0).get_id hblk
  obtain ⟨es, hes, hlt, -⟩ := edgesOf_ok hix hk h0
  rw [hcount]
  exact ⟨(List.getElem?_eq_some_iff.mp hk).1, es, hes, hlt⟩

/-- the blocks of a body can be connected, and the edges out of each are its own -/
theorem connect_discrete (hix : b.Indexed index) (h0 : 0 < b.length) :
    ∃ g', connect b index (Block.owners (b.blocks index)) (b.blocks index).length
        (discrete (b.blocks index)) (b.blocks index) = .ok g' ∧
      g'.Sound ∧ g'.nodes.toList = b.blocks index ∧
      ∀ k blk, (b.blocks index)[k]? = some blk → ∀ es,
        edgesOf b index (Block.owners (b.blocks index)) (b.blocks index).length blk = .ok es →
        ∀ k', g'.Adj k k' ↔ k' ∈ es.map (·.1) := by
  have ht := Body.tile_blocks index h0
  obtain ⟨hs₀, hn₀, ha₀⟩ := discrete_spec (b.blocks index)
  obtain ⟨g', h', hs', hn', ha'⟩ := connect_ok hs₀ (exists_edges hix h0)
  refine ⟨g', h', hs', by rw [hn', hn₀], fun k blk hk es hes k' => ?_⟩
  rw [ha']
  constructor
  · rintro (h | ⟨c, hc, rfl, es', hes', hk'⟩)
    · exact absurd h (ha₀ k k')
    · rw [ht.get_id hc] at hk
      cases hk
      rw [hes] at hes'
      cases hes'
      exact hk'
  · intro hk'
    have hid : blk.id = k := by simpa using (ht.get hk).1
    exact .inr ⟨blk, List.mem_of_getElem? hk, hid.symm, es, hes, hk'⟩

/-- **Connecting the blocks of a body gives a graph that refines it.** -/
theorem connect_blocks (hix : b.Indexed index) (h0 : 0 < b.length) :
    ∃ g', connect b index (Block.owners (b.blocks index)) (b.blocks index).length
        (discrete (b.blocks index)) (b.blocks index) = .ok g' ∧
      (FlowGraph.mk g' (Block.owners (b.blocks index))).Refines b := by
  have ht := Body.tile_blocks index h0
  obtain ⟨g', h', hs, hnodes, hadj⟩ := connect_discrete hix h0
  have hblock : ∀ k, (FlowGraph.mk g' (Block.owners (b.blocks index))).block? k =
      (b.blocks index)[k]? := by
    intro k
    rw [← getElem?_blocks]
    show g'.nodes.toList[k]? = _
    rw [hnodes]
  refine ⟨g', h', hs, h0, ?_, ?_, ?_⟩
  · show Block.Tile 0 0 b.length g'.nodes.toList
    rw [hnodes]
    exact ht
  · intro k blk i hk h1 h2 j
    rw [hblock] at hk
    have hstop := (ht.get hk).2.2.2
    have hi : i < b.code.length := by
      change blk.stop ≤ b.code.length at hstop
      omega
    have hx : b.instruction? i = some b.code[i] := List.getElem?_eq_getElem hi
    exact Body.successor_iff_of_not_isTerminal hx (Body.isTerminal_inside hk h1 h2 hx) (by omega) j
  · intro k blk hk j
    rw [hblock] at hk
    obtain ⟨es, hes, -, hsucc⟩ := edgesOf_ok hix hk h0
    rw [hsucc]
    simp only [hblock, hadj k blk hk es hes]

/-- a graph that refines the body is found, and refused if it lets control run past the last
instruction -/
theorem ofIndexed_eq (hix : b.Indexed index) (h0 : 0 < b.length) :
    ∃ g : FlowGraph, g.Refines b ∧
      ofIndexed b index =
        if g.fallsOff b then .error (.illFormed (.fallsOffEnd (b.length - 1))) else .ok g := by
  obtain ⟨g', h', hg⟩ := connect_blocks hix h0
  refine ⟨_, hg, ?_⟩
  show (connect b index (Block.owners (b.blocks index)) (b.blocks index).length
    (discrete (b.blocks index)) (b.blocks index)).bind _ = _
  rw [h']
  rfl

/-- the checks before the construction, and what they leave to it -/
theorem ofBody_cases (b : Body) :
    (b.code = [] ∧ ofBody b = .error (.illFormed (.fallsOffEnd 0))) ∨
      (∃ fault, b.labelIndex = .error fault ∧ ofBody b = .error (.illFormed fault)) ∨
      (∃ index fault, b.labelIndex = .ok index ∧ b.checkTargets index = .error fault ∧
        ofBody b = .error (.illFormed fault)) ∨
      ∃ index, b.Indexed index ∧ 0 < b.length ∧ ofBody b = ofIndexed b index := by
  unfold ofBody
  split
  · next h => exact .inl ⟨List.isEmpty_iff.mp h, rfl⟩
  · next h =>
    split
    · next fault hfault => exact .inr (.inl ⟨fault, hfault, rfl⟩)
    · next index hindex =>
      split
      · next fault hfault => exact .inr (.inr (.inl ⟨index, fault, hindex, hfault, rfl⟩))
      · next hcheck =>
        refine .inr (.inr (.inr ⟨index, ⟨Body.labelIndex_ok hindex, ?_⟩, ?_, rfl⟩))
        · exact fun i x l hx hl => Body.checkTargets_ok hcheck hx hl
        · exact List.length_pos_iff.mpr fun e => h (List.isEmpty_iff.mpr e)

/-- a graph connects the blocks of its body, and does not let control run past the end -/
theorem ofBody_eq_ok {g : FlowGraph} (h : ofBody b = .ok g) :
    ∃ index, b.Indexed index ∧ 0 < b.length ∧
      connect b index (Block.owners (b.blocks index)) (b.blocks index).length
        (discrete (b.blocks index)) (b.blocks index) = .ok g.graph ∧
      g.blockOf = Block.owners (b.blocks index) ∧ g.fallsOff b = false := by
  rcases ofBody_cases b with ⟨-, e⟩ | ⟨fault, -, e⟩ | ⟨index, fault, -, -, e⟩ | ⟨index, hix, h0, e⟩
  · rw [e] at h
    cases h
  · rw [e] at h
    cases h
  · rw [e] at h
    cases h
  · refine ⟨index, hix, h0, ?_⟩
    rw [e] at h
    obtain ⟨graph, hgraph, h⟩ := bind_eq_ok h
    change (if fallsOff ⟨graph, Block.owners (b.blocks index)⟩ b then _ else Except.ok _) = _ at h
    split at h
    · cases h
    · next hfalls =>
      cases h
      exact ⟨hgraph, rfl, Bool.eq_false_iff.mpr hfalls⟩

theorem ofBody_ok {g : FlowGraph} (h : ofBody b = .ok g) : g.Refines b := by
  obtain ⟨index, hix, h0, hconnect, howner, -⟩ := ofBody_eq_ok h
  obtain ⟨graph, hgraph, hg⟩ := connect_blocks hix h0
  rw [hconnect] at hgraph
  cases hgraph
  rw [← howner] at hg
  exact hg

end FlowGraph

end CilPatch
