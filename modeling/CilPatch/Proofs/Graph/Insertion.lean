import Mathlib.Algebra.GroupWithZero.Nat
import Mathlib.Algebra.BigOperators.Group.Finset.Basic
import CilPatch.Proofs.Graph.Reachability

/-!
# Graphs as they are put together

Every graph is put together by adding nodes and edges, one after the other (`Built`); an edge
without both its ends is refused and changes nothing (`Addition.apply`).  What the lists at a node
say about such a graph is said here of its edges alone, in the order in which they were added:

* `heads`                      the ends of the edges that leave a node;
* `Built.successors?_eq_heads` they are what the node lists;
* `Built.adj_iff`              a node leads to another if an edge does;
* `Built.sum_length_heads`     every edge leaves one node.
-/

namespace CilPatch.Digraph

variable {ν ε : Type}

/-- the graph comes about by adding nodes and edges -/
inductive Built : Digraph ν ε → Prop where
  | empty : Built empty
  | addNode {g : Digraph ν ε} (data : ν) : Built g → Built (g.addNode data)
  | addEdge {g g' : Digraph ν ε} {s t : Nat} {d : ε} :
      Built g → g.addEdge s t d = .ok g' → Built g'

/-! ## calls -/

/-- a call that is to add something -/
inductive Addition (ν ε : Type) where
  | node (data : ν)
  | edge (source target : Nat) (data : ε)

/-- the graph behind a call -/
def Addition.apply (g : Digraph ν ε) : Addition ν ε → Digraph ν ε
  | node data => g.addNode data
  | edge source target data =>
    match g.addEdge source target data with
    | .ok g' => g'
    | .error _ => g

/-- the graph behind some calls, begun without nodes -/
def ofAdditions (calls : List (Addition ν ε)) : Digraph ν ε := calls.foldl Addition.apply .empty

theorem Built.apply {g : Digraph ν ε} (hg : g.Built) (call : Addition ν ε) :
    (call.apply g).Built := by
  cases call with
  | node data => exact hg.addNode data
  | edge s t d =>
    unfold Addition.apply
    dsimp only
    split
    · next g' h => exact hg.addEdge h
    · exact hg

theorem built_ofAdditions (calls : List (Addition ν ε)) : (ofAdditions calls).Built := by
  unfold ofAdditions
  induction calls using List.reverseRecOn with
  | nil => exact .empty
  | append_singleton calls call ih =>
    rw [List.foldl_append]
    exact ih.apply call

/-! ## edges in their order -/

/-- the ends of the edges that leave `v`, in the order in which the edges were added -/
def heads (g : Digraph ν ε) (v : Nat) : List Nat :=
  (g.edges.toList.filter (·.source == v)).map (·.target)

theorem mem_edges_iff {g : Digraph ν ε} {edge : Edge ε} :
    edge ∈ g.edges.toList ↔ ∃ e, g.edge? e = some edge := by
  unfold edge?
  simp only [List.mem_iff_getElem?, Array.getElem?_toList]

theorem mem_heads {g : Digraph ν ε} {v w : Nat} :
    w ∈ g.heads v ↔ ∃ e edge, g.edge? e = some edge ∧ edge.source = v ∧ edge.target = w := by
  unfold heads
  simp only [List.mem_map, List.mem_filter, beq_iff_eq, mem_edges_iff]
  constructor
  · rintro ⟨edge, ⟨⟨e, he⟩, hs⟩, ht⟩
    exact ⟨e, edge, he, hs, ht⟩
  · rintro ⟨e, edge, he, hs, ht⟩
    exact ⟨edge, ⟨⟨e, he⟩, hs⟩, ht⟩

theorem heads_addNode (g : Digraph ν ε) (data : ν) (v : Nat) :
    (g.addNode data).heads v = g.heads v := rfl

theorem heads_addEdge {g g' : Digraph ν ε} {s t : Nat} {d : ε} (h : g.addEdge s t d = .ok g')
    (v : Nat) : g'.heads v = if v = s then g.heads v ++ [t] else g.heads v := by
  obtain ⟨-, -, rfl⟩ := addEdge_eq_ok h
  show ((g.edges.push ⟨s, t, d⟩).toList.filter _).map _ = _
  rw [Array.toList_push, List.filter_append, List.map_append]
  by_cases hv : v = s
  · rw [if_pos hv, List.filter_cons_of_pos (by simp [hv])]
    rfl
  · rw [if_neg hv, List.filter_cons_of_neg (by simpa using Ne.symm hv)]
    exact List.append_nil _

namespace Built

variable {g : Digraph ν ε}

theorem sound (hg : g.Built) : g.Sound := by
  induction hg with
  | empty => exact Sound.empty
  | addNode data _ ih => exact ih.addNode data
  | addEdge _ h ih => exact ih.addEdge h

theorem source_lt (hg : g.Built) {e : Nat} {edge : Edge ε} (he : g.edge? e = some edge) :
    edge.source < g.nodeCount := by
  induction hg generalizing e with
  | empty => cases he
  | addNode data _ ih =>
    rw [nodeCount_addNode]
    exact Nat.lt_succ_of_lt (ih he)
  | @addEdge g g' s t d _ h ih =>
    have hn : g'.nodeCount = g.nodeCount := congrArg Array.size (nodes_addEdge h)
    rw [edge?_addEdge h] at he
    rw [hn]
    split at he
    · cases he
      exact (addEdge_eq_ok h).1
    · exact ih he

/-- no edge leaves a node that does not exist -/
theorem heads_of_le (hg : g.Built) {v : Nat} (hv : g.nodeCount ≤ v) : g.heads v = [] := by
  refine List.eq_nil_iff_forall_not_mem.mpr fun w hw => ?_
  obtain ⟨e, edge, he, rfl, -⟩ := mem_heads.mp hw
  exact absurd (hg.source_lt he) (Nat.not_lt.mpr hv)

/-- **A node lists its successors in the order in which its edges were added.** -/
theorem successors?_eq_heads (hg : g.Built) {v : Nat} (hv : v < g.nodeCount) :
    g.successors? v = some (g.heads v) := by
  induction hg generalizing v with
  | empty => exact absurd hv (Nat.not_lt_zero v)
  | @addNode g data hg ih =>
    rw [heads_addNode]
    by_cases hlt : v < g.nodeCount
    · rw [successors?_addNode_of_lt hg.sound data hlt]
      exact ih hlt
    · rw [nodeCount_addNode] at hv
      have e : v = g.nodeCount := by omega
      rw [e, successors?_addNode_self hg.sound data, hg.heads_of_le (Nat.le_refl _)]
  | @addEdge g g' s t d hg h ih =>
    have hn : g'.nodeCount = g.nodeCount := congrArg Array.size (nodes_addEdge h)
    rw [successors?_addEdge hg.sound h, heads_addEdge h, ih (hn ▸ hv)]
    split <;> rfl

theorem getD_successors? (hg : g.Built) (v : Nat) : (g.successors? v).getD [] = g.heads v := by
  by_cases hv : v < g.nodeCount
  · rw [hg.successors?_eq_heads hv]
    rfl
  · rw [hg.heads_of_le (Nat.not_lt.mp hv)]
    refine List.eq_nil_iff_forall_not_mem.mpr fun w hw => hv ?_
    exact (mem_getD_successors?.mp hw).lt_left hg.sound

theorem adj_iff (hg : g.Built) {v w : Nat} :
    g.Adj v w ↔ ∃ e edge, g.edge? e = some edge ∧ edge.source = v ∧ edge.target = w := by
  rw [← mem_getD_successors?, hg.getD_successors?]
  exact mem_heads

/-- every edge leaves one node -/
theorem sum_length_heads (hg : g.Built) :
    ((List.range g.nodeCount).map fun v => (g.heads v).length).sum = g.edgeCount := by
  have hcount : ∀ v, (g.heads v).length =
      ((g.edges.toList.map Edge.source : List Nat) : Multiset Nat).count v := by
    intro v
    rw [heads, List.length_map, ← List.countP_eq_length_filter, Multiset.coe_count, List.count,
      List.countP_map]
    rfl
  simp only [hcount]
  show ∑ v ∈ Finset.range g.nodeCount, _ = _
  rw [Multiset.sum_count_eq_card, Multiset.coe_card, List.length_map, Array.length_toList]
  · rfl
  · intro v hv
    obtain ⟨edge, hedge, rfl⟩ := List.mem_map.mp (Multiset.mem_coe.mp hv)
    obtain ⟨e, he⟩ := mem_edges_iff.mp hedge
    exact Finset.mem_range.mpr (hg.source_lt he)

end Built

end CilPatch.Digraph
