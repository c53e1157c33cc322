import Mathlib.Logic.Relation
import CilPatch.Graph.Digraph

/-!
# Successors in a graph under construction

A graph that is built by `addNode` and `addEdge` alone is `Sound`: its lists of edge numbers name
existing edges, and edges lead to existing nodes.  Then every node has a list of successors, and an
edge puts its target at the end of the list of its source and leaves all other lists alone.

* `Sound.empty`, `Sound.addNode`, `Sound.addEdge`   soundness is kept;
* `successors?_addNode`, `successors?_addEdge`      what the two steps do to the successors;
* `Adj`, `adj_addNode`, `adj_addEdge`               the same for single steps along an edge.
-/

namespace CilPatch.Digraph

variable {ν ε : Type}

/-- what holds of every graph that is built step by step -/
structure Sound (g : Digraph ν ε) : Prop where
  leaving_size : g.leaving.size = g.nodeCount
  known : ∀ (v : Nat) (ids : List Nat), g.leaving[v]? = some ids → ∀ e ∈ ids, e < g.edgeCount
  target_lt : ∀ (e : Nat) (edge : Edge ε), g.edge? e = some edge → edge.target < g.nodeCount

/-- an edge leads from `v` to `w` -/
def Adj (g : Digraph ν ε) (v w : Nat) : Prop := ∃ ws, g.successors? v = some ws ∧ w ∈ ws

theorem adj_iff_of_successors? {g : Digraph ν ε} {v : Nat} {ws : List Nat}
    (h : g.successors? v = some ws) (w : Nat) : g.Adj v w ↔ w ∈ ws := by
  constructor
  · rintro ⟨ws', h', hw⟩
    rw [h] at h'
    exact Option.some.inj h' ▸ hw
  · exact fun hw => ⟨ws, h, hw⟩

/-! ## lists of edge numbers -/

/-- the ends of the edges with these numbers -/
def ends (g : Digraph ν ε) (ids : List Nat) : Option (List Nat) :=
  ids.mapM fun e => (g.edge? e).map (·.target)

theorem ends_cons (g : Digraph ν ε) (e : Nat) (ids : List Nat) :
    g.ends (e :: ids) =
      ((g.edge? e).map (·.target)).bind fun w => (g.ends ids).map (w :: ·) := by
  unfold ends
  rw [List.mapM_cons]
  cases g.edge? e <;> cases List.mapM (fun e => (g.edge? e).map (·.target)) ids <;> rfl

theorem length_ends {g : Digraph ν ε} {ids ws : List Nat} (h : g.ends ids = some ws) :
    ws.length = ids.length := by
  induction ids generalizing ws with
  | nil =>
    cases h
    rfl
  | cons e ids ih =>
    rw [ends_cons] at h
    obtain ⟨w, -, h⟩ := Option.bind_eq_some_iff.mp h
    obtain ⟨ws', hws, rfl⟩ := Option.map_eq_some_iff.mp h
    rw [List.length_cons, List.length_cons, ih hws]

theorem ends_append_singleton {g : Digraph ν ε} {ids ws : List Nat} {e w : Nat}
    (h : g.ends ids = some ws) (he : (g.edge? e).map (·.target) = some w) :
    g.ends (ids ++ [e]) = some (ws ++ [w]) := by
  induction ids generalizing ws with
  | nil =>
    cases h
    rw [List.nil_append, ends_cons, he]
    rfl
  | cons x ids ih =>
    rw [ends_cons] at h
    obtain ⟨t, ht, h⟩ := Option.bind_eq_some_iff.mp h
    obtain ⟨ws', hws, rfl⟩ := Option.map_eq_some_iff.mp h
    rw [List.cons_append, ends_cons, ht, ih hws]
    rfl

theorem ends_eq_some_of_known {g : Digraph ν ε} {ids : List Nat}
    (h : ∀ e ∈ ids, e < g.edgeCount) : ∃ ws, g.ends ids = some ws := by
  induction ids with
  | nil => exact ⟨[], rfl⟩
  | cons e ids ih =>
    obtain ⟨ws, hws⟩ := ih fun x hx => h x (List.mem_cons_of_mem _ hx)
    have hlt : e < g.edges.size := h e List.mem_cons_self
    have he : g.edge? e = some g.edges[e] := Array.getElem?_eq_getElem hlt
    refine ⟨g.edges[e].target :: ws, ?_⟩
    rw [ends_cons, he, hws]
    rfl

/-- edges that stay where they are keep their ends -/
theorem ends_congr {g g' : Digraph ν ε} {ids : List Nat}
    (h : ∀ e ∈ ids, g'.edge? e = g.edge? e) : g'.ends ids = g.ends ids := by
  induction ids with
  | nil => rfl
  | cons e ids ih =>
    rw [ends_cons, ends_cons, h e List.mem_cons_self,
      ih fun x hx => h x (List.mem_cons_of_mem _ hx)]

theorem lt_of_mem_ends {g : Digraph ν ε} (hg : g.Sound) {ids ws : List Nat}
    (h : g.ends ids = some ws) : ∀ w ∈ ws, w < g.nodeCount := by
  induction ids generalizing ws with
  | nil =>
    cases h
    intro w hw
    cases hw
  | cons e ids ih =>
    rw [ends_cons] at h
    obtain ⟨t, ht, h⟩ := Option.bind_eq_some_iff.mp h
    obtain ⟨ws', hws, rfl⟩ := Option.map_eq_some_iff.mp h
    obtain ⟨edge, hedge, rfl⟩ := Option.map_eq_some_iff.mp ht
    intro w hw
    rcases List.mem_cons.mp hw with rfl | hw
    · exact hg.target_lt e edge hedge
    · exact ih hws w hw

theorem successors?_eq (g : Digraph ν ε) (v : Nat) :
    g.successors? v = g.leaving[v]?.bind g.ends := by
  unfold successors?
  cases g.leaving[v]? <;> rfl

/-! ## building -/

theorem Sound.empty : (empty : Digraph ν ε).Sound where
  leaving_size := rfl
  known := fun v ids h => by cases h
  target_lt := fun e edge h => by cases h

theorem Sound.addNode {g : Digraph ν ε} (hg : g.Sound) (data : ν) : (g.addNode data).Sound where
  leaving_size := by
    rw [nodeCount_addNode]
    show (g.leaving.push []).size = _
    rw [Array.size_push, hg.leaving_size]
  known := by
    intro v ids h e he
    change (g.leaving.push [])[v]? = some ids at h
    rw [Array.getElem?_push] at h
    split at h
    · cases h
      cases he
    · exact hg.known v ids h e he
  target_lt := by
    intro e edge h
    rw [nodeCount_addNode]
    exact Nat.lt_succ_of_lt (hg.target_lt e edge h)

theorem successors?_isSome {g : Digraph ν ε} (hg : g.Sound) {v : Nat} (hv : v < g.nodeCount) :
    ∃ ws, g.successors? v = some ws ∧ ∀ w ∈ ws, w < g.nodeCount := by
  have hlt : v < g.leaving.size := hg.leaving_size ▸ hv
  have hget : g.leaving[v]? = some g.leaving[v] := Array.getElem?_eq_getElem hlt
  obtain ⟨ws, hws⟩ := ends_eq_some_of_known (hg.known v _ hget)
  refine ⟨ws, ?_, lt_of_mem_ends hg hws⟩
  rw [successors?_eq, hget]
  exact hws

theorem successors?_addNode_self {g : Digraph ν ε} (hg : g.Sound) (data : ν) :
    (g.addNode data).successors? g.nodeCount = some [] := by
  rw [successors?_eq]
  show (g.leaving.push [])[g.nodeCount]?.bind _ = _
  rw [← hg.leaving_size, Array.getElem?_push_size]
  rfl

theorem successors?_addNode_of_lt {g : Digraph ν ε} (hg : g.Sound) (data : ν) {v : Nat}
    (hv : v < g.nodeCount) : (g.addNode data).successors? v = g.successors? v := by
  have hlt : v < g.leaving.size := hg.leaving_size ▸ hv
  rw [successors?_eq, successors?_eq]
  show (g.leaving.push [])[v]?.bind _ = _
  rw [Array.getElem?_push_lt hlt, Array.getElem?_eq_getElem hlt]
  exact ends_congr fun e _ => rfl

theorem addEdge_eq_ok {g g' : Digraph ν ε} {s t : Nat} {d : ε} (h : g.addEdge s t d = .ok g') :
    s < g.nodeCount ∧ t < g.nodeCount ∧
      g' = { nodes := g.nodes
             edges := g.edges.push ⟨s, t, d⟩
             leaving := g.leaving.modify s (· ++ [g.edgeCount])
             entering := g.entering.modify t (· ++ [g.edgeCount]) } := by
  unfold addEdge at h
  split at h
  · cases h
  · next hs =>
    split at h
    · cases h
    · next ht => exact ⟨Nat.lt_of_not_le hs, Nat.lt_of_not_le ht, (Except.ok.inj h).symm⟩

theorem nodes_addEdge {g g' : Digraph ν ε} {s t : Nat} {d : ε} (h : g.addEdge s t d = .ok g') :
    g'.nodes = g.nodes := by
  obtain ⟨-, -, rfl⟩ := addEdge_eq_ok h
  rfl

/-- the old edges keep their numbers, the new one has the next -/
theorem edge?_addEdge {g g' : Digraph ν ε} {s t : Nat} {d : ε} (h : g.addEdge s t d = .ok g')
    (e : Nat) : g'.edge? e = if e = g.edgeCount then some ⟨s, t, d⟩ else g.edge? e := by
  obtain ⟨-, -, rfl⟩ := addEdge_eq_ok h
  exact Array.getElem?_push

theorem leaving_addEdge {g g' : Digraph ν ε} {s t : Nat} {d : ε} (h : g.addEdge s t d = .ok g')
    (v : Nat) :
    g'.leaving[v]? =
      if v = s then g.leaving[v]?.map (· ++ [g.edgeCount]) else g.leaving[v]? := by
  obtain ⟨-, -, rfl⟩ := addEdge_eq_ok h
  show (g.leaving.modify s _)[v]? = _
  rw [Array.getElem?_modify]
  by_cases hv : v = s
  · rw [if_pos hv, if_pos hv.symm]
  · rw [if_neg hv, if_neg (Ne.symm hv)]

theorem Sound.addEdge {g g' : Digraph ν ε} {s t : Nat} {d : ε} (hg : g.Sound)
    (h : g.addEdge s t d = .ok g') : g'.Sound := by
  have hn : g'.nodeCount = g.nodeCount := congrArg Array.size (nodes_addEdge h)
  have he : g'.edgeCount = g.edgeCount + 1 := by
    obtain ⟨-, -, rfl⟩ := addEdge_eq_ok h
    exact Array.size_push _
  obtain ⟨-, ht, hg'⟩ := addEdge_eq_ok h
  refine ⟨?_, ?_, ?_⟩
  · rw [hn, ← hg.leaving_size, hg']
    exact Array.size_modify
  · intro v ids hids e hmem
    rw [he]
    rw [leaving_addEdge h] at hids
    split at hids
    · obtain ⟨ids', hids', rfl⟩ := Option.map_eq_some_iff.mp hids
      rcases List.mem_append.mp hmem with hmem | hmem
      · exact Nat.lt_succ_of_lt (hg.known v ids' hids' e hmem)
      · rw [List.mem_singleton.mp hmem]
        exact Nat.lt_succ_self _
    · exact Nat.lt_succ_of_lt (hg.known v ids hids e hmem)
  · intro e edge hedge
    rw [hn]
    rw [edge?_addEdge h] at hedge
    split at hedge
    · cases hedge
      exact ht
    · exact hg.target_lt e edge hedge

/-- an edge puts its target at the end of the successors of its source -/
theorem successors?_addEdge {g g' : Digraph ν ε} {s t : Nat} {d : ε} (hg : g.Sound)
    (h : g.addEdge s t d = .ok g') (v : Nat) :
    g'.successors? v =
      if v = s then (g.successors? v).map (· ++ [t]) else g.successors? v := by
  have hold : ∀ ids, g.leaving[v]? = some ids → g'.ends ids = g.ends ids := by
    intro ids hids
    refine ends_congr fun e he => ?_
    rw [edge?_addEdge h, if_neg (Nat.ne_of_lt (hg.known v ids hids e he))]
  rw [successors?_eq, successors?_eq, leaving_addEdge h]
  cases hids : g.leaving[v]? with
  | none => split <;> rfl
  | some ids =>
    split
    · obtain ⟨ws, hws⟩ := ends_eq_some_of_known (hg.known v ids hids)
      have hnew : (g'.edge? g.edgeCount).map (·.target) = some t := by
        rw [edge?_addEdge h, if_pos rfl]
        rfl
      show g'.ends (ids ++ [g.edgeCount]) = (g.ends ids).map (· ++ [t])
      rw [ends_append_singleton ((hold ids hids).trans hws) hnew, hws]
      rfl
    · exact hold ids hids

/-! ## edges as a relation -/

theorem Adj.lt_left {g : Digraph ν ε} (hg : g.Sound) {v w : Nat} (h : g.Adj v w) :
    v < g.nodeCount := by
  obtain ⟨ws, hws, -⟩ := h
  rw [successors?_eq] at hws
  obtain ⟨ids, hids, -⟩ := Option.bind_eq_some_iff.mp hws
  rw [← hg.leaving_size]
  exact (Array.getElem?_eq_some_iff.mp hids).1

theorem Adj.lt_right {g : Digraph ν ε} (hg : g.Sound) {v w : Nat} (h : g.Adj v w) :
    w < g.nodeCount := by
  obtain ⟨ws, hws, hw⟩ := h
  rw [successors?_eq] at hws
  obtain ⟨ids, -, hends⟩ := Option.bind_eq_some_iff.mp hws
  exact lt_of_mem_ends hg hends w hw

/-- the exits are the nodes that no edge leaves -/
theorem mem_exits_iff {g : Digraph ν ε} (hg : g.Sound) {v : Nat} :
    v ∈ g.exits ↔ v < g.nodeCount ∧ ∀ w, ¬g.Adj v w := by
  unfold exits
  rw [List.mem_filter, List.mem_range]
  refine and_congr_right fun hv => ?_
  obtain ⟨ws, hws, -⟩ := successors?_isSome hg hv
  have hends := hws
  rw [successors?_eq] at hends
  obtain ⟨ids, hids, hends⟩ := Option.bind_eq_some_iff.mp hends
  unfold outDegree
  simp only [hids, beq_iff_eq, adj_iff_of_successors? hws]
  rw [← length_ends hends, List.length_eq_zero_iff, List.eq_nil_iff_forall_not_mem]

theorem adj_addNode {g : Digraph ν ε} (hg : g.Sound) (data : ν) (v w : Nat) :
    (g.addNode data).Adj v w ↔ g.Adj v w := by
  by_cases hv : v < g.nodeCount
  · unfold Adj
    rw [successors?_addNode_of_lt hg data hv]
  · constructor
    · intro h
      have hlt := h.lt_left (hg.addNode data)
      rw [nodeCount_addNode] at hlt
      have e : v = g.nodeCount := by omega
      rw [e] at h
      exact absurd ((adj_iff_of_successors? (successors?_addNode_self hg data) w).mp h) (by simp)
    · exact fun h => absurd (h.lt_left hg) hv

theorem adj_addEdge {g g' : Digraph ν ε} {s t : Nat} {d : ε} (hg : g.Sound)
    (h : g.addEdge s t d = .ok g') (v w : Nat) :
    g'.Adj v w ↔ g.Adj v w ∨ (v = s ∧ w = t) := by
  unfold Adj
  rw [successors?_addEdge hg h v]
  by_cases hv : v = s
  · obtain ⟨ws, hws, -⟩ := successors?_isSome hg (addEdge_eq_ok h).1
    rw [if_pos hv, hv, hws]
    simp
  · rw [if_neg hv]
    simp [hv]

end CilPatch.Digraph
