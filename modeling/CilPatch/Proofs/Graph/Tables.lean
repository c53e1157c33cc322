import CilPatch.Proofs.Graph.Insertion

/-!
# The tables of a graph

Nodes and edges are numbers, and what is known of them stands in tables that are read at these
numbers.  In a graph that is put together by adding nodes and edges no reading goes past the end of
a table:

* `Fitting`, `Built.fitting`        the tables hold the numbers of nodes and edges only;
* `Consults`, `Sound.encloses`      the nodes that a depth-first search looks up.
-/

namespace CilPatch.Digraph

variable {ν ε : Type}

/-- there are two lists for each node, the lists hold numbers of edges, and edges have nodes at
their ends -/
structure Fitting (g : Digraph ν ε) : Prop where
  leaving_size : g.leaving.size = g.nodeCount
  entering_size : g.entering.size = g.nodeCount
  leaving_lt : ∀ (v : Nat) (ids : List Nat), g.leaving[v]? = some ids → ∀ e ∈ ids, e < g.edgeCount
  entering_lt : ∀ (v : Nat) (ids : List Nat), g.entering[v]? = some ids → ∀ e ∈ ids, e < g.edgeCount
  source_lt : ∀ (e : Nat) (edge : Edge ε), g.edge? e = some edge → edge.source < g.nodeCount
  target_lt : ∀ (e : Nat) (edge : Edge ε), g.edge? e = some edge → edge.target < g.nodeCount

namespace Built

variable {g : Digraph ν ε}

theorem entering_size (hg : g.Built) : g.entering.size = g.nodeCount := by
  induction hg with
  | empty => rfl
  | @addNode g data _ ih =>
    rw [nodeCount_addNode]
    show (g.entering.push []).size = _
    rw [Array.size_push, ih]
  | addEdge _ h ih =>
    obtain ⟨-, -, rfl⟩ := addEdge_eq_ok h
    exact Array.size_modify.trans ih

theorem entering_lt (hg : g.Built) {v : Nat} {ids : List Nat} (hids : g.entering[v]? = some ids) :
    ∀ e ∈ ids, e < g.edgeCount := by
  induction hg generalizing ids with
  | empty => cases hids
  | @addNode g data _ ih =>
    change (g.entering.push [])[v]? = some ids at hids
    rw [Array.getElem?_push] at hids
    split at hids
    · cases hids
      exact fun e he => absurd he List.not_mem_nil
    · exact ih hids
  | @addEdge g g' s t d _ h ih =>
    obtain ⟨-, -, rfl⟩ := addEdge_eq_ok h
    have hcount : (g.edges.push ⟨s, t, d⟩).size = g.edgeCount + 1 := Array.size_push _
    show ∀ e ∈ ids, e < (g.edges.push ⟨s, t, d⟩).size
    rw [hcount]
    change (g.entering.modify t (· ++ [g.edgeCount]))[v]? = some ids at hids
    rw [Array.getElem?_modify] at hids
    split at hids
    · obtain ⟨old, hold, rfl⟩ := Option.map_eq_some_iff.mp hids
      intro e he
      rcases List.mem_append.mp he with he | he
      · exact Nat.lt_succ_of_lt (ih hold e he)
      · rw [List.mem_singleton.mp he]
        exact Nat.lt_succ_self _
    · exact fun e he => Nat.lt_succ_of_lt (ih hids e he)

/-- **No table of a graph is read past its end.** -/
theorem fitting (hg : g.Built) : g.Fitting where
  leaving_size := hg.sound.leaving_size
  entering_size := hg.entering_size
  leaving_lt := hg.sound.known
  entering_lt := fun _ _ => hg.entering_lt
  source_lt := fun _ _ => hg.source_lt
  target_lt := hg.sound.target_lt

end Built

/-! ## the search -/

/-- the search that stands at `fresh` and `stack` looks up the node `u`: to see whether it is fresh
when it comes off the stack, or when it is a successor of a node that is entered -/
inductive Consults (next : Nat → List Nat) : List Nat → List Visit → Nat → Prop where
  | entered {fresh : List Nat} {v : Nat} {rest : List Visit} :
      Consults next fresh (.enter v :: rest) v
  | successor {fresh : List Nat} {v w : Nat} {rest : List Visit} : v ∈ fresh → w ∈ next v →
      Consults next fresh (.enter v :: rest) w
  | finish {fresh : List Nat} {v u : Nat} {rest : List Visit} : Consults next fresh rest u →
      Consults next fresh (.finish v :: rest) u
  | enter {fresh : List Nat} {v u : Nat} {rest : List Visit} : v ∈ fresh →
      Consults next (fresh.erase v)
        (((next v).filter (fresh.erase v).contains).map .enter ++ .finish v :: rest) u →
        Consults next fresh (.enter v :: rest) u
  | skip {fresh : List Nat} {v u : Nat} {rest : List Visit} : v ∉ fresh →
      Consults next fresh rest u → Consults next fresh (.enter v :: rest) u

/-- the search looks up nothing outside of a set that holds what is on its stack and all successors
of what it holds -/
theorem Consults.of_closed {next : Nat → List Nat} {P : Nat → Prop}
    (hnext : ∀ v w, P v → w ∈ next v → P w) {fresh : List Nat} {stack : List Visit} {u : Nat}
    (h : Consults next fresh stack u) (hstack : ∀ v, Visit.enter v ∈ stack → P v) : P u := by
  induction h with
  | entered => exact hstack _ List.mem_cons_self
  | successor _ hw => exact hnext _ _ (hstack _ List.mem_cons_self) hw
  | finish _ ih | skip _ _ ih => exact ih fun v hv => hstack v (List.mem_cons_of_mem _ hv)
  | @enter fresh v u rest _ _ ih =>
    refine ih fun w hw => ?_
    rcases List.mem_append.mp hw with hw | hw
    · exact hnext v w (hstack v List.mem_cons_self) (List.mem_filter.mp (mem_enters.mp hw)).1
    · rcases List.mem_cons.mp hw with hw | hw
      · cases hw
      · exact hstack w (List.mem_cons_of_mem _ hw)

/-- the search from `start` looks up nodes only -/
def Encloses (g : Digraph ν ε) (start : Nat) : Prop :=
  ∀ u, Consults (fun v => (g.successors? v).getD []) (List.range g.nodeCount) [.enter start] u →
    u < g.nodeCount

/-- **A search that begins at a node stays in the graph.** -/
theorem Sound.encloses {g : Digraph ν ε} (hg : g.Sound) {start : Nat} (hs : start < g.nodeCount) :
    g.Encloses start := by
  intro u hu
  refine hu.of_closed (P := (· < g.nodeCount)) ?_ ?_
  · exact fun v w _ hw => (mem_getD_successors?.mp hw).lt_right hg
  · intro v hv
    cases List.mem_singleton.mp hv
    exact hs

end CilPatch.Digraph
