import CilPatch.Proofs.Graph.Tables

/-!
# The lists at the nodes

A graph holds its nodes and its edges in two tables, and for each node the numbers of the edges that
leave it and of those that enter it.  All four have to be kept in step.  Here the calls that add
something change the tables one after the other, in place (`Addition.call`); a call that is refused
answers before it touches any of them (`perform_edge`).

* `numbersAt`                       the edges at a node, read off the table of edges alone;
* `Built.numbers_eq`                they are what the node lists, at either end of its edges;
* `mapM_numbersAt`                  a list of numbers, read as what stands at the other end;
* `Indexed`, `Built.indexed`        everything that the lists say of the edges;
* `nodesMade`, `edgesMade`          what a history of calls has made, under its numbers.
-/

namespace CilPatch.Digraph

variable {ν ε : Type}

/-! ## calls in place -/

/-- refuse to go on without the node -/
def requireNode (role : Role) (v : Nat) : EStateM MissingNode (Digraph ν ε) Unit := do
  let g ← get
  if g.nodeCount ≤ v then throw ⟨role, v, g.nodeCount⟩

namespace Addition

/-- the call as it works on the graph, with the number that it answers -/
def call : Addition ν ε → EStateM MissingNode (Digraph ν ε) Nat
  | node data => do
    let v := (← get).nodeCount
    modify fun g => { g with nodes := g.nodes.push data }
    modify fun g => { g with leaving := g.leaving.push [] }
    modify fun g => { g with entering := g.entering.push [] }
    return v
  | edge source target data => do
    requireNode .source source
    requireNode .target target
    let e := (← get).edgeCount
    modify fun g => { g with edges := g.edges.push ⟨source, target, data⟩ }
    modify fun g => { g with leaving := g.leaving.modify source (· ++ [e]) }
    modify fun g => { g with entering := g.entering.modify target (· ++ [e]) }
    return e

/-- what the call answers, and the graph that it leaves behind -/
def perform (a : Addition ν ε) (g : Digraph ν ε) : Except MissingNode Nat × Digraph ν ε :=
  match a.call.run g with
  | .ok number g' => (.ok number, g')
  | .error missing g' => (.error missing, g')

section
variable {g : Digraph ν ε} {role : Role} {s t : Nat}

theorem requireNode_of_le (h : g.nodeCount ≤ s) :
    (requireNode role s).run g = .error ⟨role, s, g.nodeCount⟩ g := by
  unfold requireNode
  simp [h]

theorem requireNode_of_lt (h : s < g.nodeCount) : (requireNode role s).run g = .ok () g := by
  unfold requireNode
  simp [Nat.not_le.mpr h]

theorem perform_node (data : ν) (g : Digraph ν ε) :
    (node data).perform g = (.ok g.nodeCount, g.addNode data) := rfl

theorem perform_edge_of_source (h : g.nodeCount ≤ s) (t : Nat) (d : ε) :
    (edge s t d).perform g = (.error ⟨.source, s, g.nodeCount⟩, g) := by
  unfold perform call
  rw [EStateM.run_bind, requireNode_of_le h]

theorem perform_edge_of_target (hs : s < g.nodeCount) (ht : g.nodeCount ≤ t) (d : ε) :
    (edge s t d).perform g = (.error ⟨.target, t, g.nodeCount⟩, g) := by
  unfold perform call
  rw [EStateM.run_bind, requireNode_of_lt hs]
  dsimp only
  rw [EStateM.run_bind, requireNode_of_le ht]

theorem perform_edge_of_lt (hs : s < g.nodeCount) (ht : t < g.nodeCount) (d : ε) :
    ∃ g', g.addEdge s t d = .ok g' ∧ (edge s t d).perform g = (.ok g.edgeCount, g') := by
  have hok : ∃ g', g.addEdge s t d = .ok g' := addEdge_isOk_iff.mpr ⟨hs, ht⟩
  obtain ⟨g', h⟩ := hok
  refine ⟨g', h, ?_⟩
  obtain ⟨-, -, rfl⟩ := addEdge_eq_ok h
  unfold perform call
  rw [EStateM.run_bind, requireNode_of_lt hs]
  dsimp only
  rw [EStateM.run_bind, requireNode_of_lt ht]
  rfl

end

/-- **A call in place and the graph that it is to give**: a refused call leaves the graph alone. -/
theorem perform_edge (s t : Nat) (d : ε) (g : Digraph ν ε) : (edge s t d).perform g =
    match g.addEdge s t d with
    | .ok g' => (.ok g.edgeCount, g')
    | .error missing => (.error missing, g) := by
  by_cases hs : g.nodeCount ≤ s
  · rw [perform_edge_of_source hs, addEdge, if_pos hs]
  · by_cases ht : g.nodeCount ≤ t
    · rw [perform_edge_of_target (Nat.lt_of_not_le hs) ht, addEdge, if_neg hs, if_pos ht]
    · obtain ⟨g', hadd, h⟩ := perform_edge_of_lt (Nat.lt_of_not_le hs) (Nat.lt_of_not_le ht) d
      rw [h, hadd]

/-- it is refused exactly where a node is missing -/
theorem refused_iff {g : Digraph ν ε} {s t : Nat} {d : ε} :
    (∃ missing, (edge s t d).perform g = (.error missing, g)) ↔
      g.nodeCount ≤ s ∨ g.nodeCount ≤ t := by
  constructor
  · rintro ⟨missing, h⟩
    refine Decidable.or_iff_not_imp_left.mpr fun hs => Nat.le_of_not_lt fun ht => ?_
    obtain ⟨g', -, hok⟩ := perform_edge_of_lt (Nat.lt_of_not_le hs) ht d
    rw [hok] at h
    cases congrArg Prod.fst h
  · intro h
    by_cases hs : g.nodeCount ≤ s
    · exact ⟨_, perform_edge_of_source hs t d⟩
    · exact ⟨_, perform_edge_of_target (Nat.lt_of_not_le hs) (h.resolve_left hs) d⟩

theorem perform_snd (a : Addition ν ε) (g : Digraph ν ε) : (a.perform g).2 = a.apply g := by
  cases a with
  | node data => rfl
  | edge s t d =>
    rw [perform_edge, apply]
    cases g.addEdge s t d <;> rfl

end Addition

/-! ## the edges at a node -/

/-- the node at an end of the edge -/
def Edge.node (edge : Edge ε) : Role → Nat
  | .source => edge.source
  | .target => edge.target

/-- per node the numbers of the edges that have it at this end -/
def numbers (g : Digraph ν ε) : Role → Array (List Nat)
  | .source => g.leaving
  | .target => g.entering

/-- the numbers of the edges that have the node `v` at this end, in order -/
def numbersAt (g : Digraph ν ε) (role : Role) (v : Nat) : List Nat :=
  (List.range g.edgeCount).filter fun e => (g.edge? e).any (·.node role == v)

section
variable {g : Digraph ν ε} {role : Role} {v e : Nat}

theorem mem_numbersAt :
    e ∈ g.numbersAt role v ↔ ∃ edge, g.edge? e = some edge ∧ edge.node role = v := by
  unfold numbersAt
  rw [List.mem_filter, List.mem_range, Option.any_eq_true]
  simp only [beq_iff_eq]
  refine and_iff_right_of_imp ?_
  rintro ⟨edge, he, -⟩
  exact (Array.getElem?_eq_some_iff.mp he).1

theorem pairwise_numbersAt : (g.numbersAt role v).Pairwise (· < ·) :=
  List.pairwise_lt_range.filter _

theorem numbersAt_addEdge {g' : Digraph ν ε} {s t : Nat} {d : ε}
    (h : g.addEdge s t d = .ok g') (role : Role) (v : Nat) :
    g'.numbersAt role v =
      g.numbersAt role v ++ if (⟨s, t, d⟩ : Edge ε).node role = v then [g.edgeCount] else [] := by
  have hcount : g'.edgeCount = g.edgeCount + 1 := by
    obtain ⟨-, -, rfl⟩ := addEdge_eq_ok h
    exact Array.size_push _
  have hold : (List.range g.edgeCount).filter
      (fun e => (g'.edge? e).any (·.node role == v)) = g.numbersAt role v := by
    refine List.filter_congr fun e he => ?_
    rw [edge?_addEdge h, if_neg (Nat.ne_of_lt (List.mem_range.mp he))]
  unfold numbersAt
  rw [hcount, List.range_succ, List.filter_append, hold, List.filter_singleton,
    edge?_addEdge h, if_pos rfl]
  simp [numbersAt]

/-- the numbers of the entries that pass a test, read back as these entries -/
theorem map_filter_range {α : Type} (L : List α) (p : α → Bool) :
    ((List.range L.length).filter fun e => L[e]?.any p).map (L[·]?) = (L.filter p).map some := by
  induction L using List.reverseRecOn with
  | nil => rfl
  | append_singleton L x ih =>
    have hsame : ∀ e ∈ List.range L.length, (L ++ [x])[e]? = L[e]? := fun e he =>
      List.getElem?_append_left (List.mem_range.mp he)
    rw [List.length_append, List.length_singleton, List.range_succ, List.filter_append,
      List.map_append, List.filter_append, List.map_append, ← ih]
    congr 1
    · rw [List.filter_congr fun e he => by rw [hsame e he]]
      exact List.map_congr_left fun e he => hsame e (List.mem_of_mem_filter he)
    · by_cases hx : p x <;> simp [hx]

/-- the edges with these numbers are those of the table that have the node at this end -/
theorem map_numbersAt (g : Digraph ν ε) (role : Role) (v : Nat) :
    (g.numbersAt role v).map g.edge? = (g.edges.toList.filter (·.node role == v)).map some := by
  have htable := map_filter_range g.edges.toList (·.node role == v)
  simp only [Array.length_toList, Array.getElem?_toList] at htable
  exact htable

theorem length_numbersAt (g : Digraph ν ε) (role : Role) (v : Nat) :
    (g.numbersAt role v).length = g.edges.toList.countP (·.node role == v) := by
  have h := congrArg List.length (g.map_numbersAt role v)
  rwa [List.length_map, List.length_map, ← List.countP_eq_length_filter] at h

/-- to read a list of numbers is to read the table of edges -/
theorem mapM_numbersAt {α : Type} (g : Digraph ν ε) (role : Role) (v : Nat) (f : Edge ε → α) :
    (g.numbersAt role v).mapM (fun e => (g.edge? e).map f) =
      some ((g.edges.toList.filter (·.node role == v)).map f) := by
  have h : (g.numbersAt role v).mapM (fun e => (g.edge? e).map f) =
      ((g.numbersAt role v).map g.edge?).mapM (Option.map f) :=
    (List.mapM_map (f := g.edge?) (g := Option.map f)).symm
  rw [h, map_numbersAt, List.mapM_map]
  exact List.mapM_pure

end

namespace Built

variable {g : Digraph ν ε}

theorem node_lt (hg : g.Built) {e : Nat} {edge : Edge ε} (he : g.edge? e = some edge)
    (role : Role) : edge.node role < g.nodeCount := by
  cases role with
  | source => exact hg.source_lt he
  | target => exact hg.sound.target_lt e edge he

theorem size_numbers (hg : g.Built) (role : Role) : (g.numbers role).size = g.nodeCount := by
  cases role with
  | source => exact hg.sound.leaving_size
  | target => exact hg.entering_size

/-- **A node lists exactly the edges that have it at this end, in their order.**  By induction on
how the graph came about: a new node has no edges, and a new edge has the highest number. -/
theorem numbers_eq (hg : g.Built) (role : Role) {v : Nat} (hv : v < g.nodeCount) :
    (g.numbers role)[v]? = some (g.numbersAt role v) := by
  induction hg with
  | empty => exact absurd hv (Nat.not_lt_zero v)
  | @addNode g data hg ih =>
    have hpush : (g.addNode data).numbers role = (g.numbers role).push [] := by
      cases role <;> rfl
    have hsame : (g.addNode data).numbersAt role v = g.numbersAt role v := rfl
    rw [hpush, hsame, Array.getElem?_push, hg.size_numbers role]
    split
    · next hlast =>
      refine congrArg some (List.eq_nil_iff_forall_not_mem.mpr fun e he => ?_).symm
      obtain ⟨edge, hedge, rfl⟩ := mem_numbersAt.mp he
      exact Nat.ne_of_lt (hg.node_lt hedge role) hlast
    · next hlast =>
      rw [nodeCount_addNode] at hv
      exact ih (Nat.lt_of_le_of_ne (Nat.le_of_lt_succ hv) hlast)
  | @addEdge g g' s t d hg h ih =>
    have hn : g'.nodeCount = g.nodeCount := congrArg Array.size (nodes_addEdge h)
    have hmodify : g'.numbers role =
        (g.numbers role).modify ((⟨s, t, d⟩ : Edge ε).node role) (· ++ [g.edgeCount]) := by
      obtain ⟨-, -, rfl⟩ := addEdge_eq_ok h
      cases role <;> rfl
    rw [hmodify, Array.getElem?_modify, ih (hn ▸ hv), numbersAt_addEdge h]
    split
    · rfl
    · rw [List.append_nil]

theorem eq_numbersAt (hg : g.Built) {role : Role} {v : Nat} {ids : List Nat}
    (hids : (g.numbers role)[v]? = some ids) : ids = g.numbersAt role v := by
  obtain ⟨hv, -⟩ := Array.getElem?_eq_some_iff.mp hids
  rw [hg.size_numbers role] at hv
  exact Option.some.inj (hids.symm.trans (hg.numbers_eq role hv))

/-- the nodes from which edges lead to `v`, in the order in which the edges were added -/
theorem predecessors?_eq (hg : g.Built) {v : Nat} (hv : v < g.nodeCount) :
    g.predecessors? v = some ((g.edges.toList.filter (·.target == v)).map (·.source)) := by
  have hlist : g.entering[v]? = some (g.numbersAt .target v) := hg.numbers_eq .target hv
  unfold predecessors?
  rw [hlist]
  exact g.mapM_numbersAt .target v (·.source)

theorem outDegree_eq (hg : g.Built) (v : Nat) :
    g.outDegree v = g.edges.toList.countP (·.source == v) := by
  unfold outDegree
  by_cases hv : v < g.nodeCount
  · have hlist : g.leaving[v]? = some (g.numbersAt .source v) := hg.numbers_eq .source hv
    rw [hlist]
    exact g.length_numbersAt .source v
  · have hnone : g.leaving[v]? = none := by
      rw [Array.getElem?_eq_none_iff, hg.sound.leaving_size]
      exact Nat.le_of_not_lt hv
    rw [hnone]
    refine (List.countP_eq_zero.mpr fun edge hedge => ?_).symm
    obtain ⟨e, he⟩ := mem_edges_iff.mp hedge
    have hlt := hg.source_lt he
    simp only [beq_iff_eq]
    omega

theorem exits_eq (hg : g.Built) : g.exits =
    (List.range g.nodeCount).filter fun v => g.edges.toList.all (·.source != v) := by
  refine List.filter_congr fun v _ => ?_
  rw [hg.outDegree_eq v, Bool.eq_iff_iff, beq_iff_eq, List.countP_eq_zero, List.all_eq_true]
  simp only [beq_iff_eq, bne_iff_ne, ne_eq]

end Built

/-- what the lists at the nodes say of the edges -/
structure Indexed (g : Digraph ν ε) : Prop where
  /-- every node has a list for either end of its edges -/
  size_eq : ∀ role, (g.numbers role).size = g.nodeCount
  increasing : ∀ role (v : Nat) (ids : List Nat), (g.numbers role)[v]? = some ids →
    ids.Pairwise (· < ·)
  known : ∀ role (v : Nat) (ids : List Nat), (g.numbers role)[v]? = some ids →
    ∀ e ∈ ids, e < g.edgeCount
  /-- every edge has a node at either end, whose list alone holds its number, and once -/
  once : ∀ role e edge, g.edge? e = some edge → edge.node role < g.nodeCount ∧
    ∀ (v : Nat) (ids : List Nat), (g.numbers role)[v]? = some ids →
      ids.count e = if v = edge.node role then 1 else 0
  both_ways : ∀ u v, u < g.nodeCount → v < g.nodeCount → ∃ vs us,
    g.successors? u = some vs ∧ g.predecessors? v = some us ∧ vs.count v = us.count u
  outDegree_eq : ∀ v, g.outDegree v = g.edges.toList.countP (·.source == v)
  exits_eq : g.exits = (List.range g.nodeCount).filter fun v => g.edges.toList.all (·.source != v)

theorem Built.indexed {g : Digraph ν ε} (hg : g.Built) : g.Indexed where
  size_eq := hg.size_numbers
  increasing role v ids hids := by
    rw [hg.eq_numbersAt hids]
    exact pairwise_numbersAt
  known role v ids hids e he := by
    rw [hg.eq_numbersAt hids] at he
    exact List.mem_range.mp (List.mem_of_mem_filter he)
  once role e edge he := by
    refine ⟨hg.node_lt he role, fun v ids hids => ?_⟩
    have hmem : e ∈ g.numbersAt role v ↔ v = edge.node role := by
      rw [mem_numbersAt, he]
      simp [eq_comm]
    rw [hg.eq_numbersAt hids, pairwise_numbersAt.nodup.count]
    simp only [hmem]
  both_ways u v hu hv := by
    refine ⟨_, _, hg.successors?_eq_heads hu, hg.predecessors?_eq hv, ?_⟩
    unfold heads
    rw [List.count, List.count, List.countP_map, List.countP_map, List.countP_filter,
      List.countP_filter]
    exact List.countP_congr fun edge _ => by simp [and_comm]
  outDegree_eq := hg.outDegree_eq
  exits_eq := hg.exits_eq

/-! ## histories -/

/-- a call with what it answered -/
abbrev Record (ν ε : Type) := Addition ν ε × Except MissingNode Nat

/-- the nodes that the calls made, with their numbers -/
def nodesMade (history : List (Record ν ε)) : List (Nat × ν) :=
  history.filterMap fun
    | (.node data, .ok v) => some (v, data)
    | _ => none

/-- the edges that the calls made, with their numbers -/
def edgesMade (history : List (Record ν ε)) : List (Nat × Edge ε) :=
  history.filterMap fun
    | (.edge s t d, .ok e) => some (e, ⟨s, t, d⟩)
    | _ => none

theorem nodesMade_append (history later : List (Record ν ε)) :
    nodesMade (history ++ later) = nodesMade history ++ nodesMade later := List.filterMap_append

theorem edgesMade_append (history later : List (Record ν ε)) :
    edgesMade (history ++ later) = edgesMade history ++ edgesMade later := List.filterMap_append

/-- the calls one after the other, begun without nodes: their answers, and the graph at the end -/
def performAll (calls : List (Addition ν ε)) : List (Record ν ε) × Digraph ν ε :=
  calls.foldl (fun (history, g) a => (history ++ [(a, (a.perform g).1)], (a.perform g).2))
    ([], .empty)

theorem performAll_append_singleton (calls : List (Addition ν ε)) (a : Addition ν ε) :
    performAll (calls ++ [a]) =
      ((performAll calls).1 ++ [(a, (a.perform (performAll calls).2).1)],
        (a.perform (performAll calls).2).2) := List.foldl_append

theorem performAll_snd (calls : List (Addition ν ε)) :
    (performAll calls).2 = ofAdditions calls := by
  induction calls using List.reverseRecOn with
  | nil => rfl
  | append_singleton calls a ih =>
    rw [performAll_append_singleton, ofAdditions, List.foldl_append]
    show (a.perform (performAll calls).2).2 = a.apply (ofAdditions calls)
    rw [Addition.perform_snd, ih]

/-- the numbers that the calls were told count the nodes and the edges of `g` in the order in which
they were made, and what was made is found under them -/
structure Told (history : List (Record ν ε)) (g : Digraph ν ε) : Prop where
  nodes_eq : nodesMade history = (List.range g.nodeCount).zip g.nodes.toList
  edges_eq : edgesMade history = (List.range g.edgeCount).zip g.edges.toList

/-- a table that grows by one entry, which gets the next number -/
theorem zip_range_push {α : Type} (xs : Array α) (x : α) :
    (List.range (xs.push x).size).zip (xs.push x).toList =
      (List.range xs.size).zip xs.toList ++ [(xs.size, x)] := by
  have hlen : (List.range xs.size).length = xs.toList.length := by
    rw [List.length_range, Array.length_toList]
  rw [Array.size_push, List.range_succ, Array.toList_push, List.zip_append hlen]
  rfl

theorem Told.perform {history : List (Record ν ε)} {g : Digraph ν ε} (h : Told history g)
    (a : Addition ν ε) : Told (history ++ [(a, (a.perform g).1)]) (a.perform g).2 := by
  cases a with
  | node data =>
    rw [Addition.perform_node]
    refine ⟨?_, ?_⟩
    · rw [nodesMade_append, h.nodes_eq]
      exact (zip_range_push g.nodes data).symm
    · rw [edgesMade_append, h.edges_eq]
      exact List.append_nil _
  | edge s t d =>
    -- an edge makes no node, and it makes an edge unless it is refused
    have hnodes : ∀ answer, nodesMade (history ++ [(.edge s t d, answer)]) = nodesMade history := by
      intro answer
      rw [nodesMade_append]
      exact List.append_nil _
    rw [Addition.perform_edge]
    cases hadd : g.addEdge s t d with
    | error missing =>
      refine ⟨(hnodes _).trans h.nodes_eq, ?_⟩
      rw [edgesMade_append, h.edges_eq]
      exact List.append_nil _
    | ok g' =>
      obtain ⟨-, -, rfl⟩ := addEdge_eq_ok hadd
      refine ⟨(hnodes _).trans h.nodes_eq, ?_⟩
      rw [edgesMade_append, h.edges_eq]
      exact (zip_range_push g.edges ⟨s, t, d⟩).symm

theorem told_performAll (calls : List (Addition ν ε)) :
    Told (performAll calls).1 (performAll calls).2 := by
  induction calls using List.reverseRecOn with
  | nil => exact ⟨rfl, rfl⟩
  | append_singleton calls a ih =>
    rw [performAll_append_singleton]
    exact ih.perform a

theorem built_performAll (calls : List (Addition ν ε)) : (performAll calls).2.Built := by
  rw [performAll_snd]
  exact built_ofAdditions calls

/-- **The tables of a graph stay in step**, whatever is added to it and whatever is refused: the
numbers count what was made in its order, each edge is listed once at either end and nowhere else,
and a call that names no node is refused and changes nothing. -/
theorem tables_in_step (calls : List (Addition ν ε)) :
    let history := (performAll calls).1
    let g := (performAll calls).2
    g = ofAdditions calls ∧ Told history g ∧ g.Indexed ∧
      ∀ s t d, (∃ missing, (Addition.edge s t d).perform g = (.error missing, g)) ↔
        g.nodeCount ≤ s ∨ g.nodeCount ≤ t :=
  ⟨performAll_snd calls, told_performAll calls, (built_performAll calls).indexed,
    fun _ _ _ => Addition.refused_iff⟩

/-- a loop, an edge that comes too early, and two edges side by side -/
example :
    let calls : List (Addition Unit Unit) :=
      [.node (), .edge 0 0 (), .edge 0 1 (), .node (), .edge 0 1 (), .edge 0 1 ()]
    (performAll calls).2.entering = #[[0], [1, 2]] := rfl

end CilPatch.Digraph
