import CilPatch.Text.Term

/-!
# Directed multigraphs

Nodes and edges are numbered in the order in which they are added.  Every node keeps the numbers
of the edges that leave it and of those that enter it, in that order too; loops and parallel edges
are allowed.

* `addNode`, `addEdge`               the only ways to build a graph; an edge needs both its ends;
* `outgoing?`, `successors?`,
  `predecessors?`                    what is at a node, `none` if there is no such node.
-/

namespace CilPatch

open CilPatch.Text

structure Digraph.Edge (ε : Type) where
  source : Nat
  target : Nat
  data : ε

structure Digraph (ν ε : Type) where
  nodes : Array ν := #[]
  edges : Array (Digraph.Edge ε) := #[]
  /-- per node the numbers of the edges that leave it -/
  leaving : Array (List Nat) := #[]
  /-- per node the numbers of the edges that enter it -/
  entering : Array (List Nat) := #[]

inductive Digraph.Role where
  | source
  | target
deriving DecidableEq

/-- an edge was to be added at a node that does not exist -/
structure Digraph.MissingNode where
  role : Digraph.Role
  node : Nat
  nodeCount : Nat
deriving DecidableEq

namespace Digraph

def nodeText (v : Nat) : String := "n" ++ decimal v

def edgeText (e : Nat) : String := "e" ++ decimal e

def nodeTerm (v : Nat) : String := Term.applied "NodeId" [decimal v]

def edgeTerm (e : Nat) : String := Term.applied "EdgeId" [decimal e]

def MissingNode.message (e : MissingNode) : String :=
  (match e.role with
    | .source => "source"
    | .target => "target") ++
  " node " ++ nodeText e.node ++ " does not exist in graph with " ++ decimal e.nodeCount ++ " nodes"

variable {ν ε : Type}

def empty : Digraph ν ε := {}

def nodeCount (g : Digraph ν ε) : Nat := g.nodes.size

def edgeCount (g : Digraph ν ε) : Nat := g.edges.size

/-- the graph with one more node, whose number is the old node count -/
def addNode (g : Digraph ν ε) (data : ν) : Digraph ν ε :=
  { nodes := g.nodes.push data
    edges := g.edges
    leaving := g.leaving.push []
    entering := g.entering.push [] }

/-- the graph with one more edge, whose number is the old edge count -/
def addEdge (g : Digraph ν ε) (source target : Nat) (data : ε) :
    Except MissingNode (Digraph ν ε) :=
  if g.nodeCount ≤ source then .error ⟨.source, source, g.nodeCount⟩
  else if g.nodeCount ≤ target then .error ⟨.target, target, g.nodeCount⟩
  else .ok
    { nodes := g.nodes
      edges := g.edges.push ⟨source, target, data⟩
      leaving := g.leaving.modify source (· ++ [g.edgeCount])
      entering := g.entering.modify target (· ++ [g.edgeCount]) }

def node? (g : Digraph ν ε) (v : Nat) : Option ν := g.nodes[v]?

def edge? (g : Digraph ν ε) (e : Nat) : Option (Edge ε) := g.edges[e]?

/-- the edges that leave `v`, with their numbers -/
def outgoing? (g : Digraph ν ε) (v : Nat) : Option (List (Nat × Edge ε)) :=
  match g.leaving[v]? with
  | none => none
  | some ids => ids.mapM fun e => (g.edge? e).map (e, ·)

/-- the ends of the edges that leave `v` -/
def successors? (g : Digraph ν ε) (v : Nat) : Option (List Nat) :=
  match g.leaving[v]? with
  | none => none
  | some ids => ids.mapM fun e => (g.edge? e).map (·.target)

/-- the starts of the edges that enter `v` -/
def predecessors? (g : Digraph ν ε) (v : Nat) : Option (List Nat) :=
  match g.entering[v]? with
  | none => none
  | some ids => ids.mapM fun e => (g.edge? e).map (·.source)

/-- the number of edges that leave `v`, zero if there is no such node -/
def outDegree (g : Digraph ν ε) (v : Nat) : Nat :=
  match g.leaving[v]? with
  | none => 0
  | some ids => ids.length

def exits (g : Digraph ν ε) : List Nat :=
  (List.range g.nodeCount).filter fun v => g.outDegree v == 0

theorem nodeCount_addNode (g : Digraph ν ε) (data : ν) :
    (g.addNode data).nodeCount = g.nodeCount + 1 := by
  show (g.nodes.push data).size = _
  rw [Array.size_push]
  rfl

theorem addEdge_isOk_iff {g : Digraph ν ε} {source target : Nat} {data : ε} :
    (∃ g', g.addEdge source target data = .ok g') ↔
      source < g.nodeCount ∧ target < g.nodeCount := by
  unfold addEdge
  constructor
  · rintro ⟨g', h⟩
    by_cases hs : g.nodeCount ≤ source
    · rw [if_pos hs] at h
      exact absurd h (by simp)
    · rw [if_neg hs] at h
      by_cases ht : g.nodeCount ≤ target
      · rw [if_pos ht] at h
        exact absurd h (by simp)
      · exact ⟨Nat.lt_of_not_le hs, Nat.lt_of_not_le ht⟩
  · rintro ⟨hs, ht⟩
    rw [if_neg (Nat.not_le.mpr hs), if_neg (Nat.not_le.mpr ht)]
    exact ⟨_, rfl⟩

end Digraph

end CilPatch
