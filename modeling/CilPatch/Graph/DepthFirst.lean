import CilPatch.Graph.Digraph

/-!
# Depth-first orders

`postorder g v` lists the nodes that are reached from `v`, each behind those that were found below
it; successors are taken in the order of their edges.  The search keeps a stack of visits: to enter
a node is to put its successors, and below them the note that it is finished, onto the stack.

A node is entered only while it is fresh.  A node that is entered brings its successors and the note
of its end onto the stack and is fresh no more, so what is on the stack and what fresh nodes may
still bring (`load`) get fewer with every step, and the search ends.
-/

namespace CilPatch.Digraph

inductive Visit where
  | enter (v : Nat)
  | finish (v : Nat)
deriving DecidableEq

/-- what may come onto the stack: each fresh node once more to be finished, and its successors -/
def load (next : Nat → List Nat) : List Nat → Nat
  | [] => 0
  | v :: fresh => (next v).length + 1 + load next fresh

theorem load_erase {next : Nat → List Nat} {fresh : List Nat} {v : Nat} (h : v ∈ fresh) :
    load next fresh = (next v).length + 1 + load next (fresh.erase v) := by
  induction fresh with
  | nil => exact absurd h List.not_mem_nil
  | cons u fresh ih =>
    by_cases e : u = v
    · rw [e, List.erase_cons_head, load]
    · rw [List.erase_cons_tail (by simpa using e), load, load,
        ih ((List.mem_cons.mp h).resolve_left (Ne.symm e)), Nat.add_left_comm]

/-- run the stack down; `fresh` holds the nodes not entered so far, `done` the finished ones, the
latest first -/
def visit (next : Nat → List Nat) (fresh : List Nat) (stack : List Visit) (done : List Nat) :
    List Nat :=
  match stack with
  | [] => done
  | .finish v :: rest => visit next fresh rest (v :: done)
  | .enter v :: rest =>
    if h : v ∈ fresh then
      visit next (fresh.erase v)
        (((next v).filter (fresh.erase v).contains).map .enter ++ .finish v :: rest) done
    else visit next fresh rest done
termination_by stack.length + load next fresh
decreasing_by
  · rw [List.length_cons]
    omega
  · have hfilter := List.length_filter_le (fresh.erase v).contains (next v)
    rw [load_erase h, List.length_append, List.length_map, List.length_cons, List.length_cons]
    omega
  · rw [List.length_cons]
    omega

theorem visit_nil (next : Nat → List Nat) (fresh done : List Nat) :
    visit next fresh [] done = done := by
  rw [visit]

theorem visit_finish (next : Nat → List Nat) (fresh : List Nat) (v : Nat) (rest : List Visit)
    (done : List Nat) :
    visit next fresh (.finish v :: rest) done = visit next fresh rest (v :: done) := by
  rw [visit]

theorem visit_enter_of_mem {next : Nat → List Nat} {fresh : List Nat} {v : Nat}
    (h : v ∈ fresh) (rest : List Visit) (done : List Nat) :
    visit next fresh (.enter v :: rest) done =
      visit next (fresh.erase v)
        (((next v).filter (fresh.erase v).contains).map .enter ++ .finish v :: rest) done := by
  rw [visit, dif_pos h]

theorem visit_enter_of_not_mem {next : Nat → List Nat} {fresh : List Nat} {v : Nat}
    (h : v ∉ fresh) (rest : List Visit) (done : List Nat) :
    visit next fresh (.enter v :: rest) done = visit next fresh rest done := by
  rw [visit, dif_neg h]

variable {ν ε : Type}

/-- the nodes reached from `start`, the last finished one first -/
def reversePostorder (g : Digraph ν ε) (start : Nat) : List Nat :=
  visit (fun v => (g.successors? v).getD []) (List.range g.nodeCount) [.enter start] []

/-- the nodes reached from `start` in the order in which the search finishes them -/
def postorder (g : Digraph ν ε) (start : Nat) : List Nat := (g.reversePostorder start).reverse

end CilPatch.Digraph
