import CilPatch.Flow.FlowGraph
import CilPatch.Stack.Transfer

/-!
# The stack at the start of every block

A worklist iteration over the flow graph of a body.  The entry block starts with the empty stack.
A visit runs one block and merges the stack at its end into the starts of the blocks behind it; a
block whose start changes is put on the list again.  The list is ordered by the place of a block
in the reverse postorder of the graph, and the first block of the list is taken.

* `Progress`   the starts found so far, the list, and the number of visits;
* `visit`      one visit;
* `run n`      at most `n` visits;
* `solve`      visits until the list is empty.  Every slot of a start can move up only as often as
               there are types in the body, so `budget` visits are enough.
-/

namespace CilPatch

structure Progress where
  /-- the stack at the start of each block, `none` where control has not arrived -/
  starts : Array (Option Stack)
  /-- the places in the order of the blocks to visit, increasing -/
  pending : List Nat
  visits : Nat := 0

/-- what the stack analysis of a body is done with -/
structure Analysis where
  body : Body
  graph : FlowGraph
  /-- the blocks in the order in which they are visited first -/
  order : List Nat
  signature : Option Signature
  hierarchy : Hierarchy

namespace Analysis

/-- the analysis of a body whose flow graph is known, in reverse postorder -/
def start (body : Body) (graph : FlowGraph) (signature : Option Signature)
    (hierarchy : Hierarchy) : Analysis :=
  { body, graph, order := graph.order, signature, hierarchy }

def runCode (a : Analysis) (s : Stack) : List (Nat × Instruction) → Except BodyFault Stack
  | [] => .ok s
  | (i, x) :: rest =>
    match x.transfer a.signature i s with
    | .error fault => .error fault
    | .ok s => runCode a s rest

/-- `r` put in its place into an increasing list, if it is not there -/
def schedule (r : Nat) : List Nat → List Nat
  | [] => [r]
  | q :: rest =>
    if r < q then r :: q :: rest
    else if r = q then q :: rest
    else q :: schedule r rest

/-- a stack arrives at the start of block `b` -/
def arrive (a : Analysis) (p : Progress) (b : Nat) (s : Stack) : Except Failure Progress :=
  let update (m : Stack) : Progress :=
    { p with
      starts := p.starts.setIfInBounds b (some m)
      pending := schedule (a.order.idxOf b) p.pending }
  match p.starts[b]? with
  | none => .error .outOfRange
  | some none => .ok (update s)
  | some (some held) =>
    match Stack.merge a.hierarchy held s with
    | none =>
      let offset := match a.graph.block? b with
        | some block => block.start
        | none => 0
      .error (.illFormed (.heightMismatch b offset held s))
    | some m => .ok (if m = held then p else update m)

/-- a stack arrives at the starts of several blocks, one after the other -/
def arriveAll (a : Analysis) (s : Stack) (p : Progress) : List Nat → Except Failure Progress
  | [] => .ok p
  | b :: rest =>
    match a.arrive p b s with
    | .error f => .error f
    | .ok p => arriveAll a s p rest

/-- visit the block at place `r` of the order -/
def visit (a : Analysis) (r : Nat) (p : Progress) : Except Failure Progress :=
  match a.order[r]? with
  | none => .error .outOfRange
  | some b =>
    match a.graph.block? b with
    | none =>
      .error (.graph ("block " ++ Digraph.nodeText b ++ " missing from graph"))
    | some block =>
      match p.starts[b]? with
      | none => .error .outOfRange
      | some none => .ok p
      | some (some s) =>
        match a.runCode s (block.instructions a.body) with
        | .error fault => .error (.illFormed fault)
        | .ok s =>
          match a.graph.graph.successors? b with
          | none => .error .outOfRange
          | some next => a.arriveAll s p next

def run (a : Analysis) : Nat → Progress → Except Failure Progress
  | 0, p => .ok p
  | n + 1, p =>
    match p.pending with
    | [] => .ok p
    | r :: rest =>
      match a.visit r { p with pending := rest, visits := p.visits + 1 } with
      | .error f => .error f
      | .ok p => run a n p

/-- control stands before the entry block with nothing on the stack -/
def initial (a : Analysis) : Progress :=
  { starts := (Array.replicate a.graph.blockCount none).setIfInBounds a.graph.entry (some [])
    pending := [a.order.idxOf a.graph.entry] }

/-- a number of visits after which nothing is left to do.  The start of a block is found once and
then only moves up: each of its slots through the types that the instructions push, the numeric
types and `unknown`; and a start is at most one body higher than one that was found before it -/
def budget (a : Analysis) : Nat :=
  let blocks := a.graph.blockCount
  let n := a.body.length
  blocks * (blocks * n * (n + 32) + 2) + 1

def solve (a : Analysis) : Except Failure Progress := a.run a.budget a.initial

end Analysis

end CilPatch
