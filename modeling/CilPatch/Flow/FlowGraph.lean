import CilPatch.Flow.Block
import CilPatch.Flow.Targets
import CilPatch.Graph.DepthFirst

/-!
# The flow graph of a body

The nodes are the blocks of a body in order, so that a block has the same number as its node; the
edges say how control may go from the end of one block to the start of another.

`FlowGraph.ofBody` also checks what the graph needs: every label marks one place, every reference
leads to a marked place, and control does not run past the last instruction.
-/

namespace CilPatch

open CilPatch.Text

inductive EdgeKind where
  | jump
  | whenTrue
  | whenFalse
  | switchCase (index : Nat)
  | switchDefault
  | fallThrough
  | leave
deriving DecidableEq

namespace EdgeKind

def term : EdgeKind → String
  | jump => "Unconditional"
  | whenTrue => "ConditionalTrue"
  | whenFalse => "ConditionalFalse"
  | switchCase k => Term.record "Switch" [("case_value", Term.option (some (decimal k)))]
  | switchDefault => Term.record "Switch" [("case_value", Term.option none)]
  | fallThrough => "FallThrough"
  | leave => "Leave"

def isConditional : EdgeKind → Bool
  | whenTrue | whenFalse => true
  | _ => false

def isSwitch : EdgeKind → Bool
  | switchCase _ | switchDefault => true
  | _ => false

/-- the edge leads to the next block without a jump -/
def isFallThrough : EdgeKind → Bool
  | fallThrough | whenFalse | switchDefault => true
  | _ => false

end EdgeKind

structure FlowGraph where
  graph : Digraph Block EdgeKind
  /-- the number of the block of each position -/
  blockOf : List Nat

namespace FlowGraph

def entry (_ : FlowGraph) : Nat := 0

def blockCount (g : FlowGraph) : Nat := g.graph.nodeCount

def block? (g : FlowGraph) (b : Nat) : Option Block := g.graph.node? b

def blocks (g : FlowGraph) : List Block := g.graph.nodes.toList

def blockAt? (g : FlowGraph) (i : Nat) : Option Nat := g.blockOf[i]?

/-- the blocks reached from the entry, none before all blocks that lead to it unless there is a
cycle -/
def order (g : FlowGraph) : List Nat := g.graph.reversePostorder g.entry

def exits (g : FlowGraph) : List Nat := g.graph.exits

/-! ## building -/

/-- the kinds of the edges to the targets of a branch, `none` for operations that do not jump -/
def jumpKind : Flow → Option (Nat → EdgeKind)
  | .unconditional => some fun _ => .jump
  | .leave => some fun _ => .leave
  | .conditional => some fun _ => .whenTrue
  | .switch => some .switchCase
  | _ => none

/-- the kind of the edge to the next block, `none` for operations that never go on there -/
def nextKind : Flow → Option EdgeKind
  | .sequential | .call => some .fallThrough
  | .conditional => some .whenFalse
  | .switch => some .switchDefault
  | _ => none

/-- the number of the block that `l` marks -/
def targetBlock (index : LabelIndex) (blockOf : List Nat) (l : Label) : Except Failure Nat :=
  match index.lookup l with
  | none => .error .outOfRange
  | some i =>
    match blockOf[i]? with
    | none => .error .outOfRange
    | some b => .ok b

/-- the edges to the targets of the instruction `x` -/
def jumps (index : LabelIndex) (blockOf : List Nat) (x : Instruction) :
    Except Failure (List (Nat × EdgeKind)) :=
  match jumpKind x.opcode.flow with
  | none => .ok []
  | some kind => do
    let targets ← x.targets.mapM (targetBlock index blockOf)
    pure (targets.zipIdx.map fun (b, k) => (b, kind k))

/-- the edge to the block behind block `b` of `count`, if the instruction `x` goes on there -/
def onward (count b : Nat) (x : Instruction) : List (Nat × EdgeKind) :=
  match nextKind x.opcode.flow with
  | none => []
  | some kind => if b + 1 < count then [(b + 1, kind)] else []

def edgesOf (body : Body) (index : LabelIndex) (blockOf : List Nat) (count : Nat) (b : Block) :
    Except Failure (List (Nat × EdgeKind)) :=
  match body.instruction? b.last with
  | none => .error .outOfRange
  | some x => do
    let js ← jumps index blockOf x
    pure (js ++ onward count b.id x)

def addEdges (g : Digraph Block EdgeKind) (source : Nat) :
    List (Nat × EdgeKind) → Except Failure (Digraph Block EdgeKind)
  | [] => .ok g
  | (target, kind) :: rest =>
    match g.addEdge source target kind with
    | .error e => .error (.graph e.message)
    | .ok g => addEdges g source rest

def connect (body : Body) (index : LabelIndex) (blockOf : List Nat) (count : Nat)
    (g : Digraph Block EdgeKind) : List Block → Except Failure (Digraph Block EdgeKind)
  | [] => .ok g
  | b :: rest => do
    let edges ← edgesOf body index blockOf count b
    let g ← addEdges g b.id edges
    connect body index blockOf count g rest

/-- the blocks of a body as a graph without edges -/
def discrete (blocks : List Block) : Digraph Block EdgeKind := blocks.foldl .addNode .empty

/-- control reaches the last block and may run past its end -/
def fallsOff (g : FlowGraph) (body : Body) : Bool :=
  match body.code.getLast? with
  | none => true
  | some x => x.opcode.fallsThrough && g.order.contains (g.blockCount - 1)

/-- the graph of a body whose labels are known to be sound -/
def ofIndexed (body : Body) (index : LabelIndex) : Except Failure FlowGraph := do
  let blocks := Block.cut body.length (body.leaders index)
  let blockOf := blocks.flatMap fun b => List.replicate b.size b.id
  let graph ← connect body index blockOf blocks.length (discrete blocks) blocks
  let g : FlowGraph := { graph, blockOf }
  if g.fallsOff body then .error (.illFormed (.fallsOffEnd (body.length - 1))) else pure g

def ofBody (body : Body) : Except Failure FlowGraph :=
  if body.isEmpty then .error (.illFormed (.fallsOffEnd 0))
  else
    match body.labelIndex with
    | .error fault => .error (.illFormed fault)
    | .ok index =>
      match body.checkTargets index with
      | .error fault => .error (.illFormed fault)
      | .ok () => ofIndexed body index

end FlowGraph

end CilPatch
