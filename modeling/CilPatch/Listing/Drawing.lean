import CilPatch.Flow.FlowGraph
import CilPatch.Listing.Lines

/-!
# Flow graphs as drawings

A flow graph in the DOT language: a box per block that lists its instructions, and an arrow per
edge with its kind.  The entry is green, blocks without a way out are red.

Texts of the program stand inside quoted DOT strings, so they go through `escape` first.
-/

namespace CilPatch

open CilPatch.Text

namespace Dot

/-- `new` in the place of every `c` -/
def substitute (c : Char) (new : List Char) (s : List Char) : List Char :=
  s.flatMap fun x => if x = c then new else [x]

/-- the characters of a text inside a quoted string: backslashes first, so that no escape is
escaped again -/
def escapeChars (s : List Char) : List Char :=
  substitute '>' ['\\', '>'] <|
  substitute '<' ['\\', '<'] <|
  substitute '\r' [] <|
  substitute '\n' ['\\', 'n'] <|
  substitute '"' ['\\', '"'] <|
  substitute '\\' ['\\', '\\'] s

def escape (s : String) : String := String.ofList (escapeChars s.toList)

/-- the label and the colour of an arrow -/
def arrowStyle : EdgeKind → String × String
  | .jump => ("", "black")
  | .whenTrue => ("true", "darkgreen")
  | .whenFalse => ("false", "red")
  | .switchCase k => ("case " ++ decimal k, "blue")
  | .switchDefault => ("default", "blue")
  | .fallThrough => ("", "gray")
  | .leave => ("leave", "purple")

def nodeName (b : Nat) : String := "B" ++ decimal b

/-- the end of a line inside a label, which is set flush left -/
def lineEnd : String := "\\l"

def nodeLabel (body : Body) (g : FlowGraph) (b : Nat) (block : Block) : String :=
  nodeName b ++ "_" ++ positionText block.start ++
    (if b = g.entry then " (entry)" else "") ++
    (if g.exits.contains b then " (exit)" else "") ++ lineEnd ++
    String.join ((block.instructions body).map fun (i, x) =>
      positionText i ++ ": " ++ escape x.text ++ lineEnd)

def fill (g : FlowGraph) (b : Nat) : String :=
  if b = g.entry then ", style=filled, fillcolor=lightgreen"
  else if g.exits.contains b then ", style=filled, fillcolor=lightcoral"
  else ""

def nodeLine (body : Body) (g : FlowGraph) (b : Nat) (block : Block) : String :=
  "    " ++ nodeName b ++ " [label=\"" ++ nodeLabel body g b block ++ "\"" ++ fill g b ++ "];"

def arrowLine (b : Nat) (edge : Digraph.Edge EdgeKind) : String :=
  let (label, colour) := arrowStyle edge.data
  "    " ++ nodeName b ++ " -> " ++ nodeName edge.target ++ " [label=\"" ++ label ++
    "\", color=" ++ colour ++ "];"

def arrowLines (g : FlowGraph) (b : Nat) : List String :=
  match g.graph.outgoing? b with
  | none => []
  | some edges => edges.map fun (_, edge) => arrowLine b edge

def titleLines : Option String → List String
  | none => []
  | some title => ["    label=\"CFG: " ++ escape title ++ "\";"]

end Dot

def FlowGraph.dot (g : FlowGraph) (body : Body) (title : Option String) : String :=
  let blocks := g.blocks.zipIdx
  Body.joinLines
    (["digraph CFG \x7b"] ++ Dot.titleLines title ++
      ["    labelloc=t;",
       "    node [shape=box, fontname=\"Courier\", fontsize=10];",
       "    edge [fontname=\"Courier\", fontsize=9];",
       ""] ++
      blocks.map (fun (block, b) => Dot.nodeLine body g b block) ++ [""] ++
      blocks.flatMap (fun (_, b) => Dot.arrowLines g b) ++ ["\x7d"])

end CilPatch
