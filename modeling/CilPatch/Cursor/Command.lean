import CilPatch.Cursor.ReplaceAll

/-!
# Cursor operations as data

Every operation of a cursor as a value, so that a session is a list of commands.  Some operations
report a number: the label taken, or how many windows were replaced.
-/

namespace CilPatch

inductive Command where
  | start
  | finish
  | seek (index : Nat)
  | advance (delta : Int)
  | find (pattern : Pattern) (mode : SearchMode)
  | findWindow (patterns : List Pattern) (mode : SearchMode)
  | defineLabel
  | markLabel (label : Label)
  | insertBefore (code : List Instruction)
  | insertBeforeLabeled (code : List Instruction)
  | insertAfter (code : List Instruction)
  | replace (instruction : Instruction)
  | delete
  | deleteMany (count : Nat)
  | replaceMany (count : Nat) (code : List Instruction)
  | replaceAll (patterns : List Pattern) (code : List Instruction) (mode : ReplaceMode)
  | replaceAllWith (patterns : List Pattern) (produce : Producer) (mode : ReplaceMode)

namespace Command

/-- the cursor behind the operation, and the number that it reports -/
def perform (command : Command) (c : Cursor) : Option Nat × Cursor :=
  match command with
  | start => (none, c.start)
  | finish => (none, c.finish)
  | seek i => (none, c.seek i)
  | advance delta => (none, c.advance delta)
  | find p mode => (none, c.find p mode)
  | findWindow ps mode => (none, c.findWindow ps mode)
  | defineLabel => let (l, c) := c.defineLabel; (some l.id, c)
  | markLabel l => (none, c.markLabel l)
  | insertBefore code => (none, c.insertBefore code)
  | insertBeforeLabeled code => (none, c.insertBeforeLabeled code)
  | insertAfter code => (none, c.insertAfter code)
  | replace i => (none, c.replace i)
  | delete => (none, c.delete)
  | deleteMany n => (none, c.deleteMany n)
  | replaceMany n code => (none, c.replaceMany n code)
  | replaceAll ps code mode => let (n, c) := c.replaceAll ps code mode; (some n, c)
  | replaceAllWith ps produce mode =>
    let (n, c) := c.replaceAllWith ps produce mode; (some n, c)

/-- the cursor behind the operation -/
def run (command : Command) (c : Cursor) : Cursor := (command.perform c).2

/-- the cursor behind a session -/
def runAll (commands : List Command) (c : Cursor) : Cursor := commands.foldl (fun c k => k.run c) c

end Command

end CilPatch
