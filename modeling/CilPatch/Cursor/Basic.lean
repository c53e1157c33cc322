import CilPatch.Cursor.Pattern
import CilPatch.Stack.Verify

/-!
# Cursors

A cursor is a body under edit and a place in it.  It points at one instruction or, after a search
or a move that led nowhere, at none; then everything that needs a place is skipped.  Nothing fails
on the way: whatever does not go as asked is recorded as a warning, and the build at the end says
whether warnings count.

* `start`, `finish`, `seek`, `advance`   moves;
* `search`                               a move to the first window of patterns.
-/

namespace CilPatch

open CilPatch.Text

structure Cursor where
  body : Body
  position : Option Nat
  /-- the oldest first -/
  warnings : List Warning := []
  verifier : Verifier := {}

namespace Cursor

/-- a cursor on the first instruction of `body`, if there is one -/
def ofBody (body : Body) (verifier : Verifier := {}) : Cursor :=
  { body, position := if body.isEmpty then none else some 0, verifier }

def length (c : Cursor) : Nat := c.body.length

def isValid (c : Cursor) : Bool := c.position.isSome

def current? (c : Cursor) : Option Instruction := c.position.bind c.body.instruction?

def labels (c : Cursor) : List Label :=
  match c.current? with
  | none => []
  | some i => i.labels

def term (c : Cursor) : String :=
  Term.openRecord "Cursor"
    [("position", Term.option (c.position.map decimal)),
     ("len", decimal c.length),
     ("warnings", Term.list (c.warnings.map Warning.term)),
     ("signature", Term.option (c.verifier.signature.map Signature.term))]

def warn (c : Cursor) (operation : String) (cause : Warning.Cause) : Cursor :=
  { c with warnings := c.warnings ++ [⟨operation, cause⟩] }

/-- point at nothing and record a warning -/
def lose (c : Cursor) (operation : String) (cause : Warning.Cause) : Cursor :=
  ({ c with position := none }).warn operation cause

/-- point at `i`, or at nothing if the body ends before -/
def settle (c : Cursor) (i : Nat) : Cursor :=
  { c with position := if i < c.length then some i else none }

/-! ## moves -/

def seekAs (operation : String) (c : Cursor) (i : Nat) : Cursor :=
  if i < c.length then { c with position := some i }
  else c.lose operation (.outside i c.length)

def seek (c : Cursor) (i : Nat) : Cursor := seekAs "seek" c i

def start (c : Cursor) : Cursor := seekAs "start" c 0

def finish (c : Cursor) : Cursor :=
  if c.length = 0 then c.lose "end" .emptyBody else seekAs "end" c (c.length - 1)

/-- go `delta` instructions on, back if it is negative -/
def advance (c : Cursor) (delta : Int) : Cursor :=
  match c.position with
  | none => c.warn "advance" .invalidCursor
  | some p =>
    let i := (p : Int) + delta
    if 0 ≤ i ∧ i < c.length then { c with position := some i.toNat }
    else c.lose "advance" (.leaves delta p)

/-! ## searches -/

/-- the position at which a search begins, `none` if there is no place to begin from -/
def searchStart (c : Cursor) : SearchMode → Option Nat
  | .fromStart => some 0
  | .fromCurrent => c.position
  | .next => c.position.map (· + 1)

def searchAs (operation : String) (c : Cursor) (patterns : List Pattern) (mode : SearchMode) :
    Cursor :=
  if patterns.isEmpty then c.lose operation .emptyPattern
  else
    match c.searchStart mode with
    | none => c.warn operation .invalidCursor
    | some first =>
      match locate c.body.code patterns first with
      | some i => { c with position := some i }
      | none => c.lose operation (.notFound (Pattern.windowText patterns) mode first)

/-- point at the first instruction that the pattern describes -/
def find (c : Cursor) (pattern : Pattern) (mode : SearchMode := .fromStart) : Cursor :=
  searchAs "find" c [pattern] mode

def findNext (c : Cursor) (pattern : Pattern) : Cursor := c.find pattern .next

/-- point at the first instruction of a window -/
def findWindow (c : Cursor) (patterns : List Pattern) (mode : SearchMode) : Cursor :=
  searchAs "find_sequence" c patterns mode

/-! ## verification -/

def verify (c : Cursor) : Except Failure Verdict := c.verifier.verify c.body

end Cursor

end CilPatch
