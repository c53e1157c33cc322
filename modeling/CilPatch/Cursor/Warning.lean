import CilPatch.Code.Body

/-!
# Warnings of a cursor

What a cursor records when an operation does not do what was asked, or does more than that.  A
warning is the name of the operation and the cause; `Cause.text` gives the wording.
-/

namespace CilPatch

open CilPatch.Text

inductive SearchMode where
  | fromStart
  | fromCurrent
  | next
deriving DecidableEq

def SearchMode.term : SearchMode → String
  | .fromStart => "FromStart"
  | .fromCurrent => "FromCurrent"
  | .next => "Next"

namespace Warning

inductive Cause where
  /-- the operation needs a place and the cursor points at nothing -/
  | invalidCursor
  | emptyBody
  /-- a place behind the last instruction was asked for -/
  | outside (index length : Nat)
  /-- a move by `delta` from `position` leads out of the body -/
  | leaves (delta : Int) (position : Nat)
  | emptyPattern
  /-- a search for patterns with this text found nothing from position `start` on -/
  | notFound (patterns : String) (mode : SearchMode) (start : Nat)
  /-- nothing to replace was found -/
  | noMatch (patterns : String)
  | nothingToInsert
  | nothingToRemove
  /-- more instructions were to be removed than there are from `position` on -/
  | pastEnd (count position : Nat)
  /-- labels from inside a removed stretch now mark its start -/
  | moved (labels : List Label) (position : Nat)
  /-- labels are gone, since nothing is left to carry them -/
  | dropped (labels : List Label)
  /-- `count` instructions do not fit into the `width` slots from `position` on -/
  | tooLong (count width position : Nat)
  | unmarkable (error : NoInstruction)
  /-- words of an edit -/
  | custom (message : String)
deriving DecidableEq

def Cause.text : Cause → String
  | invalidCursor => "cursor is invalid, operation skipped"
  | emptyBody => "stream is empty"
  | outside index length =>
    positionText index ++ " is outside a stream of " ++ decimal length ++ " instructions"
  | leaves delta position =>
    "moving " ++ signed delta ++ " from " ++ positionText position ++ " leaves the stream"
  | emptyPattern => "empty pattern"
  | notFound patterns mode start =>
    "no match for " ++ patterns ++ " searching " ++ mode.term ++ " from " ++ positionText start
  | noMatch patterns => "no match for " ++ patterns
  | nothingToInsert => "nothing to insert"
  | nothingToRemove => "nothing to remove"
  | pastEnd count position =>
    "removing " ++ decimal count ++ " instructions at " ++ positionText position ++
      " runs past the end of the stream"
  | moved labels position =>
    "labels " ++ Label.listText labels ++ " inside the removed range now target " ++
      positionText position
  | dropped labels =>
    "labels " ++ Label.listText labels ++ " dropped, no instruction follows the removed range"
  | tooLong count width position =>
    "replacement of " ++ decimal count ++ " instructions does not fit the " ++ decimal width ++
      " matched at " ++ positionText position ++ "; match skipped"
  | unmarkable error => error.message
  | custom message => message

end Warning

structure Warning where
  operation : String
  cause : Warning.Cause
deriving DecidableEq

namespace Warning

def text (w : Warning) : String := w.operation ++ ": " ++ w.cause.text

def term (w : Warning) : String :=
  Term.record "CursorWarning" [("operation", quoted w.operation), ("detail", quoted w.cause.text)]

end Warning

end CilPatch
