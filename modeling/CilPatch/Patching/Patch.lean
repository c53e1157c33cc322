import CilPatch.Cursor.Command

/-!
# Patches

A patch is an edit of one method that somebody, its owner, submits under a name, its anchor.  Other
patches may ask that an anchor has been applied before them, or that it has not.

An edit is any function on cursors that says how it ended: it may be done, fail with a cause, or
break off.  A `Script` is an edit given as data.
-/

namespace CilPatch

open CilPatch.Text

inductive Ending where
  | done
  | failed (cause : Failure)
  /-- broken off, perhaps with a message -/
  | crashed (message : Option String)
deriving DecidableEq

/-- an edit leaves a cursor behind however it ends -/
abbrev Edit := Cursor → Cursor × Ending

structure Patch where
  owner : String
  anchor : String
  /-- lower ones come first -/
  priority : Int := 0
  edit : Edit
  /-- anchors that must have been applied before -/
  dependsOn : List String := []
  /-- anchors that must not have been applied before -/
  conflictsWith : List String := []
  /-- whether warnings count, if the patch says so itself -/
  strict : Option Bool := none

namespace Patch

def isKeyed (p : Patch) (owner anchor : String) : Bool := p.owner == owner && p.anchor == anchor

def term (p : Patch) : String :=
  Term.openRecord "Contribution"
    [("owner", quoted p.owner),
     ("anchor", quoted p.anchor),
     ("priority", signed p.priority),
     ("depends_on", Term.list (p.dependsOn.map quoted)),
     ("conflicts_with", Term.list (p.conflictsWith.map quoted)),
     ("strict", Term.option (p.strict.map Term.bool))]

end Patch

inductive ScriptStep where
  | command (command : Command)
  | fail (cause : Failure)
  | crash (message : Option String)

/-- run the steps in order up to the first one that fails or breaks off -/
def Script.edit : List ScriptStep → Edit
  | [], c => (c, .done)
  | .command k :: rest, c => Script.edit rest (k.run c)
  | .fail cause :: _, c => (c, .failed cause)
  | .crash message :: _, c => (c, .crashed message)

end CilPatch
