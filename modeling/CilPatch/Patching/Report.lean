import CilPatch.Code.Body
import CilPatch.Fault

/-!
# Reports

What became of every patch of a method, in the order in which they were looked at.
-/

namespace CilPatch

open CilPatch.Text

inductive Status where
  | applied
  | failed (message : String)
  /-- the owner is in quarantine -/
  | quarantined
  /-- anchors that it depends on and that have not been applied -/
  | missing (anchors : List String)
  /-- anchors that it conflicts with and that have been applied -/
  | conflict (anchors : List String)
deriving DecidableEq

namespace Status

def isApplied : Status → Bool
  | applied => true
  | _ => false

def isFailed : Status → Bool
  | failed _ => true
  | _ => false

/-- the edit was not run -/
def isSkipped : Status → Bool
  | quarantined | missing _ | conflict _ => true
  | _ => false

def text : Status → String
  | applied => "applied"
  | failed message => "failed: " ++ message
  | quarantined => "skipped, owner quarantined"
  | missing anchors => "skipped, missing " ++ Term.commas anchors
  | conflict anchors => "skipped, conflicts with " ++ Term.commas anchors

end Status

structure Outcome where
  owner : String
  anchor : String
  priority : Int
  status : Status
  warnings : List Warning := []
deriving DecidableEq

structure Report where
  target : String
  body : Body
  outcomes : List Outcome
deriving DecidableEq

namespace Report

/-- the outcome of the first patch with this anchor -/
def outcome? (r : Report) (anchor : String) : Option Outcome :=
  r.outcomes.find? fun o => o.anchor == anchor

def applied (r : Report) : List String :=
  (r.outcomes.filter (·.status.isApplied)).map (·.anchor)

def failures (r : Report) : List Outcome := r.outcomes.filter (·.status.isFailed)

def isClean (r : Report) : Bool := r.outcomes.all (·.status.isApplied)

end Report

end CilPatch
