import CilPatch.Patching.Registry

/-!
# Runs

A run takes the body of a target through its patches.  Each one that is not held back edits a copy
of the current baseline; only if its edit is done and the cursor builds does the result become the
new baseline.  A failure leaves the baseline as it was and counts against the owner.

* `heldBack?`   why a patch is not run at all;
* `attempt`     the edited body or the cause of the failure, and the warnings;
* `offer`       what a run does with one patch;
* `run`         all patches of a target, one after the other.
-/

namespace CilPatch

/-- a run on its way -/
structure RunState where
  registry : Registry
  /-- what the next edit starts from -/
  baseline : Body
  /-- anchors applied so far -/
  applied : List String := []
  outcomes : List Outcome := []

namespace Registry

/-- why a patch is not run, if so: the owner is in quarantine, a dependency has not been
applied, or a conflicting anchor has -/
def heldBack? (r : Registry) (applied : List String) (p : Patch) : Option Status :=
  if r.isQuarantined p.owner then some .quarantined
  else
    let missing := p.dependsOn.filter fun anchor => !applied.contains anchor
    if !missing.isEmpty then some (.missing missing)
    else
      let conflicting := p.conflictsWith.filter applied.contains
      if !conflicting.isEmpty then some (.conflict conflicting) else none

/-- what the bodies of a run are verified against -/
def verifier (r : Registry) (signature : Option Signature) : Verifier :=
  { signature, hierarchy := r.hierarchy, regionRule := r.settings.regionRule }

/-- the cause that an edit has been broken off -/
def crashCause (message : Option String) : Failure :=
  .custom ("edit function panicked: " ++ message.getD "unknown panic payload")

/-- run an edit on a baseline and build the result -/
def attempt (r : Registry) (signature : Option Signature) (baseline : Body) (p : Patch) :
    Except Failure Body × List Warning :=
  let (cursor, ending) := p.edit (.ofBody baseline (r.verifier signature))
  let result :=
    match ending with
    | .done => cursor.build (r.settings.buildOptions p.strict)
    | .failed cause => .error cause
    | .crashed message => .error (crashCause message)
  (result, cursor.warnings)

def appliedEdit (target : String) (p : Patch) (before after : Body)
    (warnings : List Warning) : AppliedEdit :=
  { target, owner := p.owner, anchor := p.anchor, before := before.text, after := after.text,
    warningCount := warnings.length }

def offer (target : String) (signature : Option Signature) (s : RunState) (p : Patch) :
    RunState :=
  let outcome (status : Status) (warnings : List Warning) : Outcome :=
    { owner := p.owner, anchor := p.anchor, priority := p.priority, status, warnings }
  match s.registry.heldBack? s.applied p with
  | some status => { s with outcomes := s.outcomes ++ [outcome status []] }
  | none =>
    match s.registry.attempt signature s.baseline p with
    | (.ok edited, warnings) =>
      { registry := (s.registry.countSuccess p.owner).remember
          (appliedEdit target p s.baseline edited warnings)
        baseline := edited
        applied := s.applied ++ [p.anchor]
        outcomes := s.outcomes ++ [outcome .applied warnings] }
    | (.error cause, warnings) =>
      { s with
        registry := s.registry.countFailure p.owner
        outcomes := s.outcomes ++ [outcome (.failed cause.message) warnings] }

/-- run the patches of `target` on its body -/
def run (r : Registry) (target : String) (body : Body) (signature : Option Signature) :
    Report × Registry :=
  let s := (r.patches target).foldl (offer target signature)
    { registry := r, baseline := body }
  ({ target, body := s.baseline, outcomes := s.outcomes }, s.registry)

def apply (r : Registry) (target : String) (body : Body) (signature : Option Signature) :
    Body × Registry :=
  let (report, r) := r.run target body signature
  (report.body, r)

structure Job where
  target : String
  body : Body
  signature : Option Signature := none

def runMany (r : Registry) : List Job → List Report × Registry
  | [] => ([], r)
  | j :: rest =>
    let (report, r) := r.run j.target j.body j.signature
    let (reports, r) := runMany r rest
    (report :: reports, r)

end Registry

end CilPatch
