import Mathlib.Data.List.DropRight
import CilPatch.Patching.Run

/-!
# Sessions

The operations of a registry as data, executed one after another.

A registry forgets: it keeps no report, and of the past of an owner it knows a number and whether
there is a quarantine.  The log of a session forgets nothing of this.  It holds every patch that was
applied or failed, in order, and every time that owners were forgiven.
-/

namespace CilPatch

/-! ## the log -/

/-- what counts for or against owners -/
inductive Event where
  | applied (owner : String)
  | failed (owner : String)
  /-- the quarantine of an owner is lifted -/
  | pardoned (owner : String)
  /-- everything is forgotten -/
  | cleared
deriving DecidableEq

/-- what the outcome of a patch says about its owner; a patch that is skipped says nothing -/
def Outcome.event? (o : Outcome) : Option Event :=
  match o.status with
  | .applied => some (.applied o.owner)
  | .failed _ => some (.failed o.owner)
  | _ => none

def Report.events (rep : Report) : List Event := rep.outcomes.filterMap Outcome.event?

namespace Event

/-- nothing that the owner did before counts any longer -/
def forgives (owner : String) : Event → Bool
  | applied o | pardoned o => o == owner
  | failed _ => false
  | cleared => true

/-- the failures of an owner since something forgave it -/
def failuresOf (owner : String) (log : List Event) : Nat :=
  (log.rtakeWhile fun e => !e.forgives owner).count (.failed owner)

end Event

/-! ## operations -/

inductive Operation where
  | register (target : String) (patch : Patch)
  | unregister (target anchor : String) (owner : Option String)
  | unregisterAll (owner : Option String)
  | clear
  | clearQuarantine (owner : String)
  | run (job : Registry.Job)
  | apply (job : Registry.Job)
  | runMany (jobs : List Registry.Job)

namespace Operation

/-- the registry behind the operation -/
def perform (op : Operation) (r : Registry) : Registry :=
  match op with
  | register target p => r.register target p
  | unregister target anchor owner => (r.unregister target anchor owner).2
  | unregisterAll owner => (r.unregisterAll owner).2
  | clear => r.clear
  | clearQuarantine owner => (r.clearQuarantine owner).2
  | run j => (r.run j.target j.body j.signature).2
  | apply j => (r.apply j.target j.body j.signature).2
  | runMany jobs => (r.runMany jobs).2

/-- what happens in the course of the operation -/
def events (op : Operation) (r : Registry) : List Event :=
  match op with
  | register .. | unregister .. | unregisterAll _ => []
  | clear => [.cleared]
  | clearQuarantine owner => [.pardoned owner]
  | run j | apply j => (r.run j.target j.body j.signature).1.events
  | runMany jobs => (r.runMany jobs).1.flatMap Report.events

/-- the registry behind several operations -/
def performAll (ops : List Operation) (r : Registry) : Registry :=
  ops.foldl (fun r op => op.perform r) r

/-- what happens in the course of several operations -/
def log : List Operation → Registry → List Event
  | [], _ => []
  | op :: ops, r => op.events r ++ log ops (op.perform r)

end Operation

end CilPatch
