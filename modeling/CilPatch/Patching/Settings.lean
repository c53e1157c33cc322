import CilPatch.Cursor.Build

/-!
# Settings of a registry

How soon a failing owner is quarantined, whether warnings count as failures, whether edited bodies
are verified, how many applied edits are remembered, and what is done with protected regions.
-/

namespace CilPatch

structure Settings where
  /-- so many failures in a row put an owner into quarantine; 0 for never -/
  quarantineThreshold : Nat
  strict : Bool
  validate : Bool
  /-- so many applied edits are remembered; 0 for none -/
  historyCapacity : Nat
  regionRule : RegionRule
deriving DecidableEq

namespace Settings

def default : Settings := ⟨3, false, true, 64, .skip⟩

/-- any irregularity fails an edit, and one failure is enough for quarantine -/
def strictest : Settings := ⟨1, true, true, 64, .reject⟩

/-- every edit that runs to its end is taken, unverified, and nobody is quarantined -/
def permissive : Settings := ⟨0, false, false, 16, .skip⟩

/-- the options for the build of an edit, which may say itself whether it is strict -/
def buildOptions (s : Settings) (strict : Option Bool) : BuildOptions :=
  { validate := s.validate, strict := strict.getD s.strict }

/-- `failures` failures in a row put an owner into quarantine -/
def quarantinesAfter (s : Settings) (failures : Nat) : Bool :=
  s.quarantineThreshold != 0 && s.quarantineThreshold ≤ failures

end Settings

end CilPatch
