import CilPatch.Cursor.Basic

/-!
# The end of an edit

A build takes the body out of a cursor.  It refuses a cursor with warnings if it is strict, and
then a body that does not verify if it validates.
-/

namespace CilPatch

structure BuildOptions where
  validate : Bool := false
  strict : Bool := false
deriving DecidableEq

/-- the options as a bit set -/
def BuildOptions.bits (o : BuildOptions) : Nat := o.validate.toNat + 2 * o.strict.toNat

def Cursor.build (c : Cursor) (o : BuildOptions) : Except Failure Body :=
  if o.strict && !c.warnings.isEmpty then .error (.strictBuild c.warnings)
  else if o.validate then
    match c.verify with
    | .error f => .error f
    | .ok _ => .ok c.body
  else .ok c.body

end CilPatch
