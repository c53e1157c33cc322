import CilPatch.Types.CilType

/-!
# Signatures of method bodies

The types of the arguments, the locals and the result of the method whose body is looked at.  An
instance method has its receiver as argument 0.
-/

namespace CilPatch

open CilPatch.Text

structure Signature where
  /-- the type of the receiver; `object` where it is not given -/
  declaringType : Option String := none
  isStatic : Bool := false
  /-- without the receiver -/
  params : List CilType := []
  locals : List CilType := []
  returnType : CilType := .void
deriving DecidableEq

namespace Signature

/-- the types of all arguments, the receiver first -/
def arguments (s : Signature) : List CilType :=
  if s.isStatic then s.params
  else (match s.declaringType with
    | none => .object
    | some name => .classType name) :: s.params

def argumentCount (s : Signature) : Nat := s.arguments.length

def argument? (s : Signature) (i : Nat) : Option CilType := s.arguments[i]?

def local? (s : Signature) (i : Nat) : Option CilType := s.locals[i]?

/-- `ret` takes a value off the stack -/
def returnsValue (s : Signature) : Bool := !s.returnType.isVoid

def term (s : Signature) : String :=
  Term.record "MethodSignature"
    [("declaring_type", Term.option (s.declaringType.map quoted)),
     ("is_static", Term.bool s.isStatic),
     ("params", Term.list (s.params.map CilType.term)),
     ("locals", Term.list (s.locals.map CilType.term)),
     ("return_type", s.returnType.term)]

theorem argumentCount_eq (s : Signature) :
    s.argumentCount = s.params.length + (!s.isStatic).toNat := by
  unfold argumentCount arguments
  cases s.isStatic <;> rfl

end Signature

end CilPatch
