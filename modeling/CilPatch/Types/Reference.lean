import CilPatch.Types.CilType

/-!
# References to methods and fields

What an instruction refers to: the declaring type, the name and the types of a member.  Two
references are the same if all of this is.
-/

namespace CilPatch

open CilPatch.Text

structure MethodRef where
  declaringType : String
  name : String
  /-- without the receiver -/
  params : List CilType
  returnType : CilType
  /-- a receiver is passed before the parameters -/
  hasThis : Bool
  /-- the declaring type is a value type -/
  onValueType : Bool
deriving DecidableEq

namespace MethodRef

/-- how many values a call takes off the stack -/
def argumentCount (m : MethodRef) : Nat := m.params.length + m.hasThis.toNat

/-- the declaring type as the type of a value -/
def declaringSort (m : MethodRef) : CilType :=
  if m.onValueType then .valueType m.declaringType else .classType m.declaringType

/-- the reference is to `name` of `declaringType`, with exactly `params` if they are given -/
def refersTo (m : MethodRef) (declaringType name : String) (params : Option (List CilType)) :
    Bool :=
  m.declaringType == declaringType && m.name == name &&
    match params with
    | none => true
    | some ps => ps == m.params

def text (m : MethodRef) : String :=
  (if m.hasThis then "instance " else "") ++ m.returnType.text ++ " " ++ m.declaringType ++ "::" ++
    m.name ++ "(" ++ CilType.listText m.params ++ ")"

def term (m : MethodRef) : String :=
  Term.record "MethodRef"
    [("declaring_type", quoted m.declaringType),
     ("name", quoted m.name),
     ("params", Term.list (m.params.map CilType.term)),
     ("return_type", m.returnType.term),
     ("has_this", Term.bool m.hasThis),
     ("value_type", Term.bool m.onValueType)]

end MethodRef

structure FieldRef where
  declaringType : String
  name : String
  type : CilType
  isStatic : Bool
deriving DecidableEq

namespace FieldRef

def text (f : FieldRef) : String := f.type.text ++ " " ++ f.declaringType ++ "::" ++ f.name

def term (f : FieldRef) : String :=
  Term.record "FieldRef"
    [("declaring_type", quoted f.declaringType),
     ("name", quoted f.name),
     ("field_type", f.type.term),
     ("is_static", Term.bool f.isStatic)]

end FieldRef

end CilPatch
