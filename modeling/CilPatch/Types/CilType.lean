import CilPatch.Text.Term

/-!
# Types of values

The types that signatures and members name, and two that only the stack analysis uses: `null`,
the type of the null literal, and `unknown`, which says nothing and lies above every other type.

* `isReference`, `isNumeric`   the two families that the typing rules speak of;
* `widened`                    the type of a value once it lies on the stack, where nothing
                               narrower than 32 bits is kept;
* `element?`                   what an array holds or a managed reference points at.
-/

namespace CilPatch

open CilPatch.Text

inductive CilType where
  | void | boolean | char
  | i1 | u1 | i2 | u2 | i4 | u4 | i8 | u8 | r4 | r8
  | native | unative
  | string | object | null
  | classType (name : String)
  | valueType (name : String)
  | array (element : CilType)
  | byRef (element : CilType)
  | unknown
deriving DecidableEq

namespace CilType

def text : CilType → String
  | void => "void"
  | boolean => "bool"
  | char => "char"
  | i1 => "int8"
  | u1 => "uint8"
  | i2 => "int16"
  | u2 => "uint16"
  | i4 => "int32"
  | u4 => "uint32"
  | i8 => "int64"
  | u8 => "uint64"
  | r4 => "float32"
  | r8 => "float64"
  | native => "native int"
  | unative => "native uint"
  | string => "string"
  | object => "object"
  | null => "null"
  | classType name => "class " ++ name
  | valueType name => "valuetype " ++ name
  | array element => element.text ++ "[]"
  | byRef element => element.text ++ "&"
  | unknown => "?"

def term : CilType → String
  | void => "Void"
  | boolean => "Boolean"
  | char => "Char"
  | i1 => "I1"
  | u1 => "U1"
  | i2 => "I2"
  | u2 => "U2"
  | i4 => "I4"
  | u4 => "U4"
  | i8 => "I8"
  | u8 => "U8"
  | r4 => "R4"
  | r8 => "R8"
  | native => "I"
  | unative => "U"
  | string => "String"
  | object => "Object"
  | null => "Null"
  | classType name => Term.applied "Class" [quoted name]
  | valueType name => Term.applied "ValueType" [quoted name]
  | array element => Term.applied "SzArray" [element.term]
  | byRef element => Term.applied "ByRef" [element.term]
  | unknown => "Unknown"

def isVoid : CilType → Bool
  | void => true
  | _ => false

def isUnknown : CilType → Bool
  | unknown => true
  | _ => false

/-- references to objects: classes, strings, arrays, `object` and `null` -/
def isReference : CilType → Bool
  | string | object | null | classType _ | array _ => true
  | _ => false

/-- integers and floating point numbers, the native ones included -/
def isNumeric : CilType → Bool
  | i1 | u1 | i2 | u2 | i4 | u4 | i8 | u8 | r4 | r8 | native | unative => true
  | _ => false

/-- the type of a value of this type on the stack -/
def widened : CilType → CilType
  | boolean | char | i1 | u1 | i2 | u2 => i4
  | t => t

def element? : CilType → Option CilType
  | array t | byRef t => some t
  | _ => none

/-- several types in assembly notation, as in a parameter list -/
def listText (ts : List CilType) : String := Term.commas (ts.map text)

theorem isVoid_iff {t : CilType} : t.isVoid = true ↔ t = void := by
  cases t <;> simp [isVoid]

theorem isUnknown_iff {t : CilType} : t.isUnknown = true ↔ t = unknown := by
  cases t <;> simp [isUnknown]

theorem widened_widened (t : CilType) : t.widened.widened = t.widened := by
  cases t <;> rfl

theorem widened_of_isReference {t : CilType} (h : t.isReference = true) : t.widened = t := by
  cases t <;> first | rfl | exact absurd h (by decide)

end CilType

end CilPatch
