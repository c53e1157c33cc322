import CilPatch.Text.Quoted

/-!
# Values written as constructor terms

The exact form of a value, for diagnostics: a constructor with its arguments in parentheses
(`Local(3)`), a record with its fields in braces, a list in brackets.  A record that shows only
some of its fields ends in two dots.
-/

namespace CilPatch.Text.Term

/-- the parts with `, ` between them -/
def commas (parts : List String) : String := ", ".intercalate parts

def applied (name : String) (args : List String) : String := name ++ "(" ++ commas args ++ ")"

def field (entry : String × String) : String := entry.1 ++ ": " ++ entry.2

/-- a record with all its fields -/
def record (name : String) (fields : List (String × String)) : String :=
  name ++ " \x7b " ++ commas (fields.map field) ++ " \x7d"

/-- a record of which only `fields` are shown -/
def openRecord (name : String) (fields : List (String × String)) : String :=
  name ++ " \x7b " ++ commas (fields.map field) ++ ", .. \x7d"

def list (parts : List String) : String := "[" ++ commas parts ++ "]"

def option : Option String → String
  | none => "None"
  | some s => applied "Some" [s]

def bool (b : Bool) : String := if b then "true" else "false"

end CilPatch.Text.Term
