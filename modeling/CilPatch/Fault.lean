import CilPatch.Cursor.Warning
import CilPatch.Stack.Basic

/-!
# What can be wrong

`BodyFault` is a proof that a body is ill-formed; it names the instruction that shows it.
`Failure` is everything that can stop a verification, a build or an edit.  Both are causes; their
wording is in the two `message` functions.
-/

namespace CilPatch

open CilPatch.Text

/-- a body is ill-formed; an `offset` is the position of an instruction -/
inductive BodyFault where
  /-- an instruction refers to a label that marks nothing -/
  | danglingLabel (offset : Nat) (instruction : Instruction) (label : Label)
  /-- a label marks two instructions, or one instruction twice -/
  | duplicateLabel (label : Label) (first second : Nat)
  /-- an instruction takes more values than the stack holds -/
  | stackUnderflow (offset : Nat) (instruction : Instruction) (required available : Nat)
  /-- two paths reach a block with stacks of different height -/
  | heightMismatch (block offset : Nat) (held arriving : Stack)
  /-- control may run past the last instruction -/
  | fallsOffEnd (offset : Nat)
  /-- a call without a method to call -/
  | invalidOperand (offset : Nat) (instruction : Instruction)
deriving DecidableEq

def BodyFault.message : BodyFault → String
  | danglingLabel offset i l =>
    positionText offset ++ " (" ++ i.text ++ ") branches to " ++ l.text ++
      ", which marks no instruction"
  | duplicateLabel l first second =>
    l.text ++ " marks both " ++ positionText first ++ " and " ++ positionText second
  | stackUnderflow offset i required available =>
    "Stack underflow at " ++ positionText offset ++ " (" ++ i.text ++ "): needs " ++
      decimal required ++ ", stack holds " ++ decimal available
  | heightMismatch block offset held arriving =>
    "Stack height mismatch entering block " ++ decimal block ++ " at " ++ positionText offset ++
      ": [" ++ held.text ++ "] vs [" ++ arriving.text ++ "]"
  | fallsOffEnd offset =>
    "Control falls off the end of the method after " ++ positionText offset
  | invalidOperand offset i =>
    positionText offset ++ " (" ++ i.text ++ ") carries an operand of the wrong kind"

inductive Failure where
  /-- something was built in an invalid shape, noticed at this place of a source file -/
  | malformed (message file : String) (line : Nat)
  /-- the body has protected regions and they are not to be skipped -/
  | notSupported
  | illFormed (fault : BodyFault)
  /-- a strict build of a cursor with warnings -/
  | strictBuild (warnings : List Warning)
  | patchFailed (owner anchor message : String)
  | lock
  /-- a graph was asked for what it does not hold -/
  | graph (message : String)
  /-- an index lies outside of the table that it was used on -/
  | outOfRange
  /-- a failure that an edit reports in its own words -/
  | custom (message : String)
deriving DecidableEq

def Failure.message : Failure → String
  | malformed message file line => "Malformed - " ++ file ++ ":" ++ decimal line ++ ": " ++ message
  | notSupported => "This feature is not supported"
  | illFormed fault => fault.message
  | strictBuild warnings =>
    "Strict build rejected " ++ decimal warnings.length ++ " cursor warning(s)"
  | patchFailed owner anchor message =>
    "Contribution " ++ owner ++ "/" ++ anchor ++ " failed: " ++ message
  | lock => "Failed to lock target"
  | graph message => message
  | outOfRange => "index out of range"
  | custom message => message

end CilPatch
