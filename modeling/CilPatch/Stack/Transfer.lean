import CilPatch.Fault
import CilPatch.Types.Signature

/-!
# What an instruction does to the stack

An instruction either empties the stack or exchanges some topmost values for others.  How many it
takes (`Exchange.pops`) depends on the operation, its operand, the signature of the method and, for
a `ret` without a signature, on whether there is anything to take; the types it puts back
(`Exchange.push`) are a function of the types taken.  Below the values taken nothing changes:
`transfer` is the only place where a stack is touched.

* `demand`     the exchange, the emptying, or nothing if a call has no method to call;
* `produced`   the type that an operation with a fixed effect puts onto the stack;
* `transfer`   the stack behind an instruction, or what is wrong with it.
-/

namespace CilPatch

/-- take `pops` values and put others onto the stack; both lists have the topmost value first -/
structure Exchange where
  pops : Nat
  push : List CilType → List CilType

inductive Demand where
  | exchange (e : Exchange)
  | clear

/-- the result of arithmetic on two values: their common numeric type, a native integer if one is
mixed with an `int32` -/
def arithmetic (a b : CilType) : CilType :=
  if a.widened = b.widened ∧ a.widened.isNumeric = true then a.widened
  else
    match a.widened, b.widened with
    | .native, .i4 | .i4, .native => .native
    | _, _ => .unknown

namespace Instruction

/-- the type of the operand of a cast, an allocation or an array access -/
def typeOperand (i : Instruction) : CilType :=
  match i.operand with
  | .type t => t
  | _ => .unknown

def fieldType (i : Instruction) : CilType :=
  match i.field? with
  | some f => f.type
  | none => .unknown

/-- the type of the argument that the operand names -/
def argumentType (i : Instruction) (signature : Option Signature) : Option CilType :=
  match i.operand with
  | .argument k => some ((signature.bind (·.argument? k)).getD .unknown)
  | _ => none

/-- the type of the local that the operand names -/
def localType (i : Instruction) (signature : Option Signature) : Option CilType :=
  match i.operand with
  | .local k => some ((signature.bind (·.local? k)).getD .unknown)
  | _ => none

def literalType (i : Instruction) : CilType :=
  match i.operand with
  | .literal v => v.type
  | _ => .unknown

/-- the type that an operation with a fixed effect puts onto the stack, given the types it took,
the topmost first -/
def produced (i : Instruction) (signature : Option Signature) (taken : List CilType) : CilType :=
  match i.opcode with
  | .ldarg => (i.argumentType signature).getD .unknown
  | .ldarga => ((i.argumentType signature).map .byRef).getD .unknown
  | .ldloc => (i.localType signature).getD .unknown
  | .ldloca => ((i.localType signature).map .byRef).getD .unknown
  | .ldnull => .null
  | .ldcI4 | .ldcI8 | .ldcR4 | .ldcR8 => i.literalType
  | .ldstr => .string
  | .add | .sub | .mul | .div | .rem | .and | .or | .xor =>
    match taken with
    | [right, left] => arithmetic left right
    | _ => .unknown
  | .shl | .shr | .neg | .not =>
    match taken.getLast? with
    | some t => t.widened
    | none => .unknown
  | .ceq | .cgt | .clt | .convI4 => .i4
  | .convI8 => .i8
  | .convR4 => .r4
  | .convR8 => .r8
  | .convI => .native
  | .ldfld | .ldsfld => i.fieldType
  | .ldflda | .ldsflda => .byRef i.fieldType
  | .box => .object
  | .unboxAny | .castclass | .isinst | .ldelem => i.typeOperand
  | .newarr => .array i.typeOperand
  | .ldlen => .unative
  | .ldtoken => .valueType "System.RuntimeTypeHandle"
  | _ => .unknown

/-- what the instruction asks of a stack of height `depth`; `none` if it cannot be carried out on
any stack -/
def demand (i : Instruction) (signature : Option Signature) (depth : Nat) : Option Demand :=
  match i.opcode with
  | .call | .callvirt =>
    i.method?.map fun m =>
      .exchange ⟨m.argumentCount, fun _ => if m.returnType.isVoid then [] else [m.returnType]⟩
  | .newobj =>
    i.method?.map fun m => .exchange ⟨m.params.length, fun _ => [m.declaringSort]⟩
  | .ret =>
    let pops := match signature with
      | some s => s.returnsValue.toNat
      | none => if depth = 0 then 0 else 1
    some (.exchange ⟨pops, fun _ => []⟩)
  | .leave | .endfinally => some .clear
  | .dup => some (.exchange ⟨1, fun taken => taken ++ taken⟩)
  | op =>
    op.effect?.map fun e =>
      .exchange ⟨e.pops, fun taken => if e.pushes = 0 then [] else [i.produced signature taken]⟩

/-- the stack behind the instruction at `offset`, given the stack before it -/
def transfer (i : Instruction) (signature : Option Signature) (offset : Nat) (s : Stack) :
    Except BodyFault Stack :=
  match i.demand signature s.depth with
  | none => .error (.invalidOperand offset i)
  | some .clear => .ok []
  | some (.exchange e) =>
    if e.pops ≤ s.depth then .ok (e.push (s.take e.pops) ++ s.drop e.pops)
    else .error (.stackUnderflow offset i e.pops s.depth)

end Instruction

end CilPatch
