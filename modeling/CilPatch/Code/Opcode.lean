/-!
# Operations

The symbolic operations of a method body and what is fixed about each of them: the mnemonic, the
kind of operand it expects, how control goes on behind it, and how many values it takes off the
stack and puts onto it.  The stack effect of calls, of `ret` and of the operations that leave a
protected region is not fixed (`effect = none`): it hangs on the operand or on the method.

The table is `Opcode.info`; everything else is read off it.
-/

namespace CilPatch

inductive OperandKind where
  | none | int32 | int64 | float32 | float64 | string | local | argument | method | field | type
  | label | switch
deriving DecidableEq

def OperandKind.term : OperandKind → String
  | none => "None"
  | int32 => "Int32"
  | int64 => "Int64"
  | float32 => "Float32"
  | float64 => "Float64"
  | string => "String"
  | .local => "Local"
  | argument => "Argument"
  | method => "Method"
  | field => "Field"
  | type => "Type"
  | label => "Label"
  | switch => "Switch"

/-- how control goes on behind an operation -/
inductive Flow where
  | sequential | conditional | unconditional | call | ret | switch | throw | endFinally | leave
deriving DecidableEq

def Flow.term : Flow → String
  | sequential => "Sequential"
  | conditional => "ConditionalBranch"
  | unconditional => "UnconditionalBranch"
  | call => "Call"
  | ret => "Return"
  | switch => "Switch"
  | throw => "Throw"
  | endFinally => "EndFinally"
  | leave => "Leave"

/-- how many values an operation takes off the stack and then puts onto it -/
structure Effect where
  pops : Nat
  pushes : Nat
deriving DecidableEq

/-- the change of the height of the stack -/
def Effect.net (e : Effect) : Int := (e.pushes : Int) - e.pops

inductive Opcode where
  | nop | breakpoint
  | ldarg | ldarga | starg | ldloc | ldloca | stloc
  | ldnull | ldcI4 | ldcI8 | ldcR4 | ldcR8 | ldstr
  | dup | pop
  | call | callvirt | newobj | ret
  | br | brfalse | brtrue | beq | bge | bgt | ble | blt | bneUn | switch
  | add | sub | mul | div | rem | and | or | xor | shl | shr | neg | not
  | ceq | cgt | clt
  | convI4 | convI8 | convR4 | convR8 | convI
  | ldfld | ldflda | stfld | ldsfld | ldsflda | stsfld
  | box | unboxAny | castclass | isinst | newarr | ldlen | ldelem | stelem | ldtoken
  | throw | rethrow | leave | endfinally
deriving DecidableEq

/-- what is fixed about an operation -/
structure OpcodeInfo where
  /-- the name of the operation as a constructor term -/
  term : String
  mnemonic : String
  operand : OperandKind
  flow : Flow
  effect : Option Effect

namespace Opcode

/-- every operation, in the order of the instruction set -/
def all : List Opcode :=
  [nop, breakpoint, ldarg, ldarga, starg, ldloc, ldloca, stloc, ldnull, ldcI4, ldcI8, ldcR4,
   ldcR8, ldstr, dup, pop, call, callvirt, newobj, ret, br, brfalse, brtrue, beq, bge, bgt, ble,
   blt, bneUn, switch, add, sub, mul, div, rem, and, or, xor, shl, shr, neg, not, ceq, cgt, clt,
   convI4, convI8, convR4, convR8, convI, ldfld, ldflda, stfld, ldsfld, ldsflda, stsfld, box,
   unboxAny, castclass, isinst, newarr, ldlen, ldelem, stelem, ldtoken, throw, rethrow, leave,
   endfinally]

def info : Opcode → OpcodeInfo
  | nop => ⟨"Nop", "nop", .none, .sequential, some ⟨0, 0⟩⟩
  | breakpoint => ⟨"Break", "break", .none, .sequential, some ⟨0, 0⟩⟩
  | ldarg => ⟨"Ldarg", "ldarg", .argument, .sequential, some ⟨0, 1⟩⟩
  | ldarga => ⟨"Ldarga", "ldarga", .argument, .sequential, some ⟨0, 1⟩⟩
  | starg => ⟨"Starg", "starg", .argument, .sequential, some ⟨1, 0⟩⟩
  | ldloc => ⟨"Ldloc", "ldloc", .local, .sequential, some ⟨0, 1⟩⟩
  | ldloca => ⟨"Ldloca", "ldloca", .local, .sequential, some ⟨0, 1⟩⟩
  | stloc => ⟨"Stloc", "stloc", .local, .sequential, some ⟨1, 0⟩⟩
  | ldnull => ⟨"Ldnull", "ldnull", .none, .sequential, some ⟨0, 1⟩⟩
  | ldcI4 => ⟨"LdcI4", "ldc.i4", .int32, .sequential, some ⟨0, 1⟩⟩
  | ldcI8 => ⟨"LdcI8", "ldc.i8", .int64, .sequential, some ⟨0, 1⟩⟩
  | ldcR4 => ⟨"LdcR4", "ldc.r4", .float32, .sequential, some ⟨0, 1⟩⟩
  | ldcR8 => ⟨"LdcR8", "ldc.r8", .float64, .sequential, some ⟨0, 1⟩⟩
  | ldstr => ⟨"Ldstr", "ldstr", .string, .sequential, some ⟨0, 1⟩⟩
  | dup => ⟨"Dup", "dup", .none, .sequential, some ⟨1, 2⟩⟩
  | pop => ⟨"Pop", "pop", .none, .sequential, some ⟨1, 0⟩⟩
  | call => ⟨"Call", "call", .method, .call, none⟩
  | callvirt => ⟨"Callvirt", "callvirt", .method, .call, none⟩
  | newobj => ⟨"Newobj", "newobj", .method, .call, none⟩
  | ret => ⟨"Ret", "ret", .none, .ret, none⟩
  | br => ⟨"Br", "br", .label, .unconditional, some ⟨0, 0⟩⟩
  | brfalse => ⟨"Brfalse", "brfalse", .label, .conditional, some ⟨1, 0⟩⟩
  | brtrue => ⟨"Brtrue", "brtrue", .label, .conditional, some ⟨1, 0⟩⟩
  | beq => ⟨"Beq", "beq", .label, .conditional, some ⟨2, 0⟩⟩
  | bge => ⟨"Bge", "bge", .label, .conditional, some ⟨2, 0⟩⟩
  | bgt => ⟨"Bgt", "bgt", .label, .conditional, some ⟨2, 0⟩⟩
  | ble => ⟨"Ble", "ble", .label, .conditional, some ⟨2, 0⟩⟩
  | blt => ⟨"Blt", "blt", .label, .conditional, some ⟨2, 0⟩⟩
  | bneUn => ⟨"BneUn", "bne.un", .label, .conditional, some ⟨2, 0⟩⟩
  | switch => ⟨"Switch", "switch", .switch, .switch, some ⟨1, 0⟩⟩
  | add => ⟨"Add", "add", .none, .sequential, some ⟨2, 1⟩⟩
  | sub => ⟨"Sub", "sub", .none, .sequential, some ⟨2, 1⟩⟩
  | mul => ⟨"Mul", "mul", .none, .sequential, some ⟨2, 1⟩⟩
  | div => ⟨"Div", "div", .none, .sequential, some ⟨2, 1⟩⟩
  | rem => ⟨"Rem", "rem", .none, .sequential, some ⟨2, 1⟩⟩
  | and => ⟨"And", "and", .none, .sequential, some ⟨2, 1⟩⟩
  | or => ⟨"Or", "or", .none, .sequential, some ⟨2, 1⟩⟩
  | xor => ⟨"Xor", "xor", .none, .sequential, some ⟨2, 1⟩⟩
  | shl => ⟨"Shl", "shl", .none, .sequential, some ⟨2, 1⟩⟩
  | shr => ⟨"Shr", "shr", .none, .sequential, some ⟨2, 1⟩⟩
  | neg => ⟨"Neg", "neg", .none, .sequential, some ⟨1, 1⟩⟩
  | not => ⟨"Not", "not", .none, .sequential, some ⟨1, 1⟩⟩
  | ceq => ⟨"Ceq", "ceq", .none, .sequential, some ⟨2, 1⟩⟩
  | cgt => ⟨"Cgt", "cgt", .none, .sequential, some ⟨2, 1⟩⟩
  | clt => ⟨"Clt", "clt", .none, .sequential, some ⟨2, 1⟩⟩
  | convI4 => ⟨"ConvI4", "conv.i4", .none, .sequential, some ⟨1, 1⟩⟩
  | convI8 => ⟨"ConvI8", "conv.i8", .none, .sequential, some ⟨1, 1⟩⟩
  | convR4 => ⟨"ConvR4", "conv.r4", .none, .sequential, some ⟨1, 1⟩⟩
  | convR8 => ⟨"ConvR8", "conv.r8", .none, .sequential, some ⟨1, 1⟩⟩
  | convI => ⟨"ConvI", "conv.i", .none, .sequential, some ⟨1, 1⟩⟩
  | ldfld => ⟨"Ldfld", "ldfld", .field, .sequential, some ⟨1, 1⟩⟩
  | ldflda => ⟨"Ldflda", "ldflda", .field, .sequential, some ⟨1, 1⟩⟩
  | stfld => ⟨"Stfld", "stfld", .field, .sequential, some ⟨2, 0⟩⟩
  | ldsfld => ⟨"Ldsfld", "ldsfld", .field, .sequential, some ⟨0, 1⟩⟩
  | ldsflda => ⟨"Ldsflda", "ldsflda", .field, .sequential, some ⟨0, 1⟩⟩
  | stsfld => ⟨"Stsfld", "stsfld", .field, .sequential, some ⟨1, 0⟩⟩
  | box => ⟨"Box", "box", .type, .sequential, some ⟨1, 1⟩⟩
  | unboxAny => ⟨"UnboxAny", "unbox.any", .type, .sequential, some ⟨1, 1⟩⟩
  | castclass => ⟨"Castclass", "castclass", .type, .sequential, some ⟨1, 1⟩⟩
  | isinst => ⟨"Isinst", "isinst", .type, .sequential, some ⟨1, 1⟩⟩
  | newarr => ⟨"Newarr", "newarr", .type, .sequential, some ⟨1, 1⟩⟩
  | ldlen => ⟨"Ldlen", "ldlen", .none, .sequential, some ⟨1, 1⟩⟩
  | ldelem => ⟨"Ldelem", "ldelem", .type, .sequential, some ⟨2, 1⟩⟩
  | stelem => ⟨"Stelem", "stelem", .type, .sequential, some ⟨3, 0⟩⟩
  | ldtoken => ⟨"Ldtoken", "ldtoken", .type, .sequential, some ⟨0, 1⟩⟩
  | throw => ⟨"Throw", "throw", .none, .throw, some ⟨1, 0⟩⟩
  | rethrow => ⟨"Rethrow", "rethrow", .none, .throw, some ⟨0, 0⟩⟩
  | leave => ⟨"Leave", "leave", .label, .leave, none⟩
  | endfinally => ⟨"Endfinally", "endfinally", .none, .endFinally, none⟩

def mnemonic (op : Opcode) : String := op.info.mnemonic

def operandKind (op : Opcode) : OperandKind := op.info.operand

def flow (op : Opcode) : Flow := op.info.flow

def effect? (op : Opcode) : Option Effect := op.info.effect

/-- the operation jumps to the labels of its operand -/
def isBranch (op : Opcode) : Bool :=
  match op.flow with
  | .conditional | .unconditional | .switch | .leave => true
  | _ => false

/-- no block goes on behind the operation -/
def isTerminal (op : Opcode) : Bool :=
  match op.flow with
  | .sequential | .call => false
  | _ => true

/-- control may go on to the next instruction -/
def fallsThrough (op : Opcode) : Bool :=
  match op.flow with
  | .sequential | .call | .conditional | .switch => true
  | _ => false

def ofMnemonic? (s : String) : Option Opcode := all.find? fun op => op.mnemonic == s

theorem mem_all (op : Opcode) : op ∈ all := by
  cases op <;> decide

theorem nodup_all : all.Nodup := by decide

end Opcode

end CilPatch
