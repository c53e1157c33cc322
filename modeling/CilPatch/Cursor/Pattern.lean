import CilPatch.Code.Instruction

/-!
# Patterns

A pattern describes single instructions; a list of patterns describes a window of neighbouring
ones, element by element.  Every pattern has a text, which warnings show.

* `Pattern.accepts`      the instructions that a pattern describes;
* `matchesAt`, `locate`  the windows that a list of patterns describes, and the first of them from
                         some position on.
-/

namespace CilPatch

open CilPatch.Text

inductive Pattern where
  | any
  | opcode (op : Opcode)
  | oneOf (ops : List Opcode)
  /-- an instruction that refers to a method, whatever its operation -/
  | call (declaringType name : String) (params : Option (List CilType))
  /-- an instruction that refers to a field, whatever its operation -/
  | field (declaringType name : String)
  /-- an instruction that loads this literal or string -/
  | loads (operand : Operand)
  | branchTo (target : Label)
  | labeled (label : Label)
  /-- a test of the caller's with the text that describes it -/
  | test (description : String) (accepts : Instruction → Bool)
  | all (patterns : List Pattern)

namespace Pattern

/-- `i` loads the literal: 64-bit floating point literals are compared by their bits, the others as
numbers -/
def loadsLiteral (expected : Literal) (i : Instruction) : Bool :=
  match i.operand with
  | .literal actual =>
    match expected, actual with
    | .float64 a, .float64 b => i.opcode == .ldcR8 && a == b
    | a, b => (i.opcode == .ldcI4 || i.opcode == .ldcI8 || i.opcode == .ldcR4) && a.equal b
  | _ => false

def loadsOperand (expected : Operand) (i : Instruction) : Bool :=
  match expected with
  | .literal v => loadsLiteral v i
  | .string s => i.opcode == .ldstr && i.operand == .string s
  | _ => false

def accepts : Pattern → Instruction → Bool
  | any, _ => true
  | opcode op, i => i.opcode == op
  | oneOf ops, i => ops.contains i.opcode
  | call declaringType name params, i =>
    match i.method? with
    | some m => m.refersTo declaringType name params
    | none => false
  | field declaringType name, i =>
    match i.field? with
    | some f => f.declaringType == declaringType && f.name == name
    | none => false
  | loads operand, i => loadsOperand operand i
  | branchTo l, i => i.targets.contains l
  | labeled l, i => i.hasLabel l
  | test _ accepts, i => accepts i
  | all patterns, i => acceptsAll patterns i
where
  acceptsAll : List Pattern → Instruction → Bool
    | [], _ => true
    | p :: rest, i => p.accepts i && acceptsAll rest i

def loadsText : Operand → String
  | .literal (.int32 v) => "ldc.i4 " ++ (Literal.int32 v).text
  | .literal (.int64 v) => "ldc.i8 " ++ (Literal.int64 v).text
  | .literal (.float32 bits) => "ldc.r4 " ++ (Literal.float32 bits).text
  | .literal (.float64 bits) => "ldc.r8 " ++ (Literal.float64 bits).text
  | .string s => "ldstr " ++ quoted s
  | other => "literal " ++ other.term

def text : Pattern → String
  | any => "any instruction"
  | opcode op => op.mnemonic
  | oneOf ops => "one of " ++ Term.list (ops.map Opcode.mnemonic)
  | call declaringType name params =>
    "call " ++ declaringType ++ "::" ++ name ++
      match params with
      | some ps => "(" ++ CilType.listText ps ++ ")"
      | none => "(..)"
  | field declaringType name => "field " ++ declaringType ++ "::" ++ name
  | loads operand => loadsText operand
  | branchTo l => "branch to " ++ l.text
  | labeled l => "instruction at " ++ l.text
  | test description _ => description
  | all patterns => "all of [" ++ " and ".intercalate (texts patterns) ++ "]"
where
  texts : List Pattern → List String
    | [] => []
    | p :: rest => p.text :: texts rest

def term (p : Pattern) : String := "Matcher(" ++ p.text ++ ")"

/-- the text of a window of patterns -/
def windowText : List Pattern → String
  | [p] => p.text
  | ps => Term.list (ps.map text)

end Pattern

/-- the code begins with a window that the patterns describe -/
def matchesAt : List Pattern → List Instruction → Bool
  | [], _ => true
  | _ :: _, [] => false
  | p :: ps, i :: code => p.accepts i && matchesAt ps code

/-- the position of the first such window in `code`, whose first instruction has position `n` -/
def locateFrom (patterns : List Pattern) (n : Nat) (code : List Instruction) : Option Nat :=
  if matchesAt patterns code then some n
  else
    match code with
    | [] => none
    | _ :: rest => locateFrom patterns (n + 1) rest

/-- the first position from `start` on at which the patterns describe a window -/
def locate (code : List Instruction) (patterns : List Pattern) (start : Nat) : Option Nat :=
  locateFrom patterns start (code.drop start)

theorem length_le_of_matchesAt {patterns : List Pattern} {code : List Instruction}
    (h : matchesAt patterns code = true) : patterns.length ≤ code.length := by
  induction patterns generalizing code with
  | nil => exact Nat.zero_le _
  | cons p ps ih =>
    cases code with
    | nil => exact absurd h (by simp [matchesAt])
    | cons i code =>
      rw [matchesAt, Bool.and_eq_true] at h
      exact Nat.succ_le_succ (ih h.2)

theorem locateFrom_eq_some {patterns : List Pattern} {n i : Nat} {code : List Instruction}
    (h : locateFrom patterns n code = some i) :
    ∃ k, i = n + k ∧ matchesAt patterns (code.drop k) = true ∧
      ∀ j < k, matchesAt patterns (code.drop j) = false := by
  induction code generalizing n with
  | nil =>
    rw [locateFrom] at h
    split at h
    · next hm => exact ⟨0, (Option.some.inj h).symm, hm, fun j hj => absurd hj (Nat.not_lt_zero j)⟩
    · exact absurd h (by simp)
  | cons x rest ih =>
    rw [locateFrom] at h
    split at h
    · next hm => exact ⟨0, (Option.some.inj h).symm, hm, fun j hj => absurd hj (Nat.not_lt_zero j)⟩
    · next hm =>
      obtain ⟨k, hi, hk, hj⟩ := ih h
      refine ⟨k + 1, by omega, hk, fun j hlt => ?_⟩
      cases j with
      | zero => exact Bool.eq_false_iff.mpr hm
      | succ j => exact hj j (by omega)

theorem locateFrom_eq_none {patterns : List Pattern} {n : Nat} {code : List Instruction}
    (h : locateFrom patterns n code = none) (k : Nat) :
    matchesAt patterns (code.drop k) = false := by
  induction code generalizing n k with
  | nil =>
    rw [locateFrom] at h
    split at h
    · exact absurd h (by simp)
    · next hm => rw [List.drop_nil]; exact Bool.eq_false_iff.mpr hm
  | cons x rest ih =>
    rw [locateFrom] at h
    split at h
    · exact absurd h (by simp)
    · next hm =>
      cases k with
      | zero => exact Bool.eq_false_iff.mpr hm
      | succ k => exact ih h k

/-- a located window lies behind the start of the search and inside the code, and it is the first
one -/
theorem locate_eq_some {code : List Instruction} {patterns : List Pattern} {start i : Nat}
    (h : locate code patterns start = some i) (hp : patterns ≠ []) :
    start ≤ i ∧ i + patterns.length ≤ code.length ∧ matchesAt patterns (code.drop i) = true ∧
      ∀ j, start ≤ j → j < i → matchesAt patterns (code.drop j) = false := by
  obtain ⟨k, rfl, hk, hj⟩ := locateFrom_eq_some h
  rw [List.drop_drop] at hk
  have hl := length_le_of_matchesAt hk
  have hpos : 0 < patterns.length := List.length_pos_iff.mpr hp
  rw [List.length_drop] at hl
  refine ⟨by omega, by omega, hk, fun j h1 h2 => ?_⟩
  have e := hj (j - start) (by omega)
  rwa [List.drop_drop, Nat.add_sub_cancel' h1] at e

theorem locate_eq_none {code : List Instruction} {patterns : List Pattern} {start : Nat}
    (h : locate code patterns start = none) {j : Nat} (hj : start ≤ j) :
    matchesAt patterns (code.drop j) = false := by
  have e := locateFrom_eq_none h (j - start)
  rwa [List.drop_drop, Nat.add_sub_cancel' hj] at e

end CilPatch
