import CilPatch.Proofs.Cursor.Searches

/-!
# Searches for literals

A literal is searched by its value: `Pattern.loads` with the operand of an instruction should stop
at that instruction, and otherwise only at instructions that load the same bits or the same text.

It does so for strings, integers and 64-bit floating point numbers, which are compared bit by bit.
32-bit floating point numbers are compared as numbers: a pattern that is no number is not found at
all, and either zero is found by the other.

* `Opcode.Loads`          the operations that load a literal, each with operands of its kind;
* `Operand.Finds`         how literals are compared in a search;
* `accepts_loads_iff`     a search stops at the same operation with a literal that compares equal;
* `Cursor.find_of_accepts`,
  `Cursor.find_of_not_accepts`   where a search from the start leads to.
-/

namespace CilPatch

open CilPatch.Decimal

/-! ## literals -/

namespace Opcode

/-- the operations that load a literal or a string -/
def literals : List Opcode := [ldcI4, ldcI8, ldcR4, ldcR8, ldstr]

/-- the operation loads this operand, which is of the kind that it expects -/
inductive Loads : Opcode → Operand → Prop where
  | int32 (v : Int32) : Loads ldcI4 (.literal (.int32 v))
  | int64 (v : Int64) : Loads ldcI8 (.literal (.int64 v))
  | float32 (bits : UInt32) : Loads ldcR4 (.literal (.float32 bits))
  | float64 (bits : UInt64) : Loads ldcR8 (.literal (.float64 bits))
  | string (s : String) : Loads ldstr (.string s)

theorem loads_iff {op : Opcode} {o : Operand} :
    op.Loads o ↔ op ∈ literals ∧ op.operandKind = o.kind := by
  constructor
  · intro h
    cases h <;> exact ⟨by decide, rfl⟩
  · rintro ⟨hop, hkind⟩
    simp only [literals, List.mem_cons, List.not_mem_nil, or_false] at hop
    rcases hop with rfl | rfl | rfl | rfl | rfl
    all_goals
      rcases o with _ | (v | v | bits | bits) | s | _ | _ | _ | _ | _ | _ | _
      all_goals first | constructor | cases hkind

end Opcode

namespace Operand

/-- a 32-bit floating point literal that is no number -/
def isNaN32 : Operand → Bool
  | literal (.float32 bits) => !binary32.isNumber bits.toNat
  | _ => false

/-- the two 32-bit zeros -/
def zeros32 : List Operand := [literal (.float32 0), literal (.float32 0x80000000)]

end Operand

/-- wherever a literal or a string is loaded, it is of the kind that the operation expects -/
def Body.LiteralsFit (b : Body) : Prop :=
  ∀ x ∈ b.code, x.opcode ∈ Opcode.literals → x.opcode.Loads x.operand

theorem isZero_toNat_iff (bits : UInt32) :
    binary32.isZero bits.toNat = true ↔ Operand.literal (.float32 bits) ∈ Operand.zeros32 := by
  have hlt := bits.toNat_lt
  simp only [Operand.zeros32, List.mem_cons, Operand.literal.injEq, Literal.float32.injEq,
    List.not_mem_nil, or_false, ← UInt32.toNat_inj]
  unfold Format.isZero Format.exponentField Format.fraction Format.fractions Format.exponents
    binary32
  simp only [Bool.and_eq_true, beq_iff_eq]
  show _ ↔ bits.toNat = 0 ∨ bits.toNat = 2147483648
  constructor
  · rintro ⟨h₁, h₂⟩
    have h₁' : bits.toNat / 8388608 % 256 = 0 := h₁
    have h₂' : bits.toNat % 8388608 = 0 := h₂
    omega
  · rintro (h | h) <;> rw [h] <;> exact ⟨rfl, rfl⟩

/-! ## what a search for a literal stops at -/

/-- a search for one literal stops at the other -/
def Operand.Finds (o p : Operand) : Prop :=
  o = p ∧ o.isNaN32 = false ∨ o ∈ zeros32 ∧ p ∈ zeros32

theorem equal_toNat_iff (a b : UInt32) : binary32.equal a.toNat b.toNat = true ↔
    (Operand.literal (.float32 a)).Finds (.literal (.float32 b)) := by
  unfold Format.equal Operand.Finds Operand.isNaN32
  rw [← isZero_toNat_iff, ← isZero_toNat_iff]
  have hzero : ∀ n, binary32.isZero n = true → binary32.isNumber n = true := by
    intro n h
    unfold Format.isZero at h
    unfold Format.isNumber
    rw [Bool.and_eq_true] at h
    rw [h.2, Bool.or_true]
  simp only [Bool.and_eq_true, Bool.or_eq_true, beq_iff_eq, UInt32.toNat_inj, Operand.literal.injEq,
    Literal.float32.injEq, Bool.not_eq_false']
  constructor
  · rintro ⟨⟨ha, hb⟩, rfl | hz⟩
    · exact .inl ⟨rfl, ha⟩
    · exact .inr hz
  · rintro (⟨rfl, ha⟩ | ⟨ha, hb⟩)
    · exact ⟨⟨ha, ha⟩, .inl rfl⟩
    · exact ⟨⟨hzero _ ha, hzero _ hb⟩, .inr ⟨ha, hb⟩⟩

variable {x y : Instruction}

/-- what is not there to load a literal is not taken for one -/
theorem mem_literals_of_accepts {o : Operand} (h : (Pattern.loads o).accepts y = true) :
    y.opcode ∈ Opcode.literals := by
  replace h : Pattern.loadsOperand o y = true := h
  unfold Pattern.loadsOperand Pattern.loadsLiteral at h
  unfold Opcode.literals
  split at h
  · split at h
    · split at h
      · simp_all
      · simp only [Bool.and_eq_true, Bool.or_eq_true, beq_iff_eq] at h
        rcases h.1 with (e | e) | e <;> simp [e]
    · cases h
  · simp_all
  · cases h

/-- **A search for a literal stops at its own value**, and for 32-bit floating point numbers at
equal ones. -/
theorem accepts_loads_iff (hx : x.opcode.Loads x.operand)
    (hy : y.opcode ∈ Opcode.literals → y.opcode.Loads y.operand) :
    (Pattern.loads x.operand).accepts y = true ↔
      y.opcode = x.opcode ∧ x.operand.Finds y.operand := by
  by_cases hop : y.opcode ∈ Opcode.literals
  · replace hy := hy hop
    obtain ⟨opx, ox, lx⟩ := x
    obtain ⟨opy, oy, ly⟩ := y
    cases hx <;> cases hy
    case float32.float32 a b =>
      simpa [Pattern.accepts, Pattern.loadsOperand, Pattern.loadsLiteral, Literal.equal]
        using equal_toNat_iff a b
    case string.string s t =>
      simpa [Pattern.accepts, Pattern.loadsOperand, Operand.Finds, Operand.isNaN32,
        Operand.zeros32] using eq_comm
    all_goals
      simp [Pattern.accepts, Pattern.loadsOperand, Pattern.loadsLiteral, Literal.equal,
        Operand.Finds, Operand.isNaN32, Operand.zeros32]
  · constructor
    · intro h
      exact absurd (mem_literals_of_accepts h) hop
    · rintro ⟨h, -⟩
      exact absurd (h ▸ (Opcode.loads_iff.mp hx).1) hop

/-- an instruction that loads a literal is found by it -/
theorem accepts_self_iff (hx : x.opcode.Loads x.operand) :
    (Pattern.loads x.operand).accepts x = true ↔ x.operand.isNaN32 = false := by
  rw [accepts_loads_iff hx fun _ => hx]
  have hzero : ∀ o ∈ Operand.zeros32, o.isNaN32 = false := by decide
  unfold Operand.Finds
  constructor
  · rintro ⟨-, ⟨-, h⟩ | ⟨h, -⟩⟩
    · exact h
    · exact hzero _ h
  · exact fun h => ⟨rfl, .inl ⟨rfl, h⟩⟩

/-- a 32-bit pattern that is no number is found nowhere -/
theorem not_accepts_of_isNaN32 {o : Operand} (h : o.isNaN32 = true) (y : Instruction) :
    (Pattern.loads o).accepts y = false := by
  unfold Operand.isNaN32 at h
  split at h
  · next bits =>
    have hnum : binary32.isNumber bits.toNat = false := by simpa using h
    have hne : ∀ v, (Literal.float32 bits).equal v = false := by
      intro v
      cases v with
      | float32 b => simp [Literal.equal, Format.equal, hnum]
      | _ => rfl
    show Pattern.loadsLiteral (.float32 bits) y = false
    unfold Pattern.loadsLiteral
    split
    · next v _ =>
      split
      · next h' _ => cases h'
      · rw [hne, Bool.and_false]
    · rfl
  · cases h

theorem matchesAt_singleton_iff {p : Pattern} {code : List Instruction} {k : Nat} :
    matchesAt [p] (code.drop k) = true ↔ ∃ z, code[k]? = some z ∧ p.accepts z = true := by
  rw [← List.head?_drop]
  cases code.drop k with
  | nil => simp [matchesAt]
  | cons z rest => simp [matchesAt]

namespace Cursor

variable {c : Cursor} {i : Nat} {p : Pattern}

theorem find_eq (c : Cursor) (p : Pattern) : c.find p =
    match locate c.body.code [p] 0 with
    | some k => { c with position := some k }
    | none => c.lose "find" (.notFound (Pattern.windowText [p]) .fromStart 0) :=
  searchAs_eq "find" (List.cons_ne_nil p []) rfl

/-- a search from the start leads to an instruction as described, and not past the first one -/
theorem find_of_accepts (hy : c.body.instruction? i = some y) (h : p.accepts y = true) :
    ∃ k ≤ i, ∃ z, c.body.instruction? k = some z ∧ p.accepts z = true ∧
      c.find p = { c with position := some k } := by
  have hm : matchesAt [p] (c.body.code.drop i) = true := matchesAt_singleton_iff.mpr ⟨y, hy, h⟩
  rw [find_eq]
  cases hl : locate c.body.code [p] 0 with
  | none =>
    rw [locate_eq_none hl (Nat.zero_le i)] at hm
    cases hm
  | some k =>
    obtain ⟨-, -, hk, hfirst⟩ := locate_eq_some hl (List.cons_ne_nil p [])
    obtain ⟨z, hz, hpz⟩ := matchesAt_singleton_iff.mp hk
    refine ⟨k, Nat.le_of_not_lt fun hlt => ?_, z, hz, hpz, rfl⟩
    rw [hfirst i (Nat.zero_le i) hlt] at hm
    cases hm

theorem find_of_not_accepts (h : ∀ y, p.accepts y = false) :
    ∃ w, c.find p = { c with position := none, warnings := c.warnings ++ [w] } := by
  rw [find_eq]
  cases hl : locate c.body.code [p] 0 with
  | none => exact ⟨_, rfl⟩
  | some k =>
    obtain ⟨-, -, hk, -⟩ := locate_eq_some hl (List.cons_ne_nil p [])
    obtain ⟨z, -, hpz⟩ := matchesAt_singleton_iff.mp hk
    rw [h z] at hpz
    cases hpz

end Cursor

/-- **What a search for the literal of an instruction comes to.**  It leads to the instruction or to
one before it, and it stops only at instructions with the same operation and the same bits or text,
the two 32-bit zeros being taken for one another.  A 32-bit pattern that is no number is found
nowhere. -/
theorem literal_searched (c : Cursor) {i : Nat} {x : Instruction}
    (hx : c.body.instruction? i = some x) (hload : x.opcode.Loads x.operand) :
    (x.operand.isNaN32 = false →
      (Pattern.loads x.operand).accepts x = true ∧
      (∃ k ≤ i, c.find (.loads x.operand) = { c with position := some k }) ∧
      (c.body.LiteralsFit → ∀ y ∈ c.body.code, (Pattern.loads x.operand).accepts y = true ↔
        y.opcode = x.opcode ∧ (y.operand = x.operand ∨
          x.operand ∈ Operand.zeros32 ∧ y.operand ∈ Operand.zeros32))) ∧
    (x.operand.isNaN32 = true →
      (∀ y, (Pattern.loads x.operand).accepts y = false) ∧
      ∃ w, c.find (.loads x.operand) =
        { c with position := none, warnings := c.warnings ++ [w] }) := by
  refine ⟨fun hnum => ⟨?_, ?_, fun hfit y hy => ?_⟩, fun hnan => ⟨?_, ?_⟩⟩
  · exact (accepts_self_iff hload).mpr hnum
  · obtain ⟨k, hk, -, -, -, hfind⟩ :=
      Cursor.find_of_accepts hx ((accepts_self_iff hload).mpr hnum)
    exact ⟨k, hk, hfind⟩
  · rw [accepts_loads_iff hload (hfit y hy), Operand.Finds, hnum, and_iff_left rfl,
      @eq_comm _ x.operand]
  · exact not_accepts_of_isNaN32 hnan
  · exact Cursor.find_of_not_accepts (not_accepts_of_isNaN32 hnan)

/-- a 64-bit pattern that is no number, a 32-bit one, and the two 32-bit zeros -/
def floats : Body := .ofCode
  [{ opcode := .ldcR8, operand := .literal (.float64 0x7ff8000000000001) },
   { opcode := .ldcR4, operand := .literal (.float32 0x7fc00000) },
   { opcode := .ldcR4, operand := .literal (.float32 0x80000000) },
   { opcode := .ldcR4, operand := .literal (.float32 0) }]

theorem literal_searched_floats :
    let c := Cursor.ofBody floats
    let wide : Operand := .literal (.float64 0x7ff8000000000001)
    let narrow : Operand := .literal (.float32 0x7fc00000)
    floats.LiteralsFit ∧
      (∃ k ≤ 0, c.find (.loads wide) = { c with position := some k }) ∧
      (∀ y ∈ floats.code, (Pattern.loads wide).accepts y = true ↔
        y.opcode = .ldcR8 ∧ (y.operand = wide ∨
          wide ∈ Operand.zeros32 ∧ y.operand ∈ Operand.zeros32)) ∧
      ∃ w, c.find (.loads narrow) = { c with position := none, warnings := [w] } := by
  intro c wide narrow
  have hfit : floats.LiteralsFit := by
    intro x hx _
    simp only [floats, Body.ofCode, List.mem_cons, List.not_mem_nil, or_false] at hx
    rcases hx with rfl | rfl | rfl | rfl <;> constructor
  obtain ⟨-, hfind, hmatch⟩ := (literal_searched c (i := 0) rfl (.float64 _)).1 rfl
  exact ⟨hfit, hfind, hmatch hfit, ((literal_searched c (i := 1) rfl (.float32 _)).2 (by decide)).2⟩

/-- a 32-bit pattern that is no number is not found by itself, and `-0.0` is found by `0.0` -/
theorem literal_not_its_value :
    let c := Cursor.ofBody floats
    let nan : Instruction := { opcode := .ldcR4, operand := .literal (.float32 0x7fc00000) }
    let minus : Instruction := { opcode := .ldcR4, operand := .literal (.float32 0x80000000) }
    let zero : Instruction := { opcode := .ldcR4, operand := .literal (.float32 0) }
    (floats.instruction? 1 = some nan ∧ nan.opcode.Loads nan.operand ∧
      (Pattern.loads nan.operand).accepts nan = false ∧
        (c.find (.loads nan.operand)).position = none) ∧
    (floats.instruction? 3 = some zero ∧ zero.opcode.Loads zero.operand ∧ minus ∈ floats.code ∧
      (Pattern.loads zero.operand).accepts minus = true ∧ minus.operand ≠ zero.operand ∧
        (c.find (.loads zero.operand)).position = some 2) := by
  intro c nan minus zero
  exact ⟨⟨rfl, .float32 _, by decide, by decide⟩,
    rfl, .float32 _, by decide, by decide, by decide, by decide⟩

end CilPatch
