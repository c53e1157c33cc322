import CilPatch.Proofs.Flow.Labels

/-!
# How control moves through a body

`Body.Successor` is read off the instructions alone: a branch leads to wherever a label it refers
to is attached, and an operation that falls through leads to the next instruction.  A `Body.Path`
is a finite run along successors from the first instruction.  Blocks and flow graphs are not
mentioned; that a flow graph says the same is proved where it is built.
-/

namespace CilPatch

namespace Opcode

/-! ## what an operation does with control -/

variable {op : Opcode}

theorem isBranch_eq_false_of_not_isTerminal (h : op.isTerminal = false) : op.isBranch = false := by
  unfold isTerminal at h
  unfold isBranch
  cases e : op.flow <;> rw [e] at h <;> first | rfl | cases h

theorem fallsThrough_of_not_isTerminal (h : op.isTerminal = false) : op.fallsThrough = true := by
  unfold isTerminal at h
  unfold fallsThrough
  cases e : op.flow <;> rw [e] at h <;> first | rfl | cases h

end Opcode

namespace Body

variable {b : Body}

/-! ## successors and paths -/

/-- control may go from the instruction at `i` to the one at `j` -/
def Successor (b : Body) (i j : Nat) : Prop :=
  ∃ x, b.instruction? i = some x ∧
    ((x.opcode.isBranch = true ∧ ∃ l ∈ x.targets, b.Attached l j) ∨
      (x.opcode.fallsThrough = true ∧ j = i + 1 ∧ j < b.length))

/-- control comes from the first instruction to the one at the second argument, past those at the
positions of the first, in their order -/
inductive Path (b : Body) : List Nat → Nat → Prop where
  | start : 0 < b.length → Path b [] 0
  | step {passed : List Nat} {i j : Nat} :
      Path b passed i → b.Successor i j → Path b (passed ++ [i]) j

theorem successor_iff {i : Nat} {x : Instruction} (hx : b.instruction? i = some x) (j : Nat) :
    b.Successor i j ↔
      (x.opcode.isBranch = true ∧ ∃ l ∈ x.targets, b.Attached l j) ∨
        (x.opcode.fallsThrough = true ∧ j = i + 1 ∧ j < b.length) := by
  constructor
  · rintro ⟨y, hy, h⟩
    rw [hx] at hy
    cases hy
    exact h
  · exact fun h => ⟨x, hx, h⟩

theorem Successor.lt_left {i j : Nat} (h : b.Successor i j) : i < b.length := by
  obtain ⟨x, hx, -⟩ := h
  exact (List.getElem?_eq_some_iff.mp hx).1

theorem Successor.lt_right {i j : Nat} (h : b.Successor i j) : j < b.length := by
  obtain ⟨x, -, ⟨-, l, -, hl⟩ | ⟨-, -, hlt⟩⟩ := h
  · exact lt_length_of_attached hl
  · exact hlt

theorem Path.lt_length {passed : List Nat} {i : Nat} (h : b.Path passed i) : i < b.length := by
  cases h with
  | start hpos => exact hpos
  | step _ hsucc => exact hsucc.lt_right

/-- behind an operation that is not terminal only the next instruction comes -/
theorem successor_iff_of_not_isTerminal {i : Nat} {x : Instruction}
    (hx : b.instruction? i = some x) (h : x.opcode.isTerminal = false) (hi : i + 1 < b.length)
    (j : Nat) : b.Successor i j ↔ j = i + 1 := by
  rw [successor_iff hx, Opcode.isBranch_eq_false_of_not_isTerminal h,
    Opcode.fallsThrough_of_not_isTerminal h]
  constructor
  · rintro (⟨hb, -⟩ | ⟨-, hj, -⟩)
    · cases hb
    · exact hj
  · rintro rfl
    exact .inr ⟨rfl, rfl, hi⟩

end Body

end CilPatch
