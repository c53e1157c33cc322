import CilPatch.Code.Splice
import CilPatch.Proofs.Flow.Labels

/-!
# Idle instructions

An instruction is idle if it does nothing, names no label and carries none.  `Padded b b' q n` says
that `b'` is `b` with `n` idle instructions before position `q`: all other instructions are still
there and stand at their `shifted` positions, apart from their labels.  A label marks what it marked
before, or else the first idle instruction, if it marked the instruction that they were put before.

* `padded_insertAt`          insertion leaves labels where they are;
* `padded_insertLabeledAt`   insertion that takes the labels over leads jumps through the new code.
-/

namespace CilPatch

namespace Instruction

/-- the instruction does nothing and has to do with no label -/
structure IsIdle (x : Instruction) : Prop where
  opcode : x.opcode = .nop
  targets : x.targets = []
  labels : x.labels = []

theorem isIdle_nop : nop.IsIdle := ⟨rfl, rfl, rfl⟩

/-- inherited labels are all that changes, and only in the first instruction -/
theorem getElem?_inherit (labels : List Label) (code : List Instruction) (k : Nat) :
    (inherit labels code)[k]? =
      code[k]?.map fun x =>
        if k = 0 then { x with labels := Label.union x.labels labels } else x := by
  cases code with
  | nil => rfl
  | cons x code =>
    cases k with
    | zero => rfl
    | succ k =>
      show code[k]? = code[k]?.map fun x => x
      rw [Option.map_id_fun']
      rfl

end Instruction

namespace Body

open Instruction

/-- where the instruction at `i` stands once `n` others have been put before position `q` -/
def shifted (q n i : Nat) : Nat := if i < q then i else i + n

theorem shifted_of_lt {q n i : Nat} (h : i < q) : shifted q n i = i := if_pos h

theorem shifted_of_le {q n i : Nat} (h : q ≤ i) : shifted q n i = i + n :=
  if_neg (Nat.not_lt.mpr h)

theorem shifted_le (q n i : Nat) : shifted q n i ≤ i + n := by
  unfold shifted
  split <;> omega

theorem shifted_inj {q n i j : Nat} : shifted q n i = shifted q n j ↔ i = j := by
  unfold shifted
  split <;> split <;> omega

/-- no instruction is shifted to where the new ones are -/
theorem shifted_ne {q n i k : Nat} (hk : k < n) : shifted q n i ≠ q + k := by
  unfold shifted
  split <;> omega

/-- a position is that of an instruction from before, or of one of the new ones -/
theorem exists_shifted {q n length j : Nat} (hq : q ≤ length) (hj : j < length + n) :
    (∃ i, i < length ∧ j = shifted q n i) ∨ ∃ k, k < n ∧ j = q + k := by
  by_cases h1 : j < q
  · exact .inl ⟨j, by omega, (shifted_of_lt h1).symm⟩
  · by_cases h2 : j < q + n
    · exact .inr ⟨j - q, by omega, by omega⟩
    · refine .inl ⟨j - n, by omega, ?_⟩
      rw [shifted_of_le (by omega)]
      omega

/-- `b'` is `b` with `n` idle instructions before position `q` -/
structure Padded (b b' : Body) (q n : Nat) : Prop where
  positive : 0 < n
  within : q ≤ b.length
  length : b'.length = b.length + n
  kept : ∀ i x, b.instruction? i = some x →
    ∃ ls, b'.instruction? (shifted q n i) = some { x with labels := ls }
  idle : ∀ k, k < n → ∃ x, b'.instruction? (q + k) = some x ∧ x.opcode = .nop ∧ x.targets = []
  lands : ∀ l j, b.Attached l j → b'.Attached l (shifted q n j) ∨ (j = q ∧ b'.Attached l q)
  came : ∀ l j', b'.Attached l j' →
    ∃ j, b.Attached l j ∧ (j' = shifted q n j ∨ (j = q ∧ j' = q))

variable {b : Body} {pad : List Instruction} {q : Nat}

/-! ## insertion -/

theorem instruction?_insertAt_shifted (hq : q ≤ b.length) (i : Nat) :
    (b.insertAt q pad).instruction? (shifted q pad.length i) = b.instruction? i := by
  have hfront : (b.code.take q).length = q := List.length_take_of_le hq
  show (b.code.take q ++ pad ++ b.code.drop q)[shifted q pad.length i]? = b.code[i]?
  by_cases h : i < q
  · rw [shifted_of_lt h, List.append_assoc, List.getElem?_append_left (by omega),
      List.getElem?_take_of_lt h]
  · rw [shifted_of_le (by omega), List.getElem?_append_right
      (by rw [List.length_append]; omega), List.length_append, hfront, List.getElem?_drop]
    congr 1
    omega

theorem instruction?_insertAt_new (hq : q ≤ b.length) {k : Nat} (hk : k < pad.length) :
    (b.insertAt q pad).instruction? (q + k) = pad[k]? := by
  have hfront : (b.code.take q).length = q := List.length_take_of_le hq
  show (b.code.take q ++ pad ++ b.code.drop q)[q + k]? = pad[k]?
  rw [List.append_assoc, List.getElem?_append_right (by omega), hfront, Nat.add_sub_cancel_left,
    List.getElem?_append_left hk]

/-- **To insert idle instructions is to pad.** -/
theorem padded_insertAt (hpad : ∀ x ∈ pad, x.IsIdle) (hne : pad ≠ []) (hq : q ≤ b.length) :
    Padded b (b.insertAt q pad) q pad.length where
  positive := List.length_pos_iff.mpr hne
  within := hq
  length := b.length_insertAt q pad
  kept := fun i x hx => ⟨x.labels, (instruction?_insertAt_shifted hq i).trans hx⟩
  idle := by
    intro k hk
    have hidle := hpad _ (List.getElem_mem hk)
    refine ⟨pad[k], ?_, hidle.opcode, hidle.targets⟩
    rw [instruction?_insertAt_new hq hk]
    exact List.getElem?_eq_getElem hk
  lands := by
    rintro l j ⟨x, hx, hl⟩
    exact .inl ⟨x, (instruction?_insertAt_shifted hq j).trans hx, hl⟩
  came := by
    rintro l j' hatt
    have hlt := lt_length_of_attached hatt
    rw [length_insertAt] at hlt
    obtain ⟨x, hx, hl⟩ := hatt
    rcases exists_shifted hq hlt with ⟨i, -, rfl⟩ | ⟨k, hk, rfl⟩
    · rw [instruction?_insertAt_shifted hq] at hx
      exact ⟨i, ⟨x, hx, hl⟩, .inl rfl⟩
    · rw [instruction?_insertAt_new hq hk] at hx
      rw [(hpad x (List.mem_of_getElem? hx)).labels] at hl
      cases hl

/-! ## insertion that takes labels over -/

theorem length_modify_unlabeled (b : Body) (q : Nat) :
    ({ b with code := b.code.modify q unlabeled } : Body).length = b.length :=
  List.length_modify _ _ _

/-- to insert before a marked instruction is to take its labels away, and to insert code that
carries them -/
theorem code_insertLabeledAt {x : Instruction} (hx : b.instruction? q = some x) :
    (b.insertLabeledAt q pad).code =
      ({ b with code := b.code.modify q unlabeled }.insertAt q (inherit x.labels pad)).code := by
  obtain ⟨hlt, rfl⟩ := List.getElem?_eq_some_iff.mp hx
  have hdrop : b.code.drop q = b.code[q] :: b.code.drop (q + 1) := List.drop_eq_getElem_cons hlt
  unfold insertLabeledAt
  rw [hdrop]
  show b.code.take q ++ inherit b.code[q].labels pad ++ _ =
    (b.code.modify q unlabeled).take q ++ _ ++ (b.code.modify q unlabeled).drop q
  rw [List.modify_eq_take_cons_drop hlt, List.take_left' (List.length_take_of_le (by omega)),
    List.drop_left' (List.length_take_of_le (by omega))]

theorem instruction?_insertLabeledAt_shifted (pad : List Instruction) {x : Instruction}
    (hx : b.instruction? q = some x) (i : Nat) :
    (b.insertLabeledAt q pad).instruction? (shifted q pad.length i) =
      (b.instruction? i).map fun y => if i = q then y.unlabeled else y := by
  have hq : q < b.length := (List.getElem?_eq_some_iff.mp hx).1
  have hle := (length_modify_unlabeled b q).symm ▸ Nat.le_of_lt hq
  have hlen := length_inherit x.labels pad
  unfold instruction?
  rw [code_insertLabeledAt hx, ← hlen]
  refine (instruction?_insertAt_shifted hle i).trans ?_
  show (b.code.modify q unlabeled)[i]? = _
  rw [List.getElem?_modify]
  by_cases e : i = q
  · simp [e]
  · simp [e, Ne.symm e]

theorem instruction?_insertLabeledAt_new {x : Instruction} (hx : b.instruction? q = some x)
    {k : Nat} (hk : k < pad.length) :
    (b.insertLabeledAt q pad).instruction? (q + k) =
      pad[k]?.map fun y =>
        if k = 0 then { y with labels := Label.union y.labels x.labels } else y := by
  have hq : q < b.length := (List.getElem?_eq_some_iff.mp hx).1
  have hle := (length_modify_unlabeled b q).symm ▸ Nat.le_of_lt hq
  rw [← length_inherit x.labels pad] at hk
  unfold instruction?
  rw [code_insertLabeledAt hx]
  exact (instruction?_insertAt_new hle hk).trans (getElem?_inherit x.labels pad k)

theorem length_insertLabeledAt {x : Instruction} (hx : b.instruction? q = some x) :
    (b.insertLabeledAt q pad).length = b.length + pad.length := by
  show (b.insertLabeledAt q pad).code.length = _
  rw [code_insertLabeledAt hx]
  refine (length_insertAt _ _ _).trans ?_
  rw [length_inherit, length_modify_unlabeled]

/-- **To insert idle instructions that take labels over is to pad.** -/
theorem padded_insertLabeledAt (hpad : ∀ x ∈ pad, x.IsIdle) (hne : pad ≠ [])
    {x : Instruction} (hx : b.instruction? q = some x) :
    Padded b (b.insertLabeledAt q pad) q pad.length where
  positive := List.length_pos_iff.mpr hne
  within := Nat.le_of_lt (List.getElem?_eq_some_iff.mp hx).1
  length := length_insertLabeledAt hx
  kept := by
    intro i y hy
    rw [instruction?_insertLabeledAt_shifted pad hx, hy, Option.map_some]
    by_cases e : i = q
    · exact ⟨[], congrArg some (if_pos e)⟩
    · exact ⟨y.labels, congrArg some (if_neg e)⟩
  idle := by
    intro k hk
    have hidle := hpad _ (List.getElem_mem hk)
    rw [instruction?_insertLabeledAt_new hx hk, List.getElem?_eq_getElem hk, Option.map_some]
    refine ⟨_, rfl, ?_⟩
    split
    · exact ⟨hidle.opcode, hidle.targets⟩
    · exact ⟨hidle.opcode, hidle.targets⟩
  lands := by
    rintro l j ⟨y, hy, hl⟩
    by_cases e : j = q
    · have hpos := List.length_pos_iff.mpr hne
      have hfirst := instruction?_insertLabeledAt_new hx hpos
      rw [List.getElem?_eq_getElem hpos, Option.map_some, if_pos rfl] at hfirst
      rw [e, hx] at hy
      cases hy
      exact .inr ⟨e, _, hfirst, Label.mem_union.mpr (.inr hl)⟩
    · have hsame := instruction?_insertLabeledAt_shifted pad hx j
      rw [hy, Option.map_some, if_neg e] at hsame
      exact .inl ⟨y, hsame, hl⟩
  came := by
    rintro l j' hatt
    have hlt := lt_length_of_attached hatt
    rw [length_insertLabeledAt hx] at hlt
    obtain ⟨y, hy, hl⟩ := hatt
    rcases exists_shifted (Nat.le_of_lt (List.getElem?_eq_some_iff.mp hx).1) hlt with
      ⟨i, -, rfl⟩ | ⟨k, hk, rfl⟩
    · rw [instruction?_insertLabeledAt_shifted pad hx] at hy
      obtain ⟨z, hz, rfl⟩ := Option.map_eq_some_iff.mp hy
      by_cases e : i = q
      · rw [if_pos e] at hl
        cases hl
      · rw [if_neg e] at hl
        exact ⟨i, ⟨z, hz, hl⟩, .inl rfl⟩
    · rw [instruction?_insertLabeledAt_new hx hk] at hy
      obtain ⟨z, hz, rfl⟩ := Option.map_eq_some_iff.mp hy
      have hnone := (hpad z (List.mem_of_getElem? hz)).labels
      by_cases e : k = 0
      · rw [if_pos e] at hl
        rcases Label.mem_union.mp hl with hl | hl
        · rw [hnone] at hl
          cases hl
        · exact ⟨q, ⟨x, hx, hl⟩, .inr ⟨rfl, by omega⟩⟩
      · rw [if_neg e, hnone] at hl
        cases hl

end Body

end CilPatch
