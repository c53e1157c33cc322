import CilPatch.Cursor.Edit
import CilPatch.Proofs.Code.Removal

/-!
# What a removal at the cursor does

A stretch of code from the cursor on is replaced by another one, which may be empty; to delete is
the case in which it is.  `Exchanges` says everything that comes of it: the code, where the labels
lead, the warnings in their order and the place of the cursor (`stretch_exchanged`).
-/

namespace CilPatch

namespace Cursor

open Instruction

/-- `c'` is `c` with `code` in the place of the `n` instructions from `p` on.

The instruction that then stands at `p` has got the labels that went, if one does stand there; if
none does, they are gone, and a warning names them.  A warning before that one names those from
inside the stretch. -/
structure Exchanges (operation : String) (p n : Nat) (code : List Instruction) (c c' : Cursor) :
    Prop where
  code_eq : c'.body.code =
    (c.body.code.take p ++ code ++ c.body.code.drop (p + n)).modify p
      (receive (allLabels (c.body.window p n)))
  regions_eq : c'.body.regions = c.body.regions
  resolve_eq : c.body.LabelsUnique → Unlabeled code → ∀ l j, c.body.Attached l j →
    c'.body.resolve l =
      if j < p then some j
      else if j < p + n then (if p < c'.length then some p else none)
      else some (j - n + code.length)
  warnings_eq :
    let inner := allLabels (c.body.window p n).tail
    let all := allLabels (c.body.window p n)
    c'.warnings = c.warnings ++
      (if inner = [] then [] else [⟨operation, .moved inner p⟩]) ++
        (if all = [] ∨ p < c'.length then [] else [⟨operation, .dropped all⟩])
  position_eq : c'.position = if p < c'.length then some p else none
  verifier_eq : c'.verifier = c.verifier

variable {c : Cursor} {p n : Nat}

theorem exchanges_substitute (operation : String) (code : List Instruction)
    (h : p + n ≤ c.length) :
    Exchanges operation p n code c ((substitute operation c p n code).settle p) where
  code_eq := Body.code_substitute (b := c.body) (show p ≤ c.length by omega)
  regions_eq := rfl
  resolve_eq hu hc _ _ hl := Body.resolve_substitute hu hc h hl
  warnings_eq := by
    intro inner all
    show c.warnings ++ movedWarning operation p inner ++
      (if (c.body.tailAfter p n code).isEmpty then droppedWarning operation all else []) = _
    have hmoved : movedWarning operation p inner =
        if inner = [] then [] else [⟨operation, .moved inner p⟩] := by
      unfold movedWarning
      simp only [List.isEmpty_iff]
    have hdropped : (if (c.body.tailAfter p n code).isEmpty then droppedWarning operation all
        else []) = if all = [] ∨ p < (c.body.substitute p n code).length then []
          else [⟨operation, .dropped all⟩] := by
      unfold droppedWarning
      simp only [List.isEmpty_iff, Body.tailAfter_eq_nil_iff (b := c.body) h]
      by_cases h1 : p < (c.body.substitute p n code).length
      · rw [if_neg (Nat.not_le.mpr h1), if_pos (.inr h1)]
      · rw [if_pos (Nat.le_of_not_lt h1)]
        simp only [h1, or_false]
    rw [hmoved, hdropped]
    rfl
  position_eq := rfl
  verifier_eq := rfl

theorem removeAs_eq (operation : String) (code : List Instruction) (hp : c.position = some p)
    (hn : 0 < n) (h : p + n ≤ c.length) :
    removeAs operation c n code = (substitute operation c p n code).settle p := by
  unfold removeAs
  rw [hp]
  show (if n = 0 then _ else if c.length < p + n then _ else _ : Cursor) = _
  rw [if_neg (Nat.ne_of_gt hn), if_neg (Nat.not_lt.mpr h)]

theorem exchanges_removeAs (operation : String) (code : List Instruction)
    (hp : c.position = some p) (hn : 0 < n) (h : p + n ≤ c.length) :
    Exchanges operation p n code c (removeAs operation c n code) := by
  rw [removeAs_eq operation code hp hn h]
  exact exchanges_substitute operation code h

end Cursor

open Cursor

/-- **One stretch goes and another one comes in its place.**  From an instruction on, as many as
there are may be replaced or deleted; this is everything that then happens. -/
theorem stretch_exchanged {c : Cursor} {p n : Nat} (hp : c.position = some p) (hn : 0 < n)
    (h : p + n ≤ c.length) :
    (∀ code, Exchanges "replace_sequence" p n code c (c.replaceMany n code)) ∧
      Exchanges "delete_n" p n [] c (c.deleteMany n) ∧
        Exchanges "delete" p 1 [] c c.delete := by
  refine ⟨fun code => ?_, ?_, ?_⟩
  · exact exchanges_removeAs _ code hp hn h
  · exact exchanges_removeAs _ [] hp hn h
  · exact exchanges_removeAs _ [] hp Nat.one_pos (by omega)

/-- two marked instructions, the second of them the last one -/
def markedEnd : Body := .ofCode
  [{ opcode := .br, operand := .label ⟨1⟩ },
   { opcode := .nop, labels := [⟨0⟩] },
   { opcode := .ret, labels := [⟨1⟩] }]

/-- Both go.  Replaced by one instruction, they leave their labels to it; deleted, they take them
along. -/
theorem stretch_exchanged_markedEnd :
    let c : Cursor := { body := markedEnd, position := some 1 }
    0 < 2 ∧ 1 + 2 ≤ c.length ∧ markedEnd.LabelsUnique ∧
      Exchanges "replace_sequence" 1 2 [{ opcode := .ret }] c
        (c.replaceMany 2 [{ opcode := .ret }]) ∧
      (c.replaceMany 2 [{ opcode := .ret }]).body.resolve ⟨1⟩ = some 1 ∧
      Exchanges "delete_n" 1 2 [] c (c.deleteMany 2) ∧
      (c.deleteMany 2).body.resolve ⟨1⟩ = none ∧ (c.deleteMany 2).warnings =
        [⟨"delete_n", .moved [⟨1⟩] 1⟩, ⟨"delete_n", .dropped [⟨0⟩, ⟨1⟩]⟩] := by
  intro c
  have hend : 1 + 2 ≤ c.length := by decide
  have hu : markedEnd.LabelsUnique := by
    unfold Body.LabelsUnique
    decide
  obtain ⟨hreplace, hdelete, -⟩ := stretch_exchanged (c := c) rfl Nat.two_pos hend
  exact ⟨Nat.two_pos, hend, hu, hreplace _, by decide, hdelete, by decide, by decide⟩

end CilPatch
