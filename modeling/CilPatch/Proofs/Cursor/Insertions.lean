import CilPatch.Proofs.Code.Insertion
import CilPatch.Proofs.Cursor.Removal
import CilPatch.Proofs.Cursor.Tasks

/-!
# Insertions at the cursor

There are three ways to put new code at the cursor: before the current instruction, before it with
its labels, and behind it.  Each leaves the cursor where the next insertion of the same kind goes on
(`insertAs_insertAs`), so that two insertions in a row are one (`insertions_join`), and any number
of them is (`insertions_flatten`).

New code without labels can be removed again: then cursor and body are as they were
(`insertion_undone`), only that the body keeps away from the labels which the code referred to.
-/

namespace CilPatch

open Instruction

namespace Cursor

variable {c : Cursor} {p n : Nat}

/-! ## in a row -/

/-- an insertion, and another one where it leaves the cursor -/
theorem insertAs_insertAs (operation : String) {insert : Body → Nat → List Instruction → Body}
    {xs ys : List Instruction} (hp : c.position = some p) (h : c.body.Joins insert p)
    (hxs : xs ≠ []) (hys : ys ≠ []) :
    insertAs operation insert (insertAs operation insert c xs) ys =
      insertAs operation insert c (xs ++ ys) := by
  have hne : xs ++ ys ≠ [] := List.append_ne_nil_of_left_ne_nil hxs ys
  rw [insertAs_eq operation insert hp hxs, insertAs_eq operation insert rfl hys,
    insertAs_eq operation insert hp hne, List.length_append, ← Nat.add_assoc]
  show ({ c with body := insert (insert c.body p xs) (p + xs.length) ys,
                 position := some (p + xs.length + ys.length) } : Cursor) = _
  rw [h xs ys hxs]

/-- as many insertions as there are blocks, by induction on those behind the first -/
theorem foldl_insertAs (operation : String) {insert : Body → Nat → List Instruction → Body}
    {block : List Instruction} {blocks : List (List Instruction)} (hp : c.position = some p)
    (h : c.body.Joins insert p) (hne : ∀ code ∈ block :: blocks, code ≠ []) :
    (block :: blocks).foldl (insertAs operation insert) c =
      insertAs operation insert c (block :: blocks).flatten := by
  induction blocks generalizing block with
  | nil => rw [List.flatten_singleton, List.foldl_cons, List.foldl_nil]
  | cons next blocks ih =>
    obtain ⟨hblock, hne⟩ := List.forall_mem_cons.mp hne
    obtain ⟨hnext, hne⟩ := List.forall_mem_cons.mp hne
    have hjoined : block ++ next ≠ [] := List.append_ne_nil_of_left_ne_nil hblock next
    have hrest := ih (List.forall_mem_cons.mpr ⟨hjoined, hne⟩)
    rw [List.foldl_cons, List.flatten_cons] at hrest
    rw [List.foldl_cons, List.foldl_cons, insertAs_insertAs operation hp h hblock hnext, hrest,
      List.flatten_cons, List.flatten_cons, List.append_assoc]

/-! ## taken back -/

/-- a removal of code that leaves nothing to be said of labels -/
theorem deleteMany_of_retracts {b : Body} (hp : c.position = some p) (hn : 0 < n)
    (h : c.body.Retracts p n b) : c.deleteMany n = ({ c with body := b }).settle p := by
  refine (removeAs_eq "delete_n" [] hp hn h.inside).trans ?_
  have hmoved : movedWarning "delete_n" p (allLabels (c.body.window p n).tail) = [] := by
    rw [h.inner]
    rfl
  have hdropped : (if (c.body.tailAfter p n []).isEmpty then
      droppedWarning "delete_n" (allLabels (c.body.window p n)) else []) = [] := by
    split
    · next hend =>
      rw [h.last (List.isEmpty_iff.mp hend)]
      rfl
    · rfl
  unfold substitute
  dsimp only
  rw [hmoved, hdropped, h.restored, List.append_nil, List.append_nil]

/-- the cursor goes to the start of the new code and removes it -/
theorem deleteMany_seek_insertAs (operation : String)
    {insert : Body → Nat → List Instruction → Body} {code : List Instruction} {q : Nat} {b : Body}
    (hp : c.position = some p) (hne : code ≠ [])
    (h : (insert c.body p code).Retracts q code.length b) :
    ((insertAs operation insert c code).seek q).deleteMany code.length =
      ({ c with body := b }).settle q := by
  have hpos : 0 < code.length := List.length_pos_iff.mpr hne
  have hq : q < (insert c.body p code).length := Nat.lt_of_lt_of_le (by omega) h.inside
  have hseek : (insertAs operation insert c code).seek q =
      { c with body := insert c.body p code, position := some q } := by
    rw [insertAs_eq operation insert hp hne]
    exact if_pos hq
  rw [hseek, deleteMany_of_retracts rfl hpos h]
  rfl

theorem settle_of_position (hp : c.position = some p) (h : p < c.length) : c.settle p = c := by
  unfold settle
  rw [if_pos h, ← hp]

end Cursor

open Cursor

section
variable {c : Cursor} {p : Nat}

/-- **Two insertions are one.**  The second goes on where the first leaves the cursor, so that new
code stands in the order in which it came; of two insertions that take labels over only the first
finds any. -/
theorem insertions_join (hp : c.position = some p) (h : p < c.length) {xs ys : List Instruction}
    (hxs : xs ≠ []) (hys : ys ≠ []) :
    (c.insertBefore xs).insertBefore ys = c.insertBefore (xs ++ ys) ∧
      (c.insertBeforeLabeled xs).insertBeforeLabeled ys = c.insertBeforeLabeled (xs ++ ys) ∧
      (c.insertAfter xs).insertAfter ys = c.insertAfter (xs ++ ys) := by
  have hx : c.body.instruction? p = some c.body.code[p] := List.getElem?_eq_getElem h
  refine ⟨?_, ?_, ?_⟩
  · exact insertAs_insertAs _ hp (Body.joins_insertAt (Nat.le_of_lt h)) hxs hys
  · exact insertAs_insertAs _ hp (Body.joins_insertLabeledAt hx) hxs hys
  · exact insertAs_insertAs _ hp (Body.joins_insertAt_behind h) hxs hys

/-- two blocks before a marked instruction, the first of them with a label of its own: the labels of
the instruction go behind it, and the second block gets none -/
theorem insertions_join_markedEnd :
    let c : Cursor := { body := markedEnd, position := some 1 }
    let xs : List Instruction := [{ opcode := .nop, labels := [⟨4⟩] }]
    let ys : List Instruction := [{ opcode := .br, operand := .label ⟨6⟩ }]
    1 < c.length ∧ xs ≠ [] ∧ ys ≠ [] ∧
      (c.insertBefore xs).insertBefore ys = c.insertBefore (xs ++ ys) ∧
      (c.insertBeforeLabeled xs).insertBeforeLabeled ys = c.insertBeforeLabeled (xs ++ ys) ∧
      (c.insertAfter xs).insertAfter ys = c.insertAfter (xs ++ ys) ∧
      (c.insertBeforeLabeled (xs ++ ys)).body =
        { code :=
            [{ opcode := .br, operand := .label ⟨1⟩ },
             { opcode := .nop, labels := [⟨4⟩, ⟨0⟩] },
             { opcode := .br, operand := .label ⟨6⟩ },
             { opcode := .nop },
             { opcode := .ret, labels := [⟨1⟩] }]
          nextLabel := 7 } ∧
      (c.insertBeforeLabeled (xs ++ ys)).position = some 3 := by
  intro c xs ys
  have hlt : 1 < c.length := by decide
  have hxs : xs ≠ [] := List.cons_ne_nil _ _
  have hys : ys ≠ [] := List.cons_ne_nil _ _
  obtain ⟨hbefore, hlabeled, hafter⟩ := insertions_join (c := c) rfl hlt hxs hys
  exact ⟨hlt, hxs, hys, hbefore, hlabeled, hafter, by decide, rfl⟩

/-- any number of insertions is one insertion of all that they insert -/
theorem insertions_flatten (hp : c.position = some p) (h : p < c.length)
    {blocks : List (List Instruction)} (hblocks : blocks ≠ []) (hne : ∀ code ∈ blocks, code ≠ []) :
    blocks.foldl insertBefore c = c.insertBefore blocks.flatten ∧
      blocks.foldl insertBeforeLabeled c = c.insertBeforeLabeled blocks.flatten ∧
      blocks.foldl insertAfter c = c.insertAfter blocks.flatten := by
  obtain ⟨block, blocks, rfl⟩ := List.exists_cons_of_ne_nil hblocks
  have hx : c.body.instruction? p = some c.body.code[p] := List.getElem?_eq_getElem h
  refine ⟨?_, ?_, ?_⟩
  · exact foldl_insertAs _ hp (Body.joins_insertAt (Nat.le_of_lt h)) hne
  · exact foldl_insertAs _ hp (Body.joins_insertLabeledAt hx) hne
  · exact foldl_insertAs _ hp (Body.joins_insertAt_behind h) hne

end

/-- **What was inserted can be deleted again.**  Then everything is as it was, the labels of the
current instruction included, even if they went to the new code and had to come back; only the
labels that the new code refers to stay reserved.  Behind the last instruction there is nothing to
point at any more. -/
theorem insertion_undone {c : Cursor} {p : Nat} {x : Instruction} (hp : c.position = some p)
    (hx : c.body.instruction? p = some x) (hl : x.labels.Nodup) {code : List Instruction}
    (hne : code ≠ []) (hc : Unlabeled code) :
    ((c.insertBefore code).seek p).deleteMany code.length = { c with body := c.body.reserve code } ∧
      ((c.insertBeforeLabeled code).seek p).deleteMany code.length =
        { c with body := c.body.reserve code } ∧
      ((c.insertAfter code).seek (p + 1)).deleteMany code.length =
        { c with
          body := c.body.reserve code
          position := if p + 1 < c.length then some (p + 1) else none } := by
  have h : p < c.length := (List.getElem?_eq_some_iff.mp hx).1
  have hstay : ({ c with body := c.body.reserve code }).settle p =
      { c with body := c.body.reserve code } :=
    settle_of_position (c := { c with body := c.body.reserve code }) hp h
  refine ⟨?_, ?_, ?_⟩
  · exact (deleteMany_seek_insertAs _ hp hne
      (Body.retracts_insertAt (Nat.le_of_lt h) hc)).trans hstay
  · exact (deleteMany_seek_insertAs _ hp hne
      (Body.retracts_insertLabeledAt hx hl hne hc)).trans hstay
  · exact deleteMany_seek_insertAs _ hp hne (Body.retracts_insertAt h hc)

/-- the last instruction, which two labels mark, and a jump that is inserted at each side of it -/
def markedTwice : Body := .ofCode [{ opcode := .nop }, { opcode := .ret, labels := [⟨1⟩, ⟨0⟩] }]

/-- The jump takes both labels over and gives them back in their order; behind the last instruction
it leaves the cursor without a place. -/
theorem insertion_undone_markedTwice :
    let c : Cursor := { body := markedTwice, position := some 1 }
    let x : Instruction := { opcode := .ret, labels := [⟨1⟩, ⟨0⟩] }
    let jump : List Instruction := [{ opcode := .br, operand := .label ⟨5⟩ }]
    c.body.instruction? 1 = some x ∧ x.labels.Nodup ∧ jump ≠ [] ∧ Unlabeled jump ∧
      (c.insertBeforeLabeled jump).body.instruction? 2 = some x.unlabeled ∧
      ((c.insertBefore jump).seek 1).deleteMany 1 = { c with body := c.body.reserve jump } ∧
      ((c.insertBeforeLabeled jump).seek 1).deleteMany 1 = { c with body := c.body.reserve jump } ∧
      ((c.insertAfter jump).seek 2).deleteMany 1 =
        { c with body := c.body.reserve jump, position := none } ∧
      c.body.reserve jump = { markedTwice with nextLabel := 6 } := by
  intro c x jump
  have hx : c.body.instruction? 1 = some x := rfl
  have hl : x.labels.Nodup := by decide
  have hne : jump ≠ [] := List.cons_ne_nil _ _
  have hc : Unlabeled jump := List.forall_mem_singleton.mpr rfl
  obtain ⟨hbefore, hlabeled, hafter⟩ := insertion_undone (c := c) rfl hx hl hne hc
  exact ⟨hx, hl, hne, hc, rfl, hbefore, hlabeled, hafter, rfl⟩

end CilPatch
