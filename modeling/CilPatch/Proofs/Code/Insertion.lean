import CilPatch.Proofs.Code.Splice

/-!
# Insertions in a row, and insertions taken back

A body is cut where code comes in, and every change is read off the pieces: what stands in front,
the new code and what stands behind (`insertAt_cut`, `insertLabeledAt_cut`, `substitute_cut`).

* `Joins`      two insertions, the second right behind the first, are one;
* `Retracts`   a stretch can be removed again without a word about labels, as new code without
               labels can.
-/

namespace CilPatch

/-! ## reserved labels -/

/-- a ceiling over some labels is a ceiling over the rest, or the one it started from -/
theorem foldl_ceiling (ls : List Label) (n : Nat) :
    ls.foldl (fun k l => max k (l.id + 1)) n =
      max n (ls.foldl (fun k l => max k (l.id + 1)) 0) := by
  induction ls generalizing n with
  | nil => exact (Nat.max_zero n).symm
  | cons l ls ih =>
    rw [List.foldl_cons, List.foldl_cons, ih (max n (l.id + 1)), ih (max 0 (l.id + 1)),
      Nat.zero_max, Nat.max_assoc]

theorem labelCeiling_append (code code' : List Instruction) :
    labelCeiling (code ++ code') = max (labelCeiling code) (labelCeiling code') := by
  unfold labelCeiling
  rw [List.flatMap_append, List.foldl_append, foldl_ceiling]

namespace Body

open Instruction

theorem reserve_nil (b : Body) : b.reserve [] = b := by
  unfold reserve
  rw [show labelCeiling [] = 0 from rfl, Nat.max_zero]

theorem reserve_reserve (b : Body) (xs ys : List Instruction) :
    (b.reserve xs).reserve ys = b.reserve (xs ++ ys) := by
  unfold reserve
  rw [labelCeiling_append, ← Nat.max_assoc]

/-! ## cuts -/

section
variable {b : Body} {front window back code : List Instruction} {x : Instruction}

theorem exists_cut {p : Nat} (h : p ≤ b.length) :
    ∃ front back, b.code = front ++ back ∧ front.length = p :=
  ⟨b.code.take p, b.code.drop p, (List.take_append_drop p b.code).symm, List.length_take_of_le h⟩

theorem exists_cut_at {p : Nat} (h : b.instruction? p = some x) :
    ∃ front back, b.code = front ++ x :: back ∧ front.length = p := by
  obtain ⟨hlt, rfl⟩ := List.getElem?_eq_some_iff.mp h
  refine ⟨b.code.take p, b.code.drop (p + 1), ?_, List.length_take_of_le (Nat.le_of_lt hlt)⟩
  rw [← List.drop_eq_getElem_cons hlt, List.take_append_drop]

theorem insertAt_cut (h : b.code = front ++ back) (code : List Instruction) :
    b.insertAt front.length code = { b.reserve code with code := front ++ code ++ back } := by
  unfold insertAt
  rw [h, List.take_left, List.drop_left]

theorem insertLabeledAt_cut (h : b.code = front ++ x :: back) (code : List Instruction) :
    b.insertLabeledAt front.length code =
      { b.reserve code with
        code := front ++ inherit x.labels code ++ x.unlabeled :: back } := by
  unfold insertLabeledAt
  rw [h, List.take_left, List.drop_left]

theorem window_cut (h : b.code = front ++ window ++ back) :
    b.window front.length window.length = window := by
  unfold Body.window
  rw [h, List.append_assoc, List.drop_left, List.take_left]

theorem tailAfter_cut (h : b.code = front ++ window ++ back) (code : List Instruction) :
    b.tailAfter front.length window.length code = code ++ back := by
  unfold tailAfter
  rw [h, ← List.length_append, List.drop_left]

theorem substitute_cut (h : b.code = front ++ window ++ back) (code : List Instruction) :
    b.substitute front.length window.length code =
      { b.reserve code with code := front ++ inherit (allLabels window) (code ++ back) } := by
  unfold substitute
  rw [window_cut h, tailAfter_cut h, h, List.append_assoc, List.take_left]

end

/-! ## insertions in a row -/

variable {b : Body} {p : Nat} {xs ys code : List Instruction} {x : Instruction}

theorem insertAt_insertAt (h : p ≤ b.length) (xs ys : List Instruction) :
    (b.insertAt p xs).insertAt (p + xs.length) ys = b.insertAt p (xs ++ ys) := by
  obtain ⟨front, back, hb, rfl⟩ := exists_cut h
  have hcut : ({ b.reserve xs with code := front ++ xs ++ back } : Body).code =
      (front ++ xs) ++ back := rfl
  rw [insertAt_cut hb, insertAt_cut hb, ← List.length_append, insertAt_cut hcut,
    ← reserve_reserve, ← List.append_assoc]
  rfl

theorem inherit_append (labels : List Label) (hne : xs ≠ []) (ys : List Instruction) :
    inherit labels (xs ++ ys) = inherit labels xs ++ ys := by
  cases xs with
  | nil => exact absurd rfl hne
  | cons x xs => rfl

/-- at `p`, two insertions, the second right behind what the first one inserted, are one -/
def Joins (insert : Body → Nat → List Instruction → Body) (b : Body) (p : Nat) : Prop :=
  ∀ xs ys, xs ≠ [] → insert (insert b p xs) (p + xs.length) ys = insert b p (xs ++ ys)

theorem joins_insertAt (h : p ≤ b.length) : b.Joins insertAt p :=
  fun xs ys _ => insertAt_insertAt h xs ys

theorem joins_insertAt_behind (h : p < b.length) :
    b.Joins (fun b p code => b.insertAt (p + 1) code) p := by
  intro xs ys _
  show (b.insertAt (p + 1) xs).insertAt (p + xs.length + 1) ys = _
  rw [Nat.add_right_comm]
  exact insertAt_insertAt h xs ys

/-- only the first of two insertions finds labels to take over -/
theorem joins_insertLabeledAt (hx : b.instruction? p = some x) : b.Joins insertLabeledAt p := by
  intro xs ys hne
  obtain ⟨front, back, hb, rfl⟩ := exists_cut_at hx
  have hcut : ({ b.reserve xs with
      code := front ++ inherit x.labels xs ++ x.unlabeled :: back } : Body).code =
      (front ++ inherit x.labels xs) ++ x.unlabeled :: back := rfl
  have hlen : front.length + xs.length = (front ++ inherit x.labels xs).length := by
    rw [List.length_append, length_inherit]
  rw [insertLabeledAt_cut hb, insertLabeledAt_cut hb, hlen, insertLabeledAt_cut hcut,
    ← reserve_reserve, inherit_append _ hne, ← List.append_assoc]
  show ({ (b.reserve xs).reserve ys with
    code := _ ++ inherit [] ys ++ x.unlabeled :: _ } : Body) = _
  rw [inherit_nil]

/-! ## insertions taken back -/

/-- Removed from `b'`, the `n` instructions from `p` on leave `b`.  None behind the first carries a
label, and where nothing follows the first one carries none either, so that there is nothing to be
said of labels. -/
structure Retracts (b' : Body) (p n : Nat) (b : Body) : Prop where
  inside : p + n ≤ b'.length
  restored : b'.substitute p n [] = b
  inner : allLabels (b'.window p n).tail = []
  last : b'.tailAfter p n [] = [] → allLabels (b'.window p n) = []

theorem retracts_insertAt (h : p ≤ b.length) (hc : Unlabeled code) :
    (b.insertAt p code).Retracts p code.length (b.reserve code) := by
  obtain ⟨front, back, hb, rfl⟩ := exists_cut h
  have hcut : (b.insertAt front.length code).code = front ++ code ++ back := by
    rw [insertAt_cut hb]
  have hlabels : allLabels code = [] := allLabels_of_unlabeled hc
  refine ⟨?_, ?_, ?_, fun _ => ?_⟩
  · rw [length_insertAt]
    exact Nat.add_le_add_right h _
  · rw [substitute_cut hcut, hlabels, inherit_nil, reserve_nil, insertAt_cut hb]
    show ({ b.reserve code with code := front ++ back } : Body) = _
    rw [← hb]
    rfl
  · rw [window_cut hcut]
    exact allLabels_of_unlabeled fun y hy => hc y (List.mem_of_mem_tail hy)
  · rw [window_cut hcut, hlabels]

/-- The labels go to the new code and come back in their order, since each of them is there once. -/
theorem retracts_insertLabeledAt (hx : b.instruction? p = some x) (hl : x.labels.Nodup)
    (hne : code ≠ []) (hc : Unlabeled code) :
    (b.insertLabeledAt p code).Retracts p code.length (b.reserve code) := by
  obtain ⟨front, back, hb, rfl⟩ := exists_cut_at hx
  obtain ⟨y, rest, rfl⟩ := List.exists_cons_of_ne_nil hne
  have hcut : (b.insertLabeledAt front.length (y :: rest)).code =
      front ++ inherit x.labels (y :: rest) ++ x.unlabeled :: back := by
    rw [insertLabeledAt_cut hb]
  have hy : y.labels = [] := hc y List.mem_cons_self
  have hrest : allLabels rest = [] :=
    allLabels_of_unlabeled fun z hz => hc z (List.mem_cons_of_mem _ hz)
  have hnodup : (y.labels ++ x.labels).Nodup := by rwa [hy]
  have hlabels : allLabels (inherit x.labels (y :: rest)) = x.labels := by
    rw [allLabels_inherit hnodup, hy, hrest, List.nil_append, List.append_nil]
  have hback : inherit x.labels (x.unlabeled :: back) = x :: back := by
    show { x with labels := Label.union [] x.labels } :: back = _
    rw [Label.union_eq_append (by simpa using hl)]
    rfl
  have hlen := length_inherit x.labels (y :: rest)
  refine ⟨?_, ?_, ?_, fun hend => ?_⟩
  · show _ ≤ (b.insertLabeledAt front.length (y :: rest)).code.length
    rw [hcut, ← hlen]
    simp only [List.length_append]
    exact Nat.le_add_right _ _
  · rw [← hlen, substitute_cut hcut, hlabels, List.nil_append, hback, reserve_nil,
      insertLabeledAt_cut hb]
    show ({ b.reserve (y :: rest) with code := front ++ x :: back } : Body) = _
    rw [← hb]
    rfl
  · rw [← hlen, window_cut hcut]
    exact hrest
  · rw [← hlen, tailAfter_cut hcut] at hend
    cases hend

end Body

end CilPatch
