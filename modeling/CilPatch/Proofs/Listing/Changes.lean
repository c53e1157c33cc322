import Mathlib.Order.Bounds.Defs
import Mathlib.Data.List.Infix
import CilPatch.Listing.Changes

/-!
# The difference of two bodies is a shortest one

A list of lines says how one text becomes another: without the lines that are added it is the old
text, and without those that are removed the new one.  The lines that stay are common to both, so
that the shortest such lists are those in which the most lines stay.

* `commonLength`            the length of a longest common subsequence, by the first lines;
* `suffixLengths_eq_table`  the table that is filled holds it for all suffixes of the two texts;
* `edits_ofTexts`           as many lines stay in the walk along the table.
-/

namespace CilPatch

namespace DiffLine

/-! ## lines -/

/-- the line without the sign before it -/
def content : DiffLine → String
  | same s | removed s | added s => s

def isSame : DiffLine → Bool
  | same _ => true
  | removed _ | added _ => false

def isRemoved : DiffLine → Bool
  | removed _ => true
  | same _ | added _ => false

def isAdded : DiffLine → Bool
  | added _ => true
  | same _ | removed _ => false

/-- the text before the changes -/
def oldTexts (lines : List DiffLine) : List String := (lines.filter (!·.isAdded)).map content

/-- the text behind the changes -/
def newTexts (lines : List DiffLine) : List String := (lines.filter (!·.isRemoved)).map content

/-- the lines turn `old` into `new`, and `n` of them stay -/
structure Edits (lines : List DiffLine) (old new : List String) (n : Nat) : Prop where
  oldTexts : oldTexts lines = old
  newTexts : newTexts lines = new
  kept : lines.countP isSame = n

namespace Edits

variable {lines : List DiffLine} {old new : List String} {n : Nat}

theorem nil : Edits [] [] [] 0 := ⟨rfl, rfl, rfl⟩

theorem same (h : Edits lines old new n) (x : String) :
    Edits (same x :: lines) (x :: old) (x :: new) (n + 1) where
  oldTexts := congrArg (x :: ·) h.oldTexts
  newTexts := congrArg (x :: ·) h.newTexts
  kept := by rw [List.countP_cons_of_pos rfl, h.kept]

theorem removed (h : Edits lines old new n) (x : String) :
    Edits (removed x :: lines) (x :: old) new n where
  oldTexts := congrArg (x :: ·) h.oldTexts
  newTexts := h.newTexts
  kept := by rw [List.countP_cons_of_neg Bool.false_ne_true, h.kept]

theorem added (h : Edits lines old new n) (y : String) :
    Edits (added y :: lines) old (y :: new) n where
  oldTexts := h.oldTexts
  newTexts := congrArg (y :: ·) h.newTexts
  kept := by rw [List.countP_cons_of_neg Bool.false_ne_true, h.kept]

/-- the lines that stay are a common subsequence -/
theorem exists_sublist (h : Edits lines old new n) :
    ∃ zs : List String, zs.Sublist old ∧ zs.Sublist new ∧ zs.length = n := by
  have hsub : ∀ p : DiffLine → Bool, (∀ s, p (.same s) = true) →
      ((lines.filter isSame).map content).Sublist ((lines.filter p).map content) := by
    intro p hp
    refine (List.monotone_filter_right lines fun l hl => ?_).map content
    cases l with
    | same s => exact hp s
    | removed | added => exact absurd hl Bool.false_ne_true
  refine ⟨(lines.filter isSame).map content, ?_, ?_, ?_⟩
  · rw [← h.oldTexts]
    exact hsub _ fun _ => rfl
  · rw [← h.newTexts]
    exact hsub _ fun _ => rfl
  · rw [List.length_map, ← List.countP_eq_length_filter, h.kept]

/-- a line that stays is in both texts, any other one in one of them -/
theorem changes (h : Edits lines old new n) :
    lines.countP isAdded + lines.countP isRemoved + 2 * n = old.length + new.length := by
  obtain ⟨rfl, rfl, rfl⟩ := h
  unfold DiffLine.oldTexts DiffLine.newTexts
  simp only [List.length_map, ← List.countP_eq_length_filter]
  induction lines with
  | nil => rfl
  | cons l lines ih =>
    have hline : (if l.isAdded = true then 1 else 0) + (if l.isRemoved = true then 1 else 0) +
        2 * (if l.isSame = true then 1 else 0) =
          (if (!l.isAdded) = true then 1 else 0) + if (!l.isRemoved) = true then 1 else 0 := by
      cases l <;> rfl
    simp only [List.countP_cons]
    omega

end Edits

/-! ## common subsequences -/

/-- the length of a longest common subsequence -/
def commonLength : List String → List String → Nat
  | [], _ => 0
  | _ :: _, [] => 0
  | x :: xs, y :: ys =>
    if x = y then commonLength xs ys + 1
    else max (commonLength xs (y :: ys)) (commonLength (x :: xs) ys)
termination_by old new => old.length + new.length

theorem commonLength_nil_left (new : List String) : commonLength [] new = 0 := by
  rw [commonLength]

theorem commonLength_nil_right (old : List String) : commonLength old [] = 0 := by
  cases old <;> rw [commonLength]

theorem commonLength_cons_self (x : String) (old new : List String) :
    commonLength (x :: old) (x :: new) = commonLength old new + 1 := by
  rw [commonLength, if_pos rfl]

theorem commonLength_cons_of_ne {x y : String} (h : x ≠ y) (old new : List String) :
    commonLength (x :: old) (y :: new) =
      max (commonLength old (y :: new)) (commonLength (x :: old) new) := by
  rw [commonLength, if_neg h]

/-- a common subsequence leaves out one of two first lines that differ -/
theorem sublist_or_sublist {x y : String} (h : x ≠ y) {zs old new : List String}
    (hold : zs.Sublist (x :: old)) (hnew : zs.Sublist (y :: new)) :
    zs.Sublist old ∨ zs.Sublist new := by
  rcases List.sublist_cons_iff.mp hold with hold | ⟨zs, rfl, -⟩
  · exact .inl hold
  · rcases List.sublist_cons_iff.mp hnew with hnew | ⟨_, hcons, -⟩
    · exact .inr hnew
    · exact absurd (List.cons.inj hcons).1 h

/-- **No common subsequence is longer.** -/
theorem length_le_commonLength {zs old new : List String} (hold : zs.Sublist old)
    (hnew : zs.Sublist new) : zs.length ≤ commonLength old new := by
  induction old, new using commonLength.induct generalizing zs with
  | case1 new =>
    rw [List.sublist_nil.mp hold]
    exact Nat.zero_le _
  | case2 x old =>
    rw [List.sublist_nil.mp hnew]
    exact Nat.zero_le _
  | case3 old x new ih =>
    have htail := ih hold.tail hnew.tail
    rw [List.length_tail] at htail
    rw [commonLength_cons_self]
    omega
  | case4 x old y new hne ih₁ ih₂ =>
    rw [commonLength_cons_of_ne hne]
    rcases sublist_or_sublist hne hold hnew with hold' | hnew'
    · exact (ih₁ hold' hnew).trans (Nat.le_max_left _ _)
    · exact (ih₂ hold hnew').trans (Nat.le_max_right _ _)

/-! ## the table -/

/-- row by row the length for each suffix of `old` against each suffix of `new` -/
def table (old new : List String) : List (List Nat) :=
  old.tails.map fun xs => new.tails.map (commonLength xs)

theorem headD_map_tails {β : Type} (f : List String → β) (xs : List String) (d : β) :
    (xs.tails.map f).headD d = f xs := by
  cases xs <;> rfl

theorem row_eq (x : String) (old new : List String) :
    row x new (new.tails.map (commonLength old)) = new.tails.map (commonLength (x :: old)) := by
  induction new with
  | nil =>
    show [0] = [commonLength (x :: old) []]
    rw [commonLength_nil_right]
  | cons y new ih =>
    rw [List.tails_cons, List.map_cons, List.map_cons, row]
    simp only [List.tail_cons, List.headD_cons, ih, headD_map_tails]
    congr 1
    split
    · next h => rw [← h, commonLength_cons_self]
    · next h => rw [commonLength_cons_of_ne h]

/-- **The table holds the lengths for all suffixes.** -/
theorem suffixLengths_eq_table (old new : List String) : suffixLengths new old = table old new := by
  unfold table
  induction old with
  | nil =>
    have hzero : new.tails.map (commonLength []) = List.replicate (new.length + 1) 0 := by
      refine List.eq_replicate_iff.mpr ⟨by rw [List.length_map, List.length_tails], ?_⟩
      intro n hn
      obtain ⟨ys, -, rfl⟩ := List.mem_map.mp hn
      exact commonLength_nil_left ys
    show [_] = [new.tails.map (commonLength [])]
    rw [hzero]
  | cons x old ih =>
    rw [suffixLengths, ih, List.tails_cons, List.map_cons, headD_map_tails, row_eq]

theorem tail_table (x : String) (old new : List String) :
    (table (x :: old) new).tail = table old new := rfl

theorem map_tail_table (y : String) (old new : List String) :
    (table old (y :: new)).map List.tail = table old new := by
  unfold table
  rw [List.map_map]
  rfl

theorem walk_table_of_ne {x y : String} (h : x ≠ y) (old new : List String) :
    walk (table (x :: old) (y :: new)) (x :: old) (y :: new) =
      if commonLength (x :: old) new ≤ commonLength old (y :: new) then
        removed x :: walk (table old (y :: new)) old (y :: new)
      else added y :: walk (table (x :: old) new) (x :: old) new := by
  rw [walk_cons_of_ne h, tail_table, map_tail_table]
  unfold table
  rw [headD_map_tails, headD_map_tails, List.tails_cons, List.map_cons, List.map_cons,
    List.tail_cons, headD_map_tails, List.headD_cons]

/-! ## the walk -/

theorem edits_map_removed (old : List String) : Edits (old.map removed) old [] 0 := by
  induction old with
  | nil => exact .nil
  | cons x old ih => exact ih.removed x

theorem edits_map_added (new : List String) : Edits (new.map added) [] new 0 := by
  induction new with
  | nil => exact .nil
  | cons y new ih => exact ih.added y

/-- **As many lines stay as can stay.**  At two lines that differ the walk goes where the longer
subsequence is; at two that are the same it loses nothing by keeping them. -/
theorem edits_walk (old new : List String) :
    Edits (walk (table old new) old new) old new (commonLength old new) := by
  induction old, new using commonLength.induct with
  | case1 new =>
    rw [walk_nil_left, commonLength_nil_left]
    exact edits_map_added new
  | case2 x old =>
    rw [walk_nil_right, commonLength_nil_right]
    exact edits_map_removed (x :: old)
  | case3 old x new ih =>
    rw [walk_cons_self, tail_table, map_tail_table, commonLength_cons_self]
    exact ih.same x
  | case4 x old y new hne ih₁ ih₂ =>
    rw [walk_table_of_ne hne, commonLength_cons_of_ne hne]
    split
    · next hle =>
      rw [Nat.max_eq_left hle]
      exact ih₁.removed x
    · next hlt =>
      rw [Nat.max_eq_right (Nat.le_of_not_le hlt)]
      exact ih₂.added y

/-- the lines of the walk are an edit of the one text into the other that keeps the most -/
theorem edits_ofTexts (old new : List String) :
    Edits (ofTexts old new) old new (commonLength old new) := by
  rw [ofTexts, suffixLengths_eq_table]
  exact edits_walk old new

end DiffLine

open DiffLine

/-- **The difference of two bodies is correct and shortest.**  Without the lines that are added it
is the text of the old body, and without those that are removed that of the new one.  The lines that
stay are as many as a longest common subsequence of the texts has, and no list of lines between the
same texts changes fewer. -/
theorem diff_shortest (before after : Body) :
    ((before.diff after).filter (!·.isAdded)).map content = before.codeTexts ∧
      ((before.diff after).filter (!·.isRemoved)).map content = after.codeTexts ∧
      IsGreatest {n | ∃ zs : List String, zs.Sublist before.codeTexts ∧
        zs.Sublist after.codeTexts ∧ zs.length = n} ((before.diff after).countP isSame) ∧
      ∀ lines : List DiffLine, (lines.filter (!·.isAdded)).map content = before.codeTexts →
        (lines.filter (!·.isRemoved)).map content = after.codeTexts →
          (before.diff after).countP isAdded + (before.diff after).countP isRemoved ≤
            lines.countP isAdded + lines.countP isRemoved := by
  have hdiff : Edits (before.diff after) before.codeTexts after.codeTexts
      (commonLength before.codeTexts after.codeTexts) := edits_ofTexts _ _
  refine ⟨hdiff.oldTexts, hdiff.newTexts, ?_, fun lines hold hnew => ?_⟩
  · rw [hdiff.kept]
    refine ⟨hdiff.exists_sublist, ?_⟩
    rintro n ⟨zs, hold, hnew, rfl⟩
    exact length_le_commonLength hold hnew
  · have hlines : Edits lines before.codeTexts after.codeTexts (lines.countP isSame) :=
      ⟨hold, hnew, rfl⟩
    obtain ⟨zs, hzs, hzs', hlength⟩ := hlines.exists_sublist
    have hle := length_le_commonLength hzs hzs'
    have hcount := hdiff.changes
    have hcount' := hlines.changes
    omega

end CilPatch
