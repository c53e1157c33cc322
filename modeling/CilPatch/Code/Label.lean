import CilPatch.Text.Term
import CilPatch.Text.Digits

/-!
# Labels

A label is a number that marks the places of a body that control may jump to.  What it marks is
said by the body: the instructions carry the lists of their labels.
-/

namespace CilPatch

open CilPatch.Text

structure Label where
  id : Nat
deriving DecidableEq

namespace Label

def text (l : Label) : String := "L_" ++ decimal4 l.id

def term (l : Label) : String := Term.applied "Label" [decimal l.id]

/-- labels in a row, as warnings name them -/
def listText (ls : List Label) : String := Term.commas (ls.map text)

/-- `extra` behind `held`, without those that are there already -/
def union (held extra : List Label) : List Label :=
  extra.foldl (fun ls l => if ls.contains l then ls else ls ++ [l]) held

theorem union_nil (held : List Label) : union held [] = held := rfl

theorem union_cons (held : List Label) (l : Label) (extra : List Label) :
    union held (l :: extra) = union (if l ∈ held then held else held ++ [l]) extra := by
  simp [union]

theorem mem_union {held extra : List Label} {l : Label} :
    l ∈ union held extra ↔ l ∈ held ∨ l ∈ extra := by
  induction extra generalizing held with
  | nil => simp [union_nil]
  | cons x extra ih =>
    rw [union_cons, ih, List.mem_cons]
    by_cases hx : x ∈ held
    · rw [if_pos hx]
      constructor
      · rintro (h | h)
        · exact .inl h
        · exact .inr (.inr h)
      · rintro (h | h | h)
        · exact .inl h
        · exact .inl (h ▸ hx)
        · exact .inr h
    · rw [if_neg hx, List.mem_append, List.mem_singleton, or_assoc]

theorem nodup_union {held extra : List Label} (h : held.Nodup) : (union held extra).Nodup := by
  induction extra generalizing held with
  | nil => exact h
  | cons x extra ih =>
    rw [union_cons]
    by_cases hx : x ∈ held
    · rw [if_pos hx]
      exact ih h
    · rw [if_neg hx]
      refine ih (List.nodup_append.mpr ⟨h, by simp, ?_⟩)
      intro a ha b hb e
      rw [List.mem_singleton.mp hb] at e
      exact hx (e ▸ ha)

end Label

/-- the text of a position in a body -/
def positionText (i : Nat) : String := "IL_" ++ hex4 i

end CilPatch
