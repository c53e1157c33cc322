import CilPatch.Proofs.Code.Padding

/-!
# Places inside a body

The operations on a body once more, carried out place by place.  What a list offers for that gives
nothing when it is asked for a place that is not there:

* `slice?`, `splice?`   the elements of a range, and other elements put in their place;
* `update?`             one element for another.

An operation that is put together from these (`insertAt?`, `substitute?`, ...) gives what the
operation on the body gives wherever the place that it starts from is inside the body.
-/

namespace CilPatch

/-! ## lists -/

section
variable {α : Type} {xs : List α} {p q : Nat}

/-- the elements from `p` up to `q` -/
def slice? (xs : List α) (p q : Nat) : Option (List α) :=
  if p ≤ q ∧ q ≤ xs.length then some ((xs.drop p).take (q - p)) else none

/-- `new` in the place of the elements from `p` up to `q` -/
def splice? (xs : List α) (p q : Nat) (new : List α) : Option (List α) :=
  if p ≤ q ∧ q ≤ xs.length then some (xs.take p ++ new ++ xs.drop q) else none

/-- the element at `p` changed by `f` -/
def update? (xs : List α) (p : Nat) (f : α → α) : Option (List α) :=
  if p < xs.length then some (xs.modify p f) else none

theorem slice?_eq (hp : p ≤ q) (hq : q ≤ xs.length) :
    slice? xs p q = some ((xs.drop p).take (q - p)) := if_pos ⟨hp, hq⟩

theorem splice?_eq (new : List α) (hp : p ≤ q) (hq : q ≤ xs.length) :
    splice? xs p q new = some (xs.take p ++ new ++ xs.drop q) := if_pos ⟨hp, hq⟩

theorem update?_eq (f : α → α) (hp : p < xs.length) : update? xs p f = some (xs.modify p f) :=
  if_pos hp

end

namespace Instruction

/-- the labels join those that the instruction carries -/
def gain (labels : List Label) (x : Instruction) : Instruction :=
  { x with labels := Label.union x.labels labels }

/-- what is inherited comes to the first instruction behind the `front`, if there is one -/
theorem modify_gain (labels : List Label) (front code : List Instruction) :
    (front ++ code).modify front.length (gain labels) = front ++ inherit labels code := by
  induction front with
  | nil => cases code <;> rfl
  | cons x front ih => exact congrArg (x :: ·) ih

end Instruction

namespace Body

open Instruction

variable {b : Body} {p n : Nat} {code : List Instruction}

/-! ## insertion -/

def insertAt? (b : Body) (p : Nat) (code : List Instruction) : Option Body := do
  let all ← splice? b.code p p code
  return { b.reserve code with code := all }

/-- the labels of the instruction at `p` are taken away and given to the first new one -/
def insertLabeledAt? (b : Body) (p : Nat) (code : List Instruction) : Option Body := do
  let x ← b.code[p]?
  let rest ← update? b.code p unlabeled
  let new ← update? code 0 (gain x.labels)
  let all ← splice? rest p p new
  return { b.reserve code with code := all }

theorem insertAt?_eq (h : p ≤ b.length) : b.insertAt? p code = some (b.insertAt p code) := by
  unfold insertAt?
  rw [splice?_eq code (Nat.le_refl p) h]
  rfl

/-- besides the code, only the new labels are reserved -/
theorem insertLabeledAt_eq (b : Body) (p : Nat) (code : List Instruction) :
    b.insertLabeledAt p code =
      { b.reserve code with code := (b.insertLabeledAt p code).code } := by
  unfold insertLabeledAt
  split <;> rfl

theorem insertLabeledAt?_eq (h : p < b.length) (hne : code ≠ []) :
    b.insertLabeledAt? p code = some (b.insertLabeledAt p code) := by
  obtain ⟨x, hx⟩ : ∃ x, b.instruction? p = some x := ⟨_, List.getElem?_eq_getElem h⟩
  have hlen : p ≤ (b.code.modify p unlabeled).length := by
    rw [List.length_modify]
    exact Nat.le_of_lt h
  have hnew : code.modify 0 (gain x.labels) = inherit x.labels code := modify_gain _ [] code
  have hcode : (b.insertLabeledAt p code).code = _ := code_insertLabeledAt hx
  unfold insertLabeledAt?
  rw [show b.code[p]? = some x from hx]
  simp only [Option.bind_eq_bind, Option.bind_some, update?_eq unlabeled h,
    update?_eq (gain x.labels) (List.length_pos_iff.mpr hne), hnew,
    splice?_eq _ (Nat.le_refl p) hlen]
  rw [insertLabeledAt_eq b p code, hcode]
  rfl

/-! ## replacement and removal -/

def replaceAt? (b : Body) (p : Nat) (x : Instruction) : Option Body := do
  let all ← update? b.code p (·.takePlace x)
  return { b.reserve [x] with code := all }

/-- the labels of the removed stretch, if it had any, go to what stands at its start now, if
anything does -/
def substitute? (b : Body) (p n : Nat) (code : List Instruction) : Option Body := do
  let removed ← slice? b.code p (p + n)
  let all ← splice? b.code p (p + n) code
  let labels := allLabels removed
  if labels.isEmpty ∨ all.length ≤ p then return { b.reserve code with code := all }
  let all ← update? all p (gain labels)
  return { b.reserve code with code := all }

def overlayAt? (b : Body) (p n : Nat) (code : List Instruction) : Option Body := do
  let window ← slice? b.code p (p + n)
  let all ← splice? b.code p (p + n) (overlay window code)
  return { b.reserve code with code := all }

theorem replaceAt?_eq (x : Instruction) (h : p < b.length) :
    b.replaceAt? p x = some (b.replaceAt p x) := by
  unfold replaceAt?
  rw [update?_eq _ h]
  rfl

theorem slice?_window (h : p + n ≤ b.length) :
    slice? b.code p (p + n) = some (b.window p n) := by
  rw [slice?_eq (Nat.le_add_right p n) h, Nat.add_sub_cancel_left]
  rfl

theorem overlayAt?_eq (h : p + n ≤ b.length) :
    b.overlayAt? p n code = some (b.overlayAt p n code) := by
  unfold overlayAt?
  rw [slice?_window h]
  show Option.bind (splice? b.code p (p + n) _) _ = _
  rw [splice?_eq _ (Nat.le_add_right p n) h]
  rfl

theorem substitute?_eq (h : p + n ≤ b.length) :
    b.substitute? p n code = some (b.substitute p n code) := by
  have hfront : (b.code.take p).length = p :=
    List.length_take_of_le (Nat.le_trans (Nat.le_add_right p n) h)
  have hall : b.code.take p ++ code ++ b.code.drop (p + n) =
      b.code.take p ++ b.tailAfter p n code := List.append_assoc _ _ _
  unfold substitute?
  rw [slice?_window h, splice?_eq code (Nat.le_add_right p n) h, hall]
  show (if _ then _ else _) = _
  have hmodify := modify_gain (allLabels (b.window p n)) (b.code.take p) (b.tailAfter p n code)
  rw [hfront] at hmodify
  split
  · next hskip =>
    have hinherit : inherit (allLabels (b.window p n)) (b.tailAfter p n code) =
        b.tailAfter p n code := by
      rcases hskip with hlabels | hend
      · rw [List.isEmpty_iff.mp hlabels, inherit_nil]
      · rw [List.length_append, hfront] at hend
        rw [List.eq_nil_of_length_eq_zero (l := b.tailAfter p n code) (by omega)]
        rfl
    unfold substitute
    rw [hinherit]
    rfl
  · next hgo =>
    have hp : p < (b.code.take p ++ b.tailAfter p n code).length :=
      Nat.lt_of_not_le fun hend => hgo (.inr hend)
    rw [update?_eq _ hp, hmodify]
    rfl

end Body

end CilPatch
