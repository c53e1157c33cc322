import Mathlib.Data.List.Nodup
import Mathlib.Data.List.Perm.Basic
import CilPatch.Code.Splice
import CilPatch.Proofs.Flow.Labels

/-!
# Labels under changes of the code

`Body.labels` lists every attachment of a body.  Code that carries no labels of its own can be put
anywhere without changing the list, up to its order: where instructions go, their labels join those
of the instruction that takes their place.  Only a stretch that is removed at the end takes its
labels along (`labels_substitute_end`).

The list has no duplicates as long as each label is attached at most once (`LabelsUnique`); then
joining lists of labels is the same as writing them one behind the other (`union_eq_append`).
-/

namespace CilPatch

theorem List.map_modify_of_eq {α β : Type} {f : α → α} {g : α → β} (h : ∀ x, g (f x) = g x)
    (xs : List α) (i : Nat) : (xs.modify i f).map g = xs.map g := by
  apply List.ext_getElem?
  intro j
  rw [List.getElem?_map, List.getElem?_map, List.getElem?_modify]
  cases xs[j]? with
  | none => rfl
  | some x =>
    show some (g (if i = j then f x else x)) = some (g x)
    split
    · rw [h]
    · rfl

theorem Label.union_of_subset {held extra : List Label} (h : extra ⊆ held) :
    Label.union held extra = held := by
  induction extra with
  | nil => exact Label.union_nil held
  | cons l extra ih =>
    obtain ⟨hl, h⟩ := List.cons_subset.mp h
    rw [Label.union_cons, if_pos hl, ih h]

theorem Label.union_eq_append {held extra : List Label} (h : (held ++ extra).Nodup) :
    Label.union held extra = held ++ extra := by
  induction extra generalizing held with
  | nil => rw [Label.union_nil, List.append_nil]
  | cons l extra ih =>
    have hl : l ∉ held := by
      intro hl
      exact (List.nodup_append.mp h).2.2 l hl l List.mem_cons_self rfl
    have e : held ++ l :: extra = held ++ [l] ++ extra := List.append_cons held l extra
    rw [e] at h ⊢
    rw [Label.union_cons, if_neg hl]
    exact ih h

namespace Instruction

/-- none of the instructions carries a label -/
def Unlabeled (code : List Instruction) : Prop := ∀ x ∈ code, x.labels = []

theorem allLabels_cons (x : Instruction) (code : List Instruction) :
    allLabels (x :: code) = x.labels ++ allLabels code := List.flatMap_cons

theorem allLabels_append (code code' : List Instruction) :
    allLabels (code ++ code') = allLabels code ++ allLabels code' := List.flatMap_append

theorem allLabels_of_unlabeled {code : List Instruction} (h : Unlabeled code) :
    allLabels code = [] :=
  List.flatMap_eq_nil_iff.mpr h

theorem labels_takePlace {old new : Instruction} (h : new.labels ⊆ old.labels) :
    (takePlace old new).labels = old.labels := Label.union_of_subset h

theorem getElem?_overlay (window code : List Instruction) (k : Nat) :
    (overlay window code)[k]? = window[k]?.map fun x => takePlace x (code[k]?.getD nop) := by
  induction window generalizing code k with
  | nil => rfl
  | cons old window ih =>
    cases code with
    | nil =>
      cases k with
      | zero => rfl
      | succ k => exact ih [] k
    | cons new code =>
      cases k with
      | zero => rfl
      | succ k => exact ih code k

/-- slots whose new instructions bring no label that is not there keep their labels -/
theorem allLabels_overlay {window code : List Instruction}
    (h : ∀ slot ∈ window.zip code, slot.2.labels ⊆ slot.1.labels) :
    allLabels (overlay window code) = allLabels window := by
  induction window generalizing code with
  | nil => rfl
  | cons old window ih =>
    cases code with
    | nil =>
      have hnop : nop.labels ⊆ old.labels := List.nil_subset _
      rw [overlay, allLabels_cons, allLabels_cons, ih (by simp), labels_takePlace hnop]
    | cons new code =>
      obtain ⟨hnew, hrest⟩ := List.forall_mem_cons.mp h
      rw [overlay, allLabels_cons, allLabels_cons, ih hrest, labels_takePlace hnew]

theorem Unlabeled.labels_subset {code window : List Instruction} (h : Unlabeled code) :
    ∀ slot ∈ window.zip code, slot.2.labels ⊆ slot.1.labels := by
  intro slot hslot
  rw [h slot.2 (List.of_mem_zip hslot).2]
  exact List.nil_subset _

/-- labels that are inherited come in behind those of the first instruction -/
theorem allLabels_inherit {labels : List Label} {x : Instruction} {code : List Instruction}
    (h : (x.labels ++ labels).Nodup) :
    allLabels (inherit labels (x :: code)) = x.labels ++ labels ++ allLabels code := by
  show allLabels ({ x with labels := Label.union x.labels labels } :: code) = _
  rw [allLabels_cons, Label.union_eq_append h]

end Instruction

namespace Body

open Instruction

variable {b : Body} {code : List Instruction} {p n : Nat}

/-- every label with the instructions that carry it, in order -/
def labels (b : Body) : List Label := allLabels b.code

/-- each label is attached at most once -/
def LabelsUnique (b : Body) : Prop := b.labels.Nodup

theorem mem_labels {l : Label} : l ∈ b.labels ↔ ∃ i, b.Attached l i := by
  unfold labels allLabels
  rw [List.mem_flatMap]
  constructor
  · rintro ⟨x, hx, hl⟩
    obtain ⟨i, hi⟩ := List.mem_iff_getElem?.mp hx
    exact ⟨i, x, hi, hl⟩
  · rintro ⟨i, x, hx, hl⟩
    exact ⟨x, List.mem_of_getElem? hx, hl⟩

/-- an attached label is found -/
theorem resolve_of_mem_labels {l : Label} (h : l ∈ b.labels) :
    ∃ j, b.resolve l = some j ∧ b.Attached l j := by
  obtain ⟨i, x, hx, hl⟩ := mem_labels.mp h
  have hsome : (b.resolve l).isSome = true := by
    unfold resolve
    rw [List.findIdx?_isSome, List.any_eq_true]
    exact ⟨x, List.mem_of_getElem? hx, List.contains_iff_mem.mpr hl⟩
  obtain ⟨j, hj⟩ := Option.isSome_iff_exists.mp hsome
  obtain ⟨hlt, hcarries, -⟩ := List.findIdx?_eq_some_iff_getElem.mp hj
  exact ⟨j, hj, b.code[j], List.getElem?_eq_getElem hlt, List.contains_iff_mem.mp hcarries⟩

theorem LabelsUnique.not_attachedTwice (hu : b.LabelsUnique) {l : Label} {first second : Nat} :
    ¬b.AttachedTwice l first second := by
  rintro ⟨⟨x, hx, hlx⟩, ⟨y, hy, hly⟩, hle, htwice⟩
  obtain ⟨hlists, hdisjoint⟩ := List.nodup_flatMap.mp hu
  by_cases e : first = second
  · obtain ⟨z, hz, hcount⟩ := htwice e
    have hnodup := hlists z (List.mem_of_getElem? hz)
    have hle := List.nodup_iff_count_le_one.mp hnodup l
    omega
  · obtain ⟨hi, rfl⟩ := List.getElem?_eq_some_iff.mp hx
    obtain ⟨hj, rfl⟩ := List.getElem?_eq_some_iff.mp hy
    exact List.pairwise_iff_getElem.mp hdisjoint first second hi hj (by omega) hlx hly

/-- the labels of the attachments, in order -/
theorem map_fst_attachments (b : Body) : b.attachments.map Prod.fst = b.labels := by
  have hfst : ∀ x : Instruction × Nat, (x.1.labels.map (·, x.2)).map Prod.fst = x.1.labels := by
    intro x
    rw [List.map_map]
    exact List.map_id _
  unfold attachments labels allLabels
  simp only [List.map_flatMap, hfst]
  rw [← List.flatMap_map, List.zipIdx_map_fst]

/-- labels are put into an index if there is none among them that is there already -/
theorem nodup_of_indexAll {known index : LabelIndex} {entries : List (Label × Nat)}
    (h : indexAll known entries = .ok index) :
    (entries.map Prod.fst).Nodup ∧ ∀ l ∈ entries.map Prod.fst, known.lookup l = none := by
  induction entries generalizing known with
  | nil => exact ⟨List.nodup_nil, fun l hl => absurd hl List.not_mem_nil⟩
  | cons entry rest ih =>
    obtain ⟨l, i⟩ := entry
    rw [indexAll] at h
    split at h
    · cases h
    · next hn =>
      obtain ⟨hrest, hnew⟩ := ih h
      have hl : ∀ l' ∈ rest.map Prod.fst, l' ≠ l ∧ known.lookup l' = none := by
        intro l' hl'
        have hnone := hnew l' hl'
        rw [List.lookup_cons] at hnone
        split at hnone
        · cases hnone
        · next hne => exact ⟨beq_eq_false_iff_ne.mp hne, hnone⟩
      refine ⟨List.nodup_cons.mpr ⟨fun hmem => (hl l hmem).1 rfl, hrest⟩, ?_⟩
      exact List.forall_mem_cons.mpr ⟨hn, fun l' hl' => (hl l' hl').2⟩

/-- an index of the labels is a proof that none of them is attached twice -/
theorem labelsUnique_of_labelIndex {index : LabelIndex} (h : b.labelIndex = .ok index) :
    b.LabelsUnique := by
  unfold LabelsUnique
  rw [← map_fst_attachments]
  exact (nodup_of_indexAll h).1

/-- a label that marks one instruction leads to it -/
theorem LabelsUnique.resolve_eq_some_iff (hu : b.LabelsUnique) {l : Label} {i : Nat} :
    b.resolve l = some i ↔ b.Attached l i := by
  constructor
  · intro h
    obtain ⟨hi, hl, -⟩ := List.findIdx?_eq_some_iff_getElem.mp h
    exact ⟨b.code[i], List.getElem?_eq_getElem hi, List.contains_iff_mem.mp hl⟩
  · intro h
    obtain ⟨j, hj, hat⟩ := resolve_of_mem_labels (mem_labels.mpr ⟨i, h⟩)
    rcases Nat.lt_trichotomy i j with hlt | rfl | hlt
    · exact absurd ⟨h, hat, Nat.le_of_lt hlt, fun e => absurd e (Nat.ne_of_lt hlt)⟩
        hu.not_attachedTwice
    · exact hj
    · exact absurd ⟨hat, h, Nat.le_of_lt hlt, fun e => absurd e (Nat.ne_of_lt hlt)⟩
        hu.not_attachedTwice

/-- the code before, inside and behind a stretch -/
theorem code_eq_window (b : Body) (p n : Nat) :
    b.code = b.code.take p ++ b.window p n ++ b.code.drop (p + n) := by
  unfold window
  rw [List.append_assoc, ← List.drop_drop, List.take_append_drop, List.take_append_drop]

/-- the labels before, inside and behind a stretch -/
theorem labels_eq (b : Body) (p n : Nat) :
    b.labels = allLabels (b.code.take p) ++
      (allLabels (b.window p n) ++ allLabels (b.code.drop (p + n))) := by
  unfold labels
  rw [← allLabels_append, ← allLabels_append, ← List.append_assoc, ← code_eq_window]

/-! ## insertion -/

theorem labels_insertAt (h : Unlabeled code) : (b.insertAt p code).labels = b.labels := by
  show allLabels (b.code.take p ++ code ++ b.code.drop p) = allLabels b.code
  rw [allLabels_append, allLabels_append, allLabels_of_unlabeled h, List.append_nil,
    ← allLabels_append, List.take_append_drop]

theorem labels_insertLabeledAt (hu : b.LabelsUnique) (h : Unlabeled code) (hne : code ≠ []) :
    (b.insertLabeledAt p code).labels = b.labels := by
  unfold insertLabeledAt
  split
  · exact labels_insertAt h
  · next x rest hdrop =>
    obtain ⟨y, code, rfl⟩ := List.exists_cons_of_ne_nil hne
    have hsplit : b.labels =
        allLabels (b.code.take p) ++ (x.labels ++ allLabels rest) := by
      rw [← allLabels_cons, ← hdrop, ← allLabels_append, List.take_append_drop]
      rfl
    have hy : y.labels = [] := h y List.mem_cons_self
    have hx : (y.labels ++ x.labels).Nodup := by
      unfold LabelsUnique at hu
      rw [hsplit] at hu
      rw [hy, List.nil_append]
      exact (List.nodup_append.mp (List.nodup_append.mp hu).2.1).1
    have hrest : allLabels code = [] :=
      allLabels_of_unlabeled fun z hz => h z (List.mem_cons_of_mem _ hz)
    show allLabels (b.code.take p ++ inherit x.labels (y :: code) ++ x.unlabeled :: rest) = _
    rw [allLabels_append, allLabels_append, allLabels_inherit hx, hy, hrest, hsplit,
      allLabels_cons, show x.unlabeled.labels = [] from rfl]
    simp only [List.nil_append, List.append_nil, List.append_assoc]

theorem regions_insertLabeledAt (b : Body) (p : Nat) (code : List Instruction) :
    (b.insertLabeledAt p code).regions = b.regions := by
  unfold insertLabeledAt
  split <;> rfl

/-! ## replacement and removal -/

theorem labels_replaceAt {x : Instruction} (h : x.labels = []) :
    (b.replaceAt p x).labels = b.labels := by
  show allLabels (b.code.modify p (·.takePlace x)) = allLabels b.code
  generalize b.code = code
  induction code generalizing p with
  | nil => cases p <;> rfl
  | cons y code ih =>
    cases p with
    | zero =>
      have hx : x.labels ⊆ y.labels := h ▸ List.nil_subset _
      rw [List.modify_zero_cons, allLabels_cons, allLabels_cons, labels_takePlace hx]
    | succ p => rw [List.modify_succ_cons, allLabels_cons, allLabels_cons, ih]

theorem labels_overlayAt
    (h : ∀ slot ∈ (b.window p n).zip code, slot.2.labels ⊆ slot.1.labels) :
    (b.overlayAt p n code).labels = b.labels := by
  show allLabels (b.code.take p ++ overlay (b.window p n) code ++ b.code.drop (p + n)) = _
  rw [allLabels_append, allLabels_append, allLabels_overlay h, List.append_assoc]
  exact (b.labels_eq p n).symm

/-- the labels of a removed stretch join those of what follows -/
theorem labels_substitute (hu : b.LabelsUnique) (h : Unlabeled code)
    (hne : b.tailAfter p n code ≠ []) : (b.substitute p n code).labels.Perm b.labels := by
  obtain ⟨x, rest, hx⟩ := List.exists_cons_of_ne_nil hne
  have htail : x.labels ++ allLabels rest = allLabels (b.code.drop (p + n)) := by
    rw [← allLabels_cons, ← hx]
    unfold tailAfter
    rw [allLabels_append, allLabels_of_unlabeled h, List.nil_append]
  have hperm : (allLabels (b.code.take p) ++
      (x.labels ++ allLabels (b.window p n) ++ allLabels rest)).Perm b.labels := by
    rw [b.labels_eq p n, ← htail]
    refine List.Perm.append_left _ ?_
    rw [← List.append_assoc]
    exact List.Perm.append_right _ List.perm_append_comm
  have hnodup : (x.labels ++ allLabels (b.window p n)).Nodup := by
    have hall := hperm.nodup_iff.mpr hu
    exact (List.nodup_append.mp (List.nodup_append.mp hall).2.1).1
  show (allLabels (b.code.take p ++
    inherit (allLabels (b.window p n)) (b.tailAfter p n code))).Perm _
  rw [hx, allLabels_append, allLabels_inherit hnodup]
  exact hperm

/-- at the end of the body nothing is left to carry the labels of a removed stretch -/
theorem labels_substitute_end (he : b.tailAfter p n code = []) :
    b.labels = (b.substitute p n code).labels ++ allLabels (b.window p n) := by
  obtain ⟨-, hdrop⟩ := List.append_eq_nil_iff.mp he
  have hcode : (b.substitute p n code).labels = allLabels (b.code.take p) := by
    show allLabels (b.code.take p ++
      inherit (allLabels (b.window p n)) (b.tailAfter p n code)) = _
    rw [he]
    exact congrArg allLabels (List.append_nil _)
  rw [hcode, b.labels_eq p n, hdrop]
  exact congrArg _ (List.append_nil _)

/-! ## marking -/

theorem allLabels_detach (l : Label) (code : List Instruction) :
    allLabels (code.map fun x => { x with labels := x.labels.filter (· != l) }) =
      (allLabels code).filter (· != l) := by
  induction code with
  | nil => rfl
  | cons x code ih => rw [List.map_cons, allLabels_cons, allLabels_cons, List.filter_append, ih]

theorem allLabels_attach (l : Label) {code : List Instruction} {i : Nat} (h : i < code.length) :
    (allLabels (code.modify i fun x => { x with labels := x.labels ++ [l] })).Perm
      (l :: allLabels code) := by
  induction code generalizing i with
  | nil => exact absurd h (Nat.not_lt_zero i)
  | cons x code ih =>
    cases i with
    | zero =>
      rw [List.modify_zero_cons, allLabels_cons, allLabels_cons]
      show (x.labels ++ [l] ++ allLabels code).Perm _
      rw [List.append_assoc]
      exact List.perm_middle
    | succ i =>
      rw [List.modify_succ_cons, allLabels_cons, allLabels_cons]
      exact (List.Perm.append_left _ (ih (Nat.lt_of_succ_lt_succ h))).trans List.perm_middle

/-- a label that is attached anew keeps all others where they are -/
theorem labels_markLabel {b' : Body} {i : Nat} {l : Label} (h : b.markLabel i l = .ok b') :
    b'.labels.Perm (l :: b.labels.filter (· != l)) ∧ b'.regions = b.regions := by
  unfold markLabel at h
  split at h
  · next hi =>
    cases h
    refine ⟨?_, rfl⟩
    have hlen : i < (b.code.map fun x => { x with labels := x.labels.filter (· != l) }).length := by
      rw [List.length_map]
      exact hi
    have hperm := allLabels_attach l hlen
    rw [allLabels_detach] at hperm
    exact hperm
  · cases h

end Body

end CilPatch
