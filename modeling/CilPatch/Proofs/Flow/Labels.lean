import Mathlib.Data.List.Count
import CilPatch.Flow.Targets

/-!
# Where labels are attached

`Body.Attached b l i` says that `l` marks the instruction at `i`, without an index and without a
search.  The two checks that come before a flow graph are measured against it.

* `labelIndex_ok`          an index that is built holds exactly the attachments;
* `labelIndex_error`       otherwise a label is attached twice, at the two reported positions;
* `checkTargets_ok`,
  `checkTargets_error`     every reference has a target, or the reported one has none.
-/

namespace CilPatch.Body

variable {b : Body}

def Attached (b : Body) (l : Label) (i : Nat) : Prop :=
  ∃ x, b.instruction? i = some x ∧ l ∈ x.labels

/-- the label is attached to two instructions, or twice to one -/
def AttachedTwice (b : Body) (l : Label) (first second : Nat) : Prop :=
  b.Attached l first ∧ b.Attached l second ∧ first ≤ second ∧
    (first = second → ∃ x, b.instruction? first = some x ∧ 2 ≤ x.labels.count l)

theorem lt_length_of_attached {l : Label} {i : Nat} (h : b.Attached l i) :
    i < b.length := by
  obtain ⟨x, hx, -⟩ := h
  exact (List.getElem?_eq_some_iff.mp hx).1

theorem mem_attachments {l : Label} {i : Nat} : (l, i) ∈ b.attachments ↔ b.Attached l i := by
  unfold attachments Attached instruction?
  rw [List.mem_flatMap]
  constructor
  · rintro ⟨⟨x, j⟩, hx, hl⟩
    obtain ⟨l', hl', e⟩ := List.mem_map.mp hl
    cases e
    exact ⟨x, List.mem_zipIdx_iff_getElem?.mp hx, hl'⟩
  · rintro ⟨x, hx, hl⟩
    exact ⟨(x, i), List.mem_zipIdx_iff_getElem?.mpr hx, List.mem_map.mpr ⟨l, hl, rfl⟩⟩

/-! ## the index -/

theorem lookup_cons_eq_some_iff {known : LabelIndex} {l l' : Label} {i i' : Nat}
    (h : known.lookup l = none) :
    List.lookup l' ((l, i) :: known) = some i' ↔ (l' = l ∧ i' = i) ∨ known.lookup l' = some i' := by
  rw [List.lookup_cons]
  by_cases e : l' = l
  · rw [e, beq_self_eq_true]
    constructor
    · intro hi
      exact .inl ⟨rfl, (Option.some.inj hi).symm⟩
    · rintro (⟨-, hi⟩ | hk)
      · exact congrArg some hi.symm
      · rw [h] at hk
        cases hk
  · have hne : (l' == l) = false := by simpa using e
    rw [hne]
    constructor
    · exact .inr
    · rintro (⟨hl, -⟩ | hk)
      · exact absurd hl e
      · exact hk

theorem indexAll_ok {known index : LabelIndex} {entries : List (Label × Nat)}
    (h : indexAll known entries = .ok index) (l : Label) (i : Nat) :
    index.lookup l = some i ↔ known.lookup l = some i ∨ (l, i) ∈ entries := by
  induction entries generalizing known with
  | nil =>
    cases h
    simp
  | cons entry rest ih =>
    obtain ⟨l', i'⟩ := entry
    rw [indexAll] at h
    split at h
    · cases h
    · next hn =>
      rw [ih h, lookup_cons_eq_some_iff hn, List.mem_cons, Prod.mk.injEq, or_assoc, or_left_comm]

theorem indexAll_error {known : LabelIndex} {entries : List (Label × Nat)} {f : BodyFault}
    (h : indexAll known entries = .error f) :
    ∃ l first second before after, entries = before ++ (l, second) :: after ∧
      f = .duplicateLabel l first second ∧
        (known.lookup l = some first ∨ (l, first) ∈ before) := by
  induction entries generalizing known with
  | nil => cases h
  | cons entry rest ih =>
    obtain ⟨l', i'⟩ := entry
    rw [indexAll] at h
    split at h
    · next first hf =>
      cases h
      exact ⟨l', first, i', [], rest, rfl, rfl, .inl hf⟩
    · next hn =>
      obtain ⟨l, first, second, before, after, rfl, hf, hl⟩ := ih h
      refine ⟨l, first, second, (l', i') :: before, after, rfl, hf, ?_⟩
      rcases hl with hl | hl
      · rcases (lookup_cons_eq_some_iff hn).mp hl with ⟨rfl, rfl⟩ | hl
        · exact .inr List.mem_cons_self
        · exact .inl hl
      · exact .inr (List.mem_cons_of_mem _ hl)

theorem labelIndex_ok {index : LabelIndex} (h : b.labelIndex = .ok index) (l : Label) (i : Nat) :
    index.lookup l = some i ↔ b.Attached l i := by
  rw [indexAll_ok h, mem_attachments]
  simp

/-- the attachments of code that starts at position `n` -/
def attachmentsFrom (n : Nat) (code : List Instruction) : List (Label × Nat) :=
  (code.zipIdx n).flatMap fun (x, i) => x.labels.map (·, i)

theorem attachmentsFrom_cons (n : Nat) (x : Instruction) (code : List Instruction) :
    attachmentsFrom n (x :: code) = x.labels.map (·, n) ++ attachmentsFrom (n + 1) code := by
  unfold attachmentsFrom
  rw [List.zipIdx_cons, List.flatMap_cons]

theorem le_of_mem_attachmentsFrom {n i : Nat} {code : List Instruction} {l : Label}
    (h : (l, i) ∈ attachmentsFrom n code) : n ≤ i := by
  obtain ⟨⟨x, j⟩, hx, hm⟩ := List.mem_flatMap.mp h
  obtain ⟨_, -, e⟩ := List.mem_map.mp hm
  have hj : n ≤ j := List.le_snd_of_mem_zipIdx hx
  have hji : j = i := (Prod.mk.inj e).2
  omega

theorem eq_of_mem_map_labels {n i : Nat} {ls : List Label} {l : Label}
    (h : (l, i) ∈ ls.map (·, n)) : i = n := by
  obtain ⟨_, -, e⟩ := List.mem_map.mp h
  exact (Prod.mk.inj e).2.symm

/-- two attachments of a label to one instruction are two occurrences in its list -/
theorem two_le_count {n first second : Nat} {ls : List Label} {l : Label}
    {before after : List (Label × Nat)} (h : ls.map (·, n) = before ++ (l, second) :: after)
    (hl : (l, first) ∈ before) : 2 ≤ ls.count l := by
  have hsecond : second = n := eq_of_mem_map_labels (by
    rw [h]
    exact List.mem_append_right _ List.mem_cons_self)
  have hfirst : first = n := eq_of_mem_map_labels (by
    rw [h]
    exact List.mem_append_left _ hl)
  have hcount : (ls.map (·, n)).count (l, n) = ls.count l :=
    List.count_map_of_injective ls (·, n) (fun _ _ e => (Prod.mk.inj e).1) l
  rw [hfirst] at hl
  have hpos : 0 < before.count (l, n) := List.count_pos_iff.mpr hl
  rw [← hcount, h, hsecond, List.count_append, List.count_cons_self]
  omega

/-- attachments stand in the order of their positions, and those of one label at one position
stand for as many occurrences -/
theorem attachments_split {code : List Instruction} {n first second : Nat} {l : Label}
    {before after : List (Label × Nat)}
    (h : attachmentsFrom n code = before ++ (l, second) :: after) (hl : (l, first) ∈ before) :
    n ≤ first ∧ first ≤ second ∧
      (first = second → ∃ x, code[first - n]? = some x ∧ 2 ≤ x.labels.count l) := by
  induction code generalizing n before with
  | nil => cases before <;> cases h
  | cons x code ih =>
    rw [attachmentsFrom_cons] at h
    -- the second attachment lies behind this instruction, or at it
    have later : ∀ rest : List (Label × Nat), before = x.labels.map (·, n) ++ rest →
        attachmentsFrom (n + 1) code = rest ++ (l, second) :: after →
        n ≤ first ∧ first ≤ second ∧
          (first = second → ∃ y, (x :: code)[first - n]? = some y ∧ 2 ≤ y.labels.count l) := by
      intro rest hb hr
      rw [hb] at hl
      rcases List.mem_append.mp hl with hl | hl
      · have hfirst := eq_of_mem_map_labels hl
        have hmem : (l, second) ∈ attachmentsFrom (n + 1) code := by
          rw [hr]
          exact List.mem_append_right _ List.mem_cons_self
        have hsecond := le_of_mem_attachmentsFrom hmem
        exact ⟨by omega, by omega, fun e => by omega⟩
      · obtain ⟨h1, h2, h3⟩ := ih hr hl
        refine ⟨by omega, h2, fun e => ?_⟩
        obtain ⟨y, hy, hc⟩ := h3 e
        refine ⟨y, ?_, hc⟩
        rw [show first - n = first - (n + 1) + 1 by omega, List.getElem?_cons_succ]
        exact hy
    rcases List.append_eq_append_iff.mp h with ⟨rest, hb, hr⟩ | ⟨rest, hb, hr⟩
    · exact later rest hb hr
    · cases rest with
      | nil =>
        refine later [] ?_ hr.symm
        rw [List.append_nil] at hb ⊢
        exact hb.symm
      | cons entry rest =>
        obtain rfl := (List.cons.inj hr).1
        have hfirst : first = n := eq_of_mem_map_labels (by
          rw [hb]
          exact List.mem_append_left _ hl)
        have hsecond : second = n := eq_of_mem_map_labels (by
          rw [hb]
          exact List.mem_append_right _ List.mem_cons_self)
        refine ⟨by omega, by omega, fun _ => ⟨x, ?_, two_le_count hb hl⟩⟩
        rw [hfirst, Nat.sub_self]
        rfl

theorem labelIndex_error {f : BodyFault} (h : b.labelIndex = .error f) :
    ∃ l first second, f = .duplicateLabel l first second ∧ b.AttachedTwice l first second := by
  obtain ⟨l, first, second, before, after, hsplit, rfl, hl⟩ := indexAll_error h
  have hl : (l, first) ∈ before := hl.resolve_left (by simp)
  obtain ⟨-, hle, htwice⟩ := attachments_split hsplit hl
  refine ⟨l, first, second, rfl, ?_, ?_, hle, htwice⟩
  · rw [← mem_attachments, hsplit]
    exact List.mem_append_left _ hl
  · rw [← mem_attachments, hsplit]
    exact List.mem_append_right _ List.mem_cons_self

/-! ## references -/

theorem mem_references {i : Nat} {x : Instruction} {l : Label} :
    (i, x, l) ∈ b.references ↔ b.instruction? i = some x ∧ l ∈ x.targets := by
  unfold references instruction?
  rw [List.mem_flatMap]
  constructor
  · rintro ⟨⟨y, j⟩, hy, hl⟩
    obtain ⟨l', hl', e⟩ := List.mem_map.mp hl
    cases e
    exact ⟨List.mem_zipIdx_iff_getElem?.mp hy, hl'⟩
  · rintro ⟨hx, hl⟩
    exact ⟨(x, i), List.mem_zipIdx_iff_getElem?.mpr hx, List.mem_map.mpr ⟨l, hl, rfl⟩⟩

theorem checkTargets_ok {index : LabelIndex} (h : b.checkTargets index = .ok ()) {i : Nat}
    {x : Instruction} {l : Label} (hx : b.instruction? i = some x) (hl : l ∈ x.targets) :
    ∃ j, index.lookup l = some j := by
  unfold checkTargets at h
  split at h
  · cases h
  · next hn =>
    have hsome := List.find?_eq_none.mp hn (i, x, l) (mem_references.mpr ⟨hx, hl⟩)
    rw [Bool.not_eq_true, Option.isNone_eq_false_iff] at hsome
    exact Option.isSome_iff_exists.mp hsome

theorem checkTargets_error {index : LabelIndex} {f : BodyFault}
    (h : b.checkTargets index = .error f) :
    ∃ i x l, f = .danglingLabel i x l ∧ b.instruction? i = some x ∧ l ∈ x.targets ∧
      index.lookup l = none := by
  unfold checkTargets at h
  split at h
  · next i x l hf =>
    cases h
    unfold danglingReference? at hf
    obtain ⟨hx, hl⟩ := mem_references.mp (List.mem_of_find?_eq_some hf)
    have hn := List.find?_some hf
    exact ⟨i, x, l, rfl, hx, hl, Option.isNone_iff_eq_none.mp hn⟩
  · cases h

theorem mem_targetPositions {index : LabelIndex} {j : Nat} :
    j ∈ b.targetPositions index ↔
      ∃ i x l, b.instruction? i = some x ∧ l ∈ x.targets ∧ index.lookup l = some j := by
  unfold targetPositions
  rw [List.mem_filterMap]
  constructor
  · rintro ⟨⟨i, x, l⟩, hm, hj⟩
    obtain ⟨hx, hl⟩ := mem_references.mp hm
    exact ⟨i, x, l, hx, hl, hj⟩
  · rintro ⟨i, x, l, hx, hl, hj⟩
    exact ⟨(i, x, l), mem_references.mpr ⟨hx, hl⟩, hj⟩

end CilPatch.Body
