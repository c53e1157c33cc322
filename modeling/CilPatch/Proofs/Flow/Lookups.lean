import CilPatch.Proofs.Code.Marking

/-!
# Three ways to look a label up

* `resolve`        searches the code for the first instruction that carries the label;
* `labelTargets`   makes a table of all labels, in which the first attachment of a label stays;
* `labelIndex`     makes a table as well, and gives up at a label that is there already.

The search and the table of targets lead to the first place of a label (`resolve_eq_head?`,
`lookup_labelTargets`).  The index exists exactly where no label is attached twice
(`exists_labelIndex_iff`); then nothing is left out of the table of targets, and the two tables are
the same (`perm_labelTargets`, `lookup_labelIndex`).
-/

namespace CilPatch

/-! ## searching -/

theorem lookup_map_const (ls : List Label) (n : Nat) (l : Label) :
    (ls.map (·, n)).lookup l = (List.replicate (ls.count l) n).head? := by
  induction ls with
  | nil => rfl
  | cons x ls ih =>
    rw [List.map_cons, List.lookup_cons]
    by_cases h : l = x
    · rw [h, List.count_cons_self, List.replicate_succ, beq_self_eq_true]
      rfl
    · rw [beq_eq_false_iff_ne.mpr h, List.count_cons_of_ne (Ne.symm h)]
      exact ih

theorem lookup_attachmentsFrom (n : Nat) (code : List Instruction) (l : Label) :
    (Body.attachmentsFrom n code).lookup l = (placesFrom n code l).head? := by
  induction code generalizing n with
  | nil => rfl
  | cons x code ih =>
    rw [Body.attachmentsFrom_cons, placesFrom_cons, List.lookup_append, List.head?_append,
      lookup_map_const, ih]

theorem findIdx?_hasLabel (n : Nat) (code : List Instruction) (l : Label) :
    (code.findIdx? (·.hasLabel l)).map (n + ·) = (placesFrom n code l).head? := by
  induction code generalizing n with
  | nil => rfl
  | cons x code ih =>
    rw [List.findIdx?_cons, placesFrom_cons, List.head?_append, List.head?_replicate]
    by_cases h : l ∈ x.labels
    · have hyes : x.hasLabel l = true := List.contains_iff_mem.mpr h
      rw [if_pos hyes, if_neg (Nat.ne_of_gt (List.count_pos_iff.mpr h))]
      rfl
    · have hno : ¬x.hasLabel l = true := fun hl => h (List.contains_iff_mem.mp hl)
      rw [if_neg hno, if_pos (List.count_eq_zero.mpr h), ← ih (n + 1), Option.map_map]
      have hshift : (n + ·) ∘ (· + 1) = (n + 1 + ·) := by
        funext i
        show n + (i + 1) = n + 1 + i
        omega
      rw [hshift]
      rfl

/-! ## tables -/

section

variable {known entries index : LabelIndex} {l : Label}

theorem lookup_eq_none_iff_not_mem : known.lookup l = none ↔ l ∉ known.map Prod.fst := by
  rw [List.lookup_eq_none_iff, List.mem_map]
  constructor
  · rintro h ⟨entry, hentry, rfl⟩
    simpa using h entry hentry
  · intro h entry hentry
    exact bne_iff_ne.mpr fun e => h ⟨entry, hentry, e.symm⟩

/-- add an attachment unless its label is there already -/
def addFirst (known : LabelIndex) (entry : Label × Nat) : LabelIndex :=
  if (known.lookup entry.1).isSome then known else known ++ [entry]

theorem addFirst_of_mem {entry : Label × Nat} (h : entry.1 ∈ known.map Prod.fst) :
    addFirst known entry = known :=
  if_pos (Option.isSome_iff_ne_none.mpr fun hn => lookup_eq_none_iff_not_mem.mp hn h)

theorem addFirst_of_not_mem {entry : Label × Nat} (h : entry.1 ∉ known.map Prod.fst) :
    addFirst known entry = known ++ [entry] := by
  unfold addFirst
  rw [lookup_eq_none_iff_not_mem.mpr h]
  rfl

theorem lookup_addFirst (known : LabelIndex) (entry : Label × Nat) (l : Label) :
    (addFirst known entry).lookup l = (known.lookup l).or ([entry].lookup l) := by
  by_cases h : entry.1 ∈ known.map Prod.fst
  · rw [addFirst_of_mem h]
    cases hl : known.lookup l with
    | some i => rfl
    | none =>
      have hne : l ≠ entry.1 := fun e => lookup_eq_none_iff_not_mem.mp hl (e ▸ h)
      exact (lookup_eq_none_iff_not_mem.mpr fun hmem => hne (List.mem_singleton.mp hmem)).symm
  · rw [addFirst_of_not_mem h, List.lookup_append]

theorem nodup_addFirst (hk : (known.map Prod.fst).Nodup) (entry : Label × Nat) :
    ((addFirst known entry).map Prod.fst).Nodup := by
  by_cases h : entry.1 ∈ known.map Prod.fst
  · rw [addFirst_of_mem h]
    exact hk
  · rw [addFirst_of_not_mem h, List.map_append]
    refine List.nodup_append.mpr ⟨hk, List.nodup_singleton _, ?_⟩
    rintro l hl l' hl' rfl
    exact h (List.mem_singleton.mp hl' ▸ hl)

theorem lookup_foldl_addFirst (known entries : LabelIndex) (l : Label) :
    (entries.foldl addFirst known).lookup l = (known.lookup l).or (entries.lookup l) := by
  induction entries generalizing known with
  | nil => exact (Option.or_none).symm
  | cons entry entries ih =>
    rw [List.foldl_cons, ih, lookup_addFirst, Option.or_assoc, ← List.lookup_append]
    rfl

theorem nodup_foldl_addFirst (hk : (known.map Prod.fst).Nodup) :
    ((entries.foldl addFirst known).map Prod.fst).Nodup := by
  induction entries generalizing known with
  | nil => exact hk
  | cons entry entries ih => exact ih (nodup_addFirst hk entry)

/-- nothing is left out of attachments that name each label once -/
theorem foldl_addFirst_of_nodup (h : ((known ++ entries).map Prod.fst).Nodup) :
    entries.foldl addFirst known = known ++ entries := by
  induction entries generalizing known with
  | nil => exact (List.append_nil known).symm
  | cons entry entries ih =>
    have hnew : entry.1 ∉ known.map Prod.fst := by
      intro hmem
      rw [List.map_append] at h
      exact (List.nodup_append.mp h).2.2 entry.1 hmem entry.1 List.mem_cons_self rfl
    rw [List.append_cons] at h ⊢
    rw [List.foldl_cons, addFirst_of_not_mem hnew, ih h]

theorem indexAll_eq (h : Body.indexAll known entries = .ok index) :
    index = entries.reverse ++ known := by
  induction entries generalizing known with
  | nil =>
    cases h
    rfl
  | cons entry entries ih =>
    rw [Body.indexAll] at h
    split at h
    · cases h
    · rw [ih h, List.reverse_cons, List.append_assoc]
      rfl

end

namespace Body

variable {b : Body} {index : LabelIndex}

theorem resolve_eq_head? (b : Body) (l : Label) : b.resolve l = (b.places l).head? := by
  have hshift : (fun i : Nat => 0 + i) = id := funext Nat.zero_add
  rw [places, ← findIdx?_hasLabel, hshift, Option.map_id]
  rfl

theorem labelTargets_eq_foldl (b : Body) : b.labelTargets = b.attachments.foldl addFirst [] := rfl

theorem lookup_labelTargets (b : Body) (l : Label) : b.labelTargets.lookup l = b.resolve l := by
  rw [labelTargets_eq_foldl, lookup_foldl_addFirst, resolve_eq_head?]
  exact lookup_attachmentsFrom 0 b.code l

theorem nodup_labelTargets (b : Body) : (b.labelTargets.map Prod.fst).Nodup :=
  nodup_foldl_addFirst List.nodup_nil

theorem exists_labelIndex_iff : (∃ index, b.labelIndex = .ok index) ↔ b.LabelsUnique := by
  constructor
  · rintro ⟨index, h⟩
    exact labelsUnique_of_labelIndex h
  · intro hu
    cases h : b.labelIndex with
    | ok index => exact ⟨index, rfl⟩
    | error fault =>
      obtain ⟨l, first, second, -, htwice⟩ := labelIndex_error h
      exact absurd htwice hu.not_attachedTwice

theorem LabelsUnique.labelTargets_eq (hu : b.LabelsUnique) : b.labelTargets = b.attachments := by
  refine foldl_addFirst_of_nodup ?_
  rw [List.nil_append, map_fst_attachments]
  exact hu

theorem perm_labelTargets (h : b.labelIndex = .ok index) : index.Perm b.labelTargets := by
  rw [indexAll_eq h, (labelsUnique_of_labelIndex h).labelTargets_eq, List.append_nil]
  exact List.reverse_perm _

theorem lookup_labelIndex (h : b.labelIndex = .ok index) (l : Label) :
    index.lookup l = b.resolve l :=
  Option.ext fun i =>
    (labelIndex_ok h l i).trans (labelsUnique_of_labelIndex h).resolve_eq_some_iff.symm

/-- **The lookups of labels agree.**  In every body, whatever labels are attached several times, the
search and the table of targets lead to the first place of a label.  The index of the flow graph
exists exactly where no label occurs twice in the lists of all instructions together, and then it is
that table.  Once an instruction was marked, the label has this place alone and every other label
the places that it had; where there is no such instruction the body stays as it is. -/
theorem label_lookups_agree (b : Body) :
    (∀ l, b.resolve l = (b.places l).head?) ∧
    (∀ l i, b.labelTargets.lookup l = some i ↔ b.resolve l = some i) ∧
    (b.labelTargets.map Prod.fst).Nodup ∧
    ((∃ index, b.labelIndex = .ok index) ↔ b.LabelsUnique) ∧
    (∀ index, b.labelIndex = .ok index →
      index.Perm b.labelTargets ∧ ∀ l, index.lookup l = b.labelTargets.lookup l) ∧
    ∀ i l,
      match b.markLabel i l with
      | .ok b' => i < b.length ∧ (markInPlace i l).on b = (.ok (), b') ∧ b.Marked i l b'
      | .error e =>
        b.length ≤ i ∧ e = ⟨l, i, b.length⟩ ∧ (markInPlace i l).on b = (.error e, b) := by
  refine ⟨b.resolve_eq_head?, fun l i => ?_, b.nodup_labelTargets, exists_labelIndex_iff,
    fun index h => ⟨perm_labelTargets h, fun l => ?_⟩, fun i l => ?_⟩
  · rw [lookup_labelTargets]
  · rw [lookup_labelTargets, lookup_labelIndex h]
  · have hplace := markInPlace_on b i l
    cases h : b.markLabel i l with
    | ok b' =>
      rw [h] at hplace
      exact ⟨lt_length_of_markLabel h, hplace, marked_of_markLabel h⟩
    | error e =>
      rw [h] at hplace
      obtain ⟨hi, he⟩ := of_markLabel_eq_error h
      exact ⟨hi, he, hplace⟩

/-- a label on two instructions, and one that stands twice in one list -/
example :
    let b := Body.ofCode
      [{ opcode := .nop, labels := [⟨0⟩, ⟨1⟩, ⟨1⟩] }, { opcode := .ret, labels := [⟨0⟩] }]
    b.places ⟨1⟩ = [0, 0] ∧ b.labelTargets = [(⟨0⟩, 0), (⟨1⟩, 0)] ∧
      b.labelIndex = .error (.duplicateLabel ⟨1⟩ 0 0) ∧
      ((markInPlace 1 ⟨1⟩).on b).2.labelTargets = [(⟨0⟩, 0), (⟨1⟩, 1)] :=
  ⟨rfl, rfl, rfl, rfl⟩

end Body

end CilPatch
