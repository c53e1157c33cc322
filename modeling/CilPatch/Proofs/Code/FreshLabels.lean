import CilPatch.Proofs.Code.Splice

/-!
# Where fresh labels are taken from

A body takes its fresh labels from above every label that its code carries or refers to
(`Body.Reserved`).  Whatever comes into the body is reserved first, and what is there already may be
moved about or go: then no label comes in that was not there or among the reserved ones (`Below`).

`Body.Advances` says what each operation on a body does for this: it keeps `Reserved`, and it does
not take the source of fresh labels back.
-/

namespace CilPatch

namespace Instruction

/-- the labels that the code carries or refers to have numbers below `n` -/
def Below (n : Nat) (code : List Instruction) : Prop := ∀ x ∈ code, ∀ l ∈ x.mentioned, l.id < n

variable {n m : Nat} {code code' : List Instruction} {x y : Instruction}

theorem mem_mentioned {l : Label} : l ∈ x.mentioned ↔ l ∈ x.labels ∨ l ∈ x.targets :=
  List.mem_append

theorem Below.mono (h : Below n code) (hn : n ≤ m) : Below m code :=
  fun x hx l hl => Nat.lt_of_lt_of_le (h x hx l hl) hn

theorem Below.of_subset (h : Below n code) (hs : code' ⊆ code) : Below n code' :=
  fun x hx => h x (hs hx)

theorem below_nil : Below n [] := fun _ hx => absurd hx List.not_mem_nil

theorem below_cons : Below n (x :: code) ↔ (∀ l ∈ x.mentioned, l.id < n) ∧ Below n code :=
  List.forall_mem_cons

theorem below_append : Below n (code ++ code') ↔ Below n code ∧ Below n code' :=
  List.forall_mem_append

/-- a ceiling only rises, and it rises above every label on the way -/
theorem lt_foldl_ceiling {ls : List Label} {l : Label} (k : Nat) (h : l.id < k ∨ l ∈ ls) :
    l.id < ls.foldl (fun k l => max k (l.id + 1)) k := by
  induction ls generalizing k with
  | nil => exact h.resolve_right List.not_mem_nil
  | cons y ls ih =>
    rw [List.foldl_cons]
    apply ih
    rcases h with h | h
    · exact .inl (by omega)
    · rcases List.mem_cons.mp h with rfl | h
      · exact .inl (by omega)
      · exact .inr h

/-- **The ceiling of some code is above all its labels.** -/
theorem below_labelCeiling (code : List Instruction) : Below (labelCeiling code) code :=
  fun x hx _ hl => lt_foldl_ceiling 0 (.inr (List.mem_flatMap.mpr ⟨x, hx, hl⟩))

theorem Below.allLabels (h : Below n code) : ∀ l ∈ allLabels code, l.id < n := by
  intro l hl
  obtain ⟨x, hx, hl⟩ := List.mem_flatMap.mp hl
  exact h x hx l (mem_mentioned.mpr (.inl hl))

theorem below_takePlace (hold : ∀ l ∈ x.mentioned, l.id < n) (hnew : ∀ l ∈ y.mentioned, l.id < n) :
    ∀ l ∈ (takePlace x y).mentioned, l.id < n := by
  intro l hl
  rcases mem_mentioned.mp hl with hl | hl
  · rcases Label.mem_union.mp hl with hl | hl
    · exact hold l (mem_mentioned.mpr (.inl hl))
    · exact hnew l (mem_mentioned.mpr (.inl hl))
  · exact hnew l (mem_mentioned.mpr (.inr hl))

theorem Below.overlay {window : List Instruction} (hw : Below n window) (hc : Below n code) :
    Below n (overlay window code) := by
  induction window generalizing code with
  | nil => exact below_nil
  | cons old window ih =>
    obtain ⟨hold, hw⟩ := below_cons.mp hw
    cases code with
    | nil =>
      have hnop : ∀ l ∈ nop.mentioned, l.id < n := fun l hl => absurd hl List.not_mem_nil
      exact below_cons.mpr ⟨below_takePlace hold hnop, ih hw below_nil⟩
    | cons new code =>
      obtain ⟨hnew, hc⟩ := below_cons.mp hc
      exact below_cons.mpr ⟨below_takePlace hold hnew, ih hw hc⟩

theorem Below.inherit {labels : List Label} (hl : ∀ l ∈ labels, l.id < n) (hc : Below n code) :
    Below n (inherit labels code) := by
  cases code with
  | nil => exact below_nil
  | cons x code =>
    obtain ⟨hx, hc⟩ := below_cons.mp hc
    refine below_cons.mpr ⟨fun l hm => ?_, hc⟩
    rcases mem_mentioned.mp hm with hm | hm
    · rcases Label.mem_union.mp hm with hm | hm
      · exact hx l (mem_mentioned.mpr (.inl hm))
      · exact hl l hm
    · exact hx l (mem_mentioned.mpr (.inr hm))

theorem Below.modify {f : Instruction → Instruction} (h : Below n code)
    (hf : ∀ x ∈ code, ∀ l ∈ (f x).mentioned, l.id < n) (p : Nat) : Below n (code.modify p f) := by
  intro x hx
  obtain ⟨i, hi⟩ := List.mem_iff_getElem?.mp hx
  rw [List.getElem?_modify] at hi
  obtain ⟨y, hy, rfl⟩ := Option.map_eq_some_iff.mp hi
  have hmem := List.mem_of_getElem? hy
  split
  · exact hf y hmem
  · exact h y hmem

end Instruction

namespace Body

open Instruction

/-- fresh labels are above all that the code carries or refers to -/
def Reserved (b : Body) : Prop := Below b.nextLabel b.code

/-- what every operation on a body does for fresh labels -/
structure Advances (b b' : Body) : Prop where
  reserved : b.Reserved → b'.Reserved
  next : b.nextLabel ≤ b'.nextLabel

variable {b b' b'' : Body} {code : List Instruction}

theorem Advances.refl (b : Body) : Advances b b := ⟨id, Nat.le_refl _⟩

theorem Advances.trans (h : Advances b b') (h' : Advances b' b'') : Advances b b'' where
  reserved := h'.reserved ∘ h.reserved
  next := Nat.le_trans h.next h'.next

theorem reserved_ofCode (code : List Instruction) : (ofCode code).Reserved :=
  below_labelCeiling code

/-- once `code` is reserved, nothing may come in but what it mentions -/
theorem Advances.of_reserve {new : List Instruction}
    (h : ∀ n, Below n b.code → Below n code → Below n new) :
    Advances b { b.reserve code with code := new } where
  reserved hb := h _ (hb.mono (Nat.le_max_left _ _))
    ((below_labelCeiling code).mono (Nat.le_max_right _ _))
  next := Nat.le_max_left _ _

theorem advances_push (b : Body) (x : Instruction) : Advances b (b.push x) :=
  .of_reserve fun _ hb hx => below_append.mpr ⟨hb, hx⟩

/-- the labels of a region are not reserved -/
theorem advances_addRegion (b : Body) (r : Region) : Advances b (b.addRegion r) :=
  ⟨id, Nat.le_refl _⟩

theorem advances_defineLabel (b : Body) : Advances b b.defineLabel.2 where
  reserved hb := hb.mono (Nat.le_succ _)
  next := Nat.le_succ _

theorem advances_markLabel {i : Nat} {l : Label} (h : b.markLabel i l = .ok b') :
    Advances b b' := by
  unfold markLabel at h
  split at h
  · cases h
    refine ⟨fun hb => ?_, Nat.le_max_left _ _⟩
    have hn : b.nextLabel ≤ max b.nextLabel (l.id + 1) := Nat.le_max_left _ _
    have hdetached : Below (max b.nextLabel (l.id + 1))
        (b.code.map fun x => { x with labels := x.labels.filter (· != l) }) := by
      intro x hx
      obtain ⟨y, hy, rfl⟩ := List.mem_map.mp hx
      intro l' hl'
      refine hb.mono hn y hy l' (mem_mentioned.mpr ((mem_mentioned.mp hl').imp_left ?_))
      exact fun hl' => (List.mem_filter.mp hl').1
    refine hdetached.modify (fun x hx l' hl' => ?_) i
    rcases mem_mentioned.mp hl' with hl' | hl'
    · rcases List.mem_append.mp hl' with hl' | hl'
      · exact hdetached x hx l' (mem_mentioned.mpr (.inl hl'))
      · obtain rfl := List.mem_singleton.mp hl'
        omega
    · exact hdetached x hx l' (mem_mentioned.mpr (.inr hl'))
  · cases h

theorem advances_insertAt (b : Body) (p : Nat) (code : List Instruction) :
    Advances b (b.insertAt p code) :=
  .of_reserve fun _ hb hc => below_append.mpr ⟨below_append.mpr
    ⟨hb.of_subset (List.take_subset p _), hc⟩, hb.of_subset (List.drop_subset p _)⟩

theorem advances_insertLabeledAt (b : Body) (p : Nat) (code : List Instruction) :
    Advances b (b.insertLabeledAt p code) := by
  unfold insertLabeledAt
  split
  · exact advances_insertAt b p code
  · next x rest hdrop =>
    refine .of_reserve fun n hb hc => ?_
    have htail : Below n (x :: rest) := hdrop ▸ hb.of_subset (List.drop_subset p _)
    obtain ⟨hx, hrest⟩ := below_cons.mp htail
    have hlabels : ∀ l ∈ x.labels, l.id < n := fun l hl => hx l (mem_mentioned.mpr (.inl hl))
    have hunlabeled : ∀ l ∈ x.unlabeled.mentioned, l.id < n :=
      fun l hl => hx l (mem_mentioned.mpr (.inr hl))
    exact below_append.mpr ⟨below_append.mpr ⟨hb.of_subset (List.take_subset p _),
      hc.inherit hlabels⟩, below_cons.mpr ⟨hunlabeled, hrest⟩⟩

theorem advances_replaceAt (b : Body) (p : Nat) (x : Instruction) :
    Advances b (b.replaceAt p x) := by
  refine .of_reserve fun n hb hx => hb.modify (fun y hy => ?_) p
  exact below_takePlace (hb y hy) (hx x List.mem_cons_self)

theorem window_subset (b : Body) (p n : Nat) : b.window p n ⊆ b.code :=
  List.Subset.trans (List.take_subset n _) (List.drop_subset p _)

theorem advances_substitute (b : Body) (p n : Nat) (code : List Instruction) :
    Advances b (b.substitute p n code) := by
  refine .of_reserve fun k hb hc => ?_
  have hwindow : Below k (b.window p n) := hb.of_subset (window_subset b p n)
  have htail : Below k (b.tailAfter p n code) :=
    below_append.mpr ⟨hc, hb.of_subset (List.drop_subset _ _)⟩
  exact below_append.mpr ⟨hb.of_subset (List.take_subset p _), htail.inherit hwindow.allLabels⟩

theorem advances_overlayAt (b : Body) (p n : Nat) (code : List Instruction) :
    Advances b (b.overlayAt p n code) := by
  refine .of_reserve fun k hb hc => ?_
  have hwindow : Below k (b.window p n) := hb.of_subset (window_subset b p n)
  exact below_append.mpr ⟨below_append.mpr ⟨hb.of_subset (List.take_subset p _),
    hwindow.overlay hc⟩, hb.of_subset (List.drop_subset _ _)⟩

end Body

end CilPatch
