import Mathlib.Data.List.Perm.Subperm
import CilPatch.Proofs.Code.Removal
import CilPatch.Proofs.Cursor.SinglePass
import CilPatch.Proofs.Cursor.Sweeps
import CilPatch.Proofs.Stack.Acceptance

/-!
# Windows that are put back together

A window may be replaced by the very instructions that were found there, in another order and with
new ones between them (`Rearranges`).  They bring their labels along.  But the labels of the window
do not wait for them: laid slot by slot, every slot keeps its labels, and where the window is
spliced out all of them go to the first of the new instructions.

So a label marks one instruction afterwards only if the instruction that brings it comes to where
the label goes anyhow (`InPlace`).  If this is so at every window, labels stay unique; if it fails
at one, a label is attached twice in the code that the sweep has passed, and the sweep does not
touch that code again (`rearranged_unique_iff`).
-/

namespace CilPatch

open Instruction

/-! ## one window -/

namespace Instruction

/-- `code` is made of instructions of the window, each used at most once, and of new ones without
labels, in any order -/
def Rearranges (window code : List Instruction) : Prop :=
  ∃ clones new, code.Perm (clones ++ new) ∧ clones.Subperm window ∧ Unlabeled new

/-- what brings a label comes to where the label goes anyhow, unless the code is too long to be laid
over the window at all -/
def InPlace : ReplaceMode → List Instruction → List Instruction → Prop
  | .pad, window, code =>
    window.length < code.length ∨ ∀ slot ∈ window.zip code, slot.2.labels ⊆ slot.1.labels
  | .splice, _, code => Unlabeled code.tail

variable {window code : List Instruction} {x y : Instruction} {l : Label}

/-- only instructions of the window bring labels -/
theorem Rearranges.mem_window (h : Rearranges window code) (hx : x ∈ code) (hl : l ∈ x.labels) :
    x ∈ window := by
  obtain ⟨clones, new, hperm, hclones, hnew⟩ := h
  rcases List.mem_append.mp (hperm.mem_iff.mp hx) with hx | hx
  · exact hclones.subset hx
  · rw [hnew x hx] at hl
    cases hl

/-- a label that is attached at most once leads to one place -/
theorem eq_of_nodup_allLabels (h : (allLabels code).Nodup) {i j : Nat} (hx : code[i]? = some x)
    (hy : code[j]? = some y) (hlx : l ∈ x.labels) (hly : l ∈ y.labels) : i = j := by
  have hu : ({ code } : Body).LabelsUnique := h
  have hi := hu.resolve_eq_some_iff.mpr ⟨x, hx, hlx⟩
  have hj := hu.resolve_eq_some_iff.mpr ⟨y, hy, hly⟩
  exact Option.some.inj (hi.symm.trans hj)

/-- a label that comes to another slot is attached there and in its own one -/
theorem Rearranges.labels_subset (hr : Rearranges window code)
    (h : (allLabels (overlay window code)).Nodup) :
    ∀ slot ∈ window.zip code, slot.2.labels ⊆ slot.1.labels := by
  intro slot hslot l hl
  obtain ⟨k, hk⟩ := List.mem_iff_getElem?.mp hslot
  obtain ⟨hold, hnew⟩ := List.getElem?_zip_eq_some.mp hk
  obtain ⟨j, hj⟩ := List.mem_iff_getElem?.mp (hr.mem_window (List.of_mem_zip hslot).2 hl)
  have hthere : (overlay window code)[k]? = some (takePlace slot.1 slot.2) := by
    rw [getElem?_overlay, hold, hnew]
    rfl
  have hown : (overlay window code)[j]? = some (takePlace slot.2 (code[j]?.getD nop)) := by
    rw [getElem?_overlay, hj]
    rfl
  obtain rfl := eq_of_nodup_allLabels h hthere hown (Label.mem_union.mpr (.inr hl))
    (Label.mem_union.mpr (.inl hl))
  rw [Option.some.inj (hold.symm.trans hj)]
  exact hl

theorem allLabels_inherit_cons (labels : List Label) (x : Instruction) (code : List Instruction) :
    allLabels (inherit labels (x :: code)) = Label.union x.labels labels ++ allLabels code :=
  allLabels_cons _ code

/-- a label that comes behind the first new instruction is attached there and to the first -/
theorem Rearranges.unlabeled_tail (hr : Rearranges window (x :: code))
    (h : (allLabels (inherit (allLabels window) (x :: code))).Nodup) : Unlabeled code := by
  intro y hy
  refine List.eq_nil_iff_forall_not_mem.mpr fun l hl => ?_
  have hwindow : l ∈ allLabels window :=
    List.mem_flatMap.mpr ⟨y, hr.mem_window (List.mem_cons_of_mem _ hy) hl, hl⟩
  rw [allLabels_inherit_cons] at h
  exact (List.nodup_append.mp h).2.2 l (Label.mem_union.mpr (.inr hwindow)) l
    (List.mem_flatMap.mpr ⟨y, hy, hl⟩) rfl

/-- the first new instruction may bring labels, for it gets all those of the window -/
theorem Rearranges.nodup_inherit (hr : Rearranges window (x :: code))
    (hw : (allLabels window).Nodup) (h : Unlabeled code) :
    (allLabels (inherit (allLabels window) (x :: code))).Nodup ∧
      allLabels (inherit (allLabels window) (x :: code)) ⊆ allLabels window := by
  rw [allLabels_inherit_cons, allLabels_of_unlabeled h, List.append_nil]
  have hx : x.labels.Sublist (allLabels window) := by
    cases hlabels : x.labels with
    | nil => exact List.nil_sublist _
    | cons l ls =>
      have hl : l ∈ x.labels := hlabels ▸ List.mem_cons_self
      have hmem := hr.mem_window List.mem_cons_self hl
      exact hlabels ▸ List.sublist_flatten_of_mem (List.mem_map_of_mem hmem)
  refine ⟨Label.nodup_union (hw.sublist hx), fun l hl => ?_⟩
  exact (Label.mem_union.mp hl).elim (fun hl => hx.subset hl) id

end Instruction

/-! ## the body around it -/

namespace Body

variable {b : Body} {code : List Instruction} {p n : Nat}

theorem LabelsUnique.nodup_window (hu : b.LabelsUnique) (p n : Nat) :
    (allLabels (b.window p n)).Nodup := by
  unfold LabelsUnique at hu
  rw [b.labels_eq p n] at hu
  exact (List.nodup_append.mp (List.nodup_append.mp hu).2.1).1

/-- a stretch that has no labels but those of the one before it -/
theorem LabelsUnique.exchanged (hu : b.LabelsUnique) (hc : (allLabels code).Nodup)
    (hs : allLabels code ⊆ allLabels (b.window p n)) :
    (allLabels (b.exchanged p n code)).Nodup := by
  unfold LabelsUnique at hu
  rw [b.labels_eq p n] at hu
  obtain ⟨hfront, hrest, hfrontRest⟩ := List.nodup_append.mp hu
  obtain ⟨-, hbehind, hwindowBehind⟩ := List.nodup_append.mp hrest
  unfold Body.exchanged
  rw [List.append_assoc, allLabels_append, allLabels_append]
  refine List.nodup_append.mpr ⟨hfront, List.nodup_append.mpr ⟨hc, hbehind, ?_⟩, ?_⟩
  · exact fun l hl => hwindowBehind l (hs hl)
  · intro l hl l' hl'
    refine hfrontRest l hl l' (List.mem_append.mpr ?_)
    exact (List.mem_append.mp hl').imp_left fun h => hs h

theorem nodup_of_exchanged (hp : p ≤ b.length)
    (h : (allLabels ((b.exchanged p n code).take (p + code.length))).Nodup) :
    (allLabels code).Nodup := by
  have hlen : (b.code.take p ++ code).length = p + code.length := by
    rw [List.length_append, List.length_take_of_le hp]
  unfold exchanged at h
  rw [← hlen, List.take_left, allLabels_append] at h
  exact (List.nodup_append.mp h).2.1

theorem code_substitute_cons (x : Instruction) :
    (b.substitute p n (x :: code)).code =
      b.exchanged p n (inherit (allLabels (b.window p n)) (x :: code)) := by
  unfold exchanged
  rw [List.append_assoc]
  rfl

/-- the code behind the first new instruction brings none of the labels that go to the first -/
theorem LabelsUnique.substitute_rearranged (hu : b.LabelsUnique)
    (hr : Rearranges (b.window p n) code) (h : Unlabeled code.tail) :
    (b.substitute p n code).LabelsUnique := by
  cases code with
  | nil => exact hu.substitute h
  | cons x code =>
    obtain ⟨hnodup, hsubset⟩ := hr.nodup_inherit (hu.nodup_window p n) h
    unfold LabelsUnique labels
    rw [code_substitute_cons]
    exact hu.exchanged hnodup hsubset

theorem inSlots_of_nodup (hr : Rearranges (b.window p n) code) (hend : p + n ≤ b.length)
    (h : (allLabels ((b.overlayAt p n code).code.take (p + n))).Nodup) :
    ∀ slot ∈ (b.window p n).zip code, slot.2.labels ⊆ slot.1.labels := by
  have hlen : (overlay (b.window p n) code).length = n := by
    rw [length_overlay, length_window hend]
  refine hr.labels_subset (b.nodup_of_exchanged (p := p) (n := n) (Nat.le_of_add_right_le hend) ?_)
  rw [hlen]
  exact h

theorem unlabeled_of_nodup (hr : Rearranges (b.window p n) code) (hp : p ≤ b.length)
    (h : (allLabels ((b.substitute p n code).code.take (p + code.length))).Nodup) :
    Unlabeled code.tail := by
  cases code with
  | nil => exact fun x hx => absurd hx List.not_mem_nil
  | cons x code =>
    refine hr.unlabeled_tail (b.nodup_of_exchanged (p := p) (n := n) hp ?_)
    rw [length_inherit, ← code_substitute_cons]
    exact h

end Body

/-! ## the sweep -/

namespace Cursor.Sweep

variable {operation : String} {patterns : List Pattern} {produce : Producer} {mode : ReplaceMode}
  {s : Sweep} {p width : Nat}

theorem labelsUnique_step (hu : s.cursor.body.LabelsUnique)
    (hr : Rearranges (s.cursor.body.window p width)
      (produce.code s.matched (s.cursor.body.window p width)))
    (hin : InPlace mode (s.cursor.body.window p width)
      (produce.code s.matched (s.cursor.body.window p width)))
    (hend : p + width ≤ s.cursor.length) :
    (s.step operation width produce mode p).cursor.body.LabelsUnique := by
  unfold step
  cases mode with
  | splice => exact hu.substitute_rearranged hr hin
  | pad =>
    dsimp only
    split
    · exact hu
    · next hfits =>
      have hslots := hin.resolve_left (by rwa [Body.length_window hend])
      show (Body.overlayAt _ _ _ _).LabelsUnique
      unfold Body.LabelsUnique
      rw [Body.labels_overlayAt hslots]
      exact hu

/-- labels are not attached twice in what has been passed if they were put in place -/
theorem inPlace_of_nodup (operation : String)
    (hr : Rearranges (s.cursor.body.window p width)
      (produce.code s.matched (s.cursor.body.window p width)))
    (hend : p + width ≤ s.cursor.length)
    (h : let s' := s.step operation width produce mode p
      (allLabels (s'.cursor.body.code.take s'.next)).Nodup) :
    InPlace mode (s.cursor.body.window p width)
      (produce.code s.matched (s.cursor.body.window p width)) := by
  unfold step at h
  cases mode with
  | pad =>
    dsimp only at h
    split at h
    · next hlong => exact .inl ((Body.length_window hend).symm ▸ hlong)
    · exact .inr (Body.inSlots_of_nodup hr hend h)
  | splice => exact Body.unlabeled_of_nodup hr (Nat.le_of_add_right_le hend) h

/-- **A sweep that puts windows back together** keeps labels unique if it puts each of them in
place, and only then. -/
theorem labelsUnique_run_iff (hne : patterns ≠ []) (hu : s.cursor.body.LabelsUnique)
    (hr : Throughout operation patterns produce mode Rearranges s) :
    (run operation patterns produce mode hne s).cursor.body.LabelsUnique ↔
      Throughout operation patterns produce mode (InPlace mode) s := by
  induction s using run.induct operation patterns produce mode hne with
  | case1 s hnone =>
    rw [run_of_locate_eq_none hnone]
    exact ⟨fun _ => .done hnone, fun _ => hu⟩
  | case2 s p hp ih =>
    obtain ⟨-, hend, -⟩ := locate_eq_some hp hne
    obtain ⟨hwindow, hrest⟩ := (throughout_iff hp).mp hr
    rw [run_of_locate_eq_some hp, throughout_iff hp]
    constructor
    · intro hrun
      have hin : InPlace mode (s.cursor.body.window p patterns.length)
          (produce.code s.matched (s.cursor.body.window p patterns.length)) := by
        refine inPlace_of_nodup operation hwindow hend ?_
        -- what has been passed with this window is the front of the code in the end
        dsimp only
        rw [← take_run hne]
        exact hrun.sublist ((List.take_sublist _ _).flatMap _)
      exact ⟨hin, (ih (labelsUnique_step hu hwindow hin hend) hrest).mp hrun⟩
    · rintro ⟨hin, hafter⟩
      exact (ih (labelsUnique_step hu hwindow hin hend) hrest).mpr hafter

end Cursor.Sweep

open Cursor

/-- **Putting windows back together keeps labels unique exactly where each of them is put in
place.**  Otherwise some label is attached twice, and the body is refused for it wherever it is
looked at. -/
theorem rearranged_unique_iff (c : Cursor) {patterns : List Pattern} (hne : patterns ≠ [])
    {produce : Producer} (mode : ReplaceMode) (hu : c.body.LabelsUnique)
    (hr : Sweep.Throughout "replace_all_with" patterns produce mode Rearranges { cursor := c }) :
    let b := (c.replaceAllWith patterns produce mode).2.body
    let inPlace :=
      Sweep.Throughout "replace_all_with" patterns produce mode (InPlace mode) { cursor := c }
    (b.LabelsUnique ↔ inPlace) ∧
      ∀ v : Verifier, (∃ l first second,
          v.verify b = .error (.illFormed (.duplicateLabel l first second))) ↔
        b.hasRegions = false ∧ ¬inPlace := by
  intro b inPlace
  have hbody : b = _ := (replaceMatches_eq "replace_all_with" c produce mode hne).2
  have hunique : b.LabelsUnique ↔ inPlace := by
    rw [hbody]
    exact Sweep.labelsUnique_run_iff hne hu hr
  refine ⟨hunique, fun v => ?_⟩
  rw [v.verify_duplicateLabel_iff, hunique]

/-- a function that turns windows round puts them back together -/
theorem rearranges_reverse (window : List Instruction) : Rearranges window window.reverse := by
  refine ⟨window.reverse, [], ?_, ?_, fun x hx => absurd hx List.not_mem_nil⟩
  · rw [List.append_nil]
  · exact window.reverse_perm.subperm

/-- two instructions that may change places, with a label on the second -/
def markedSecond : Body := .ofCode
  [.nop, { opcode := .nop, labels := [⟨0⟩] }, { opcode := .ret }]

/-- Spliced, the label goes to the first of the two, which is the one that brings it; slot by slot
it stays with the second. -/
theorem rearranged_unique_iff_markedSecond :
    let patterns := [Pattern.opcode .nop, .opcode .nop]
    let c := Cursor.ofBody markedSecond
    let turn : Producer := .uniform List.reverse
    patterns ≠ [] ∧ c.body.LabelsUnique ∧
      (∀ mode, Sweep.Throughout "replace_all_with" patterns turn mode Rearranges
        { cursor := c }) ∧
      (c.replaceAllWith patterns turn .splice).2.body.LabelsUnique ∧
      ¬(c.replaceAllWith patterns turn .pad).2.body.LabelsUnique := by
  intro patterns c turn
  have hne : patterns ≠ [] := List.cons_ne_nil _ _
  have hu : c.body.LabelsUnique := by
    unfold Body.LabelsUnique
    decide
  have hr : ∀ mode, Sweep.Throughout "replace_all_with" patterns turn mode Rearranges
      { cursor := c } := fun mode =>
    Sweep.throughout_of_forall hne (fun _ window _ => rearranges_reverse window) _
  refine ⟨hne, hu, hr, ?_, ?_⟩
  · refine (rearranged_unique_iff c hne .splice hu (hr _)).1.mpr ?_
    refine .next (p := 0) rfl ?_ (.done rfl)
    exact List.forall_mem_singleton.mpr rfl
  · rw [(rearranged_unique_iff c hne .pad hu (hr _)).1]
    intro h
    obtain ⟨hin, -⟩ := (Sweep.throughout_iff (p := 0) rfl).mp h
    have hslots := hin.resolve_left (by decide)
    exact absurd (hslots _ List.mem_cons_self) (by decide)

/-- With the label on the first of the two it is attached to both of them in the end, in either way
of replacing. -/
theorem turned_round_attached_twice :
    let patterns := [Pattern.opcode .nop, .opcode .nop]
    markedStart.LabelsUnique ∧ (∀ window, Rearranges window window.reverse) ∧
      ∀ mode : ReplaceMode,
        let b := ((Cursor.ofBody markedStart).replaceAllWith patterns (.uniform List.reverse)
          mode).2.body
        ¬b.LabelsUnique ∧
          ({} : Verifier).verify b = .error (.illFormed (.duplicateLabel ⟨0⟩ 0 1)) := by
  intro patterns
  refine ⟨?_, rearranges_reverse, fun mode => ?_⟩
  · unfold Body.LabelsUnique
    decide
  · intro b
    have hb : b = .ofCode [{ opcode := .nop, labels := [⟨0⟩] },
        { opcode := .nop, labels := [⟨0⟩] }, { opcode := .ret }] := by
      have hbody : b = _ := (replaceMatches_eq "replace_all_with" (.ofBody markedStart)
        (.uniform List.reverse) mode (List.cons_ne_nil _ _)).2
      rw [hbody]
      cases mode <;>
        rw [Sweep.run_of_locate_eq_some (p := 0) rfl, Sweep.run_of_locate_eq_none rfl] <;> rfl
    rw [hb]
    refine ⟨?_, by decide +kernel⟩
    unfold Body.LabelsUnique
    decide

end CilPatch
