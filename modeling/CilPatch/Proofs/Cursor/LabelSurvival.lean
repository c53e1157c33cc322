import CilPatch.Cursor.Build
import CilPatch.Cursor.Command
import CilPatch.Proofs.Code.Splice

/-!
# Labels survive a session

`Cursor.Survives` compares a cursor with what some operations have made of it: each label is still
attached at most once, the regions are the same, and a label that is gone is named in a warning that
was recorded on the way.  Moves change neither code nor labels (`Moved`); an edit either only
rearranges the labels (`Survives.of_perm`) or removes the end of the body (`survives_substitute`).

`Command.survives` covers every operation whose new code carries no labels, and `labels_survive`
whole sessions.
-/

namespace CilPatch

namespace Cursor

open Instruction

variable {c c' c'' : Cursor}

/-- one of the warnings says that the label is gone -/
def DroppedIn (new : List Warning) (l : Label) : Prop :=
  ∃ w ∈ new, ∃ ls, w.cause = .dropped ls ∧ l ∈ ls

structure Survives (c c' : Cursor) : Prop where
  unique : c'.body.LabelsUnique
  regions : c'.body.regions = c.body.regions
  kept : ∃ new, c'.warnings = c.warnings ++ new ∧
    ∀ l ∈ c.body.labels, l ∈ c'.body.labels ∨ DroppedIn new l

theorem DroppedIn.append_left {new : List Warning} {l : Label} (h : DroppedIn new l)
    (more : List Warning) : DroppedIn (new ++ more) l := by
  obtain ⟨w, hw, hc⟩ := h
  exact ⟨w, List.mem_append_left _ hw, hc⟩

theorem DroppedIn.append_right {new : List Warning} {l : Label} (h : DroppedIn new l)
    (more : List Warning) : DroppedIn (more ++ new) l := by
  obtain ⟨w, hw, hc⟩ := h
  exact ⟨w, List.mem_append_right _ hw, hc⟩

theorem Survives.trans (h : Survives c c') (h' : Survives c' c'') : Survives c c'' where
  unique := h'.unique
  regions := h'.regions.trans h.regions
  kept := by
    obtain ⟨new, hw, hk⟩ := h.kept
    obtain ⟨new', hw', hk'⟩ := h'.kept
    refine ⟨new ++ new', ?_, fun l hl => ?_⟩
    · rw [hw', hw, List.append_assoc]
    · rcases hk l hl with hl | hl
      · exact (hk' l hl).imp_right fun h => h.append_right new
      · exact .inr (hl.append_left new')

/-- operations that keep all labels, in whatever order -/
theorem Survives.of_perm (hu : c.body.LabelsUnique) (hl : c'.body.labels.Perm c.body.labels)
    (hr : c'.body.regions = c.body.regions) {new : List Warning}
    (hw : c'.warnings = c.warnings ++ new) : Survives c c' where
  unique := hl.nodup_iff.mpr hu
  regions := hr
  kept := ⟨new, hw, fun _ h => .inl (hl.mem_iff.mpr h)⟩

/-! ## moves -/

/-- nothing but the position has changed, and warnings may have been recorded -/
def Moved (c c' : Cursor) : Prop := c'.body = c.body ∧ ∃ new, c'.warnings = c.warnings ++ new

theorem Moved.survives (h : Moved c c') (hu : c.body.LabelsUnique) : Survives c c' := by
  obtain ⟨hb, new, hw⟩ := h
  exact .of_perm hu (hb ▸ .refl _) (by rw [hb]) hw

theorem Moved.trans (h : Moved c c') (h' : Moved c' c'') : Moved c c'' := by
  obtain ⟨hb, new, hw⟩ := h
  obtain ⟨hb', new', hw'⟩ := h'
  exact ⟨hb'.trans hb, new ++ new', by rw [hw', hw, List.append_assoc]⟩

theorem moved_to (c : Cursor) (q : Option Nat) : Moved c { c with position := q } :=
  ⟨rfl, [], (List.append_nil _).symm⟩

theorem moved_settle (c : Cursor) (i : Nat) : Moved c (c.settle i) := moved_to c _

theorem moved_warn (c : Cursor) (operation : String) (cause : Warning.Cause) :
    Moved c (c.warn operation cause) := ⟨rfl, _, rfl⟩

theorem moved_lose (c : Cursor) (operation : String) (cause : Warning.Cause) :
    Moved c (c.lose operation cause) := ⟨rfl, _, rfl⟩

theorem moved_seekAs (operation : String) (c : Cursor) (i : Nat) :
    Moved c (seekAs operation c i) := by
  unfold seekAs
  split
  · exact moved_to c _
  · exact moved_lose c _ _

theorem moved_finish (c : Cursor) : Moved c c.finish := by
  unfold finish
  split
  · exact moved_lose c _ _
  · exact moved_seekAs _ c _

theorem moved_advance (c : Cursor) (delta : Int) : Moved c (c.advance delta) := by
  unfold advance
  split
  · exact moved_warn c _ _
  · dsimp only
    split
    · exact moved_to c _
    · exact moved_lose c _ _

theorem moved_searchAs (operation : String) (c : Cursor) (patterns : List Pattern)
    (mode : SearchMode) : Moved c (searchAs operation c patterns mode) := by
  unfold searchAs
  split
  · exact moved_lose c _ _
  · split
    · exact moved_warn c _ _
    · split
      · exact moved_to c _
      · exact moved_lose c _ _

/-! ## edits -/

theorem survives_defineLabel (hu : c.body.LabelsUnique) : Survives c c.defineLabel.2 :=
  .of_perm hu (.refl _) rfl (List.append_nil _).symm

theorem survives_markLabel (hu : c.body.LabelsUnique) (l : Label) :
    Survives c (c.markLabel l) := by
  unfold markLabel
  split
  · exact (moved_warn c _ _).survives hu
  · split
    · next body hbody =>
      obtain ⟨hperm, hr⟩ := Body.labels_markLabel hbody
      refine ⟨?_, hr, [], (List.append_nil _).symm, fun l' hl' => .inl ?_⟩
      · refine hperm.nodup_iff.mpr (List.nodup_cons.mpr ⟨?_, List.Nodup.filter _ hu⟩)
        simp
      · refine hperm.mem_iff.mpr ?_
        by_cases e : l' = l
        · exact e ▸ List.mem_cons_self
        · exact List.mem_cons_of_mem _ (List.mem_filter.mpr ⟨hl', bne_iff_ne.mpr e⟩)
    · exact (moved_warn c _ _).survives hu

theorem survives_insertAs (operation : String)
    (insert : Body → Nat → List Instruction → Body) {code : List Instruction}
    (hu : c.body.LabelsUnique)
    (hl : ∀ p, code ≠ [] → (insert c.body p code).labels = c.body.labels)
    (hr : ∀ p, (insert c.body p code).regions = c.body.regions) :
    Survives c (insertAs operation insert c code) := by
  unfold insertAs
  split
  · exact (moved_warn c _ _).survives hu
  · next p hp =>
    split
    · exact (moved_warn c _ _).survives hu
    · next hne =>
      have hne' : code ≠ [] := fun e => hne (List.isEmpty_iff.mpr e)
      exact .of_perm hu (.of_eq (hl p hne')) (hr p) (List.append_nil _).symm

theorem survives_replace {x : Instruction} (hu : c.body.LabelsUnique) (hx : x.labels = []) :
    Survives c (c.replace x) := by
  unfold replace
  split
  · exact (moved_warn c _ _).survives hu
  · exact .of_perm hu (.of_eq (Body.labels_replaceAt hx)) rfl (List.append_nil _).symm

/-- a stretch goes, with its labels only if nothing comes behind it, and then a warning says so -/
theorem survives_substitute (operation : String) {code : List Instruction}
    (hu : c.body.LabelsUnique) (hx : Unlabeled code) (p n : Nat) :
    Survives c (substitute operation c p n code) := by
  by_cases he : c.body.tailAfter p n code = []
  · have hsplit := Body.labels_substitute_end he
    refine ⟨?_, rfl, _, List.append_assoc _ _ _, fun l hl => ?_⟩
    · unfold Body.LabelsUnique at hu
      rw [hsplit] at hu
      exact (List.nodup_append.mp hu).1
    · rw [hsplit] at hl
      refine (List.mem_append.mp hl).imp_right fun hl => ?_
      rw [he]
      refine DroppedIn.append_right ?_ _
      have hne : (allLabels (c.body.window p n)).isEmpty = false := by
        rw [List.isEmpty_eq_false_iff]
        exact List.ne_nil_of_mem hl
      refine ⟨⟨operation, .dropped (allLabels (c.body.window p n))⟩, ?_, _, rfl, hl⟩
      unfold droppedWarning
      rw [hne]
      exact List.mem_cons_self
  · exact .of_perm hu (Body.labels_substitute hu hx he) rfl (List.append_assoc _ _ _)

theorem survives_removeAs (operation : String) {code : List Instruction}
    (hu : c.body.LabelsUnique) (hx : Unlabeled code) (n : Nat) :
    Survives c (removeAs operation c n code) := by
  unfold removeAs
  split
  · exact (moved_warn c _ _).survives hu
  · next p hp =>
    split
    · exact (moved_warn c _ _).survives hu
    · split
      · exact (moved_warn c _ _).survives hu
      · have h := survives_substitute operation hu hx p n
        exact h.trans ((moved_settle _ p).survives h.unique)

/-! ## bulk replacement -/

namespace Sweep

variable {s : Sweep} {produce : Producer}

theorem survives_step (operation : String) (width : Nat) (mode : ReplaceMode)
    (hu : s.cursor.body.LabelsUnique) (hx : ∀ k w, Unlabeled (produce.code k w)) (p : Nat) :
    Survives s.cursor (s.step operation width produce mode p).cursor := by
  unfold step
  cases mode with
  | pad =>
    dsimp only
    split
    · exact (moved_warn s.cursor _ _).survives hu
    · refine .of_perm hu (.of_eq ?_) rfl (List.append_nil _).symm
      exact Body.labels_overlayAt (hx _ _).labels_subset
  | splice => exact survives_substitute operation hu (hx _ _) p _

/-- **A sweep keeps the labels**, by induction on the code that is left to search. -/
theorem survives_run (operation : String) (patterns : List Pattern) (mode : ReplaceMode)
    (hne : patterns ≠ []) (hu : s.cursor.body.LabelsUnique)
    (hx : ∀ k w, Unlabeled (produce.code k w)) :
    Survives s.cursor (run operation patterns produce mode hne s).cursor := by
  fun_induction run operation patterns produce mode hne s with
  | case1 s h => exact (moved_to s.cursor s.cursor.position).survives hu
  | case2 s p h ih =>
    have hstep := survives_step operation patterns.length mode hu hx p
    exact hstep.trans (ih hstep.unique)

end Sweep

/-- when the sweep has ended nothing is edited any more -/
theorem moved_replaceMatches (operation : String) (c : Cursor) {patterns : List Pattern}
    (produce : Producer) (mode : ReplaceMode) (hne : patterns ≠ []) :
    Moved (Sweep.run operation patterns produce mode hne { cursor := c }).cursor
      (replaceMatches operation c patterns produce mode).2 := by
  unfold replaceMatches
  rw [dif_neg hne]
  generalize Sweep.run operation patterns produce mode hne { cursor := c } = s
  have hwarn : Moved s.cursor (if s.matched = 0 then
      s.cursor.warn operation (.noMatch (Pattern.windowText patterns)) else s.cursor) := by
    split
    · exact moved_warn s.cursor _ _
    · exact moved_to s.cursor s.cursor.position
  dsimp only
  split
  · exact hwarn.trans (moved_settle _ _)
  · exact hwarn

theorem survives_replaceMatches (operation : String) (patterns : List Pattern)
    {produce : Producer} (mode : ReplaceMode) (hu : c.body.LabelsUnique)
    (hx : ∀ k w, Unlabeled (produce.code k w)) :
    Survives c (replaceMatches operation c patterns produce mode).2 := by
  by_cases hne : patterns = []
  · unfold replaceMatches
    rw [dif_pos hne]
    exact (moved_warn c _ _).survives hu
  · have hrun := Sweep.survives_run (s := { cursor := c }) operation patterns mode hne hu hx
    exact hrun.trans ((moved_replaceMatches operation c produce mode hne).survives hrun.unique)

end Cursor

/-! ## sessions -/

/-- the operation inserts no code with labels of its own -/
def Command.Unlabeled : Command → Prop
  | .insertBefore code | .insertBeforeLabeled code | .insertAfter code | .replaceMany _ code
  | .replaceAll _ code _ => Instruction.Unlabeled code
  | .replace x => x.labels = []
  | .replaceAllWith _ produce _ => ∀ k w, Instruction.Unlabeled (produce.code k w)
  | _ => True

open Cursor

/-- **Every operation keeps the labels**, or says which ones it has dropped. -/
theorem Command.survives {c : Cursor} {k : Command} (hu : c.body.LabelsUnique)
    (hk : k.Unlabeled) : Survives c (k.run c) := by
  cases k with
  | start => exact (moved_seekAs _ c _).survives hu
  | finish => exact (moved_finish c).survives hu
  | seek i => exact (moved_seekAs _ c i).survives hu
  | advance delta => exact (moved_advance c delta).survives hu
  | find pattern mode => exact (moved_searchAs "find" c [pattern] mode).survives hu
  | findWindow patterns mode => exact (moved_searchAs _ c _ mode).survives hu
  | defineLabel => exact survives_defineLabel hu
  | markLabel l => exact survives_markLabel hu l
  | insertBefore code =>
    exact survives_insertAs _ Body.insertAt hu (fun p _ => Body.labels_insertAt hk) fun p => rfl
  | insertBeforeLabeled code =>
    exact survives_insertAs _ Body.insertLabeledAt hu
      (fun p hne => Body.labels_insertLabeledAt hu hk hne)
      fun p => Body.regions_insertLabeledAt c.body p code
  | insertAfter code =>
    exact survives_insertAs _ (fun b p code => b.insertAt (p + 1) code) hu
      (fun p _ => Body.labels_insertAt hk) fun p => rfl
  | replace x => exact survives_replace hu hk
  | delete => exact survives_removeAs _ hu (fun x hx => by cases hx) 1
  | deleteMany n => exact survives_removeAs _ hu (fun x hx => by cases hx) n
  | replaceMany n code => exact survives_removeAs _ hu hk n
  | replaceAll patterns code mode =>
    exact survives_replaceMatches _ patterns mode hu fun _ _ => hk
  | replaceAllWith patterns produce mode =>
    exact survives_replaceMatches _ patterns mode hu hk

namespace Command

theorem runAll_append (ks ks' : List Command) (c : Cursor) :
    runAll (ks ++ ks') c = runAll ks' (runAll ks c) := List.foldl_append

theorem survives_runAll {c : Cursor} {ks : List Command} (hu : c.body.LabelsUnique)
    (hk : ∀ k ∈ ks, k.Unlabeled) : Survives c (runAll ks c) := by
  induction ks generalizing c with
  | nil => exact (moved_to c c.position).survives hu
  | cons k ks ih =>
    have hstep := survives hu (hk k List.mem_cons_self)
    exact hstep.trans (ih hstep.unique fun k' hk' => hk k' (List.mem_cons_of_mem _ hk'))

end Command

/-- **Labels survive a session** whose new code carries none.  Every operation keeps each label
attached at most once and the regions as they are, and drops a label only with a warning about it.
So where no warning was recorded a strict build succeeds, and an instruction of the result that
refers to a label of the original code still finds it. -/
theorem labels_survive {b : Body} (v : Verifier) {ks : List Command} (hb : b.LabelsUnique)
    (hk : ∀ k ∈ ks, k.Unlabeled) :
    (∀ before k after, ks = before ++ k :: after →
      Survives (Command.runAll before (.ofBody b v))
        (Command.runAll (before ++ [k]) (.ofBody b v))) ∧
      ((Command.runAll ks (.ofBody b v)).warnings = [] →
        ∃ r, (Command.runAll ks (.ofBody b v)).build { strict := true } = .ok r ∧
          ∀ i x l, r.instruction? i = some x → l ∈ x.targets → (∃ j, b.Attached l j) →
            ∃ j, r.resolve l = some j ∧ r.Attached l j) := by
  constructor
  · rintro before k after rfl
    have hbefore := Command.survives_runAll (c := .ofBody b v) hb
      fun k' hk' => hk k' (List.mem_append_left _ hk')
    rw [Command.runAll_append]
    exact Command.survives hbefore.unique
      (hk k (List.mem_append_right _ List.mem_cons_self))
  · intro hw
    have hall := Command.survives_runAll (c := .ofBody b v) hb hk
    refine ⟨(Command.runAll ks (.ofBody b v)).body, ?_, fun i x l _ _ hat => ?_⟩
    · unfold Cursor.build
      rw [hw]
      rfl
    · refine Body.resolve_of_mem_labels ?_
      obtain ⟨new, hnew, hkept⟩ := hall.kept
      rw [hw] at hnew
      obtain ⟨-, rfl⟩ := List.append_eq_nil_iff.mp hnew.symm
      refine (hkept l (Body.mem_labels.mpr hat)).resolve_right ?_
      rintro ⟨w, hmem, -⟩
      cases hmem

/-- a jump over one instruction to a marked one -/
def markedJump : Body := .ofCode
  [{ opcode := .br, operand := .label ⟨0⟩ },
   { opcode := .nop },
   { opcode := .nop, labels := [⟨0⟩] },
   { opcode := .ret }]

/-- new code in front of the marked instruction, which then goes as the others of its kind do -/
def markedJumpEdit : List Command :=
  [.find (.labeled ⟨0⟩) .fromStart,
   .insertBeforeLabeled [{ opcode := .ldnull }, { opcode := .pop }],
   .replaceAll [.opcode .nop] [] .splice]

theorem labels_survive_markedJump :
    markedJump.LabelsUnique ∧ (∀ k ∈ markedJumpEdit, k.Unlabeled) ∧
      ∃ r, (Command.runAll markedJumpEdit (.ofBody markedJump {})).build { strict := true } =
          .ok r ∧
        ∀ i x l, r.instruction? i = some x → l ∈ x.targets → (∃ j, markedJump.Attached l j) →
          ∃ j, r.resolve l = some j ∧ r.Attached l j := by
  have hb : markedJump.LabelsUnique := by
    unfold Body.LabelsUnique
    decide
  have hk : ∀ k ∈ markedJumpEdit, k.Unlabeled := by
    intro k hk
    rcases List.mem_cons.mp hk with rfl | hk
    · exact trivial
    · rcases List.mem_cons.mp hk with rfl | hk
      · show ∀ x ∈ _, _
        decide
      · rcases List.mem_cons.mp hk with rfl | hk
        · show ∀ x ∈ _, _
          decide
        · cases hk
  have hw : (Command.runAll markedJumpEdit (.ofBody markedJump {})).warnings = [] := by
    decide +kernel
  exact ⟨hb, hk, (labels_survive {} hb hk).2 hw⟩

end CilPatch
