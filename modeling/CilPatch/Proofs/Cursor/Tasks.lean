import CilPatch.Cursor.Command
import CilPatch.Proofs.Code.Padding
import CilPatch.Proofs.Code.Removal
import CilPatch.Proofs.Cursor.Bounds
import CilPatch.Proofs.Cursor.Removal
import CilPatch.Proofs.Cursor.SinglePass

/-!
# Edits at the cursor, as tasks

What an edit at the cursor is asked to do does not depend on the body (`Task`): to attach a label,
to put in new code, to exchange one instruction, or to remove some and put others in their place.
When it has nothing to do, or cannot do all of it, it is skipped (`Task.Skipped`), and then the
body, the place and all earlier warnings are left as they are (`Command.run_of_skipped`).  Otherwise
all of it is done (`Task.Performed`, `Command.done_of_not_skipped`); nothing lies between.
-/

namespace CilPatch

open Instruction

/-! ## tasks -/

/-- what is to be done at the place of the cursor -/
inductive Task where
  | mark (label : Label)
  /-- `behind` instructions behind the place -/
  | insert (behind : Nat) (code : List Instruction)
  | exchange (instruction : Instruction)
  | remove (count : Nat) (code : List Instruction)

namespace Task

/-- where the change begins, counted from the place of the cursor -/
def offset : Task → Nat
  | insert behind _ => behind
  | _ => 0

/-- how many instructions go -/
def count : Task → Nat
  | exchange _ => 1
  | remove n _ => n
  | _ => 0

/-- what comes -/
def code : Task → List Instruction
  | insert _ code | remove _ code => code
  | exchange x => [x]
  | mark _ => []

def isRemoval : Task → Bool
  | remove .. => true
  | _ => false

/-- at position `p` of a body of this length there is nothing to do, or more than can be done -/
def Idle (length p : Nat) : Task → Prop
  | mark _ | exchange _ => False
  | insert _ code => code = []
  | remove n _ => n = 0 ∨ length < p + n

/-- there is no place to do it at, or nothing to do there -/
def Skipped (t : Task) (c : Cursor) : Prop :=
  match c.position with
  | none => True
  | some p => t.Idle c.length p

theorem skipped_iff {t : Task} {c : Cursor} :
    t.Skipped c ↔ ∀ p, c.position = some p → t.Idle c.length p := by
  unfold Skipped
  cases c.position with
  | none => exact ⟨fun _ p hp => (nomatch hp), fun _ => trivial⟩
  | some p => exact ⟨fun h q hq => Option.some.inj hq ▸ h, fun h => h p rfl⟩

theorem not_skipped_iff {t : Task} {c : Cursor} :
    ¬t.Skipped c ↔ ∃ p, c.position = some p ∧ ¬t.Idle c.length p := by
  rw [skipped_iff]
  push Not
  rfl

/-- all that was to be done at position `p` of `b` has been done.

What stood in the body and what has come are the same apart from their labels: those that come with
new code are there, others may have moved. -/
structure Performed (t : Task) (p : Nat) (b b' : Body) : Prop where
  code_eq : b'.code.map unlabeled = (b.exchanged (p + t.offset) t.count t.code).map unlabeled
  labels_subset : ∀ i x, t.code[i]? = some x →
    ∃ y, b'.instruction? (p + t.offset + i) = some y ∧ x.labels ⊆ y.labels
  attached_iff : ∀ l, t = .mark l → ∀ i, b'.Attached l i ↔ i = p
  regions_eq : b'.regions = b.regions

end Task

/-! ## bodies -/

namespace Body

variable {b : Body} {code : List Instruction} {p n : Nat}

theorem performed_insertAt {behind : Nat} (h : p + behind ≤ b.length) (code : List Instruction) :
    (Task.insert behind code).Performed p b (b.insertAt (p + behind) code) where
  code_eq := rfl
  labels_subset i x hx := by
    refine ⟨x, ?_, List.Subset.refl _⟩
    exact (getElem?_exchanged_inside (n := 0) (List.getElem?_eq_some_iff.mp hx).1 h).trans hx
  attached_iff l hl := nomatch hl
  regions_eq := rfl

theorem labels_subset_inherit (labels : List Label) {i : Nat} {x : Instruction}
    (hx : code[i]? = some x) : ∃ y, (inherit labels code)[i]? = some y ∧ x.labels ⊆ y.labels := by
  cases code with
  | nil => cases hx
  | cons z code =>
    cases i with
    | zero =>
      cases hx
      exact ⟨_, rfl, fun l hl => Label.mem_union.mpr (.inl hl)⟩
    | succ i => exact ⟨x, hx, List.Subset.refl _⟩

/-- apart from labels, the code after an exchange is read off the code without labels -/
theorem map_unlabeled_exchanged (b : Body) (p n : Nat) (code : List Instruction) :
    (b.exchanged p n code).map unlabeled = (b.code.map unlabeled).take p ++ code.map unlabeled ++
      (b.code.map unlabeled).drop (p + n) := by
  unfold exchanged
  rw [List.map_append, List.map_append, List.map_take, List.map_drop]

/-- new code that takes labels over is put in as any other, into a body that has lost them -/
theorem performed_insertLabeledAt (h : p < b.length) (code : List Instruction) :
    (Task.insert 0 code).Performed p b (b.insertLabeledAt p code) := by
  have hcode : (b.insertLabeledAt p code).code = _ :=
    code_insertLabeledAt (List.getElem?_eq_getElem h)
  generalize (b.code[p]).labels = labels at hcode
  have hbare : ({ b with code := b.code.modify p unlabeled } : Body).code.map unlabeled =
      b.code.map unlabeled := List.map_modify_of_eq (f := unlabeled) (fun _ => rfl) _ p
  have hle : p + 0 ≤ ({ b with code := b.code.modify p unlabeled } : Body).length := by
    rw [length_modify_unlabeled]
    exact Nat.le_of_lt h
  have hperformed := performed_insertAt hle (inherit labels code)
  constructor
  case code_eq =>
    have hmap := hperformed.code_eq
    rw [map_unlabeled_exchanged, hbare] at hmap
    rw [hcode, map_unlabeled_exchanged]
    refine hmap.trans ?_
    show _ ++ (inherit labels code).map unlabeled ++ _ = _
    rw [map_unlabeled_inherit]
    rfl
  case labels_subset =>
    intro i x hx
    obtain ⟨y, hy, hxy⟩ := labels_subset_inherit labels hx
    obtain ⟨z, hz, hyz⟩ := hperformed.labels_subset i y hy
    refine ⟨z, ?_, List.Subset.trans hxy hyz⟩
    unfold instruction? at hz ⊢
    rw [hcode]
    exact hz
  case attached_iff => exact fun l hl => nomatch hl
  case regions_eq => exact regions_insertLabeledAt b p code

theorem performed_replaceAt (h : p < b.length) (x : Instruction) :
    (Task.exchange x).Performed p b (b.replaceAt p x) where
  code_eq := by
    have hsplit : b.code.modify p (·.takePlace x) =
        b.code.take p ++ [takePlace b.code[p] x] ++ b.code.drop (p + 1) := by
      rw [List.modify_eq_take_cons_drop h, List.append_assoc]
      rfl
    show (b.code.modify p (·.takePlace x)).map unlabeled = _
    rw [hsplit, map_unlabeled_exchanged, List.map_append, List.map_append, List.map_take,
      List.map_drop]
    rfl
  labels_subset i y hy := by
    cases i with
    | succ i => cases hy
    | zero =>
      cases hy
      refine ⟨takePlace b.code[p] x, ?_, fun l hl => Label.mem_union.mpr (.inr hl)⟩
      show (b.code.modify p (·.takePlace x))[p]? = _
      rw [List.getElem?_modify_eq, List.getElem?_eq_getElem h]
      rfl
  attached_iff l hl := nomatch hl
  regions_eq := rfl

theorem performed_substitute (h : p + n ≤ b.length) (code : List Instruction) :
    (Task.remove n code).Performed p b (b.substitute p n code) where
  code_eq := by
    rw [code_substitute (Nat.le_of_add_right_le h), List.map_modify_of_eq]
    · rfl
    · exact fun _ => rfl
  labels_subset i x hx := by
    have hp : p ≤ b.length := Nat.le_of_add_right_le h
    have hthere : (b.exchanged p n code)[p + i]? = some x :=
      (getElem?_exchanged_inside (List.getElem?_eq_some_iff.mp hx).1 hp).trans hx
    refine ⟨_, (instruction?_substitute hp (p + i)).trans (congrArg _ hthere), ?_⟩
    dsimp only
    split
    · exact fun l hl => mem_labels_receive.mpr (.inl hl)
    · exact List.Subset.refl _
  attached_iff l hl := nomatch hl
  regions_eq := rfl

theorem performed_markLabel {b' : Body} {l : Label} (h : b.markLabel p l = .ok b') :
    (Task.mark l).Performed p b b' := by
  unfold markLabel at h
  split at h
  · next hp =>
    cases h
    constructor
    case code_eq =>
      show (List.modify _ p _).map unlabeled = _
      rw [List.map_modify_of_eq, List.map_map, map_unlabeled_exchanged]
      · show b.code.map unlabeled = _ ++ [] ++ _
        rw [List.append_nil]
        exact (List.take_append_drop _ _).symm
      · exact fun _ => rfl
    case labels_subset => exact fun i x hx => nomatch hx
    case attached_iff =>
      rintro _ ⟨⟩ i
      unfold Attached instruction?
      dsimp only
      rw [List.getElem?_modify, List.getElem?_map]
      constructor
      · rintro ⟨y, hy, hl⟩
        obtain ⟨detached, hdetached, rfl⟩ := Option.map_eq_some_iff.mp hy
        obtain ⟨x, -, rfl⟩ := Option.map_eq_some_iff.mp hdetached
        -- anywhere else the label has been detached and none has come
        by_contra hne
        rw [if_neg fun e => hne e.symm] at hl
        simp at hl
      · rintro rfl
        rw [List.getElem?_eq_getElem hp]
        exact ⟨_, rfl, by simp⟩
    case regions_eq => rfl
  · cases h

end Body

/-! ## edits at the cursor -/

/-- the warning says what came of labels, and not that something was left undone -/
def Warning.Cause.aboutLabels : Cause → Bool
  | moved .. | dropped _ => true
  | _ => false

namespace Cursor

variable {c : Cursor}

theorem insertAs_of_skipped (operation : String) (insert : Body → Nat → List Instruction → Body)
    {behind : Nat} {code : List Instruction} (h : (Task.insert behind code).Skipped c) :
    ∃ cause, cause.aboutLabels = false ∧
      insertAs operation insert c code = c.warn operation cause := by
  unfold insertAs
  cases hp : c.position with
  | none => exact ⟨_, rfl, rfl⟩
  | some p =>
    obtain rfl : code = [] := Task.skipped_iff.mp h p hp
    exact ⟨_, rfl, rfl⟩

theorem insertAs_eq (operation : String) (insert : Body → Nat → List Instruction → Body)
    {p : Nat} {code : List Instruction} (hp : c.position = some p) (hne : code ≠ []) :
    insertAs operation insert c code =
      { c with body := insert c.body p code, position := some (p + code.length) } := by
  unfold insertAs
  rw [hp]
  show (if code.isEmpty = true then _ else _ : Cursor) = _
  rw [if_neg fun he => hne (List.isEmpty_iff.mp he)]

theorem removeAs_of_skipped (operation : String) {n : Nat} {code : List Instruction}
    (h : (Task.remove n code).Skipped c) :
    ∃ cause, cause.aboutLabels = false ∧ removeAs operation c n code = c.warn operation cause := by
  unfold removeAs
  cases hp : c.position with
  | none => exact ⟨_, rfl, rfl⟩
  | some p =>
    have hidle : n = 0 ∨ c.length < p + n := Task.skipped_iff.mp h p hp
    dsimp only
    split
    · exact ⟨_, rfl, rfl⟩
    · next hn =>
      rw [if_pos (hidle.resolve_left hn)]
      exact ⟨_, rfl, rfl⟩

/-- a removal records nothing but what comes of labels -/
theorem warnings_substitute (operation : String) (c : Cursor) (p n : Nat)
    (code : List Instruction) : ∃ new,
      (substitute operation c p n code).warnings = c.warnings ++ new ∧
        ∀ w ∈ new, w.operation = operation ∧ w.cause.aboutLabels = true := by
  refine ⟨_, List.append_assoc .., List.forall_mem_append.mpr ⟨?_, ?_⟩⟩
  · unfold movedWarning
    split
    · exact fun w hw => absurd hw List.not_mem_nil
    · exact List.forall_mem_singleton.mpr ⟨rfl, rfl⟩
  · split
    · unfold droppedWarning
      split
      · exact fun w hw => absurd hw List.not_mem_nil
      · exact List.forall_mem_singleton.mpr ⟨rfl, rfl⟩
    · exact fun w hw => absurd hw List.not_mem_nil

end Cursor

/-! ## commands -/

namespace Command

open Cursor

/-- the name under which an operation records warnings -/
def name : Command → String
  | start => "start"
  | finish => "end"
  | seek _ => "seek"
  | advance _ => "advance"
  | find .. => "find"
  | findWindow .. => "find_sequence"
  | defineLabel => "define_label"
  | markLabel _ => "mark_label"
  | insertBefore _ => "insert_before"
  | insertBeforeLabeled _ => "insert_before_labeled"
  | insertAfter _ => "insert_after"
  | replace _ => "replace"
  | delete => "delete"
  | deleteMany _ => "delete_n"
  | replaceMany .. => "replace_sequence"
  | replaceAll .. => "replace_all"
  | replaceAllWith .. => "replace_all_with"

/-- what an edit at the cursor is to do -/
def task? : Command → Option Task
  | markLabel l => some (.mark l)
  | insertBefore code | insertBeforeLabeled code => some (.insert 0 code)
  | insertAfter code => some (.insert 1 code)
  | replace x => some (.exchange x)
  | delete => some (.remove 1 [])
  | deleteMany n => some (.remove n [])
  | replaceMany n code => some (.remove n code)
  | _ => none

variable {c : Cursor} {k : Command} {t : Task}

/-- **An edit that is skipped leaves everything as it is** but for one warning of its own. -/
theorem run_of_skipped (ht : k.task? = some t) (h : t.Skipped c) :
    ∃ cause, cause.aboutLabels = false ∧ k.run c = c.warn k.name cause := by
  cases k with
  | start | finish | seek | advance | find | findWindow | defineLabel | replaceAll
  | replaceAllWith => cases ht
  | insertBefore | insertBeforeLabeled =>
    cases ht
    exact insertAs_of_skipped _ _ h
  | insertAfter =>
    cases ht
    exact insertAs_of_skipped _ (fun b p code => b.insertAt (p + 1) code) h
  | delete | deleteMany | replaceMany =>
    cases ht
    exact removeAs_of_skipped _ h
  | markLabel l =>
    cases ht
    have hp : c.position = none := Option.eq_none_iff_forall_ne_some.mpr (Task.skipped_iff.mp h)
    refine ⟨.invalidCursor, rfl, ?_⟩
    show c.markLabel l = _
    unfold Cursor.markLabel
    rw [hp]
    rfl
  | replace x =>
    cases ht
    have hp : c.position = none := Option.eq_none_iff_forall_ne_some.mpr (Task.skipped_iff.mp h)
    refine ⟨.invalidCursor, rfl, ?_⟩
    show c.replace x = _
    unfold Cursor.replace
    rw [hp]
    rfl

/-- `c'` is `c` with all of the task done, and with warnings, if any, that are about the labels of
what has been removed -/
structure Done (k : Command) (t : Task) (c c' : Cursor) : Prop where
  performed : ∃ p, c.position = some p ∧ t.Performed p c.body c'.body
  warnings : ∃ new, c'.warnings = c.warnings ++ new ∧
    ∀ w ∈ new, t.isRemoval = true ∧ w.operation = k.name ∧ w.cause.aboutLabels = true

theorem done_of_performed {c' : Cursor} {p : Nat} (hp : c.position = some p)
    (h : t.Performed p c.body c'.body) (hw : c'.warnings = c.warnings) : Done k t c c' where
  performed := ⟨p, hp, h⟩
  warnings := ⟨[], by rw [hw, List.append_nil], fun _ hw => absurd hw List.not_mem_nil⟩

theorem done_removeAs {p n : Nat} {code : List Instruction} (hp : c.position = some p)
    (hidle : ¬(Task.remove n code).Idle c.length p)
    (hrun : k.run c = removeAs k.name c n code) : Done k (.remove n code) c (k.run c) := by
  obtain ⟨hn, hend⟩ : n ≠ 0 ∧ ¬c.length < p + n := not_or.mp hidle
  have hn : 0 < n := Nat.pos_of_ne_zero hn
  have hend : p + n ≤ c.length := Nat.le_of_not_lt hend
  obtain ⟨new, hwarnings, hnew⟩ := warnings_substitute k.name c p n code
  rw [hrun, removeAs_eq k.name code hp hn hend]
  exact ⟨⟨p, hp, Body.performed_substitute hend code⟩, new, hwarnings, fun w hw => ⟨rfl, hnew w hw⟩⟩

/-- **An edit that is not skipped is done as a whole.** -/
theorem done_of_not_skipped (hc : c.Inside) (ht : k.task? = some t) (h : ¬t.Skipped c) :
    Done k t c (k.run c) := by
  obtain ⟨p, hp, hidle⟩ := Task.not_skipped_iff.mp h
  have hlt : p < c.length := hc p hp
  cases k with
  | start | finish | seek | advance | find | findWindow | defineLabel | replaceAll
  | replaceAllWith => cases ht
  | insertBefore code =>
    cases ht
    have hrun : (insertBefore code).run c = _ := insertAs_eq "insert_before" _ hp hidle
    rw [hrun]
    exact done_of_performed hp (Body.performed_insertAt (Nat.le_of_lt hlt) code) rfl
  | insertBeforeLabeled code =>
    cases ht
    have hrun : (insertBeforeLabeled code).run c = _ :=
      insertAs_eq "insert_before_labeled" _ hp hidle
    rw [hrun]
    exact done_of_performed hp (Body.performed_insertLabeledAt hlt code) rfl
  | insertAfter code =>
    cases ht
    have hrun : (insertAfter code).run c = _ :=
      insertAs_eq "insert_after" (fun b p code => b.insertAt (p + 1) code) hp hidle
    rw [hrun]
    exact done_of_performed hp (Body.performed_insertAt (Nat.succ_le_of_lt hlt) code) rfl
  | delete | deleteMany | replaceMany =>
    cases ht
    exact done_removeAs hp hidle rfl
  | markLabel l =>
    cases ht
    obtain ⟨body, hbody, -⟩ := exists_markLabel hlt l
    have hrun : (markLabel l).run c = { c with body } := by
      show c.markLabel l = _
      unfold Cursor.markLabel
      rw [hp]
      dsimp only
      rw [hbody]
    rw [hrun]
    exact done_of_performed hp (Body.performed_markLabel hbody) rfl
  | replace x =>
    cases ht
    have hrun : (replace x).run c = { c with body := c.body.replaceAt p x } := by
      show c.replace x = _
      unfold Cursor.replace
      rw [hp]
    rw [hrun]
    exact done_of_performed hp (Body.performed_replaceAt hlt x) rfl

end Command

end CilPatch
