import CilPatch.Proofs.Cursor.Sweeps
import CilPatch.Proofs.Cursor.Windows

/-!
# Bulk replacement as a single pass

A sweep that splices searches the code that it is changing.  It is measured against one pass over
the code as it was, which replaces each of the `windows` there.

What is put in lies in front of the place where the search goes on.  But the labels of a window that
is deleted come to rest behind it, on an instruction that is still to be searched (`handed`).  As
long as they go unnoticed there, by the patterns and by what the replacement is made from, the sweep
does what the single pass does (`splice_single_pass`); otherwise it goes on to replace instructions
that were in no window (`found_by_moved_label`).

* `Unnoticed`       no label is noticed where it comes to rest;
* `Sweep.At`        how far a sweep has come, said of the code as it was;
* `Sweep.At.step`   what one replacement does;
* `Sweep.At.run`    what the sweep does from there on.
-/

namespace CilPatch

open Instruction

/-! ## labels that move -/

/-- the labels of a window that is deleted, which go to what stands behind it; those of another one
stay with its replacement -/
def passedOn (f : List Instruction → List Instruction) (window : List Instruction) : List Label :=
  if (f window).isEmpty then allLabels window else []

/-- the window at `p` in the hands of a sweep, once the instruction at `start` has got `held` -/
def windowMet (code : List Instruction) (width : Nat) (held : List Label) (start p : Nat) :
    List Instruction :=
  (inherit (if p = start then held else []) (code.drop p)).take width

/-- the places behind the windows, with the labels that have come to rest there: those of the
window, and with them those that it had from the window in front of it -/
def handed (code : List Instruction) (width : Nat) (f : List Instruction → List Instruction) :
    List Label → Nat → List Nat → List (Nat × List Label)
  | _, _, [] => []
  | held, start, p :: ps =>
    let passed := passedOn f (windowMet code width held start p)
    (p + width, passed) :: handed code width f passed (p + width) ps

/-- `held` with the labels of the instruction at `start` changes neither whether a window begins
there nor what is put in its place -/
structure Hidden (code : List Instruction) (patterns : List Pattern)
    (f : List Instruction → List Instruction) (start : Nat) (held : List Label) : Prop where
  found : matchesAt patterns (inherit held (code.drop start)) = matchesAt patterns (code.drop start)
  made : matchesAt patterns (code.drop start) = true →
    (f ((inherit held (code.drop start)).take patterns.length)).map unlabeled =
      (f ((code.drop start).take patterns.length)).map unlabeled

/-- wherever labels come to rest, they are not seen -/
def Unnoticed (code : List Instruction) (patterns : List Pattern)
    (f : List Instruction → List Instruction) : Prop :=
  ∀ entry ∈ handed code patterns.length f [] 0 (windows code patterns),
    Hidden code patterns f entry.1 entry.2

/-- windows that differ in labels only are replaced by code that does -/
def LabelBlind (f : List Instruction → List Instruction) : Prop :=
  ∀ w w', w.map unlabeled = w'.map unlabeled → (f w).map unlabeled = (f w').map unlabeled

section
variable {code : List Instruction} {patterns : List Pattern}
  {f : List Instruction → List Instruction}

instance (start : Nat) (held : List Label) : Decidable (Hidden code patterns f start held) :=
  decidable_of_iff (_ ∧ _) ⟨fun h => ⟨h.1, h.2⟩, fun h => ⟨h.found, h.made⟩⟩

instance : Decidable (Unnoticed code patterns f) :=
  inferInstanceAs (Decidable (∀ entry ∈ handed code patterns.length f [] 0 (windows code patterns),
    Hidden code patterns f entry.1 entry.2))

theorem hidden_nil (code : List Instruction) (patterns : List Pattern)
    (f : List Instruction → List Instruction) (start : Nat) : Hidden code patterns f start [] := by
  refine ⟨?_, fun _ => ?_⟩ <;> rw [inherit_nil]

theorem map_unlabeled_inherit (held : List Label) (code : List Instruction) :
    (inherit held code).map unlabeled = code.map unlabeled := by
  cases code <;> rfl

/-- what is replaced and not deleted keeps its labels -/
theorem unnoticed_of_ne_nil (h : ∀ window, f window ≠ []) : Unnoticed code patterns f := by
  have hpassed : ∀ window, passedOn f window = [] := fun window =>
    if_neg fun e => h window (List.isEmpty_iff.mp e)
  have hall : ∀ held start ws, ∀ entry ∈ handed code patterns.length f held start ws,
      entry.2 = [] := by
    intro held start ws
    induction ws generalizing held start with
    | nil => exact fun entry hentry => nomatch hentry
    | cons p ps ih =>
      rintro entry (_ | ⟨_, hentry⟩)
      · exact hpassed _
      · exact ih _ _ entry hentry
  intro entry hentry
  rw [hall _ _ _ entry hentry]
  exact hidden_nil _ _ f _

/-- labels are not seen by patterns that do not look at them and a replacement that is made without
them -/
theorem unnoticed_of_labelBlind (hp : ∀ p ∈ patterns, p.readsLabels = false)
    (hf : LabelBlind f) : Unnoticed code patterns f := by
  intro entry _
  refine ⟨matchesAt_congr hp (map_unlabeled_inherit _ _), fun _ => hf _ _ ?_⟩
  rw [List.map_take, map_unlabeled_inherit, List.map_take]

theorem drop_inherit {k : Nat} (hk : 0 < k) (held : List Label) (code : List Instruction) :
    (inherit held code).drop k = code.drop k := by
  obtain ⟨k, rfl⟩ := Nat.exists_eq_add_of_lt hk
  cases code <;> rfl

end

/-! ## the sweep -/

namespace Cursor.Sweep

/-- the sweep has come to position `start` of `code`: what lies in front of it is done, and the
instruction there has got `held` -/
structure At (code front : List Instruction) (held : List Label) (start : Nat) (s : Sweep) :
    Prop where
  code_eq : s.cursor.body.code = front ++ inherit held (code.drop start)
  next_eq : s.next = front.length

variable {code front : List Instruction} {held : List Label} {start : Nat} {s : Sweep}
  {patterns : List Pattern} {f : List Instruction → List Instruction}

/-- the sweep finds the window that a search of the code as it was finds -/
theorem At.locate_eq (h : s.At code front held start) (hh : Hidden code patterns f start held) :
    locate s.cursor.body.code patterns s.next =
      (locate code patterns start).map (fun p => front.length + (p - start)) := by
  have hcode : locate code patterns start =
      (locateFrom patterns 0 (code.drop start)).map (start + ·) := locateFrom_shift _ _ _
  unfold locate at hcode ⊢
  rw [hcode, h.code_eq, h.next_eq, List.drop_left, locateFrom_inherit _ hh.found,
    locateFrom_shift, Option.map_map]
  congr 1
  funext k
  show front.length + k = front.length + (start + k - start)
  omega

/-- what the sweep is to do with the window that it finds -/
theorem At.window_eq (h : s.At code front held start) {p : Nat} (hle : start ≤ p) (width : Nat) :
    s.cursor.body.window (front.length + (p - start)) width =
      windowMet code width held start p := by
  unfold Body.window windowMet
  rw [h.code_eq, List.drop_append, List.drop_of_length_le (by omega), List.nil_append,
    Nat.add_sub_cancel_left]
  by_cases e : p = start
  · rw [if_pos e, e, Nat.sub_self, List.drop_zero]
  · rw [if_neg e, inherit_nil, drop_inherit (by omega), List.drop_drop]
    congr 2
    omega

/-- the code behind one replacement, and where the search goes on -/
theorem At.splice_eq (h : s.At code front held start) (operation : String) {p width : Nat}
    (hle : start ≤ p) (hpos : 0 < width) :
    let window := windowMet code width held start p
    let s' := s.step operation width (.uniform f) .splice (front.length + (p - start))
    s'.cursor.body.code = front ++ (inherit held (code.drop start)).take (p - start) ++
        inherit (allLabels window) (f window ++ code.drop (p + width)) ∧
      s'.next = front.length + (p - start) + (f window).length := by
  intro window s'
  have hwindow := h.window_eq hle width
  have hfront : s.cursor.body.code.take (front.length + (p - start)) =
      front ++ (inherit held (code.drop start)).take (p - start) := by
    rw [h.code_eq, List.take_length_add_append]
  have hbehind : s.cursor.body.code.drop (front.length + (p - start) + width) =
      code.drop (p + width) := by
    rw [h.code_eq, Nat.add_assoc, List.drop_length_add_append, drop_inherit (by omega),
      List.drop_drop]
    congr 1
    omega
  constructor
  · show s.cursor.body.code.take _ ++ inherit (allLabels (s.cursor.body.window _ width))
      (f (s.cursor.body.window _ width) ++ s.cursor.body.code.drop _) = _
    rw [hwindow, hfront, hbehind]
  · show front.length + (p - start) + (f (s.cursor.body.window _ width)).length = _
    rw [hwindow]

/-- **One replacement**: the window goes, and the sweep has come to its end. -/
theorem At.step (h : s.At code front held start) (operation : String) {p width : Nat}
    (hle : start ≤ p) (hpos : 0 < width) (hend : p + width ≤ code.length) :
    let window := windowMet code width held start p
    let s' := s.step operation width (.uniform f) .splice (front.length + (p - start))
    s'.replaced = s.replaced + 1 ∧
      ∃ front', s'.At code front' (passedOn f window) (p + width) ∧
        front'.map unlabeled = front.map unlabeled ++
          (((code.drop start).take (p - start)).map unlabeled ++ (f window).map unlabeled) := by
  intro window s'
  obtain ⟨hcode, hnext⟩ := h.splice_eq (f := f) operation hle hpos
  -- what is passed over on the way to the window
  have hpassed : ((inherit held (code.drop start)).take (p - start)).map unlabeled =
      ((code.drop start).take (p - start)).map unlabeled := by
    rw [List.map_take, map_unlabeled_inherit, List.map_take]
  have hlen : ((inherit held (code.drop start)).take (p - start)).length = p - start := by
    rw [List.length_take, length_inherit, List.length_drop]
    omega
  refine ⟨rfl, ?_⟩
  unfold passedOn
  cases hf : f window with
  | nil =>
    -- nothing comes in its place: the labels go to what stands behind
    refine ⟨front ++ (inherit held (code.drop start)).take (p - start), ⟨?_, ?_⟩, ?_⟩
    · rw [hcode, hf]
      rfl
    · rw [hnext, hf, List.length_append, hlen]
      rfl
    · rw [List.map_append, hpassed]
      simp
  | cons y ys =>
    refine ⟨front ++ (inherit held (code.drop start)).take (p - start) ++
      inherit (allLabels window) (y :: ys), ⟨?_, ?_⟩, ?_⟩
    · rw [hcode, hf, show (List.isEmpty (y :: ys)) = false from rfl, if_neg Bool.false_ne_true,
        inherit_nil, List.append_assoc _ (inherit _ _)]
      rfl
    · rw [hnext, hf, List.length_append, List.length_append, hlen, length_inherit]
    · rw [List.map_append, List.map_append, hpassed, map_unlabeled_inherit, List.append_assoc]

/-- **The sweep from there on** replaces the windows that are left, by induction on them. -/
theorem At.run (hne : patterns ≠ []) (operation : String) {ws : List Nat}
    (hws : windows code patterns start = ws) (h : s.At code front held start)
    (hh : Hidden code patterns f start held)
    (hhanded : ∀ entry ∈ handed code patterns.length f held start ws,
      Hidden code patterns f entry.1 entry.2) :
    let s' := run operation patterns (.uniform f) .splice hne s
    s'.replaced = s.replaced + ws.length ∧
      s'.cursor.body.code.map unlabeled =
        front.map unlabeled ++ (filledFrom code patterns.length f start ws).map unlabeled := by
  induction ws generalizing s front held start with
  | nil =>
    have hrun := h.locate_eq hh
    rw [(windows_eq_nil_iff hne).mp hws] at hrun
    rw [run_of_locate_eq_none hrun]
    refine ⟨rfl, ?_⟩
    rw [h.code_eq, List.map_append, map_unlabeled_inherit]
    rfl
  | cons p ps ih =>
    obtain ⟨hsome, hps⟩ := (windows_eq_cons_iff hne).mp hws
    obtain ⟨hle, hend, hm, -⟩ := locate_eq_some hsome hne
    have hrun := h.locate_eq hh
    rw [hsome] at hrun
    obtain ⟨hreplaced, front', hat, hfront'⟩ := h.step (f := f) operation hle
      (List.length_pos_iff.mpr hne) hend
    -- the window is the one that was there, but for labels
    have hmade : (f (windowMet code patterns.length held start p)).map unlabeled =
        (f ((code.drop p).take patterns.length)).map unlabeled := by
      unfold windowMet
      by_cases e : p = start
      · subst e
        rw [if_pos rfl]
        exact hh.made hm
      · rw [if_neg e, inherit_nil]
    obtain ⟨hcount, hcode⟩ := ih hps hat (hhanded _ List.mem_cons_self)
      fun entry hentry => hhanded entry (List.mem_cons_of_mem _ hentry)
    rw [run_of_locate_eq_some hrun]
    refine ⟨?_, ?_⟩
    · rw [hcount, hreplaced, List.length_cons]
      omega
    · rw [hcode, hfront', hmade, filledFrom]
      simp only [List.map_append, List.append_assoc]

end Cursor.Sweep

/-! ## the whole code -/

namespace Cursor

/-- the count that is returned and the code, apart from attached labels, are those of one pass over
the code as it was -/
structure SinglePass (c : Cursor) (patterns : List Pattern)
    (f : List Instruction → List Instruction) (result : Nat × Cursor) : Prop where
  count : result.1 = (windows c.body.code patterns).length
  code : result.2.body.code.map unlabeled = (filled c.body.code patterns f).map unlabeled

theorem replaceMatches_single_pass (operation : String) (c : Cursor) {patterns : List Pattern}
    {f : List Instruction → List Instruction} (hne : patterns ≠ [])
    (h : Unnoticed c.body.code patterns f) :
    SinglePass c patterns f (replaceMatches operation c patterns (.uniform f) .splice) := by
  have hat : Sweep.At c.body.code [] [] 0 { cursor := c } := ⟨by rw [inherit_nil]; rfl, rfl⟩
  obtain ⟨hcount, hcode⟩ := hat.run hne operation rfl (hidden_nil _ _ f 0) h
  obtain ⟨hfst, hbody⟩ := replaceMatches_eq operation c (.uniform f) .splice hne
  refine ⟨?_, ?_⟩
  · rw [hfst, hcount]
    exact Nat.zero_add _
  · rw [hbody, hcode]
    rfl

end Cursor

/-- **Splicing is a single pass**: as long as labels that move go unnoticed, the windows of the code
as it was are replaced, each once, and nothing else is.  Labels do go unnoticed where no window is
deleted, and where neither the patterns nor the replacement look at them. -/
theorem splice_single_pass (c : Cursor) {patterns : List Pattern} (hne : patterns ≠ []) :
    (∀ f, Unnoticed c.body.code patterns f →
        c.SinglePass patterns f (c.replaceAllWith patterns (.uniform f) .splice)) ∧
      (∀ code, Unnoticed c.body.code patterns (fun _ => code) →
        c.SinglePass patterns (fun _ => code) (c.replaceAll patterns code .splice)) ∧
      ∀ f, (∀ window, f window ≠ []) ∨
          (∀ p ∈ patterns, p.readsLabels = false) ∧ LabelBlind f →
        Unnoticed c.body.code patterns f := by
  refine ⟨fun f h => Cursor.replaceMatches_single_pass _ c hne h,
    fun code h => Cursor.replaceMatches_single_pass _ c hne h, fun f h => ?_⟩
  rcases h with hkept | ⟨hp, hf⟩
  · exact unnoticed_of_ne_nil hkept
  · exact unnoticed_of_labelBlind hp hf

/-- two instructions to be removed, both of them marked -/
def markedNops : Body := .ofCode
  [{ opcode := .nop, labels := [⟨0⟩] },
   { opcode := .nop, labels := [⟨1⟩] },
   { opcode := .br, operand := .label ⟨1⟩ }]

theorem splice_single_pass_markedNops :
    Unnoticed markedNops.code [.opcode .nop] (fun _ => []) ∧
      Cursor.SinglePass (.ofBody markedNops) [.opcode .nop] (fun _ => [])
        ((Cursor.ofBody markedNops).replaceAll [.opcode .nop] [] .splice) := by
  have h : Unnoticed markedNops.code [.opcode .nop] fun _ => [] := by decide
  exact ⟨h, (splice_single_pass (.ofBody markedNops) (List.cons_ne_nil _ _)).2.1 [] h⟩

/-- an instruction is looked for by its label -/
def markedStart : Body := .ofCode
  [{ opcode := .nop, labels := [⟨0⟩] }, .nop, { opcode := .ret }]

/-- The label of the one window that there is moves to the instruction behind it, which is then
found by it and deleted too, and so on to the end. -/
theorem found_by_moved_label :
    windows markedStart.code [.labeled ⟨0⟩] = [0] ∧
      ((Cursor.ofBody markedStart).replaceAll [.labeled ⟨0⟩] [] .splice).1 = 3 ∧
      ((Cursor.ofBody markedStart).replaceAll [.labeled ⟨0⟩] [] .splice).2.body.code = [] ∧
      ¬Cursor.SinglePass (.ofBody markedStart) [.labeled ⟨0⟩] (fun _ => [])
        ((Cursor.ofBody markedStart).replaceAll [.labeled ⟨0⟩] [] .splice) := by
  have hne : [Pattern.labeled ⟨0⟩] ≠ [] := List.cons_ne_nil _ _
  obtain ⟨hfst, hbody⟩ := Cursor.replaceMatches_eq "replace_all" (.ofBody markedStart)
    (.uniform fun _ => []) .splice hne
  rw [Cursor.Sweep.run_of_locate_eq_some (p := 0) rfl,
    Cursor.Sweep.run_of_locate_eq_some (p := 0) rfl,
    Cursor.Sweep.run_of_locate_eq_some (p := 0) rfl,
    Cursor.Sweep.run_of_locate_eq_none rfl] at hfst hbody
  have hcount : ((Cursor.ofBody markedStart).replaceAll [.labeled ⟨0⟩] [] .splice).1 = 3 := hfst
  refine ⟨by decide, hcount, congrArg Body.code hbody, fun h => ?_⟩
  have hone := h.count
  rw [hcount] at hone
  cases hone

end CilPatch
