import CilPatch.Cursor.ReplaceAll

/-!
# Sweeps

What can be said of every sweep, whatever its patterns and whatever is made of the windows: where it
has passed it does not come back (`take_run`), and what is asked of each window that it comes to and
of the code that is made of it is asked of the sweep (`Throughout`).
-/

namespace CilPatch.Cursor

namespace Sweep

/-- `R` holds of every window that the sweep comes to and the code that is made of it -/
inductive Throughout (operation : String) (patterns : List Pattern) (produce : Producer)
    (mode : ReplaceMode) (R : List Instruction → List Instruction → Prop) : Sweep → Prop
  | done {s : Sweep} (h : locate s.cursor.body.code patterns s.next = none) :
    Throughout operation patterns produce mode R s
  | next {s : Sweep} {p : Nat} (h : locate s.cursor.body.code patterns s.next = some p)
    (hwindow : R (s.cursor.body.window p patterns.length)
      (produce.code s.matched (s.cursor.body.window p patterns.length)))
    (hrest : Throughout operation patterns produce mode R
      (s.step operation patterns.length produce mode p)) :
    Throughout operation patterns produce mode R s

variable {operation : String} {patterns : List Pattern} {produce : Producer} {mode : ReplaceMode}
  {R : List Instruction → List Instruction → Prop} {s : Sweep} {p width : Nat}

theorem throughout_iff (h : locate s.cursor.body.code patterns s.next = some p) :
    Throughout operation patterns produce mode R s ↔
      R (s.cursor.body.window p patterns.length)
          (produce.code s.matched (s.cursor.body.window p patterns.length)) ∧
        Throughout operation patterns produce mode R
          (s.step operation patterns.length produce mode p) := by
  constructor
  · rintro (hnone | ⟨h', hwindow, hrest⟩)
    · rw [h] at hnone
      cases hnone
    · obtain rfl := Option.some.inj (h.symm.trans h')
      exact ⟨hwindow, hrest⟩
  · exact fun ⟨hwindow, hrest⟩ => .next h hwindow hrest

/-- what holds of all windows and the code that is made of them holds of those of a sweep -/
theorem throughout_of_forall (hne : patterns ≠ []) (h : ∀ m window,
      window.length = patterns.length → R window (produce.code m window)) (s : Sweep) :
    Throughout operation patterns produce mode R s := by
  induction s using run.induct operation patterns produce mode hne with
  | case1 s hnone => exact .done hnone
  | case2 s p hp ih => exact .next hp (h _ _ (Body.length_window (locate_eq_some hp hne).2.1)) ih

/-- the code in front of a window is not touched -/
theorem take_step (operation : String) (produce : Producer) (mode : ReplaceMode)
    (hend : p + width ≤ s.cursor.length) :
    (s.step operation width produce mode p).cursor.body.code.take p =
      s.cursor.body.code.take p := by
  have hfront : (s.cursor.body.code.take p).length = p :=
    List.length_take_of_le (Nat.le_of_add_right_le hend)
  unfold step
  cases mode with
  | pad =>
    dsimp only
    split
    · rfl
    · show (s.cursor.body.code.take p ++ _ ++ _).take p = _
      rw [List.append_assoc, List.take_left' hfront]
  | splice => exact List.take_left' hfront

theorem le_next_step (operation : String) (width : Nat) (produce : Producer) (mode : ReplaceMode)
    (s : Sweep) (p : Nat) : p ≤ (s.step operation width produce mode p).next := by
  unfold step
  cases mode with
  | pad =>
    dsimp only
    split <;> exact Nat.le_add_right p width
  | splice => exact Nat.le_add_right p _

/-- **What a sweep has passed stays as it is.** -/
theorem take_run (hne : patterns ≠ []) (s : Sweep) :
    (run operation patterns produce mode hne s).cursor.body.code.take s.next =
      s.cursor.body.code.take s.next := by
  induction s using run.induct operation patterns produce mode hne with
  | case1 s hnone => rw [run_of_locate_eq_none hnone]
  | case2 s p hp ih =>
    obtain ⟨hle, hend, -⟩ := locate_eq_some hp hne
    have hnext : s.next ≤ (s.step operation patterns.length produce mode p).next :=
      Nat.le_trans hle (le_next_step ..)
    have hpassed := congrArg (List.take s.next) (take_step operation produce mode hend)
    have hrun := congrArg (List.take s.next) ih
    rw [List.take_take, List.take_take, Nat.min_eq_left hle] at hpassed
    rw [List.take_take, List.take_take, Nat.min_eq_left hnext] at hrun
    rw [run_of_locate_eq_some hp, hrun, hpassed]

theorem matched_step (operation : String) (width : Nat) (produce : Producer) (mode : ReplaceMode)
    (s : Sweep) (p : Nat) :
    (s.step operation width produce mode p).matched = s.matched + 1 := by
  unfold step
  cases mode with
  | pad =>
    dsimp only
    split <;> rfl
  | splice => rfl

/-- a sweep has found nothing if there is nothing to be found where it begins -/
theorem matched_run_eq_zero_iff (operation : String) (produce : Producer) (mode : ReplaceMode)
    (hne : patterns ≠ []) (s : Sweep) :
    (run operation patterns produce mode hne s).matched = 0 ↔
      s.matched = 0 ∧ locate s.cursor.body.code patterns s.next = none := by
  induction s using run.induct operation patterns produce mode hne with
  | case1 s hnone =>
    rw [run_of_locate_eq_none hnone]
    exact ⟨fun h => ⟨h, hnone⟩, And.left⟩
  | case2 s p hp ih =>
    rw [run_of_locate_eq_some hp, ih, matched_step, hp]
    exact ⟨fun h => absurd h.1 (Nat.succ_ne_zero _), fun h => nomatch h.2⟩

end Sweep

/-! ## from the sweep to the cursor -/

theorem replaceMatches_eq (operation : String) (c : Cursor) {patterns : List Pattern}
    (produce : Producer) (mode : ReplaceMode) (hne : patterns ≠ []) :
    let s := Sweep.run operation patterns produce mode hne { cursor := c }
    (replaceMatches operation c patterns produce mode).1 = s.replaced ∧
      (replaceMatches operation c patterns produce mode).2.body = s.cursor.body := by
  intro s
  unfold replaceMatches
  rw [dif_neg hne]
  dsimp only
  split
  · refine ⟨rfl, ?_⟩
    split <;> rfl
  · refine ⟨rfl, ?_⟩
    dsimp only
    split <;> rfl

/-- behind the sweep it is warned if there was no window, and the cursor goes to the last one -/
theorem replaceMatches_ends (operation : String) (c : Cursor) {patterns : List Pattern}
    (produce : Producer) (mode : ReplaceMode) (hne : patterns ≠ []) :
    let s := Sweep.run operation patterns produce mode hne { cursor := c }
    let c' := (replaceMatches operation c patterns produce mode).2
    (c'.warnings = s.cursor.warnings ++
        if s.matched = 0 then [⟨operation, .noMatch (Pattern.windowText patterns)⟩] else []) ∧
      c'.position = match s.last with
        | some p => if p < s.cursor.length then some p else none
        | none => s.cursor.position := by
  unfold replaceMatches
  rw [dif_neg hne]
  generalize Sweep.run operation patterns produce mode hne { cursor := c } = s
  dsimp only
  have hwarn : (if s.matched = 0 then
      s.cursor.warn operation (.noMatch (Pattern.windowText patterns)) else s.cursor) =
        { s.cursor with warnings := s.cursor.warnings ++ if s.matched = 0 then
            [⟨operation, .noMatch (Pattern.windowText patterns)⟩] else [] } := by
    split
    · rfl
    · rw [List.append_nil]
  rw [hwarn]
  cases s.last <;> exact ⟨rfl, rfl⟩

end CilPatch.Cursor
