import CilPatch.Proofs.Cursor.Sweeps

/-!
# How long a sweep lasts

Nothing in a sweep counts down: the code that is put in may be longer than the window that it
replaces, may be matched by the patterns itself and may be another one each time, and labels that
move may let the patterns match where they did not.  What gets less is the code that is still to be
searched: each window takes its whole width away from it, whether it is refused, filled or spliced
(`remaining_pass`).

* `Sweep.Passes`   so many windows lead from one state of a sweep to another;
* `Sweep.Ends`     the sweep comes to its end after so many windows;
* `sweep_bounded`  every sweep ends, after at most as many windows as fit side by side into the code
                   that it started on.
-/

namespace CilPatch.Cursor

namespace Sweep

/-- the sweep goes on for `n` windows, from the state `s` to the state `t` -/
inductive Passes (operation : String) (patterns : List Pattern) (produce : Producer)
    (mode : ReplaceMode) : Nat → Sweep → Sweep → Prop
  | none (s : Sweep) : Passes operation patterns produce mode 0 s s
  | next {s t : Sweep} {n p : Nat} (h : locate s.cursor.body.code patterns s.next = some p)
    (rest : Passes operation patterns produce mode n
      (s.step operation patterns.length produce mode p) t) :
    Passes operation patterns produce mode (n + 1) s t

/-- the sweep goes on for `n` windows and then finds no other -/
structure Ends (operation : String) (patterns : List Pattern) (produce : Producer)
    (mode : ReplaceMode) (n : Nat) (s t : Sweep) : Prop where
  passes : Passes operation patterns produce mode n s t
  rests : locate t.cursor.body.code patterns t.next = none

variable {operation : String} {patterns : List Pattern} {produce : Producer} {mode : ReplaceMode}
  {s t : Sweep} {n p : Nat}

/-- a window takes its width away from the code that is still to be searched -/
theorem remaining_pass (operation : String) (produce : Producer) (mode : ReplaceMode)
    (hne : patterns ≠ []) (h : locate s.cursor.body.code patterns s.next = some p) :
    (s.step operation patterns.length produce mode p).remaining + patterns.length ≤
      s.remaining := by
  obtain ⟨hle, hend, -⟩ := locate_eq_some h hne
  rw [remaining_step operation patterns.length produce mode s p hend]
  show s.cursor.length - (p + patterns.length) + patterns.length ≤ s.cursor.length - s.next
  have hlength : s.cursor.body.code.length = s.cursor.length := rfl
  omega

/-- the windows of a sweep find room side by side in the code that was to be searched -/
theorem Passes.room (hne : patterns ≠ []) (h : Passes operation patterns produce mode n s t) :
    n * patterns.length + t.remaining ≤ s.remaining := by
  induction h with
  | none s => simp
  | next hp _ ih =>
    have hpass := remaining_pass operation produce mode hne hp
    rw [Nat.succ_mul]
    omega

theorem replaced_step_le (operation : String) (width : Nat) (produce : Producer)
    (mode : ReplaceMode) (s : Sweep) (p : Nat) :
    (s.step operation width produce mode p).replaced ≤ s.replaced + 1 := by
  unfold step
  cases mode with
  | pad =>
    dsimp only
    split
    · exact Nat.le_succ _
    · exact Nat.le_refl _
  | splice => exact Nat.le_refl _

/-- at most as many windows are replaced as are found -/
theorem Passes.replaced_le (h : Passes operation patterns produce mode n s t) :
    t.replaced ≤ s.replaced + n := by
  induction h with
  | none s => exact Nat.le_refl _
  | @next s _ _ p _ _ ih =>
    have hstep := replaced_step_le operation patterns.length produce mode s p
    omega

/-- a sweep comes to its end -/
theorem exists_ends (operation : String) (produce : Producer) (mode : ReplaceMode)
    (hne : patterns ≠ []) (s : Sweep) :
    ∃ n, Ends operation patterns produce mode n s (run operation patterns produce mode hne s) := by
  induction s using run.induct operation patterns produce mode hne with
  | case1 s hnone =>
    rw [run_of_locate_eq_none hnone]
    exact ⟨0, .none s, hnone⟩
  | case2 s p hp ih =>
    obtain ⟨n, hpasses, hrests⟩ := ih
    rw [run_of_locate_eq_some hp]
    exact ⟨n + 1, .next hp hpasses, hrests⟩

end Sweep

/-- no more windows than fit side by side into the code -/
theorem Sweep.Passes.le_div {operation : String} {patterns : List Pattern} {produce : Producer}
    {mode : ReplaceMode} {c : Cursor} {n : Nat} {t : Sweep} (hne : patterns ≠ [])
    (h : Passes operation patterns produce mode n { cursor := c } t) :
    n ≤ c.length / patterns.length := by
  have hpos : 0 < patterns.length := List.length_pos_iff.mpr hne
  have hroom := h.room hne
  rw [Nat.le_div_iff_mul_le hpos]
  exact Nat.le_trans (Nat.le_add_right _ _) hroom

theorem replaceMatches_le_div (operation : String) (c : Cursor) {patterns : List Pattern}
    (produce : Producer) (mode : ReplaceMode) (hne : patterns ≠ []) :
    (replaceMatches operation c patterns produce mode).1 ≤ c.length / patterns.length := by
  obtain ⟨n, hends⟩ := Sweep.exists_ends operation produce mode hne { cursor := c }
  have hreplaced := hends.passes.replaced_le
  rw [Nat.zero_add] at hreplaced
  rw [(replaceMatches_eq operation c produce mode hne).1]
  exact Nat.le_trans hreplaced (hends.passes.le_div hne)

/-- **Every bulk replacement ends.**  Whatever is put in the place of the windows, at most as many
of them are come to as fit side by side into the code as it was; then no other is found, and what
the sweep has done until then is the result.  So no more windows than that are replaced. -/
theorem sweep_bounded (c : Cursor) {patterns : List Pattern} (hne : patterns ≠ [])
    (mode : ReplaceMode) :
    (∀ operation produce n t, Sweep.Passes operation patterns produce mode n { cursor := c } t →
        n ≤ c.length / patterns.length) ∧
      (∀ operation produce, ∃ n t,
        Sweep.Ends operation patterns produce mode n { cursor := c } t ∧
          (replaceMatches operation c patterns produce mode).1 = t.replaced ∧
          (replaceMatches operation c patterns produce mode).2.body = t.cursor.body) ∧
      (∀ code, (c.replaceAll patterns code mode).1 ≤ c.length / patterns.length) ∧
      ∀ produce, (c.replaceAllWith patterns produce mode).1 ≤ c.length / patterns.length := by
  refine ⟨fun operation produce n t h => h.le_div hne, ?_, ?_, ?_⟩
  · intro operation produce
    obtain ⟨n, hends⟩ := Sweep.exists_ends operation produce mode hne { cursor := c }
    exact ⟨n, _, hends, replaceMatches_eq operation c produce mode hne⟩
  · intro code
    exact replaceMatches_le_div "replace_all" c (.uniform fun _ => code) mode hne
  · intro produce
    exact replaceMatches_le_div "replace_all_with" c produce mode hne

/-- five instructions that say the same -/
def fiveNops : Body := .ofCode [.nop, .nop, .nop, .nop, .nop]

/-- Two windows of two have room in five instructions, and two are found though each of them leaves
behind four instructions that match as well. -/
theorem sweep_bounded_fiveNops :
    [Pattern.opcode .nop, .opcode .nop] ≠ [] ∧
      ((ofBody fiveNops).replaceAllWith [.opcode .nop, .opcode .nop]
        (.uniform fun window => window ++ window) .splice).1 = 2 ∧
      ((ofBody fiveNops).replaceAllWith [.opcode .nop, .opcode .nop]
        (.uniform fun window => window ++ window) .splice).1 ≤ 5 / 2 := by
  have hne : [Pattern.opcode .nop, .opcode .nop] ≠ [] := List.cons_ne_nil _ _
  obtain ⟨hfst, -⟩ := replaceMatches_eq "replace_all_with" (.ofBody fiveNops)
    (.uniform fun window => window ++ window) .splice hne
  rw [Sweep.run_of_locate_eq_some (p := 0) rfl, Sweep.run_of_locate_eq_some (p := 4) rfl,
    Sweep.run_of_locate_eq_none rfl] at hfst
  exact ⟨hne, hfst, (sweep_bounded (.ofBody fiveNops) hne .splice).2.2.2 _⟩

end CilPatch.Cursor
