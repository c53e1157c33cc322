import CilPatch.Cursor.Build
import CilPatch.Cursor.Command

/-!
# What a build checks

A build gives the body of the cursor, if it gives one, and it gives one just when warnings do not
count or there are none, and the body verifies or is not verified (`build_ok_iff`).

What the body is verified against is said when the cursor is made.  No operation changes it
(`Command.verifier_runAll`), so an edit that uses nothing else has no say in it.
-/

namespace CilPatch

namespace Cursor

variable (operation : String) (c : Cursor)

/-! ## the verifier of a cursor -/

@[simp]
theorem verifier_warn (cause : Warning.Cause) :
    (c.warn operation cause).verifier = c.verifier := rfl

@[simp]
theorem verifier_lose (cause : Warning.Cause) :
    (c.lose operation cause).verifier = c.verifier := rfl

@[simp]
theorem verifier_settle (i : Nat) : (c.settle i).verifier = c.verifier := rfl

@[simp]
theorem verifier_seekAs (i : Nat) : (seekAs operation c i).verifier = c.verifier := by
  unfold seekAs
  split
  · rfl
  · simp

@[simp]
theorem verifier_finish : c.finish.verifier = c.verifier := by
  unfold finish
  split
  · simp
  · simp

@[simp]
theorem verifier_advance (delta : Int) : (c.advance delta).verifier = c.verifier := by
  unfold advance
  split
  · simp
  · dsimp only
    split
    · rfl
    · simp

@[simp]
theorem verifier_searchAs (patterns : List Pattern) (mode : SearchMode) :
    (searchAs operation c patterns mode).verifier = c.verifier := by
  unfold searchAs
  split
  · simp
  · split
    · simp
    · split
      · rfl
      · simp

@[simp]
theorem verifier_markLabel (l : Label) : (c.markLabel l).verifier = c.verifier := by
  unfold markLabel
  split
  · simp
  · split
    · rfl
    · simp

@[simp]
theorem verifier_insertAs (insert : Body → Nat → List Instruction → Body)
    (code : List Instruction) : (insertAs operation insert c code).verifier = c.verifier := by
  unfold insertAs
  split
  · simp
  · split
    · simp
    · rfl

@[simp]
theorem verifier_replace (i : Instruction) : (c.replace i).verifier = c.verifier := by
  unfold replace
  split
  · simp
  · rfl

@[simp]
theorem verifier_substitute (p n : Nat) (code : List Instruction) :
    (substitute operation c p n code).verifier = c.verifier := rfl

@[simp]
theorem verifier_removeAs (n : Nat) (code : List Instruction) :
    (removeAs operation c n code).verifier = c.verifier := by
  unfold removeAs
  split
  · simp
  · split
    · simp
    · split
      · simp
      · simp

theorem verifier_step (width : Nat) (produce : Producer) (mode : ReplaceMode) (s : Sweep)
    (p : Nat) :
    (s.step operation width produce mode p).cursor.verifier = s.cursor.verifier := by
  unfold Sweep.step
  cases mode with
  | pad =>
    dsimp only
    split
    · rfl
    · rfl
  | splice => rfl

/-- by induction along the windows that a sweep replaces -/
theorem verifier_run {patterns : List Pattern} (produce : Producer) (mode : ReplaceMode)
    (hne : patterns ≠ []) (s : Sweep) :
    (s.run operation patterns produce mode hne).cursor.verifier = s.cursor.verifier := by
  induction s using Sweep.run.induct operation patterns produce mode hne with
  | case1 s hp => rw [Sweep.run_of_locate_eq_none hp]
  | case2 s p hp ih =>
    rw [Sweep.run_of_locate_eq_some hp, ih]
    exact verifier_step operation _ _ _ _ _

@[simp]
theorem verifier_replaceMatches (patterns : List Pattern) (produce : Producer)
    (mode : ReplaceMode) :
    (replaceMatches operation c patterns produce mode).2.verifier = c.verifier := by
  unfold replaceMatches
  split
  next => simp
  next hne =>
    have hsweep := verifier_run operation produce mode hne { cursor := c }
    dsimp only
    split
    · rw [verifier_settle]
      split
      · rw [verifier_warn, hsweep]
      · rw [hsweep]
    · dsimp only
      split
      · rw [verifier_warn, hsweep]
      · rw [hsweep]

end Cursor

namespace Command

/-- no operation has a say in what the body is verified against -/
theorem verifier_run (k : Command) (c : Cursor) : (k.run c).verifier = c.verifier := by
  cases k with
  | defineLabel => rfl
  | start | seek => exact Cursor.verifier_seekAs _ c _
  | find | findWindow => exact Cursor.verifier_searchAs _ c _ _
  | insertBefore | insertBeforeLabeled | insertAfter => exact Cursor.verifier_insertAs _ c _ _
  | delete | deleteMany | replaceMany => exact Cursor.verifier_removeAs _ c _ _
  | replaceAll | replaceAllWith => exact Cursor.verifier_replaceMatches _ c _ _ _
  | finish => exact c.verifier_finish
  | advance delta => exact c.verifier_advance delta
  | markLabel l => exact c.verifier_markLabel l
  | replace i => exact c.verifier_replace i

theorem verifier_runAll (ks : List Command) (c : Cursor) :
    (runAll ks c).verifier = c.verifier := by
  induction ks generalizing c with
  | nil => rfl
  | cons k ks ih =>
    have hrest := ih (k.run c)
    rw [verifier_run] at hrest
    exact hrest

end Command

/-! ## builds -/

theorem Cursor.build_ok_iff {c : Cursor} {o : BuildOptions} {body : Body} :
    c.build o = .ok body ↔
      (o.strict = true → c.warnings = []) ∧
      (o.validate = true → ∃ verdict, c.verify = .ok verdict) ∧ c.body = body := by
  unfold build
  by_cases hw : (o.strict && !c.warnings.isEmpty) = true
  · have hbad : ¬(o.strict = true → c.warnings = []) := by simpa using hw
    simp [hw, hbad]
  · have hgood : o.strict = true → c.warnings = [] := by simpa using hw
    rw [if_neg hw]
    cases hv : o.validate with
    | false => simpa using fun _ => hgood
    | true =>
      cases hverify : c.verify with
      | error f => simp
      | ok verdict => simpa using fun _ => hgood

end CilPatch
