import CilPatch.Cursor.Edit

/-!
# Replacing every match

The body is searched from its start; every window that the patterns describe is replaced by what
`produce` makes of its instructions, and the search goes on behind the replacement.

* `pad`      slot by slot: slot `i` takes the `i`-th new instruction or a `nop` and keeps its
             labels; code that is longer than the window is refused;
* `splice`   the window goes and the new code comes, whatever its length.

Each step leaves less code behind the place where the search goes on, so the sweep ends.
-/

namespace CilPatch

inductive ReplaceMode where
  | pad
  | splice
deriving DecidableEq

/-- what to put in the place of a window.  It may differ from window to window though they hold the
same instructions, as the code of a caller that keeps count does -/
structure Producer where
  /-- the new code, given the number of windows found before and the instructions of this one -/
  code : Nat → List Instruction → List Instruction

namespace Producer

/-- the same for every window that holds the same instructions -/
def uniform (f : List Instruction → List Instruction) : Producer := ⟨fun _ => f⟩

instance : Coe (List Instruction → List Instruction) Producer := ⟨uniform⟩

end Producer

namespace Cursor

/-- a sweep on its way through a body -/
structure Sweep where
  cursor : Cursor
  /-- where the search goes on -/
  next : Nat := 0
  /-- windows found so far -/
  matched : Nat := 0
  /-- windows replaced so far -/
  replaced : Nat := 0
  /-- the start of the last window replaced -/
  last : Option Nat := none

namespace Sweep

/-- a window of `width` instructions at `p` is left as it is, since `code` is too long for it -/
def refuse (s : Sweep) (operation : String) (p width : Nat) (code : List Instruction) : Sweep :=
  { s with
    cursor := s.cursor.warn operation (.tooLong code.length width p)
    next := p + width
    matched := s.matched + 1 }

/-- the window at `p` has been replaced, which leaves `cursor`; the search goes on at `next` -/
def advance (s : Sweep) (cursor : Cursor) (p next : Nat) : Sweep :=
  { cursor, next, matched := s.matched + 1, replaced := s.replaced + 1, last := some p }

/-- replace the window of `width` instructions at `p` -/
def step (operation : String) (width : Nat) (produce : Producer) (mode : ReplaceMode) (s : Sweep)
    (p : Nat) : Sweep :=
  let code := produce.code s.matched (s.cursor.body.window p width)
  match mode with
  | .pad =>
    if width < code.length then s.refuse operation p width code
    else
      s.advance { s.cursor with body := s.cursor.body.overlayAt p width code } p (p + width)
  | .splice => s.advance (substitute operation s.cursor p width code) p (p + code.length)

/-- how much code lies behind the place where the search goes on -/
def remaining (s : Sweep) : Nat := s.cursor.length - s.next

/-- a step leaves the code behind the window -/
theorem remaining_step (operation : String) (width : Nat) (produce : Producer)
    (mode : ReplaceMode) (s : Sweep) (p : Nat) (h : p + width ≤ s.cursor.length) :
    (s.step operation width produce mode p).remaining = s.cursor.length - (p + width) := by
  unfold step remaining
  cases mode with
  | pad =>
    simp only
    split
    · rfl
    · show (s.cursor.body.overlayAt p width _).length - (p + width) = _
      rw [Body.length_overlayAt _ h]
      rfl
  | splice =>
    have e := Body.length_substitute (produce.code s.matched (s.cursor.body.window p width)) h
    show (s.cursor.body.substitute p width _).length - (p + _) = s.cursor.body.length - _
    omega

/-- replace window after window until none is found -/
def run (operation : String) (patterns : List Pattern) (produce : Producer) (mode : ReplaceMode)
    (hne : patterns ≠ []) (s : Sweep) : Sweep :=
  match _hp : locate s.cursor.body.code patterns s.next with
  | none => s
  | some p =>
    run operation patterns produce mode hne (s.step operation patterns.length produce mode p)
termination_by s.remaining
decreasing_by
  obtain ⟨h1, h2, -, -⟩ := locate_eq_some _hp hne
  have hpos : 0 < patterns.length := List.length_pos_iff.mpr hne
  rw [remaining_step operation patterns.length produce mode s p h2]
  have hl : s.cursor.body.code.length = s.cursor.length := rfl
  unfold remaining
  omega

theorem run_of_locate_eq_none {operation : String} {patterns : List Pattern}
    {produce : Producer} {mode : ReplaceMode} {hne : patterns ≠ []} {s : Sweep}
    (h : locate s.cursor.body.code patterns s.next = none) :
    run operation patterns produce mode hne s = s := by
  rw [run]
  split
  · rfl
  · next hp => exact absurd (hp.symm.trans h) (by simp)

theorem run_of_locate_eq_some {operation : String} {patterns : List Pattern}
    {produce : Producer} {mode : ReplaceMode} {hne : patterns ≠ []} {s : Sweep}
    {p : Nat} (h : locate s.cursor.body.code patterns s.next = some p) :
    run operation patterns produce mode hne s =
      run operation patterns produce mode hne
        (s.step operation patterns.length produce mode p) := by
  rw [run]
  split
  · next hp => exact absurd (hp.symm.trans h) (by simp)
  · next q hq => rw [Option.some.inj (hq.symm.trans h)]

end Sweep

/-- the number of windows replaced, and the cursor on the start of the last one -/
def replaceMatches (operation : String) (c : Cursor) (patterns : List Pattern)
    (produce : Producer) (mode : ReplaceMode) : Nat × Cursor :=
  if hne : patterns = [] then (0, c.warn operation .emptyPattern)
  else
    let s := Sweep.run operation patterns produce mode hne { cursor := c }
    let c :=
      if s.matched = 0 then s.cursor.warn operation (.noMatch (Pattern.windowText patterns))
      else s.cursor
    match s.last with
    | some p => (s.replaced, c.settle p)
    | none => (s.replaced, c)

/-- replace every match by the same code -/
def replaceAll (c : Cursor) (patterns : List Pattern) (code : List Instruction)
    (mode : ReplaceMode) : Nat × Cursor :=
  replaceMatches "replace_all" c patterns (.uniform fun _ => code) mode

/-- replace every match by what `produce` makes of it -/
def replaceAllWith (c : Cursor) (patterns : List Pattern) (produce : Producer)
    (mode : ReplaceMode) : Nat × Cursor :=
  replaceMatches "replace_all_with" c patterns produce mode

end Cursor

end CilPatch
