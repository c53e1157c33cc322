import CilPatch.Cursor.Command
import CilPatch.Proofs.Code.Bounds

/-!
# Cursors stay inside their bodies

A cursor points at nothing or at an instruction of its body (`Inside`).  Every operation keeps it
so, though each one moves the place and the end of the body in its own way: an insertion shifts both
by the same amount, a removal settles at its start or nowhere, and a sweep returns to the start of
the last window that it replaced, or else leaves cursor and body alone (`Sweep.Rests`).

So nothing an operation reaches for is missing.  The operations are written once more with accesses
that fail (`Command.run?`): where the cursor is inside, they give the cursor that the operations
give, for every argument (`cursor_stays_inside`).
-/

namespace CilPatch

/-! ## searches -/

/-- try `n` places, from `start` on, for a window that the patterns describe -/
def probe? (code : List Instruction) (patterns : List Pattern) : Nat → Nat → Option (Option Nat)
  | _, 0 => some none
  | start, n + 1 => do
    let rest ← slice? code start code.length
    if matchesAt patterns rest then return some start
    probe? code patterns (start + 1) n

/-- the search of `locate`, which tries the places from which the patterns do not reach out of the
code -/
def locate? (code : List Instruction) (patterns : List Pattern) (start : Nat) :
    Option (Option Nat) :=
  probe? code patterns start (code.length + 1 - patterns.length - start)

section
variable {code : List Instruction} {patterns : List Pattern}

theorem locate_of_matchesAt {start : Nat} (h : matchesAt patterns (code.drop start) = true) :
    locate code patterns start = some start := by
  unfold locate
  rw [locateFrom.eq_def, if_pos h]

theorem locate_succ {start : Nat} (hs : start < code.length)
    (h : matchesAt patterns (code.drop start) = false) :
    locate code patterns start = locate code patterns (start + 1) := by
  have hne : ¬ matchesAt patterns (code.drop start) = true := Bool.eq_false_iff.mp h
  rw [List.drop_eq_getElem_cons hs] at hne
  unfold locate
  rw [List.drop_eq_getElem_cons hs, locateFrom, if_neg hne]

theorem locate_past {start : Nat} (hne : patterns ≠ [])
    (h : code.length < start + patterns.length) : locate code patterns start = none := by
  cases hlocate : locate code patterns start with
  | none => rfl
  | some i =>
    obtain ⟨hstart, hend, -⟩ := locate_eq_some hlocate hne
    omega

/-- by induction on the places that are left to try -/
theorem probe?_eq (hne : patterns ≠ []) {start n : Nat}
    (hn : code.length + 1 - patterns.length - start = n) :
    probe? code patterns start n = some (locate code patterns start) := by
  have hpos : 0 < patterns.length := List.length_pos_iff.mpr hne
  induction n generalizing start with
  | zero => rw [probe?, locate_past hne (by omega)]
  | succ n ih =>
    have hs : start < code.length := by omega
    have hrest : slice? code start code.length = some (code.drop start) := by
      rw [slice?_eq (by omega) (Nat.le_refl _), List.take_of_length_le (by simp)]
    rw [probe?, hrest]
    show (if matchesAt patterns (code.drop start) = true then _ else _) = _
    split
    · next hm => rw [locate_of_matchesAt hm]; rfl
    · next hm =>
      rw [locate_succ hs (Bool.eq_false_iff.mpr hm)]
      exact ih (by omega)

theorem locate?_eq (hne : patterns ≠ []) (start : Nat) :
    locate? code patterns start = some (locate code patterns start) := probe?_eq hne rfl

end

namespace Cursor

variable {c : Cursor}

/-- the cursor points at an instruction, if at anything -/
def Inside (c : Cursor) : Prop := ∀ p, c.position = some p → p < c.length

theorem inside_ofBody (b : Body) (v : Verifier) : (ofBody b v).Inside := by
  intro p hp
  unfold ofBody at hp
  dsimp only at hp
  split at hp
  · cases hp
  · next hne =>
    cases hp
    exact List.length_pos_iff.mpr fun he => hne (List.isEmpty_iff.mpr he)

/-! ## moves -/

theorem inside_of_none (h : c.position = none) : c.Inside := by
  intro p hp
  rw [h] at hp
  cases hp

theorem inside_of_some {i : Nat} (h : c.position = some i) (hi : i < c.length) : c.Inside := by
  intro p hp
  rw [h] at hp
  cases hp
  exact hi

theorem inside_lose (c : Cursor) (operation : String) (cause : Warning.Cause) :
    (c.lose operation cause).Inside := inside_of_none rfl

theorem inside_settle (c : Cursor) (i : Nat) : (c.settle i).Inside := by
  by_cases hi : i < c.length
  · exact inside_of_some (if_pos hi) hi
  · exact inside_of_none (if_neg hi)

theorem inside_seekAs (operation : String) (c : Cursor) (i : Nat) :
    (seekAs operation c i).Inside := by
  unfold seekAs
  split
  · next hi => exact inside_of_some rfl hi
  · exact inside_lose c _ _

theorem inside_finish (c : Cursor) : c.finish.Inside := by
  unfold finish
  split
  · exact inside_lose c _ _
  · exact inside_seekAs _ c _

theorem Inside.advance (h : c.Inside) (delta : Int) : (c.advance delta).Inside := by
  unfold Cursor.advance
  split
  · exact h
  · dsimp only
    split
    · next p hp hi =>
      refine inside_of_some rfl (show ((p : Int) + delta).toNat < c.length from ?_)
      omega
    · exact inside_lose c _ _

/-- the search for a window, as `searchAs` goes about it -/
def searchAs? (operation : String) (c : Cursor) (patterns : List Pattern) (mode : SearchMode) :
    Option Cursor :=
  if patterns.isEmpty then some (c.lose operation .emptyPattern)
  else
    match c.searchStart mode with
    | none => some (c.warn operation .invalidCursor)
    | some first => do
      match ← locate? c.body.code patterns first with
      | some i => return { c with position := some i }
      | none => return c.lose operation (.notFound (Pattern.windowText patterns) mode first)

theorem searchAs?_eq (operation : String) (c : Cursor) (patterns : List Pattern)
    (mode : SearchMode) :
    searchAs? operation c patterns mode = some (searchAs operation c patterns mode) := by
  unfold searchAs? searchAs
  split
  · rfl
  · next hne =>
    cases c.searchStart mode with
    | none => rfl
    | some first =>
      dsimp only
      rw [locate?_eq fun he => hne (List.isEmpty_iff.mpr he)]
      cases hlocate : locate c.body.code patterns first <;> rfl

theorem Inside.searchAs (h : c.Inside) (operation : String) (patterns : List Pattern)
    (mode : SearchMode) : (searchAs operation c patterns mode).Inside := by
  unfold Cursor.searchAs
  split
  · exact inside_lose c _ _
  · next hne =>
    have hne : patterns ≠ [] := fun he => hne (List.isEmpty_iff.mpr he)
    split
    · exact h
    · split
      · next i hlocate =>
        have hend := (locate_eq_some hlocate hne).2.1
        have hpos : 0 < patterns.length := List.length_pos_iff.mpr hne
        exact inside_of_some rfl (show i < c.body.code.length by omega)
      · exact inside_lose c _ _

/-! ## edits -/

/-- an error of the body counts as a place that is not there -/
def markLabel? (c : Cursor) (l : Label) : Option Cursor :=
  match c.position with
  | none => some (c.warn "mark_label" .invalidCursor)
  | some p =>
    match c.body.markLabel p l with
    | .ok body => some { c with body }
    | .error _ => none

def insertAs? (operation : String) (insert? : Body → Nat → List Instruction → Option Body)
    (c : Cursor) (code : List Instruction) : Option Cursor :=
  match c.position with
  | none => some (c.warn operation .invalidCursor)
  | some p =>
    if code.isEmpty then some (c.warn operation .nothingToInsert)
    else (insert? c.body p code).map fun body =>
      { c with body, position := some (p + code.length) }

def replace? (c : Cursor) (x : Instruction) : Option Cursor :=
  match c.position with
  | none => some (c.warn "replace" .invalidCursor)
  | some p => (c.body.replaceAt? p x).map fun body => { c with body }

/-- the warnings reach for nothing -/
def substitute? (operation : String) (c : Cursor) (p n : Nat) (code : List Instruction) :
    Option Cursor :=
  (c.body.substitute? p n code).map fun body => { substitute operation c p n code with body }

def removeAs? (operation : String) (c : Cursor) (n : Nat) (code : List Instruction) :
    Option Cursor :=
  match c.position with
  | none => some (c.warn operation .invalidCursor)
  | some p =>
    if n = 0 then some (c.warn operation .nothingToRemove)
    else if c.length < p + n then some (c.warn operation (.pastEnd n p))
    else (substitute? operation c p n code).map (·.settle p)

theorem exists_markLabel {b : Body} {p : Nat} (h : p < b.length) (l : Label) :
    ∃ b', b.markLabel p l = .ok b' ∧ b'.length = b.length := by
  unfold Body.markLabel
  rw [if_pos h]
  refine ⟨_, rfl, ?_⟩
  show (List.modify (b.code.map _) p _).length = b.code.length
  rw [List.length_modify, List.length_map]

theorem Inside.markLabel (h : c.Inside) (l : Label) :
    (c.markLabel l).Inside ∧ c.markLabel? l = some (c.markLabel l) := by
  unfold Cursor.markLabel Cursor.markLabel?
  cases hp : c.position with
  | none => exact ⟨h, rfl⟩
  | some p =>
    obtain ⟨body, hbody, hlength⟩ := exists_markLabel (h p hp) l
    dsimp only
    rw [hbody]
    refine ⟨inside_of_some rfl ?_, rfl⟩
    show p < body.length
    rw [hlength]
    exact h p hp

theorem Inside.insertAs (h : c.Inside) (operation : String)
    (insert : Body → Nat → List Instruction → Body)
    (insert? : Body → Nat → List Instruction → Option Body) {code : List Instruction}
    (hlength : ∀ p < c.length, (insert c.body p code).length = c.length + code.length)
    (hinsert : ∀ p < c.length, code ≠ [] → insert? c.body p code = some (insert c.body p code)) :
    (insertAs operation insert c code).Inside ∧
      insertAs? operation insert? c code = some (insertAs operation insert c code) := by
  unfold Cursor.insertAs Cursor.insertAs?
  cases hp : c.position with
  | none => exact ⟨h, rfl⟩
  | some p =>
    have hlt : p < c.length := h p hp
    dsimp only
    split
    · exact ⟨h, rfl⟩
    · next hne =>
      refine ⟨inside_of_some rfl ?_, ?_⟩
      · show p + code.length < (insert c.body p code).length
        rw [hlength p hlt]
        omega
      · rw [hinsert p hlt fun he => hne (List.isEmpty_iff.mpr he)]
        rfl

theorem Inside.replace (h : c.Inside) (x : Instruction) :
    (c.replace x).Inside ∧ c.replace? x = some (c.replace x) := by
  unfold Cursor.replace Cursor.replace?
  cases hp : c.position with
  | none => exact ⟨h, rfl⟩
  | some p =>
    have hlt : p < c.length := h p hp
    refine ⟨inside_of_some rfl ?_, ?_⟩
    · show p < (c.body.replaceAt p x).length
      rw [Body.length_replaceAt]
      exact hlt
    · dsimp only
      rw [Body.replaceAt?_eq x hlt]
      rfl

theorem substitute?_eq (operation : String) {p n : Nat} (code : List Instruction)
    (h : p + n ≤ c.length) :
    substitute? operation c p n code = some (substitute operation c p n code) := by
  unfold substitute?
  rw [Body.substitute?_eq h]
  rfl

theorem Inside.removeAs (h : c.Inside) (operation : String) (n : Nat) (code : List Instruction) :
    (removeAs operation c n code).Inside ∧
      removeAs? operation c n code = some (removeAs operation c n code) := by
  unfold Cursor.removeAs Cursor.removeAs?
  cases hp : c.position with
  | none => exact ⟨h, rfl⟩
  | some p =>
    dsimp only
    split
    · exact ⟨h, rfl⟩
    · split
      · exact ⟨h, rfl⟩
      · next hend =>
        refine ⟨inside_settle _ p, ?_⟩
        rw [substitute?_eq operation code (Nat.le_of_not_lt hend)]
        rfl

/-! ## bulk replacement -/

namespace Sweep

/-- as long as no window has been replaced nothing has changed, and the place never does -/
structure Rests (s s' : Sweep) : Prop where
  position : s'.cursor.position = s.cursor.position
  body : s'.last = none → s.last = none ∧ s'.cursor.body = s.cursor.body

variable {s s' s'' : Sweep}

theorem Rests.refl (s : Sweep) : Rests s s := ⟨rfl, fun h => ⟨h, rfl⟩⟩

theorem Rests.trans (h : Rests s s') (h' : Rests s' s'') : Rests s s'' where
  position := h'.position.trans h.position
  body hlast := by
    obtain ⟨hlast', hbody'⟩ := h'.body hlast
    obtain ⟨hlast, hbody⟩ := h.body hlast'
    exact ⟨hlast, hbody'.trans hbody⟩

theorem rests_refuse (s : Sweep) (operation : String) (p width : Nat) (code : List Instruction) :
    Rests s (s.refuse operation p width code) := ⟨rfl, fun h => ⟨h, rfl⟩⟩

theorem rests_advance {c : Cursor} (hc : c.position = s.cursor.position) (p next : Nat) :
    Rests s (s.advance c p next) := ⟨hc, fun h => nomatch h⟩

theorem rests_step (operation : String) (width : Nat) (produce : Producer) (mode : ReplaceMode)
    (s : Sweep) (p : Nat) : Rests s (s.step operation width produce mode p) := by
  unfold step
  cases mode with
  | pad =>
    dsimp only
    split
    · exact rests_refuse s operation p width _
    · refine rests_advance ?_ p _
      rfl
  | splice =>
    refine rests_advance ?_ p _
    rfl

/-- by induction on the code that is left to search -/
theorem rests_run (operation : String) (patterns : List Pattern) (produce : Producer)
    (mode : ReplaceMode) (hne : patterns ≠ []) (s : Sweep) :
    Rests s (run operation patterns produce mode hne s) := by
  fun_induction run operation patterns produce mode hne s with
  | case1 s h => exact .refl s
  | case2 s p h ih => exact (rests_step operation _ produce mode s p).trans ih

def step? (operation : String) (width : Nat) (produce : Producer) (mode : ReplaceMode) (s : Sweep)
    (p : Nat) : Option Sweep := do
  let window ← slice? s.cursor.body.code p (p + width)
  let code := produce.code s.matched window
  match mode with
  | .pad =>
    if width < code.length then return s.refuse operation p width code
    let body ← s.cursor.body.overlayAt? p width code
    return s.advance { s.cursor with body } p (p + width)
  | .splice =>
    let c ← substitute? operation s.cursor p width code
    return s.advance c p (p + code.length)

theorem step?_eq (operation : String) {width : Nat} (produce : Producer) (mode : ReplaceMode)
    {p : Nat} (h : p + width ≤ s.cursor.length) :
    s.step? operation width produce mode p = some (s.step operation width produce mode p) := by
  unfold step? step
  simp only [Body.slice?_window h, Option.bind_eq_bind, Option.bind_some]
  cases mode with
  | pad =>
    dsimp only
    split
    · rfl
    · rw [Body.overlayAt?_eq h]
      rfl
  | splice =>
    dsimp only
    rw [substitute?_eq operation _ h]
    rfl

/-- where the search finds a window, it can be replaced -/
theorem step?_of_locate? (operation : String) {patterns : List Pattern} (produce : Producer)
    (mode : ReplaceMode) (hne : patterns ≠ []) {p : Nat}
    (hlocate : locate? s.cursor.body.code patterns s.next = some (some p)) :
    locate s.cursor.body.code patterns s.next = some p ∧
      s.step? operation patterns.length produce mode p =
        some (s.step operation patterns.length produce mode p) := by
  rw [locate?_eq hne] at hlocate
  have hfound := Option.some.inj hlocate
  exact ⟨hfound, step?_eq operation produce mode (locate_eq_some hfound hne).2.1⟩

/-- a step leaves the code behind the window, and so less to search -/
theorem remaining_step? {operation : String} {patterns : List Pattern} {produce : Producer}
    {mode : ReplaceMode} (hne : patterns ≠ []) {p : Nat}
    (hlocate : locate? s.cursor.body.code patterns s.next = some (some p))
    (hstep : s.step? operation patterns.length produce mode p = some s') :
    s'.remaining < s.remaining := by
  have hpos : 0 < patterns.length := List.length_pos_iff.mpr hne
  obtain ⟨hfound, hdone⟩ := step?_of_locate? operation produce mode hne hlocate
  obtain ⟨hnext, hend, -⟩ := locate_eq_some hfound hne
  have hend' : p + patterns.length ≤ s.cursor.length := hend
  obtain rfl := Option.some.inj (hdone.symm.trans hstep)
  rw [remaining_step operation _ produce mode s p hend']
  unfold remaining
  omega

/-- window after window until none is found -/
def run? (operation : String) (patterns : List Pattern) (produce : Producer) (mode : ReplaceMode)
    (hne : patterns ≠ []) (s : Sweep) : Option Sweep :=
  match _hlocate : locate? s.cursor.body.code patterns s.next with
  | none => none
  | some none => some s
  | some (some p) =>
    match _hstep : s.step? operation patterns.length produce mode p with
    | none => none
    | some s' => run? operation patterns produce mode hne s'
termination_by s.remaining
decreasing_by exact remaining_step? hne _hlocate _hstep

theorem run?_eq (operation : String) {patterns : List Pattern} (produce : Producer)
    (mode : ReplaceMode) (hne : patterns ≠ []) (s : Sweep) :
    run? operation patterns produce mode hne s =
      some (run operation patterns produce mode hne s) := by
  fun_induction run? operation patterns produce mode hne s with
  | case1 s hlocate =>
    rw [locate?_eq hne] at hlocate
    cases hlocate
  | case2 s hlocate =>
    rw [locate?_eq hne] at hlocate
    rw [run_of_locate_eq_none (Option.some.inj hlocate)]
  | case3 s p hlocate hstep =>
    obtain ⟨-, hdone⟩ := step?_of_locate? operation produce mode hne hlocate
    cases hdone.symm.trans hstep
  | case4 s p hlocate s' hstep ih =>
    obtain ⟨hfound, hdone⟩ := step?_of_locate? operation produce mode hne hlocate
    rw [ih, run_of_locate_eq_some hfound, Option.some.inj (hdone.symm.trans hstep)]

end Sweep

def replaceMatches? (operation : String) (c : Cursor) (patterns : List Pattern)
    (produce : Producer) (mode : ReplaceMode) : Option Cursor :=
  if hne : patterns = [] then some (c.warn operation .emptyPattern)
  else do
    let s ← Sweep.run? operation patterns produce mode hne { cursor := c }
    let c :=
      if s.matched = 0 then s.cursor.warn operation (.noMatch (Pattern.windowText patterns))
      else s.cursor
    match s.last with
    | some p => return c.settle p
    | none => return c

theorem Inside.replaceMatches (h : c.Inside) (operation : String) (patterns : List Pattern)
    (produce : Producer) (mode : ReplaceMode) :
    (replaceMatches operation c patterns produce mode).2.Inside ∧
      replaceMatches? operation c patterns produce mode =
        some (replaceMatches operation c patterns produce mode).2 := by
  unfold Cursor.replaceMatches Cursor.replaceMatches?
  by_cases hne : patterns = []
  · rw [dif_pos hne, dif_pos hne]
    exact ⟨h, rfl⟩
  · rw [dif_neg hne, dif_neg hne, Sweep.run?_eq operation produce mode hne]
    have hrests := Sweep.rests_run operation patterns produce mode hne { cursor := c }
    generalize Sweep.run operation patterns produce mode hne { cursor := c } = s at hrests
    simp only [Option.bind_eq_bind, Option.bind_some]
    cases hlast : s.last with
    | some p => exact ⟨inside_settle _ p, rfl⟩
    | none =>
      -- no window was replaced: the cursor is where it was, on the same body
      refine ⟨?_, rfl⟩
      have hs : s.cursor.Inside := by
        intro p hp
        have hbody : s.cursor.body = c.body := (hrests.body hlast).2
        show p < s.cursor.body.length
        rw [hbody]
        exact h p (hrests.position ▸ hp)
      dsimp only
      split
      · exact hs
      · exact hs

end Cursor

/-! ## sessions -/

namespace Command

open Cursor

/-- the cursor behind the operation, nothing if it reaches for a place that is not there -/
def run? (c : Cursor) : Command → Option Cursor
  | start => some c.start
  | finish => some c.finish
  | seek i => some (c.seek i)
  | advance delta => some (c.advance delta)
  | find pattern mode => searchAs? "find" c [pattern] mode
  | findWindow patterns mode => searchAs? "find_sequence" c patterns mode
  | defineLabel => some c.defineLabel.2
  | markLabel l => c.markLabel? l
  | insertBefore code => insertAs? "insert_before" Body.insertAt? c code
  | insertBeforeLabeled code => insertAs? "insert_before_labeled" Body.insertLabeledAt? c code
  | insertAfter code => insertAs? "insert_after" (fun b p code => b.insertAt? (p + 1) code) c code
  | replace x => c.replace? x
  | delete => removeAs? "delete" c 1 []
  | deleteMany n => removeAs? "delete_n" c n []
  | replaceMany n code => removeAs? "replace_sequence" c n code
  | replaceAll patterns code mode =>
    replaceMatches? "replace_all" c patterns (.uniform fun _ => code) mode
  | replaceAllWith patterns produce mode =>
    replaceMatches? "replace_all_with" c patterns produce mode

/-- the cursor behind a session, nothing if one of its operations reaches too far -/
def runAll? (ks : List Command) (c : Cursor) : Option Cursor := ks.foldlM (fun c k => k.run? c) c

/-- **Every operation keeps the cursor inside its body**, and then reaches for nothing outside. -/
theorem inside_run {c : Cursor} (h : c.Inside) (k : Command) :
    (k.run c).Inside ∧ k.run? c = some (k.run c) := by
  cases k with
  | start => exact ⟨inside_seekAs _ c 0, rfl⟩
  | finish => exact ⟨inside_finish c, rfl⟩
  | seek i => exact ⟨inside_seekAs _ c i, rfl⟩
  | advance delta => exact ⟨h.advance delta, rfl⟩
  | find pattern mode => exact ⟨h.searchAs _ _ mode, searchAs?_eq _ c _ mode⟩
  | findWindow patterns mode => exact ⟨h.searchAs _ _ mode, searchAs?_eq _ c _ mode⟩
  | defineLabel => exact ⟨h, rfl⟩
  | markLabel l => exact h.markLabel l
  | insertBefore code =>
    refine h.insertAs _ Body.insertAt Body.insertAt? (fun p _ => ?_) fun p hp _ => ?_
    · exact c.body.length_insertAt p code
    · exact Body.insertAt?_eq (Nat.le_of_lt hp)
  | insertBeforeLabeled code =>
    refine h.insertAs _ Body.insertLabeledAt Body.insertLabeledAt? (fun p hp => ?_)
      fun p hp hne => ?_
    · exact Body.length_insertLabeledAt (List.getElem?_eq_getElem hp)
    · exact Body.insertLabeledAt?_eq hp hne
  | insertAfter code =>
    refine h.insertAs _ (fun b p code => b.insertAt (p + 1) code)
      (fun b p code => b.insertAt? (p + 1) code) (fun p _ => ?_) fun p hp _ => ?_
    · exact c.body.length_insertAt (p + 1) code
    · exact Body.insertAt?_eq (Nat.succ_le_of_lt hp)
  | replace x => exact h.replace x
  | delete => exact h.removeAs _ 1 []
  | deleteMany n => exact h.removeAs _ n []
  | replaceMany n code => exact h.removeAs _ n code
  | replaceAll patterns code mode => exact h.replaceMatches _ patterns _ mode
  | replaceAllWith patterns produce mode => exact h.replaceMatches _ patterns produce mode

theorem inside_runAll {c : Cursor} (h : c.Inside) (ks : List Command) :
    (runAll ks c).Inside ∧ runAll? ks c = some (runAll ks c) := by
  induction ks generalizing c with
  | nil => exact ⟨h, rfl⟩
  | cons k ks ih =>
    obtain ⟨hinside, hrun⟩ := inside_run h k
    refine ⟨(ih hinside).1, ?_⟩
    unfold runAll?
    rw [List.foldlM_cons, hrun]
    exact (ih hinside).2

end Command

/-- **The cursor never leaves its body.**  After whatever operations, with whatever arguments, it
points at nothing or at an instruction; every place that the operations have reached for on the way
was there, and a label that is to be attached at the cursor can be. -/
theorem cursor_stays_inside (b : Body) (v : Verifier) (ks : List Command) :
    let c := Command.runAll ks (.ofBody b v)
    c.Inside ∧ Command.runAll? ks (.ofBody b v) = some c ∧
      ∀ p l, c.position = some p → ∃ b', c.body.markLabel p l = .ok b' := by
  intro c
  obtain ⟨hinside, hrun⟩ := Command.inside_runAll (Cursor.inside_ofBody b v) ks
  refine ⟨hinside, hrun, fun p l hp => ?_⟩
  obtain ⟨b', hb', -⟩ := Cursor.exists_markLabel (hinside p hp) l
  exact ⟨b', hb'⟩

end CilPatch
