import CilPatch.Proofs.Cursor.LabelSurvival
import CilPatch.Proofs.Cursor.Tasks

/-!
# Searches in a row

A window of patterns occurs where each of the patterns describes the instruction in its place
(`OccursAt`); windows may overlap.  `occurrences` lists the places from some position on, and what a
search does is read off the head of this list (`searchAs_of_cons`, `searchAs_of_nil`).

So a search from the start, repeated behind the place that it found, comes to each window once and
from left to right, and then loses its place with one warning.  What is searched from nowhere leads
nowhere, each time with a warning (`runAll_lost`).  Together: `searches_enumerate`.
-/

namespace CilPatch

/-- as many instructions as there are patterns follow from position `i` on, each as described -/
def OccursAt (code : List Instruction) (patterns : List Pattern) (i : Nat) : Prop :=
  i + patterns.length ≤ code.length ∧
    ∀ (j : Nat) (p : Pattern) (x : Instruction),
      patterns[j]? = some p → code[i + j]? = some x → p.accepts x = true

/-- the places of all windows from position `start` on -/
def occurrences (code : List Instruction) (patterns : List Pattern) (start : Nat := 0) :
    List Nat :=
  (List.range' start (code.length - start)).filter fun i => matchesAt patterns (code.drop i)

section
variable {code : List Instruction} {patterns : List Pattern} {start i : Nat}

theorem matchesAt_iff : matchesAt patterns code = true ↔
    patterns.length ≤ code.length ∧
      ∀ (j : Nat) (p : Pattern) (x : Instruction),
        patterns[j]? = some p → code[j]? = some x → p.accepts x = true := by
  induction patterns generalizing code with
  | nil => simp [matchesAt]
  | cons q ps ih =>
    cases code with
    | nil => simp [matchesAt]
    | cons y code =>
      rw [matchesAt, Bool.and_eq_true, ih, List.length_cons, List.length_cons,
        Nat.add_le_add_iff_right]
      constructor
      · rintro ⟨hq, hlen, h⟩
        refine ⟨hlen, fun j p x hp hx => ?_⟩
        cases j with
        | zero =>
          cases hp
          cases hx
          exact hq
        | succ j => exact h j p x hp hx
      · rintro ⟨hlen, h⟩
        exact ⟨h 0 q y rfl rfl, hlen, fun j p x hp hx => h (j + 1) p x hp hx⟩

theorem occursAt_iff (hne : patterns ≠ []) :
    OccursAt code patterns i ↔ matchesAt patterns (code.drop i) = true := by
  have hpos : 0 < patterns.length := List.length_pos_iff.mpr hne
  unfold OccursAt
  rw [matchesAt_iff, List.length_drop]
  simp only [List.getElem?_drop]
  refine and_congr_left fun _ => ?_
  omega

theorem mem_occurrences (hne : patterns ≠ []) :
    i ∈ occurrences code patterns start ↔ start ≤ i ∧ OccursAt code patterns i := by
  have hpos : 0 < patterns.length := List.length_pos_iff.mpr hne
  unfold occurrences
  rw [List.mem_filter, List.mem_range'_1, occursAt_iff hne]
  constructor
  · rintro ⟨⟨hle, -⟩, hm⟩
    exact ⟨hle, hm⟩
  · rintro ⟨hle, hm⟩
    have hlen := length_le_of_matchesAt hm
    rw [List.length_drop] at hlen
    exact ⟨⟨hle, by omega⟩, hm⟩

theorem pairwise_occurrences : (occurrences code patterns start).Pairwise (· < ·) :=
  (List.pairwise_lt_range' 1).filter _

theorem occurrences_eq_nil (h : locate code patterns start = none) :
    occurrences code patterns start = [] := by
  refine List.filter_eq_nil_iff.mpr fun i hi => ?_
  rw [locate_eq_none h (List.mem_range'_1.mp hi).1]
  exact Bool.false_ne_true

/-- the first window from `start` on, and those behind its first instruction -/
theorem occurrences_eq_cons (hne : patterns ≠ []) (h : locate code patterns start = some i) :
    occurrences code patterns start = i :: occurrences code patterns (i + 1) := by
  obtain ⟨hle, hend, hm, hfirst⟩ := locate_eq_some h hne
  have hpos : 0 < patterns.length := List.length_pos_iff.mpr hne
  obtain ⟨n, rfl⟩ := Nat.exists_eq_add_of_le hle
  have hsplit : List.range' start (code.length - start) =
      List.range' start n ++ (start + n) :: List.range' (start + n + 1)
        (code.length - (start + n + 1)) := by
    rw [← List.range'_succ, List.range'_append_1]
    congr 1
    omega
  have hnone : (List.range' start n).filter (fun k => matchesAt patterns (code.drop k)) = [] := by
    refine List.filter_eq_nil_iff.mpr fun k hk => ?_
    have hrange := List.mem_range'_1.mp hk
    rw [hfirst k hrange.1 hrange.2]
    exact Bool.false_ne_true
  unfold occurrences
  rw [hsplit, List.filter_append, hnone, List.nil_append, List.filter_cons, if_pos hm]

end

namespace Cursor

variable {c : Cursor} {patterns : List Pattern} {mode : SearchMode} {start i : Nat} {is : List Nat}

theorem searchAs_eq (operation : String) (hne : patterns ≠ [])
    (hstart : c.searchStart mode = some start) :
    searchAs operation c patterns mode =
      match locate c.body.code patterns start with
      | some i => { c with position := some i }
      | none => c.lose operation (.notFound (Pattern.windowText patterns) mode start) := by
  unfold searchAs
  rw [hstart]
  exact if_neg fun he => hne (List.isEmpty_iff.mp he)

theorem searchAs_of_cons (operation : String) (hne : patterns ≠ [])
    (hstart : c.searchStart mode = some start)
    (h : occurrences c.body.code patterns start = i :: is) :
    searchAs operation c patterns mode = { c with position := some i } ∧
      occurrences c.body.code patterns (i + 1) = is := by
  rw [searchAs_eq operation hne hstart]
  cases hl : locate c.body.code patterns start with
  | none =>
    rw [occurrences_eq_nil hl] at h
    cases h
  | some k =>
    rw [occurrences_eq_cons hne hl] at h
    cases h
    exact ⟨rfl, rfl⟩

theorem searchAs_of_nil (operation : String) (hne : patterns ≠ [])
    (hstart : c.searchStart mode = some start)
    (h : occurrences c.body.code patterns start = []) :
    searchAs operation c patterns mode =
      c.lose operation (.notFound (Pattern.windowText patterns) mode start) := by
  rw [searchAs_eq operation hne hstart]
  cases hl : locate c.body.code patterns start with
  | none => rfl
  | some k =>
    rw [occurrences_eq_cons hne hl] at h
    cases h

/-- a search that may stay where it is does so on a window -/
theorem searchAs_fromCurrent (operation : String) (hne : patterns ≠ [])
    (hp : c.position = some i) (h : OccursAt c.body.code patterns i) :
    searchAs operation c patterns .fromCurrent = c := by
  have hm := (occursAt_iff hne).mp h
  have hstart : c.searchStart .fromCurrent = some i := hp
  rw [searchAs_eq operation hne hstart]
  cases hl : locate c.body.code patterns i with
  | none => exact absurd (locate_eq_none hl (Nat.le_refl i)) (by rw [hm]; exact Bool.noConfusion)
  | some k =>
    obtain ⟨hle, -, -, hfirst⟩ := locate_eq_some hl hne
    obtain rfl : k = i := by
      refine Nat.le_antisymm (Nat.le_of_not_lt fun hlt => ?_) hle
      rw [hfirst i (Nat.le_refl i) hlt] at hm
      cases hm
    show ({ c with position := some k } : Cursor) = c
    rw [← hp]

/-- a search from nowhere, or for nothing, leads nowhere -/
theorem searchAs_lost (operation : String) (patterns : List Pattern) (hmode : mode ≠ .fromStart)
    (hp : c.position = none) :
    ∃ cause, searchAs operation c patterns mode = c.warn operation cause := by
  have hstart : c.searchStart mode = none := by
    cases mode with
    | fromStart => exact absurd rfl hmode
    | fromCurrent => exact hp
    | next => exact congrArg (Option.map (· + 1)) hp
  unfold searchAs
  split
  · refine ⟨.emptyPattern, ?_⟩
    unfold lose
    rw [← hp]
  · rw [hstart]
    exact ⟨.invalidCursor, rfl⟩

end Cursor

/-! ## sessions -/

namespace Command

open Cursor

/-- the operation searches for these patterns, and it begins where `mode` says -/
inductive Seeks : Command → List Pattern → SearchMode → Prop where
  | find (p : Pattern) (mode : SearchMode) : Seeks (.find p mode) [p] mode
  | findWindow (ps : List Pattern) (mode : SearchMode) : Seeks (.findWindow ps mode) ps mode

variable {c : Cursor} {k : Command} {ks : List Command} {patterns : List Pattern}
  {mode : SearchMode} {start : Nat}

theorem Seeks.run_eq (hk : k.Seeks patterns mode) (c : Cursor) :
    k.run c = searchAs k.name c patterns mode := by
  cases hk <;> rfl

/-- the operation searches, and not from the start -/
def Resumes (k : Command) : Prop := ∃ patterns mode, k.Seeks patterns mode ∧ mode ≠ .fromStart

theorem Resumes.run_eq (hk : k.Resumes) (hp : c.position = none) : ∃ w, k.run c =
    { c with position := none, warnings := c.warnings ++ [w] } := by
  obtain ⟨patterns, mode, hseeks, hmode⟩ := hk
  obtain ⟨cause, h⟩ := searchAs_lost k.name patterns hmode hp
  exact ⟨⟨k.name, cause⟩, by rw [hseeks.run_eq, h, ← hp]; rfl⟩

/-- from nowhere each further search leads nowhere and records one warning -/
theorem runAll_lost (hks : ∀ k ∈ ks, k.Resumes) (hp : c.position = none) : ∃ ws : List Warning,
    ws.length = ks.length ∧
      runAll ks c = { c with position := none, warnings := c.warnings ++ ws } := by
  induction ks generalizing c with
  | nil => exact ⟨[], rfl, by rw [List.append_nil, ← hp]; rfl⟩
  | cons k ks ih =>
    obtain ⟨hk, hks⟩ := List.forall_mem_cons.mp hks
    obtain ⟨w, hw⟩ := hk.run_eq hp
    obtain ⟨ws, hlen, hws⟩ := ih (c := k.run c) hks (by rw [hw])
    refine ⟨w :: ws, congrArg (· + 1) hlen, ?_⟩
    show runAll ks (k.run c) = _
    rw [hws, hw, List.append_assoc]
    rfl

/-- A search that begins at `start`, and then searches from place to place: they come to the windows
from `start` on, one after the other.  By induction on the searches; the first one leads to the
first window, from which the next one begins. -/
theorem runAll_seeks (hne : patterns ≠ []) (hk : k.Seeks patterns mode)
    (hstart : c.searchStart mode = some start) (hks : ∀ k ∈ ks, k.Seeks patterns .next) :
    (∀ h : ks.length < (occurrences c.body.code patterns start).length,
      runAll (k :: ks) c =
        { c with position := some (occurrences c.body.code patterns start)[ks.length] }) ∧
      (ks.length = (occurrences c.body.code patterns start).length → ∃ w,
        runAll (k :: ks) c = { c with position := none, warnings := c.warnings ++ [w] }) := by
  induction ks generalizing c k mode start with
  | nil =>
    show (∀ h : _, k.run c = _) ∧ (_ → ∃ w, k.run c = _)
    rw [hk.run_eq]
    cases hfound : occurrences c.body.code patterns start with
    | nil =>
      rw [searchAs_of_nil _ hne hstart hfound]
      exact ⟨fun h => absurd h (Nat.lt_irrefl 0), fun _ => ⟨_, rfl⟩⟩
    | cons i found =>
      rw [(searchAs_of_cons _ hne hstart hfound).1]
      exact ⟨fun _ => rfl, fun h => absurd h (Nat.zero_ne_add_one _)⟩
  | cons next ks ih =>
    obtain ⟨hnext, hks⟩ := List.forall_mem_cons.mp hks
    cases hfound : occurrences c.body.code patterns start with
    | nil => exact ⟨fun h => absurd h (Nat.not_lt_zero _), nofun⟩
    | cons i found =>
      obtain ⟨hrun, rfl⟩ := searchAs_of_cons k.name hne hstart hfound
      rw [← hk.run_eq] at hrun
      have hfrom : (k.run c).searchStart .next = some (i + 1) := by rw [hrun]; rfl
      have hrest := ih hnext hfrom hks
      rw [hrun] at hrest
      show (∀ h : _, runAll (next :: ks) (k.run c) = _) ∧
        (_ → ∃ w, runAll (next :: ks) (k.run c) = _)
      rw [hrun]
      exact ⟨fun h => hrest.1 (Nat.lt_of_succ_lt_succ h), fun h => hrest.2 (Nat.succ.inj h)⟩

end Command

open Command

/-- What comes of searching for `patterns`, once from the start and then from place to place.  The
searches come to the places `found`, from left to right and to each once, which are those where the
patterns occur; then the cursor points at nothing, and it stays so however the search goes on.  A
search that may stay where it is stays on each of these places. -/
structure Enumerated (c : Cursor) (patterns : List Pattern) (found : List Nat) : Prop where
  increasing : found.Pairwise (· < ·)
  mem_iff : ∀ i, i ∈ found ↔ OccursAt c.body.code patterns i
  visited : ∀ first nexts, Seeks first patterns .fromStart →
    (∀ k ∈ nexts, k.Seeks patterns .next) → ∀ h : nexts.length < found.length,
      runAll (first :: nexts) c = { c with position := some found[nexts.length] }
  lost : ∀ first nexts, Seeks first patterns .fromStart →
    (∀ k ∈ nexts, k.Seeks patterns .next) → nexts.length = found.length → ∃ w,
      runAll (first :: nexts) c = { c with position := none, warnings := c.warnings ++ [w] } ∧
        ∀ later, (∀ k ∈ later, k.Resumes) → ∃ ws : List Warning, ws.length = later.length ∧
          runAll (first :: nexts ++ later) c =
            { c with position := none, warnings := c.warnings ++ w :: ws }
  held : ∀ k i, Seeks k patterns .fromCurrent → i ∈ found →
    k.run { c with position := some i } = { c with position := some i }

/-- **Searching again and again comes to every window**, overlapping ones included. -/
theorem searches_enumerate (c : Cursor) {patterns : List Pattern} (hne : patterns ≠ []) :
    Enumerated c patterns (occurrences c.body.code patterns) where
  increasing := pairwise_occurrences
  mem_iff i := (mem_occurrences hne).trans (and_iff_right (Nat.zero_le i))
  visited _ _ hfirst hnexts := (runAll_seeks hne hfirst rfl hnexts).1
  lost first nexts hfirst hnexts hlen := by
    obtain ⟨w, hw⟩ := (runAll_seeks hne hfirst (c := c) rfl hnexts).2 hlen
    refine ⟨w, hw, fun later hlater => ?_⟩
    obtain ⟨ws, hws, hrun⟩ := runAll_lost (c := runAll (first :: nexts) c) hlater (by rw [hw])
    refine ⟨ws, hws, ?_⟩
    rw [runAll_append, hrun, hw, List.append_assoc]
    rfl
  held k i hk hi := by
    rw [hk.run_eq]
    exact Cursor.searchAs_fromCurrent _ hne rfl ((mem_occurrences hne).mp hi).2

/-- two windows of two `nop`s, which share one -/
theorem searches_enumerate_nops :
    let c : Cursor :=
      { body := .ofCode [{ opcode := .nop }, { opcode := .nop }, { opcode := .nop }]
        position := none }
    let nops : List Pattern := [.opcode .nop, .opcode .nop]
    let first : Command := .findWindow nops .fromStart
    let next : Command := .findWindow nops .next
    nops ≠ [] ∧ Enumerated c nops [0, 1] ∧ runAll [first, next] c = { c with position := some 1 } ∧
      ∃ w, runAll [first, next, next] c = { c with warnings := [w] } := by
  intro c nops first next
  have hne : nops ≠ [] := List.cons_ne_nil _ _
  have hfound : occurrences c.body.code nops = [0, 1] := by decide
  have h : Enumerated c nops [0, 1] := hfound ▸ searches_enumerate c hne
  have hfirst : first.Seeks nops .fromStart := .findWindow nops .fromStart
  have hnext : next.Seeks nops .next := .findWindow nops .next
  refine ⟨hne, h, h.visited first [next] hfirst (by simpa using hnext) (by decide), ?_⟩
  obtain ⟨w, hw, -⟩ := h.lost first [next, next] hfirst (by simpa using hnext) rfl
  exact ⟨w, hw⟩

end CilPatch
