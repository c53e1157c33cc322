import CilPatch.Code.Splice
import CilPatch.Cursor.Pattern

/-!
# Windows

The windows that patterns describe in a piece of code, found in one pass from left to right: the
first one at or behind the place where the search stands, and then on from its end
(`windows_eq_cons`).  `filled` is the code with something else in the place of each of them.

Patterns may look at the labels that instructions carry.  Those that do not (`readsLabels`) describe
the same windows whatever labels there are (`matchesAt_congr`); and labels that the first
instruction gains can only matter to a window that begins there (`locateFrom_inherit`).
-/

namespace CilPatch

open Instruction

/-! ## patterns that look at labels -/

namespace Pattern

/-- the pattern may look at the labels that an instruction carries -/
def readsLabels : Pattern → Bool
  | labeled _ => true
  | test _ _ => true
  | all patterns => anyReads patterns
  | _ => false
where
  anyReads : List Pattern → Bool
    | [] => false
    | p :: rest => p.readsLabels || anyReads rest

mutual

theorem accepts_unlabeled (x : Instruction) :
    (p : Pattern) → p.readsLabels = false → p.accepts x.unlabeled = p.accepts x
  | any, _ | opcode _, _ | oneOf _, _ | call .., _ | field .., _ | loads _, _ | branchTo _, _ => rfl
  | all patterns, h => acceptsAll_unlabeled x patterns h

theorem acceptsAll_unlabeled (x : Instruction) :
    (patterns : List Pattern) → readsLabels.anyReads patterns = false →
      accepts.acceptsAll patterns x.unlabeled = accepts.acceptsAll patterns x
  | [], _ => rfl
  | p :: rest, h => by
    obtain ⟨hp, hrest⟩ := Bool.or_eq_false_iff.mp h
    rw [accepts.acceptsAll, accepts.acceptsAll, accepts_unlabeled x p hp,
      acceptsAll_unlabeled x rest hrest]

end

end Pattern

theorem matchesAt_congr {patterns : List Pattern} {code code' : List Instruction}
    (hp : ∀ p ∈ patterns, p.readsLabels = false)
    (h : code.map unlabeled = code'.map unlabeled) :
    matchesAt patterns code = matchesAt patterns code' := by
  induction patterns generalizing code code' with
  | nil => rfl
  | cons p ps ih =>
    cases code with
    | nil =>
      rw [List.map_eq_nil_iff.mp h.symm]
    | cons x code =>
      obtain ⟨x', code', rfl, hx, hcode⟩ := List.map_eq_cons_iff.mp h.symm
      rw [matchesAt, matchesAt, ih (fun q hq => hp q (List.mem_cons_of_mem _ hq)) hcode.symm,
        ← p.accepts_unlabeled x (hp p List.mem_cons_self), ← hx,
        p.accepts_unlabeled x' (hp p List.mem_cons_self)]

/-! ## searches -/

theorem locateFrom_shift (patterns : List Pattern) (n : Nat) (code : List Instruction) :
    locateFrom patterns n code = (locateFrom patterns 0 code).map (n + ·) := by
  induction code generalizing n with
  | nil =>
    rw [locateFrom, locateFrom]
    split <;> rfl
  | cons x code ih =>
    rw [locateFrom, locateFrom]
    split
    · rfl
    · rw [ih (n + 1), ih (0 + 1), Option.map_map]
      congr 1
      funext k
      show n + 1 + k = n + (0 + 1 + k)
      omega

/-- labels on the first instruction only matter to a window that begins there -/
theorem locateFrom_inherit {patterns : List Pattern} {code : List Instruction}
    {held : List Label} (n : Nat)
    (h : matchesAt patterns (inherit held code) = matchesAt patterns code) :
    locateFrom patterns n (inherit held code) = locateFrom patterns n code := by
  cases code with
  | nil => rfl
  | cons x code =>
    rw [locateFrom, ← h]
    show locateFrom patterns n (_ :: code) = _
    rw [locateFrom]
    rfl

/-! ## windows -/

/-- the windows in `code`, whose first instruction has position `n`, the leftmost one first; the
next `skip` positions belong to a window already -/
def windowsFrom (patterns : List Pattern) : Nat → Nat → List Instruction → List Nat
  | _, _, [] => []
  | n, skip + 1, _ :: rest => windowsFrom patterns (n + 1) skip rest
  | n, 0, x :: rest =>
    if matchesAt patterns (x :: rest) then
      n :: windowsFrom patterns (n + 1) (patterns.length - 1) rest
    else windowsFrom patterns (n + 1) 0 rest

/-- the windows from position `start` on: the first one, and then those behind it -/
def windows (code : List Instruction) (patterns : List Pattern) (start : Nat := 0) : List Nat :=
  windowsFrom patterns start 0 (code.drop start)

section
variable {patterns : List Pattern} {code : List Instruction} {n p start : Nat}

theorem windowsFrom_skip (patterns : List Pattern) (n skip : Nat) (code : List Instruction) :
    windowsFrom patterns n skip code = windowsFrom patterns (n + skip) 0 (code.drop skip) := by
  induction code generalizing n skip with
  | nil => rw [List.drop_nil, windowsFrom, windowsFrom]
  | cons x code ih =>
    cases skip with
    | zero => rfl
    | succ skip =>
      rw [windowsFrom, ih, List.drop_succ_cons]
      congr 1
      omega

theorem windowsFrom_of_none (h : locateFrom patterns n code = none) :
    windowsFrom patterns n 0 code = [] := by
  induction code generalizing n with
  | nil => rw [windowsFrom]
  | cons x code ih =>
    rw [locateFrom] at h
    split at h
    · cases h
    · next hm =>
      rw [windowsFrom, if_neg hm]
      exact ih h

theorem windowsFrom_of_some (hne : patterns ≠ []) (h : locateFrom patterns n code = some p) :
    windowsFrom patterns n 0 code =
      p :: windowsFrom patterns (p + patterns.length) 0 (code.drop (p - n + patterns.length)) := by
  obtain ⟨width, hwidth⟩ : ∃ width, patterns.length = width + 1 :=
    Nat.exists_eq_succ_of_ne_zero fun e => hne (List.eq_nil_of_length_eq_zero e)
  induction code generalizing n with
  | nil =>
    rw [locateFrom] at h
    split at h
    · next hm =>
      have hle := length_le_of_matchesAt hm
      rw [hwidth] at hle
      cases hle
    · cases h
  | cons x code ih =>
    rw [locateFrom] at h
    split at h
    · next hm =>
      cases h
      rw [windowsFrom, if_pos hm, windowsFrom_skip, hwidth, Nat.sub_self, Nat.zero_add,
        List.drop_succ_cons]
      congr 2
      omega
    · next hm =>
      obtain ⟨k, hk, -⟩ := locateFrom_eq_some h
      rw [windowsFrom, if_neg hm, ih h,
        show p - n + patterns.length = p - (n + 1) + patterns.length + 1 by omega,
        List.drop_succ_cons]

theorem windows_eq_nil (h : locate code patterns start = none) :
    windows code patterns start = [] := windowsFrom_of_none h

/-- the first window at or behind `start`, and the windows from its end on -/
theorem windows_eq_cons (hne : patterns ≠ []) (h : locate code patterns start = some p) :
    windows code patterns start = p :: windows code patterns (p + patterns.length) := by
  have hle := (locate_eq_some h hne).1
  unfold windows
  rw [windowsFrom_of_some hne h, List.drop_drop]
  congr 3
  omega

theorem windows_eq_nil_iff (hne : patterns ≠ []) :
    windows code patterns start = [] ↔ locate code patterns start = none := by
  refine ⟨fun h => ?_, windows_eq_nil⟩
  cases hl : locate code patterns start with
  | none => rfl
  | some p =>
    rw [windows_eq_cons hne hl] at h
    cases h

theorem windows_eq_cons_iff (hne : patterns ≠ []) {ps : List Nat} :
    windows code patterns start = p :: ps ↔
      locate code patterns start = some p ∧ windows code patterns (p + patterns.length) = ps := by
  cases hl : locate code patterns start with
  | none =>
    rw [windows_eq_nil hl]
    constructor
    · intro h
      cases h
    · rintro ⟨h, -⟩
      cases h
  | some q =>
    rw [windows_eq_cons hne hl, List.cons.injEq, Option.some.injEq]
    constructor
    · rintro ⟨rfl, h⟩
      exact ⟨rfl, h⟩
    · rintro ⟨rfl, h⟩
      exact ⟨rfl, h⟩

/-- a window lies in the code, behind the place from which windows are looked for -/
theorem bounds_of_mem_windows (hne : patterns ≠ []) (h : p ∈ windows code patterns start) :
    start ≤ p ∧ p + patterns.length ≤ code.length ∧ matchesAt patterns (code.drop p) = true := by
  generalize hws : windows code patterns start = ws at h
  induction ws generalizing start with
  | nil => cases h
  | cons q qs ih =>
    obtain ⟨hl, hqs⟩ := (windows_eq_cons_iff hne).mp hws
    obtain ⟨hle, hend, hm, -⟩ := locate_eq_some hl hne
    rcases List.mem_cons.mp h with rfl | h
    · exact ⟨hle, hend, hm⟩
    · obtain ⟨hle', hend', hm'⟩ := ih hqs h
      exact ⟨by omega, hend', hm'⟩

end

/-- `code` from `start` on, with what `f` makes of each window in the place of the window -/
def filledFrom (code : List Instruction) (width : Nat) (f : List Instruction → List Instruction) :
    Nat → List Nat → List Instruction
  | start, [] => code.drop start
  | start, p :: ps =>
    (code.drop start).take (p - start) ++ f ((code.drop p).take width) ++
      filledFrom code width f (p + width) ps

/-- `code` with all windows replaced -/
def filled (code : List Instruction) (patterns : List Pattern)
    (f : List Instruction → List Instruction) : List Instruction :=
  filledFrom code patterns.length f 0 (windows code patterns)

end CilPatch
