import CilPatch.Proofs.Cursor.Builds
import CilPatch.Proofs.Cursor.LabelSurvival
import CilPatch.Proofs.Cursor.Sweeps
import CilPatch.Proofs.Cursor.Tasks

/-!
# What a strict build proves

Whatever an operation records comes behind the warnings that are there and bears its name
(`Cursor.Records`).  A warning that is not about labels says that something was left undone, and
there is one exactly if the operation missed what it was asked for (`Command.Missed`): a move or a
search that leads nowhere, an edit that is skipped, a bulk replacement that finds no window or finds
one too small for the new code.

Since warnings only pile up, a session that ends without any has missed nothing
(`edits_all_or_nothing`).
-/

namespace CilPatch

namespace Cursor

/-- from `c` to `c'` warnings of this name have been appended, and among them one that says that
something was left undone exactly if `missed` -/
def Records (operation : String) (missed : Prop) (c c' : Cursor) : Prop :=
  ∃ new, c'.warnings = c.warnings ++ new ∧ (∀ w ∈ new, w.operation = operation) ∧
    (missed ↔ ∃ w ∈ new, w.cause.aboutLabels = false)

variable {operation : String} {missed missed' : Prop} {c c' c'' : Cursor}

theorem records_nothing (hw : c'.warnings = c.warnings) (hm : ¬missed) :
    Records operation missed c c' := by
  refine ⟨[], by rw [hw, List.append_nil], fun _ h => absurd h List.not_mem_nil, ?_⟩
  exact ⟨fun h => absurd h hm, fun ⟨_, h, _⟩ => absurd h List.not_mem_nil⟩

theorem records_miss {cause : Warning.Cause} (hm : missed)
    (hw : c'.warnings = c.warnings ++ [⟨operation, cause⟩]) (hc : cause.aboutLabels = false) :
    Records operation missed c c' := by
  refine ⟨_, hw, ?_, fun _ => ⟨_, List.mem_singleton_self _, hc⟩, fun _ => hm⟩
  exact List.forall_mem_singleton.mpr rfl

theorem Records.trans (h : Records operation missed c c') (h' : Records operation missed' c' c'') :
    Records operation (missed ∨ missed') c c'' := by
  obtain ⟨new, hw, hname, hm⟩ := h
  obtain ⟨new', hw', hname', hm'⟩ := h'
  refine ⟨new ++ new', by rw [hw', hw, List.append_assoc], ?_, ?_⟩
  · exact List.forall_mem_append.mpr ⟨hname, hname'⟩
  · rw [hm, hm']
    simp only [List.mem_append, or_and_right, exists_or]

theorem Records.congr (h : Records operation missed c c') (hm : missed ↔ missed') :
    Records operation missed' c c' := by
  obtain ⟨new, hw, hname, hnew⟩ := h
  exact ⟨new, hw, hname, hm.symm.trans hnew⟩

/-! ## moves and searches -/

theorem records_seekAs (operation : String) (c : Cursor) (i : Nat) :
    Records operation ((seekAs operation c i).position = none) c (seekAs operation c i) := by
  unfold seekAs
  split
  · exact records_nothing rfl nofun
  · exact records_miss rfl rfl rfl

theorem records_finish (c : Cursor) : Records "end" (c.finish.position = none) c c.finish := by
  unfold finish
  split
  · exact records_miss rfl rfl rfl
  · exact records_seekAs "end" c _

theorem records_advance (c : Cursor) (delta : Int) :
    Records "advance" ((c.advance delta).position = none) c (c.advance delta) := by
  unfold advance
  split
  · next hp => exact records_miss hp rfl rfl
  · dsimp only
    split
    · exact records_nothing rfl nofun
    · exact records_miss rfl rfl rfl

/-- there is no window from the place on where the search begins, or no such place -/
def SearchFails (c : Cursor) (patterns : List Pattern) (mode : SearchMode) : Prop :=
  patterns = [] ∨
    ∀ first, c.searchStart mode = some first → locate c.body.code patterns first = none

theorem records_searchAs (operation : String) (c : Cursor) (patterns : List Pattern)
    (mode : SearchMode) :
    Records operation (c.SearchFails patterns mode) c (searchAs operation c patterns mode) := by
  unfold searchAs SearchFails
  split
  · next he => exact records_miss (.inl (List.isEmpty_iff.mp he)) rfl rfl
  · next hne =>
    cases c.searchStart mode with
    | none => exact records_miss (.inr nofun) rfl rfl
    | some first =>
      dsimp only
      split
      · next i hi =>
        refine records_nothing rfl ?_
        rintro (he | hnone)
        · exact hne (List.isEmpty_iff.mpr he)
        · cases hi.symm.trans (hnone first rfl)
      · next hnone =>
        refine records_miss (.inr ?_) rfl rfl
        rintro _ ⟨⟩
        exact hnone

/-! ## bulk replacement -/

/-- the new code can be put in the place of the window -/
def Fits (mode : ReplaceMode) (window code : List Instruction) : Prop :=
  mode = .pad → code.length ≤ window.length

theorem records_substitute (operation : String) (c : Cursor) (p n : Nat)
    (code : List Instruction) : Records operation False c (substitute operation c p n code) := by
  obtain ⟨new, hw, hnew⟩ := warnings_substitute operation c p n code
  refine ⟨new, hw, fun w h => (hnew w h).1, False.elim, fun ⟨w, h, hc⟩ => ?_⟩
  rw [(hnew w h).2] at hc
  cases hc

theorem Sweep.records_step (operation : String) {width : Nat} (produce : Producer)
    (mode : ReplaceMode) (s : Sweep) {p : Nat} (hend : p + width ≤ s.cursor.length) :
    Records operation (¬Fits mode (s.cursor.body.window p width)
        (produce.code s.matched (s.cursor.body.window p width)))
      s.cursor (s.step operation width produce mode p).cursor := by
  unfold step
  cases mode with
  | splice =>
    refine (records_substitute operation s.cursor p _ _).congr ?_
    exact ⟨False.elim, fun h => h nofun⟩
  | pad =>
    dsimp only
    split
    · next hlong =>
      refine records_miss (fun h => ?_) rfl rfl
      have := h rfl
      rw [Body.length_window hend] at this
      omega
    · next hfits =>
      refine records_nothing rfl (not_not.mpr fun _ => ?_)
      rw [Body.length_window hend]
      omega

/-- by induction along the windows that the sweep comes to -/
theorem Sweep.records_run (operation : String) {patterns : List Pattern} (produce : Producer)
    (mode : ReplaceMode) (hne : patterns ≠ []) (s : Sweep) :
    Records operation (¬Throughout operation patterns produce mode (Fits mode) s) s.cursor
      (run operation patterns produce mode hne s).cursor := by
  induction s using run.induct operation patterns produce mode hne with
  | case1 s hnone =>
    rw [run_of_locate_eq_none hnone]
    exact records_nothing rfl (not_not.mpr (.done hnone))
  | case2 s p hp ih =>
    rw [run_of_locate_eq_some hp, throughout_iff hp]
    refine ((s.records_step operation produce mode (locate_eq_some hp hne).2.1).trans ih).congr ?_
    exact not_and_or.symm

/-- there is nothing to replace, or new code that does not fit into its window -/
def LeavesOut (operation : String) (patterns : List Pattern) (produce : Producer)
    (mode : ReplaceMode) (c : Cursor) : Prop :=
  patterns = [] ∨ locate c.body.code patterns 0 = none ∨
    ¬Sweep.Throughout operation patterns produce mode (Fits mode) { cursor := c }

theorem records_replaceMatches (operation : String) (c : Cursor) (patterns : List Pattern)
    (produce : Producer) (mode : ReplaceMode) :
    Records operation (LeavesOut operation patterns produce mode c) c
      (replaceMatches operation c patterns produce mode).2 := by
  by_cases hne : patterns = []
  · unfold replaceMatches
    rw [dif_pos hne]
    exact records_miss (.inl hne) rfl rfl
  · have hrun := Sweep.records_run operation produce mode hne { cursor := c }
    have hmatched := Sweep.matched_run_eq_zero_iff operation produce mode hne { cursor := c }
    have hends := (replaceMatches_ends operation c produce mode hne).1
    generalize Sweep.run operation patterns produce mode hne { cursor := c } = s at *
    have hlast : Records operation (s.matched = 0) s.cursor
        (replaceMatches operation c patterns produce mode).2 := by
      split at hends
      · next h0 => exact records_miss h0 hends rfl
      · next h0 => exact records_nothing (hends.trans (List.append_nil _)) h0
    -- the sweep finds no window exactly if there is none where it begins
    refine (hrun.trans hlast).congr ?_
    unfold LeavesOut
    rw [hmatched, or_comm]
    simp only [hne, true_and, false_or]

end Cursor

namespace Command

open Cursor

variable {c : Cursor} {k : Command}

/-- the operation does not do what it was asked for: it leads nowhere, is skipped, or does not
replace all that it is to replace -/
def Missed (k : Command) (c : Cursor) : Prop :=
  match k with
  | start | finish | seek _ | advance _ => (k.run c).position = none
  | find pattern mode => c.SearchFails [pattern] mode
  | findWindow patterns mode => c.SearchFails patterns mode
  | defineLabel => False
  | replaceAll patterns code mode =>
    c.LeavesOut "replace_all" patterns (.uniform fun _ => code) mode
  | replaceAllWith patterns produce mode => c.LeavesOut "replace_all_with" patterns produce mode
  | k => ∃ t, k.task? = some t ∧ t.Skipped c

theorem records_of_task {t : Task} (hc : c.Inside) (ht : k.task? = some t) :
    Records k.name (∃ t, k.task? = some t ∧ t.Skipped c) c (k.run c) := by
  by_cases h : t.Skipped c
  · obtain ⟨cause, hcause, hrun⟩ := run_of_skipped ht h
    rw [hrun]
    exact records_miss ⟨t, ht, h⟩ rfl hcause
  · obtain ⟨new, hw, hnew⟩ := (done_of_not_skipped hc ht h).warnings
    refine ⟨new, hw, fun w hw => (hnew w hw).2.1, ?_, fun ⟨w, hw, hc⟩ => ?_⟩
    · rintro ⟨t', ht', hskipped⟩
      cases ht.symm.trans ht'
      exact absurd hskipped h
    · rw [(hnew w hw).2.2] at hc
      cases hc

/-- **Whatever is left undone is recorded**, behind all earlier warnings and under the name of the
operation. -/
theorem records (hc : c.Inside) (k : Command) : Records k.name (k.Missed c) c (k.run c) := by
  cases k with
  | start => exact records_seekAs "start" c 0
  | finish => exact records_finish c
  | seek i => exact records_seekAs "seek" c i
  | advance delta => exact records_advance c delta
  | find pattern mode => exact records_searchAs "find" c [pattern] mode
  | findWindow patterns mode => exact records_searchAs "find_sequence" c patterns mode
  | defineLabel => exact records_nothing rfl id
  | replaceAll patterns code mode => exact records_replaceMatches "replace_all" c patterns _ mode
  | replaceAllWith patterns produce mode =>
    exact records_replaceMatches "replace_all_with" c patterns produce mode
  | markLabel | insertBefore | insertBeforeLabeled | insertAfter | replace | delete | deleteMany
  | replaceMany => exact records_of_task hc rfl

theorem warnings_stay (hc : c.Inside) (ks : List Command) :
    c.warnings <+: (runAll ks c).warnings := by
  induction ks generalizing c with
  | nil => exact List.prefix_rfl
  | cons k ks ih =>
    obtain ⟨new, hw, -⟩ := records hc k
    exact (hw ▸ List.prefix_append _ _).trans (ih (inside_run hc k).1)

/-- a session that ends without a warning has missed nothing -/
theorem not_missed_of_runAll (hc : c.Inside) {before after : List Command}
    (h : (runAll (before ++ k :: after) c).warnings = []) : ¬k.Missed (runAll before c) := by
  intro hmissed
  have hbefore : (runAll before c).Inside := (inside_runAll hc before).1
  obtain ⟨new, hw, -, hm⟩ := records hbefore k
  obtain ⟨w, hmem, -⟩ := hm.mp hmissed
  rw [runAll_append] at h
  have hprefix := warnings_stay (inside_run hbefore k).1 after
  have hnone : (runAll (k :: after) (runAll before c)).warnings = [] := h
  have hnil : (k.run (runAll before c)).warnings = [] :=
    List.prefix_nil.mp (hnone ▸ hprefix)
  rw [hw] at hnil
  rw [(List.append_eq_nil_iff.mp hnil).2] at hmem
  cases hmem

end Command

open Cursor

/-- **Edits at the cursor are all or nothing**, and what is skipped or not found is never passed
over in silence.  At whatever point of a session, an edit is skipped exactly if there is no place
for it, nothing to do or more than can be done; then it leaves one warning of its own and nothing
else.  If it is not skipped it is done as a whole. -/
theorem edits_all_or_nothing (b : Body) (v : Verifier) (ks : List Command) :
    let c := Command.runAll ks (.ofBody b v)
    (∀ (k : Command) (t : Task), k.task? = some t →
        (t.Skipped c ↔ ∃ cause, cause.aboutLabels = false ∧ k.run c = c.warn k.name cause) ∧
          (¬t.Skipped c → k.Done t c (k.run c))) ∧
      (∀ k : Command, Records k.name (k.Missed c) c (k.run c)) ∧
      ∀ (o : BuildOptions) body, o.strict = true → c.build o = .ok body →
        ∀ before (k : Command) after, ks = before ++ k :: after →
          ¬k.Missed (Command.runAll before (.ofBody b v)) := by
  intro c
  have hstart : (Cursor.ofBody b v).Inside := inside_ofBody b v
  have hc : c.Inside := (Command.inside_runAll hstart ks).1
  refine ⟨fun k t ht => ⟨⟨Command.run_of_skipped ht, fun ⟨cause, hcause, hrun⟩ => ?_⟩,
    Command.done_of_not_skipped hc ht⟩, Command.records hc, ?_⟩
  · -- an edit that is done leaves no such warning
    by_contra h
    obtain ⟨new, hw, hnew⟩ := (Command.done_of_not_skipped hc ht h).warnings
    rw [hrun] at hw
    obtain rfl : [⟨k.name, cause⟩] = new := List.append_cancel_left hw
    rw [(hnew _ List.mem_cons_self).2.2] at hcause
    cases hcause
  · rintro o body hstrict hbuild before k after rfl
    exact Command.not_missed_of_runAll hstart ((build_ok_iff.mp hbuild).1 hstrict)

/-- An instruction is put in before the last one and nothing is left undone.  From there on one
instruction can be removed, two are too many. -/
theorem edits_all_or_nothing_markedEnd :
    let start := Cursor.ofBody markedEnd
    let c := Command.runAll [.finish, .insertBefore [.nop]] start
    (∃ body, c.build { strict := true } = .ok body) ∧
      ¬(Command.insertBefore [.nop]).Missed (Command.runAll [.finish] start) ∧
      ¬(Task.remove 1 []).Skipped c ∧ Command.Done .delete (.remove 1 []) c c.delete ∧
      (Task.remove 2 []).Skipped c ∧ ∃ cause, c.deleteMany 2 = c.warn "delete_n" cause := by
  intro start c
  have hposition : c.position = some 3 := by decide
  have hbuild : c.build { strict := true } = .ok c.body :=
    build_ok_iff.mpr ⟨fun _ => by decide, nofun, rfl⟩
  have hone : ¬(Task.remove 1 []).Skipped c := by
    rw [Task.not_skipped_iff]
    exact ⟨3, hposition, by unfold Task.Idle; decide⟩
  have htwo : (Task.remove 2 []).Skipped c := by
    rw [Task.skipped_iff]
    rintro p hp
    obtain rfl := Option.some.inj (hposition.symm.trans hp)
    unfold Task.Idle
    decide
  obtain ⟨hedit, -, hstrict⟩ :=
    edits_all_or_nothing markedEnd {} [.finish, .insertBefore [.nop]]
  refine ⟨⟨_, hbuild⟩, ?_, hone, (hedit .delete _ rfl).2 hone, htwo, ?_⟩
  · exact hstrict { strict := true } _ rfl hbuild [.finish] _ [] rfl
  · obtain ⟨cause, -, hrun⟩ := (hedit (.deleteMany 2) _ rfl).1.mp htwo
    exact ⟨cause, hrun⟩

end CilPatch
