import Mathlib.Data.List.Chain
import CilPatch.Proofs.Patching.Quarantine

/-!
# What a registry remembers of applied edits

The edits of a run are read off its report: one for each applied outcome, from the baseline that the
patch found to the one that it left (`Registry.edits`).  Whatever is not applied leaves the baseline
as it was, so each edit starts from the text that the one before it ended with (`Chained`).

The history is the end of the list of all edits since the registry was new or cleared, as long as
its room allows (`Recalls`).  To remember one more edit keeps it so, and so do the patches of a run
and all operations (`history_recalls`).
-/

namespace CilPatch

/-! ## the edits of a run -/

/-- each edit starts from what the one before it ended with, from the text `first` to `last` -/
structure Chained (first last : String) (es : List AppliedEdit) : Prop where
  head : ∀ e ∈ es.head?, e.before = first
  links : es.IsChain fun e e' => e.after = e'.before
  getLast : ∀ e ∈ es.getLast?, e.after = last
  unchanged : es = [] → last = first

namespace Chained

variable {first last : String} {es : List AppliedEdit}

theorem nil (first : String) : Chained first first [] := by
  constructor <;> simp

theorem concat (h : Chained first last es) {e : AppliedEdit} (he : e.before = last) :
    Chained first e.after (es ++ [e]) where
  head := by
    cases es with
    | nil => simpa [he] using h.unchanged rfl
    | cons e' es => simpa using h.head
  links := by
    refine List.isChain_append.mpr ⟨h.links, .singleton e, ?_⟩
    intro e' he' x hx
    obtain rfl : e = x := by simpa using hx
    exact (h.getLast e' he').trans he.symm
  getLast := by simp
  unchanged := by simp

end Chained

namespace Registry

variable {r : Registry} {target : String} {body : Body} {signature : Option Signature} {k : Nat}

/-- the edit of the `k`-th patch of a run, if it is applied -/
def editAt? (r : Registry) (target : String) (body : Body) (signature : Option Signature)
    (k : Nat) : Option AppliedEdit :=
  (r.run target body signature).1.outcomes[k]?.bind fun o =>
    if o.status.isApplied then
      some
        { target, owner := o.owner, anchor := o.anchor
          before := (r.reached target body signature k).baseline.text
          after := (r.reached target body signature (k + 1)).baseline.text
          warningCount := o.warnings.length }
    else none

/-- the edits of the first `k` patches of a run -/
def editsBefore (r : Registry) (target : String) (body : Body) (signature : Option Signature)
    (k : Nat) : List AppliedEdit :=
  (List.range k).filterMap (r.editAt? target body signature)

/-- the edits of a run, in the order in which they were applied -/
def edits (r : Registry) (target : String) (body : Body) (signature : Option Signature) :
    List AppliedEdit :=
  r.editsBefore target body signature (r.patches target).length

theorem editsBefore_succ :
    r.editsBefore target body signature (k + 1)
      = r.editsBefore target body signature k ++ (r.editAt? target body signature k).toList := by
  unfold editsBefore
  rw [List.range_succ, List.filterMap_append]
  cases h : r.editAt? target body signature k with
  | none => simp [h]
  | some e => simp [h]

theorem history_remember (r : Registry) (e : AppliedEdit) :
    (r.remember e).history =
      if r.settings.historyCapacity = 0 then r.history
      else r.history.drop (r.history.length + 1 - r.settings.historyCapacity) ++ [e] := by
  unfold remember
  dsimp only
  split <;> rfl

/-- what one patch adds to the edits of a run and to the history -/
theorem editAt?_cases {p : Patch} (hp : (r.patches target)[k]? = some p) :
    let s := r.reached target body signature k
    let next := r.reached target body signature (k + 1)
    (r.editAt? target body signature k = none ∧ next.baseline = s.baseline ∧
      next.registry.history = s.registry.history) ∨
    ∃ e, r.editAt? target body signature k = some e ∧ e.before = s.baseline.text ∧
      e.after = next.baseline.text ∧
      next.registry.history = (s.registry.remember e).history := by
  intro s next
  have hnext : next = offer target signature s p := reached_succ hp
  have hedit : ∀ o, (r.run target body signature).1.outcomes[k]? = some o →
      r.editAt? target body signature k =
        if o.status.isApplied then
          some ⟨target, o.owner, o.anchor, s.baseline.text, next.baseline.text, o.warnings.length⟩
        else none := by
    intro o ho
    unfold editAt?
    rw [ho]
    rfl
  obtain ⟨status, hheld, he⟩ | ⟨cause, warnings, -, -, he⟩ | ⟨edited, warnings, -, -, he⟩ :=
    offer_cases target signature s p
  · have ho := hedit _ (outcome_at hp (by rw [he]))
    have hst : (p.outcome status []).status.isApplied = false := not_applied_of_heldBack? hheld
    rw [hst] at ho
    rw [hnext, he]
    exact .inl ⟨ho, rfl, rfl⟩
  · have ho := hedit _ (outcome_at hp (by rw [he]))
    obtain ⟨owners, hcount⟩ := s.registry.countFailure_eq p.owner
    rw [hnext, he, hcount]
    exact .inl ⟨ho, rfl, rfl⟩
  · have ho := hedit _ (outcome_at hp (by rw [he]))
    refine .inr ⟨_, ho, rfl, rfl, ?_⟩
    rw [hnext, he, history_remember, history_remember]
    rfl

/-- the edits of the first patches lead from the body to the baseline behind them -/
theorem chained_editsBefore (r : Registry) (target : String) (body : Body)
    (signature : Option Signature) (hk : k ≤ (r.patches target).length) :
    Chained body.text (r.reached target body signature k).baseline.text
      (r.editsBefore target body signature k) := by
  induction k with
  | zero => exact .nil _
  | succ k ih =>
    have hp : (r.patches target)[k]? = some (r.patches target)[k] := List.getElem?_eq_getElem hk
    rw [editsBefore_succ]
    obtain ⟨he, hbaseline, -⟩ | ⟨e, he, hbefore, hafter, -⟩ := editAt?_cases hp
    · rw [he, hbaseline]
      simpa using ih (Nat.le_of_succ_le hk)
    · rw [he, ← hafter]
      exact (ih (Nat.le_of_succ_le hk)).concat hbefore

/-- the edits of a run are those of its applied outcomes, in the same order -/
theorem edits_eq_applied (r : Registry) (target : String) (body : Body)
    (signature : Option Signature) :
    (r.edits target body signature).map (fun e => (e.target, e.owner, e.anchor, e.warningCount))
      = ((r.run target body signature).1.outcomes.filter (·.status.isApplied)).map
          fun o => (target, o.owner, o.anchor, o.warnings.length) := by
  have hbefore : ∀ k, (r.editsBefore target body signature k).map
        (fun e => (e.target, e.owner, e.anchor, e.warningCount))
      = (((r.run target body signature).1.outcomes.take k).filter (·.status.isApplied)).map
          fun o => (target, o.owner, o.anchor, o.warnings.length) := by
    intro k
    induction k with
    | zero => rfl
    | succ k ih =>
      rw [editsBefore_succ, List.take_add_one, List.map_append, List.filter_append,
        List.map_append, ih]
      congr 1
      unfold editAt?
      cases (r.run target body signature).1.outcomes[k]? with
      | none => rfl
      | some o => cases hst : o.status.isApplied <;> simp [hst]
  have hlen : (r.run target body signature).1.outcomes.length ≤ (r.patches target).length := by
    have h := congrArg List.length (outcomes_reached r target body signature
      (r.patches target).length)
    rw [run_eq_reached, List.length_take] at h
    rw [run_eq_reached]
    dsimp only at h ⊢
    omega
  unfold edits
  rw [hbefore, List.take_of_length_le hlen]

/-! ## the history -/

/-- the history holds the last ones of these edits, as many as there is room for -/
def Recalls (r : Registry) (made : List AppliedEdit) : Prop :=
  r.history = made.rtake r.settings.historyCapacity

theorem Recalls.congr {r' : Registry} {made : List AppliedEdit} (h : r.Recalls made)
    (hs : r'.settings = r.settings) (hh : r'.history = r.history) : r'.Recalls made := by
  unfold Recalls
  rw [hs, hh]
  exact h

theorem Recalls.remember {made : List AppliedEdit} (h : r.Recalls made) (e : AppliedEdit) :
    (r.remember e).history = (made ++ [e]).rtake r.settings.historyCapacity := by
  rw [history_remember]
  split
  next h0 => rw [h, h0, List.rtake_zero, List.rtake_zero]
  next h0 =>
    -- the room is filled, or everything is still there
    obtain ⟨room, hroom⟩ := Nat.exists_eq_succ_of_ne_zero h0
    rw [h, hroom, List.rtake_concat_succ]
    unfold List.rtake
    rw [List.length_drop, List.drop_drop]
    congr 2
    omega

/-- the patches of a run add their edits to those remembered before -/
theorem Recalls.reached {made : List AppliedEdit} (h : r.Recalls made) (target : String)
    (body : Body) (signature : Option Signature) (hk : k ≤ (r.patches target).length) :
    (r.reached target body signature k).registry.Recalls
      (made ++ r.editsBefore target body signature k) := by
  induction k with
  | zero =>
    rw [show r.editsBefore target body signature 0 = [] from rfl, List.append_nil]
    exact h
  | succ k ih =>
    have hp : (r.patches target)[k]? = some (r.patches target)[k] := List.getElem?_eq_getElem hk
    have hs := (reached_fixed r target body signature k).1
    have hs' := (reached_fixed r target body signature (k + 1)).1
    have hrec := ih (Nat.le_of_succ_le hk)
    rw [editsBefore_succ]
    obtain ⟨he, -, hhistory⟩ | ⟨e, he, -, -, hhistory⟩ :=
      @editAt?_cases r target body signature k _ hp
    · rw [he, Option.toList_none, List.append_nil]
      exact hrec.congr (hs'.trans hs.symm) hhistory
    · rw [he, Option.toList_some, ← List.append_assoc]
      unfold Recalls
      rw [hhistory, hs', ← hs]
      exact hrec.remember e

theorem Recalls.run {made : List AppliedEdit} (h : r.Recalls made) (target : String) (body : Body)
    (signature : Option Signature) :
    (r.run target body signature).2.Recalls (made ++ r.edits target body signature) := by
  rw [run_eq_reached]
  exact h.reached target body signature (Nat.le_refl _)

/-- the edits of several jobs -/
def editsMany (r : Registry) : List Job → List AppliedEdit
  | [] => []
  | j :: jobs =>
    r.edits j.target j.body j.signature ++
      editsMany (r.run j.target j.body j.signature).2 jobs

theorem Recalls.runMany {made : List AppliedEdit} (h : r.Recalls made) (jobs : List Job) :
    (r.runMany jobs).2.Recalls (made ++ r.editsMany jobs) := by
  induction jobs generalizing r made with
  | nil =>
    rw [show r.editsMany [] = [] from rfl, List.append_nil]
    exact h
  | cons j jobs ih =>
    have hrest := ih (h.run j.target j.body j.signature)
    rw [List.append_assoc] at hrest
    exact hrest

end Registry

/-! ## sessions -/

namespace Operation

/-- the edits applied in the course of the operation -/
def edits (op : Operation) (r : Registry) : List AppliedEdit :=
  match op with
  | run j | apply j => r.edits j.target j.body j.signature
  | runMany jobs => r.editsMany jobs
  | _ => []

/-- the edits applied since everything was last forgotten, if `made` were applied before the
operation -/
def madeBy (op : Operation) (r : Registry) (made : List AppliedEdit) : List AppliedEdit :=
  match op with
  | clear => []
  | op => made ++ op.edits r

/-- the same behind several operations -/
def madeByAll : List Operation → Registry → List AppliedEdit → List AppliedEdit
  | [], _, made => made
  | op :: ops, r, made => madeByAll ops (op.perform r) (op.madeBy r made)

end Operation

namespace Registry

variable {r : Registry} {made : List AppliedEdit}

theorem Recalls.perform (h : r.Recalls made) (op : Operation) :
    (op.perform r).Recalls (op.madeBy r made) := by
  cases op with
  | register | unregisterAll | clearQuarantine =>
    show Recalls _ (made ++ [])
    rw [List.append_nil]
    exact h.congr rfl rfl
  | unregister target anchor owner =>
    obtain ⟨R, hR⟩ := r.unregister_eq target anchor owner
    show Recalls (r.unregister target anchor owner).2 (made ++ [])
    rw [List.append_nil, hR]
    exact h.congr rfl rfl
  | clear => exact (List.rtake_nil _).symm
  | run j | apply j => exact h.run j.target j.body j.signature
  | runMany jobs => exact h.runMany jobs

theorem Recalls.performAll (h : r.Recalls made) (ops : List Operation) :
    (Operation.performAll ops r).Recalls (Operation.madeByAll ops r made) := by
  induction ops generalizing r made with
  | nil => exact h
  | cons op ops ih => exact ih (h.perform op)

/-- **The history is the end of the chain of edits.**  After any operations on a new registry it
holds the last edits that were applied since the registry was new or cleared, as many as there is
room for.  The edits of every run are those of its applied outcomes, and they lead from the body
that it was given to the one that it hands out. -/
theorem history_recalls (settings : Settings) (hierarchy : Hierarchy) (ops : List Operation) :
    (let start : Registry := { settings, hierarchy }
      let r := Operation.performAll ops start
      let made := Operation.madeByAll ops start []
      r.history = made.rtake settings.historyCapacity ∧
        r.history.length = min settings.historyCapacity made.length) ∧
    ∀ (r : Registry) (target : String) (body : Body) (signature : Option Signature),
      let rep := (r.run target body signature).1
      let es := r.edits target body signature
      es.map (fun e => (e.target, e.owner, e.anchor, e.warningCount))
          = (rep.outcomes.filter (·.status.isApplied)).map
              (fun o => (target, o.owner, o.anchor, o.warnings.length)) ∧
        Chained body.text rep.body.text es := by
  refine ⟨?_, fun r target body signature => ⟨edits_eq_applied r target body signature, ?_⟩⟩
  · intro start r made
    have hstart : start.Recalls [] := (List.rtake_nil _).symm
    have hr : r.Recalls made := hstart.performAll ops
    have hsettings : r.settings = settings :=
      ((Follows.new settings hierarchy).performAll ops).fixed
    unfold Recalls at hr
    rw [hsettings] at hr
    refine ⟨hr, ?_⟩
    rw [hr]
    unfold List.rtake
    rw [List.length_drop]
    omega
  · have h := chained_editsBefore r target body signature (Nat.le_refl _)
    rw [run_eq_reached]
    exact h

end Registry

end CilPatch
