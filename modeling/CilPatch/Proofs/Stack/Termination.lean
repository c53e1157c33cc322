import CilPatch.Proofs.Stack.Budget
import CilPatch.Stack.Verify

/-!
# The search for stacks stops, whatever the hierarchy

The loop that runs scheduled blocks has no bound of its own: `Analysis.Loop` says that it ends, and
after how many visits.  It always does, within a number of visits that hangs on the body alone
(`solve_stops`).  Bases that run in a circle do no harm: a start that changes moves to types that
are not assignable back (`Stack.Climbs`), so no slot can move to and fro.
-/

namespace CilPatch

/-- `t` may be used as `t'` but not the other way round -/
def Hierarchy.Below (h : Hierarchy) (t t' : CilType) : Prop :=
  h.assignable t t' = true ∧ h.assignable t' t = false

theorem Hierarchy.Below.trans {h : Hierarchy} {t u v : CilType} (htu : h.Below t u)
    (huv : h.Below u v) : h.Below t v := by
  refine ⟨assignable_trans htu.1 huv.1, ?_⟩
  by_contra hvt
  rw [Bool.not_eq_false] at hvt
  have hvu := assignable_trans hvt htu.1
  rw [huv.2] at hvu
  cases hvu

theorem Hierarchy.Below.ne {h : Hierarchy} {t t' : CilType} (hb : h.Below t t') : t' ≠ t := by
  rintro rfl
  have hself := hb.1
  rw [hb.2] at hself
  cases hself

theorem Hierarchy.below_join {h : Hierarchy} {t u : CilType} (hne : h.join t u ≠ t) :
    h.Below t (h.join t u) :=
  ⟨h.assignable_join_left t u, join_ne_left hne⟩

namespace Stack

variable {h : Hierarchy} {s m u : Stack}

/-- slot by slot the same type or one that lies above it -/
def Rises (h : Hierarchy) (s m : Stack) : Prop :=
  List.Forall₂ (fun t t' => t' = t ∨ h.Below t t') s m

/-- slot by slot the same type or one that lies above it, and not the same in all slots -/
structure Climbs (h : Hierarchy) (s m : Stack) : Prop where
  rises : Rises h s m
  changed : m ≠ s

theorem rises_trans (hsm : Rises h s m) (hmu : Rises h m u) : Rises h s u := by
  unfold Rises at *
  induction hsm generalizing u with
  | nil => exact hmu
  | @cons t t' s m htt' _ ih =>
    cases hmu with
    | @cons _ t'' _ u ht't'' htail =>
      refine .cons ?_ (ih htail)
      rcases htt' with rfl | hb
      · exact ht't''
      · rcases ht't'' with rfl | hb'
        · exact .inr hb
        · exact .inr (hb.trans hb')

/-- stacks do not rise in a circle, though types may be assignable in one -/
theorem rises_antisymm (hsm : Rises h s m) (hms : Rises h m s) : m = s := by
  unfold Rises at *
  induction hsm with
  | nil => rfl
  | @cons t t' s m htt' _ ih =>
    obtain ⟨ht't, htail⟩ := List.forall₂_cons.mp hms
    rw [ih htail]
    rcases htt' with rfl | hb
    · rfl
    · rcases ht't with rfl | hb'
      · rfl
      · exact absurd rfl (hb.trans hb').ne

theorem Climbs.trans (hsm : Climbs h s m) (hmu : Climbs h m u) : Climbs h s u where
  rises := rises_trans hsm.rises hmu.rises
  changed := by
    rintro rfl
    exact hsm.changed (rises_antisymm hsm.rises hmu.rises)

theorem rises_merge (hm : merge h s u = some m) : Rises h s m := by
  obtain ⟨hd, rfl⟩ := merge_eq_some_iff.mp hm
  clear hm
  unfold Rises depth at *
  induction s generalizing u with
  | nil => exact .nil
  | cons t s ih =>
    cases u with
    | nil => cases hd
    | cons t' u =>
      refine .cons ?_ (ih (Nat.succ.inj hd))
      by_cases e : h.join t t' = t
      · exact .inl e
      · exact .inr (Hierarchy.below_join e)

end Stack

namespace Analysis

variable {a : Analysis} {p p' q : Progress}

/-! ## starts climb -/

/-- the start of block `k` is still `old`, or has climbed from there -/
def Kept (a : Analysis) (q : Progress) (k : Nat) (old : Stack) : Prop :=
  ∃ new, q.Held k new ∧ (new = old ∨ Stack.Climbs a.hierarchy old new)

theorem Kept.of_held {k : Nat} {s : Stack} (h : q.Held k s) : a.Kept q k s := ⟨s, h, .inl rfl⟩

/-- what holds of every start at `q` goes on to hold at `p'` -/
theorem Kept.trans {k : Nat} {old : Stack} (h : a.Kept q k old)
    (hq : ∀ s, q.Held k s → a.Kept p' k s) : a.Kept p' k old := by
  obtain ⟨mid, hmid, hold⟩ := h
  obtain ⟨new, hnew, hup⟩ := hq mid hmid
  refine ⟨new, hnew, ?_⟩
  rcases hold with rfl | hold
  · exact hup
  · rcases hup with rfl | hup
    · exact .inr hold
    · exact .inr (hold.trans hup)

/-- an arrival changes no start but that of its block, and that one climbs -/
theorem Arrival.climbs {k : Nat} {t : Stack} (h : a.Arrival p k t p') {j : Nat} {old : Stack}
    (hj : p.Held j old) :
    ∃ new, p'.Held j new ∧ (new = old ∨ (j = k ∧ Stack.Climbs a.hierarchy old new)) := by
  cases h with
  | first hn =>
    have hne : j ≠ k := by
      rintro rfl
      unfold Progress.Held at hj
      rw [hn] at hj
      cases hj
    have hk : k < p.starts.size := (Array.getElem?_eq_some_iff.mp hn).1
    exact ⟨old, (Progress.held_put hk j old).mpr (.inr ⟨hne, hj⟩), .inl rfl⟩
  | kept => exact ⟨old, hj, .inl rfl⟩
  | @raised held m hh hm hne =>
    by_cases e : j = k
    · subst e
      rw [hj.unique hh]
      exact ⟨m, (Progress.held_put hh.lt _ m).mpr (.inl ⟨rfl, rfl⟩),
        .inr ⟨rfl, Stack.rises_merge hm, hne⟩⟩
    · exact ⟨old, (Progress.held_put hh.lt j old).mpr (.inr ⟨e, hj⟩), .inl rfl⟩

theorem arriveAll_kept {t : Stack} {ks : List Nat} (h : a.arriveAll t p ks = .ok p') {k : Nat}
    {old : Stack} (hk : p.Held k old) : a.Kept p' k old := by
  refine arriveAll_induction (P := fun q => a.Kept q k old) ?_ (.of_held hk) h
  intro q q' k' _ hq harr
  refine hq.trans fun s hs => ?_
  obtain ⟨new, hnew, hup⟩ := harr.climbs hs
  exact ⟨new, hnew, hup.imp_right And.right⟩

/-- a visit does nothing, or takes a stack to some blocks -/
theorem visit_ok_cases {r : Nat} (h : a.visit r p = .ok p') :
    p' = p ∨ ∃ t ks, a.arriveAll t p ks = .ok p' := by
  unfold visit at h
  split at h
  · cases h
  · split at h
    · cases h
    · split at h
      · cases h
      · cases h
        exact .inl rfl
      · split at h
        · cases h
        · split at h
          · cases h
          · exact .inr ⟨_, _, h⟩

theorem visit_kept {r : Nat} (h : a.visit r p = .ok p') {k : Nat} {old : Stack}
    (hk : p.Held k old) : a.Kept p' k old := by
  rcases visit_ok_cases h with rfl | ⟨t, ks, h⟩
  · exact .of_held hk
  · exact arriveAll_kept h hk

/-! ## the loop -/

/-- take the first scheduled block off the list and visit it; none if nothing is scheduled -/
def turn? (a : Analysis) (p : Progress) : Option (Except Failure Progress) :=
  match p.pending with
  | [] => none
  | r :: rest => some (a.visit r { p with pending := rest, visits := p.visits + 1 })

/-- the loop, begun at `p`, stops after `n` visits with this result -/
inductive Loop (a : Analysis) : Progress → Nat → Except Failure Progress → Prop where
  | idle {p : Progress} : a.turn? p = none → Loop a p 0 (.ok p)
  | failed {p : Progress} {f : Failure} : a.turn? p = some (.error f) → Loop a p 1 (.error f)
  | turn {p q : Progress} {n : Nat} {result : Except Failure Progress} :
      a.turn? p = some (.ok q) → Loop a q n result → Loop a p (n + 1) result

/-- the loop comes from `p` to `q` -/
def Leads (a : Analysis) (p q : Progress) : Prop :=
  Relation.ReflTransGen (fun p q => a.turn? p = some (.ok q)) p q

theorem turn?_of_nil (hp : p.pending = []) : a.turn? p = none := by
  unfold turn?
  rw [hp]

theorem turn?_of_cons {r : Nat} {rest : List Nat} (hp : p.pending = r :: rest) :
    a.turn? p = some (a.visit r { p with pending := rest, visits := p.visits + 1 }) := by
  unfold turn?
  rw [hp]

/-- in the course of the loop the starts climb -/
theorem Leads.kept (h : a.Leads p q) {k : Nat} {old : Stack} (hk : p.Held k old) :
    a.Kept q k old := by
  induction h with
  | refl => exact .of_held hk
  | @tail q q' _ hturn ih =>
    refine ih.trans fun s hs => ?_
    cases hp : q.pending with
    | nil =>
      rw [turn?_of_nil hp] at hturn
      cases hturn
    | cons r rest =>
      rw [turn?_of_cons hp] at hturn
      exact visit_kept (Option.some.inj hturn) (show Progress.Held { q with .. } k s from hs)

/-- a bounded run that leaves nothing to do is the loop -/
theorem loop_of_run {n : Nat} (hdone : ∀ q, a.run n p = .ok q → q.pending = []) :
    ∃ m ≤ n, a.Loop p m (a.run n p) := by
  induction n generalizing p with
  | zero => exact ⟨0, Nat.le_refl 0, .idle (turn?_of_nil (hdone p rfl))⟩
  | succ n ih =>
    cases hp : p.pending with
    | nil =>
      rw [run_nil _ hp]
      exact ⟨0, Nat.zero_le _, .idle (turn?_of_nil hp)⟩
    | cons r rest =>
      have hrun := run_cons (a := a) n hp
      have hturn := turn?_of_cons (a := a) hp
      cases hv : a.visit r { p with pending := rest, visits := p.visits + 1 } with
      | error f =>
        rw [hv] at hrun hturn
        rw [hrun]
        exact ⟨1, Nat.succ_le_succ (Nat.zero_le n), .failed hturn⟩
      | ok q =>
        rw [hv] at hrun hturn
        obtain ⟨m, hm, hloop⟩ := ih (p := q) fun q' hq' => hdone q' (hrun.trans hq')
        rw [hrun]
        exact ⟨m + 1, Nat.succ_le_succ hm, .turn hturn hloop⟩

/-- the budget is enough for the loop -/
theorem loop_solve (ha : a.Proper) : ∃ n ≤ a.budget, a.Loop a.initial n a.solve :=
  loop_of_run fun _ h => solve_done ha h

end Analysis

/-- **The search for stacks stops**, within a number of visits that is the same for all
hierarchies.  On the way no start is forgotten: what arrives at a block leaves its start as it is or
lets it climb, and no other start changes, so that from any point of the loop to any later one each
start is the same or has climbed. -/
theorem solve_stops {b : Body} {g : FlowGraph} (hg : FlowGraph.ofBody b = .ok g)
    (sig : Option Signature) :
    ∃ N, ∀ h : Hierarchy,
      let a := Analysis.start b g sig h
      (∃ n ≤ N, a.Loop a.initial n a.solve) ∧
        (∀ p k t p', a.arrive p k t = .ok p' → ∀ j old, p.Held j old →
          ∃ new, p'.Held j new ∧ (new = old ∨ (j = k ∧ Stack.Climbs h old new))) ∧
        ∀ p q, a.Leads p q → ∀ k old, p.Held k old →
          ∃ new, q.Held k new ∧ (new = old ∨ Stack.Climbs h old new) := by
  refine ⟨(Analysis.start b g sig .empty).budget, fun h => ⟨?_, ?_, ?_⟩⟩
  · exact Analysis.loop_solve (a := .start b g sig h) ⟨hg, rfl⟩
  · intro p k t p' harr j old hj
    exact (Analysis.arrive_ok harr).climbs hj
  · intro p q hpq k old hk
    exact hpq.kept hk

/-- a loop that is entered with an object of one class and entered again with one of another -/
def swapLoop : Body := .ofCode
  [{ opcode := .newobj, operand := .method ⟨"Ping", ".ctor", [], .void, true, false⟩ },
   { opcode := .pop, labels := [⟨0⟩] },
   { opcode := .newobj, operand := .method ⟨"Pong", ".ctor", [], .void, true, false⟩ },
   { opcode := .ldcI4, operand := .literal (.int32 1) },
   { opcode := .brtrue, operand := .label ⟨0⟩ },
   { opcode := .throw }]

/-- two classes, each the base of the other -/
def circle : Hierarchy := (Hierarchy.empty.addBase "Ping" "Pong").addBase "Pong" "Ping"

-- in the circle the start of the loop stays as it is; without bases it climbs once
example :
    (({ hierarchy := circle } : Verifier).verify swapLoop).toOption.bind
        (fun v => v.profile?.map fun p => (p.visits, p.entry? 1)) =
      some (3, some [.classType "Ping"]) ∧
    (({} : Verifier).verify swapLoop).toOption.bind
        (fun v => v.profile?.map fun p => (p.visits, p.entry? 1)) =
      some (4, some [.unknown]) :=
  ⟨by decide +kernel, by decide +kernel⟩

theorem solve_stops_swapLoop :
    ∃ g, FlowGraph.ofBody swapLoop = .ok g ∧ ∃ N, ∀ h : Hierarchy, ∃ n ≤ N,
      (Analysis.start swapLoop g none h).Loop (Analysis.start swapLoop g none h).initial n
        (Analysis.start swapLoop g none h).solve := by
  have hbuilt : (FlowGraph.ofBody swapLoop).toBool = true := by decide +kernel
  cases hg : FlowGraph.ofBody swapLoop with
  | error f =>
    rw [hg] at hbuilt
    cases hbuilt
  | ok g =>
    obtain ⟨N, hN⟩ := solve_stops hg none
    exact ⟨g, rfl, N, fun h => (hN h).1⟩

end CilPatch
