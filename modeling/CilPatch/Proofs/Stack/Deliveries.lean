import CilPatch.Proofs.Stack.Folds
import CilPatch.Proofs.Stack.Iteration

/-!
# What arrives at a block

Stacks may arrive at a block one after the other (`arriveInTurn`); in the course of a run, stacks
arrive at other blocks in between.  `deliveries` lists all that a run takes anywhere, and
`arrivedAt` picks out what comes to one block.  Arrivals at other blocks leave the start of a block
alone, so throughout it is what these stacks merge to, in the order of their arrival
(`Gathers`, `gathers_run`).
-/

namespace CilPatch

namespace Analysis

variable {a : Analysis} {p q : Progress} {k : Nat} {held s m : Stack} {arriving : List Stack}

/-! ## arrivals in a row -/

/-- the stacks arrive at block `k`, one after the other -/
def arriveInTurn (a : Analysis) (k : Nat) (p : Progress) (arriving : List Stack) :
    Except Failure Progress :=
  arriving.foldlM (fun p s => a.arrive p k s) p

theorem arriveInTurn_cons (a : Analysis) (k : Nat) (p : Progress) (s : Stack)
    (arriving : List Stack) :
    a.arriveInTurn k p (s :: arriving) =
      (a.arrive p k s).bind fun p' => a.arriveInTurn k p' arriving := rfl

theorem held_arrive_first (a : Analysis) (hn : p.starts[k]? = some none) (s : Stack) :
    ∃ p', a.arrive p k s = .ok p' ∧ p'.Held k s := by
  have hk : k < p.starts.size := (Array.getElem?_eq_some_iff.mp hn).1
  refine ⟨p.put a k s, ?_, (Progress.held_put hk k s).mpr (.inl ⟨rfl, rfl⟩)⟩
  unfold arrive
  rw [hn]
  rfl

theorem held_arrive (hh : p.Held k held) (hm : Stack.merge a.hierarchy held s = some m) :
    ∃ p', a.arrive p k s = .ok p' ∧ p'.Held k m := by
  have hstart : p.starts[k]? = some (some held) := hh
  by_cases e : m = held
  · refine ⟨p, ?_, e ▸ hh⟩
    unfold arrive
    simp [hstart, hm, e]
  · refine ⟨p.put a k m, ?_, (Progress.held_put hh.lt k m).mpr (.inl ⟨rfl, rfl⟩)⟩
    unfold arrive
    simp [hstart, hm, e, Progress.put]

/-- the start of a block is what the stacks merge to that have arrived there -/
theorem held_arriveInTurn (hh : p.Held k held)
    (hm : Stack.mergeAll a.hierarchy held arriving = some m) :
    ∃ p', a.arriveInTurn k p arriving = .ok p' ∧ p'.Held k m := by
  induction arriving generalizing p held with
  | nil =>
    rw [Stack.mergeAll_nil] at hm
    exact ⟨p, rfl, Option.some.inj hm ▸ hh⟩
  | cons s arriving ih =>
    rw [Stack.mergeAll_cons] at hm
    obtain ⟨m', hm', hrest⟩ := Option.bind_eq_some_iff.mp hm
    obtain ⟨p', hp', hh'⟩ := held_arrive hh hm'
    rw [arriveInTurn_cons, hp']
    exact ih hh' hrest

/-! ## arrivals in the course of a run -/

/-- what the visit at place `r` takes to the blocks behind, and these blocks; none if there is
nothing to take -/
def sent? (a : Analysis) (r : Nat) (p : Progress) : Option (Stack × List Nat) := do
  let b ← a.order[r]?
  let block ← a.graph.block? b
  let s ← (p.starts[b]?).join
  let t ← (a.runCode s (block.instructions a.body)).toOption
  let next ← a.graph.graph.successors? b
  return (t, next)

/-- the blocks to which the visit at place `r` takes a stack, each with the stack -/
def sent (a : Analysis) (r : Nat) (p : Progress) : List (Nat × Stack) :=
  match a.sent? r p with
  | some (t, next) => next.map fun b => (b, t)
  | none => []

/-- all that `n` visits take anywhere, in this order -/
def deliveries (a : Analysis) : Nat → Progress → List (Nat × Stack)
  | 0, _ => []
  | n + 1, p =>
    match p.pending with
    | [] => []
    | r :: rest =>
      let p := { p with pending := rest, visits := p.visits + 1 }
      match a.visit r p with
      | .error _ => a.sent r p
      | .ok q => a.sent r p ++ deliveries a n q

/-- what comes to block `k` -/
def arrivedAt (k : Nat) (log : List (Nat × Stack)) : List Stack :=
  (log.filter (·.1 == k)).map (·.2)

/-- all that has come to block `k` after `n` visits.  The empty stack with which control enters the
body is the first to come to the entry block. -/
def arrivals (a : Analysis) (n k : Nat) : List Stack :=
  (if k = a.graph.entry then [[]] else []) ++ arrivedAt k (a.deliveries n a.initial)

/-- the start of block `k` is what these stacks merge to, and is not known if there are none -/
def Gathers (a : Analysis) (p : Progress) (k : Nat) : List Stack → Prop
  | [] => p.starts[k]? = some none
  | held :: arriving => ∃ m, Stack.mergeAll a.hierarchy held arriving = some m ∧ p.Held k m

theorem arrivedAt_cons (k : Nat) (arrival : Nat × Stack) (log : List (Nat × Stack)) :
    arrivedAt k (arrival :: log)
      = (if arrival.1 = k then [arrival.2] else []) ++ arrivedAt k log := by
  unfold arrivedAt
  by_cases hk : arrival.1 = k
  · rw [if_pos hk, List.filter_cons_of_pos (by simpa using hk)]
    rfl
  · rw [if_neg hk, List.filter_cons_of_neg (by simpa using hk)]
    rfl

theorem arrivedAt_append (k : Nat) (log later : List (Nat × Stack)) :
    arrivedAt k (log ++ later) = arrivedAt k log ++ arrivedAt k later := by
  unfold arrivedAt
  rw [List.filter_append, List.map_append]

/-- what a visit does, if it fails nowhere -/
theorem visit_sent {r : Nat} (h : a.visit r p = .ok q) :
    a.sent r p = [] ∧ q = p ∨
      ∃ t next, a.sent r p = next.map (fun b => (b, t)) ∧ a.arriveAll t p next = .ok q := by
  unfold sent sent?
  unfold visit at h
  split at h
  · cases h
  next b hb =>
    split at h
    · cases h
    next block hblock =>
      split at h
      · cases h
      next hs =>
        cases h
        refine .inl ⟨?_, rfl⟩
        simp [hb, hblock, hs]
      next s hs =>
        split at h
        · cases h
        next t ht =>
          split at h
          · cases h
          next next hnext =>
            refine .inr ⟨t, next, ?_, h⟩
            simp [hb, hblock, hs, ht, hnext, Except.toOption]

/-- where no stack has arrived, the first one is the start -/
theorem Arrival.held_first {t : Stack} (h : a.Arrival p k t q) (hn : p.starts[k]? = some none) :
    q.Held k t := by
  have hnot : ∀ s, ¬p.Held k s := by
    intro s hs
    unfold Progress.Held at hs
    rw [hn] at hs
    cases hs
  cases h with
  | first =>
    have hk : k < p.starts.size := (Array.getElem?_eq_some_iff.mp hn).1
    exact (Progress.held_put hk k t).mpr (.inl ⟨rfl, rfl⟩)
  | kept hh | raised hh => exact absurd hh (hnot _)

/-- a later one is merged into the start -/
theorem Arrival.held_merge {t : Stack} (h : a.Arrival p k t q) (hh : p.Held k held) :
    ∃ m, Stack.merge a.hierarchy held t = some m ∧ q.Held k m := by
  cases h with
  | first hn =>
    unfold Progress.Held at hh
    rw [hn] at hh
    cases hh
  | kept hh' hm =>
    rw [hh'.unique hh] at hm
    exact ⟨held, hm, hh⟩
  | @raised held' m hh' hm =>
    rw [hh'.unique hh] at hm
    exact ⟨m, hm, (Progress.held_put hh.lt k m).mpr (.inl ⟨rfl, rfl⟩)⟩

/-- what arrives at another block leaves the start alone -/
theorem Arrival.starts_of_ne {j : Nat} {t : Stack} (h : a.Arrival p j t q) (hj : j ≠ k) :
    q.starts[k]? = p.starts[k]? := by
  cases h with
  | first | raised => exact Array.getElem?_setIfInBounds_ne hj
  | kept => rfl

theorem Gathers.congr {family : List Stack} (h : a.Gathers p k family)
    (hs : q.starts[k]? = p.starts[k]?) : a.Gathers q k family := by
  cases family with
  | nil => exact hs.trans h
  | cons held arriving =>
    obtain ⟨m, hm, hh⟩ := h
    exact ⟨m, hm, hs.trans hh⟩

/-- if nothing comes -/
theorem Gathers.append_nil {family : List Stack} (h : a.Gathers p k family) :
    a.Gathers p k (family ++ []) := by
  rw [List.append_nil]
  exact h

/-- a stack that arrives at a block joins those that have arrived there, and elsewhere nothing
changes -/
theorem Gathers.arrival {family : List Stack} (h : a.Gathers p k family) {j : Nat} {t : Stack}
    (harr : a.Arrival p j t q) : a.Gathers q k (family ++ if j = k then [t] else []) := by
  split
  next hj =>
    subst hj
    cases family with
    | nil => exact ⟨t, Stack.mergeAll_nil .., harr.held_first h⟩
    | cons held arriving =>
      obtain ⟨m, hm, hh⟩ := h
      obtain ⟨m', hm', hh'⟩ := harr.held_merge hh
      refine ⟨m', ?_, hh'⟩
      show Stack.mergeAll a.hierarchy held (arriving ++ [t]) = some m'
      rw [Stack.mergeAll_concat, hm]
      exact hm'
  next hj => exact (h.congr (harr.starts_of_ne hj)).append_nil

theorem Gathers.arriveAll {family : List Stack} (h : a.Gathers p k family) {t : Stack}
    {ks : List Nat} (harr : a.arriveAll t p ks = .ok q) :
    a.Gathers q k (family ++ arrivedAt k (ks.map fun b => (b, t))) := by
  induction ks generalizing p family with
  | nil =>
    cases harr
    exact h.append_nil
  | cons j ks ih =>
    rw [Analysis.arriveAll] at harr
    split at harr
    · cases harr
    next p' hp' =>
      rw [List.map_cons, arrivedAt_cons, ← List.append_assoc]
      exact ih (h.arrival (arrive_ok hp')) harr

/-- **Throughout a run a start is what has arrived.** -/
theorem Gathers.run {family : List Stack} (h : a.Gathers p k family) {n : Nat}
    (hrun : a.run n p = .ok q) : a.Gathers q k (family ++ arrivedAt k (a.deliveries n p)) := by
  induction n generalizing p family with
  | zero =>
    cases hrun
    exact h.append_nil
  | succ n ih =>
    rw [deliveries]
    cases hp : p.pending with
    | nil =>
      rw [run_nil _ hp] at hrun
      cases hrun
      exact h.append_nil
    | cons r rest =>
      rw [run_cons n hp] at hrun
      obtain ⟨p', hp', hrest⟩ := bind_eq_ok hrun
      have hpop : a.Gathers { p with pending := rest, visits := p.visits + 1 } k family :=
        h.congr rfl
      dsimp only
      rw [hp']
      dsimp only
      rw [arrivedAt_append, ← List.append_assoc]
      refine ih ?_ hrest
      obtain ⟨hsent, rfl⟩ | ⟨t, next, hsent, harr⟩ := visit_sent hp'
      · rw [hsent]
        exact hpop.append_nil
      · rw [hsent]
        exact hpop.arriveAll harr

theorem gathers_initial (a : Analysis) (hk : k < a.graph.blockCount) :
    a.Gathers a.initial k (if k = a.graph.entry then [[]] else []) := by
  have hstart : a.initial.starts[k]?
      = if k = a.graph.entry then some (some []) else some none := by
    show ((Array.replicate a.graph.blockCount none).setIfInBounds a.graph.entry (some []))[k]? = _
    rw [Array.getElem?_setIfInBounds, Array.getElem?_replicate, if_pos hk, Array.size_replicate]
    by_cases he : k = a.graph.entry
    · rw [if_pos he.symm, if_pos (he ▸ hk), if_pos he]
    · rw [if_neg (Ne.symm he), if_neg he]
  split
  next he =>
    rw [if_pos he] at hstart
    exact ⟨[], Stack.mergeAll_nil .., hstart⟩
  next he =>
    rw [if_neg he] at hstart
    exact hstart

/-- after any number of visits -/
theorem gathers_run (hk : k < a.graph.blockCount) {n : Nat} (hrun : a.run n a.initial = .ok q) :
    a.Gathers q k (a.arrivals n k) :=
  (a.gathers_initial hk).run hrun

end Analysis

end CilPatch
