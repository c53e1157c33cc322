import CilPatch.Proofs.Stack.Order
import CilPatch.Stack.Solver

/-!
# A stack arrives at a block

`Arrival` lists the three things that can happen: the block was not known and takes the stack as it
is, the stack says nothing new, or the start of the block moves up and the block is scheduled.
Every later fact about the iteration is proved by these three cases (`arriveAll_induction`).

`Progress.Grows` is what any number of arrivals have in common: starts only move up, and whatever
starts anew is scheduled.
-/

namespace CilPatch

namespace Progress

/-- block `k` is known to start with the stack `s` -/
def Held (p : Progress) (k : Nat) (s : Stack) : Prop := p.starts[k]? = some (some s)

theorem Held.unique {p : Progress} {k : Nat} {s s' : Stack} (h : p.Held k s) (h' : p.Held k s') :
    s = s' := by
  unfold Held at h h'
  rw [h] at h'
  exact Option.some.inj (Option.some.inj h')

theorem Held.lt {p : Progress} {k : Nat} {s : Stack} (h : p.Held k s) : k < p.starts.size :=
  (Array.getElem?_eq_some_iff.mp h).1

/-- block `k` starts with `m` and is scheduled -/
def put (a : Analysis) (p : Progress) (k : Nat) (m : Stack) : Progress :=
  { p with
    starts := p.starts.setIfInBounds k (some m)
    pending := Analysis.schedule (a.order.idxOf k) p.pending }

theorem size_put (a : Analysis) (p : Progress) (k : Nat) (m : Stack) :
    (p.put a k m).starts.size = p.starts.size :=
  Array.size_setIfInBounds

theorem held_put {a : Analysis} {p : Progress} {k : Nat} {m : Stack} (hk : k < p.starts.size)
    (k' : Nat) (s : Stack) :
    (p.put a k m).Held k' s ↔ (k' = k ∧ s = m) ∨ (k' ≠ k ∧ p.Held k' s) := by
  show (p.starts.setIfInBounds k (some m))[k']? = _ ↔ _
  rw [Array.getElem?_setIfInBounds]
  by_cases e : k' = k
  · rw [e, if_pos rfl, if_pos hk]
    simp [eq_comm]
  · rw [if_neg (Ne.symm e)]
    simp [e, Held]

end Progress

namespace Analysis

variable {a : Analysis}

/-! ## the schedule -/

theorem mem_schedule {r q : Nat} {l : List Nat} : q ∈ schedule r l ↔ q = r ∨ q ∈ l := by
  induction l with
  | nil => simp [schedule]
  | cons x l ih =>
    rw [schedule]
    split
    · exact List.mem_cons
    · split
      · next e =>
        rw [← e, List.mem_cons]
        simp
      · rw [List.mem_cons, ih, List.mem_cons, or_left_comm]

theorem length_schedule_le (r : Nat) (l : List Nat) : (schedule r l).length ≤ l.length + 1 := by
  induction l with
  | nil => exact Nat.le_refl _
  | cons x l ih =>
    rw [schedule]
    split
    · exact Nat.le_refl _
    · split
      · exact Nat.le_succ _
      · exact Nat.succ_le_succ ih

/-! ## arrivals -/

/-- what the arrival of `t` at block `k` can make of `p` -/
inductive Arrival (a : Analysis) (p : Progress) (k : Nat) (t : Stack) : Progress → Prop where
  | first : p.starts[k]? = some none → Arrival a p k t (p.put a k t)
  | kept {m : Stack} : p.Held k m → Stack.merge a.hierarchy m t = some m → Arrival a p k t p
  | raised {held m : Stack} : p.Held k held → Stack.merge a.hierarchy held t = some m →
      m ≠ held → Arrival a p k t (p.put a k m)

theorem arrive_ok {p p' : Progress} {k : Nat} {t : Stack} (h : a.arrive p k t = .ok p') :
    a.Arrival p k t p' := by
  unfold arrive at h
  split at h
  · cases h
  · next hn =>
    cases h
    exact .first hn
  · next held hh =>
    split at h
    · cases h
    · next m hm =>
      split at h
      · next e =>
        cases h
        rw [e] at hm
        exact .kept hh hm
      · next hne =>
        cases h
        exact .raised hh hm hne

/-- an arrival fails only on a start of another height -/
theorem arrive_error {p : Progress} {k : Nat} {t : Stack} {blk : Block} {f : Failure}
    (hk : k < p.starts.size) (hblk : a.graph.block? k = some blk)
    (h : a.arrive p k t = .error f) :
    ∃ held, p.Held k held ∧ held.depth ≠ t.depth ∧
      f = .illFormed (.heightMismatch k blk.start held t) := by
  unfold arrive at h
  split at h
  · next hn =>
    rw [Array.getElem?_eq_none_iff] at hn
    omega
  · cases h
  · next held hh =>
    split at h
    · next hm =>
      rw [hblk] at h
      cases h
      exact ⟨held, hh, Stack.merge_eq_none_iff.mp hm, rfl⟩
    · cases h

/-- the stack that arrives fits the start of the block -/
theorem Arrival.fits {p p' : Progress} {k : Nat} {t : Stack} (h : a.Arrival p k t p') :
    ∃ m, p'.Held k m ∧ Stack.Fits a.hierarchy t m := by
  cases h with
  | first hn =>
    have hk : k < p.starts.size := (Array.getElem?_eq_some_iff.mp hn).1
    exact ⟨t, (Progress.held_put hk _ _).mpr (.inl ⟨rfl, rfl⟩), Stack.fits_refl _ _⟩
  | kept hh hm => exact ⟨_, hh, Stack.fits_merge_right hm⟩
  | raised hh hm hne =>
    exact ⟨_, (Progress.held_put hh.lt _ _).mpr (.inl ⟨rfl, rfl⟩), Stack.fits_merge_right hm⟩

/-- a property that every arrival keeps is kept by all of them in a row -/
theorem arriveAll_induction {P : Progress → Prop} {t : Stack} {ks : List Nat}
    (step : ∀ p p' k, k ∈ ks → P p → a.Arrival p k t p' → P p') {p p' : Progress} (hp : P p)
    (h : a.arriveAll t p ks = .ok p') : P p' := by
  induction ks generalizing p with
  | nil =>
    cases h
    exact hp
  | cons k ks ih =>
    rw [arriveAll] at h
    split at h
    · cases h
    · next q hq =>
      refine ih (fun p p' k' hk' => step p p' k' (List.mem_cons_of_mem _ hk')) ?_ h
      exact step p q k List.mem_cons_self hp (arrive_ok hq)

/-! ## growth -/

/-- starts have moved up, and what starts anew is scheduled -/
structure Grows (a : Analysis) (p p' : Progress) : Prop where
  size : p'.starts.size = p.starts.size
  up : ∀ k s, p.Held k s → ∃ s', p'.Held k s' ∧ Stack.Fits a.hierarchy s s'
  anew : ∀ k s, p'.Held k s → p.Held k s ∨ a.order.idxOf k ∈ p'.pending
  pending : ∀ r ∈ p.pending, r ∈ p'.pending

theorem Grows.refl (a : Analysis) (p : Progress) : a.Grows p p where
  size := rfl
  up := fun _ s h => ⟨s, h, Stack.fits_refl _ s⟩
  anew := fun _ _ h => .inl h
  pending := fun _ h => h

theorem Grows.trans {p q r : Progress} (h : a.Grows p q) (h' : a.Grows q r) : a.Grows p r where
  size := h'.size.trans h.size
  up := by
    intro k s hs
    obtain ⟨u, hu, hsu⟩ := h.up k s hs
    obtain ⟨v, hv, huv⟩ := h'.up k u hu
    exact ⟨v, hv, Stack.fits_trans hsu huv⟩
  anew := by
    intro k s hs
    rcases h'.anew k s hs with hs | hr
    · exact (h.anew k s hs).imp_right (h'.pending _)
    · exact .inr hr
  pending := fun n hn => h'.pending n (h.pending n hn)

/-- a start that is put above the old one, or where there was none, is growth -/
theorem grows_put {p : Progress} {k : Nat} {m : Stack} (hk : k < p.starts.size)
    (hup : ∀ s, p.Held k s → Stack.Fits a.hierarchy s m) : a.Grows p (p.put a k m) where
  size := p.size_put a k m
  up := by
    intro k' s hs
    by_cases e : k' = k
    · rw [e] at hs
      exact ⟨m, (Progress.held_put hk _ _).mpr (.inl ⟨e, rfl⟩), hup s hs⟩
    · exact ⟨s, (Progress.held_put hk _ _).mpr (.inr ⟨e, hs⟩), Stack.fits_refl _ s⟩
  anew := by
    intro k' s hs
    rcases (Progress.held_put hk _ _).mp hs with ⟨rfl, -⟩ | ⟨-, hs⟩
    · exact .inr (mem_schedule.mpr (.inl rfl))
    · exact .inl hs
  pending := fun _ hr => mem_schedule.mpr (.inr hr)

theorem Arrival.grows {p p' : Progress} {k : Nat} {t : Stack} (h : a.Arrival p k t p') :
    a.Grows p p' := by
  cases h with
  | first hn =>
    refine grows_put (Array.getElem?_eq_some_iff.mp hn).1 fun s hs => ?_
    unfold Progress.Held at hs
    rw [hn] at hs
    cases hs
  | kept => exact .refl a p
  | raised hh hm hne =>
    refine grows_put hh.lt fun s hs => ?_
    rw [← hh.unique hs]
    exact Stack.fits_merge_left hm

theorem arriveAll_grows {p p' : Progress} {t : Stack} {ks : List Nat}
    (h : a.arriveAll t p ks = .ok p') : a.Grows p p' :=
  arriveAll_induction (fun _ _ _ _ hg ha => hg.trans ha.grows) (.refl a p) h

/-- each of the blocks that a stack arrives at has a start that it fits -/
theorem arriveAll_fits {p p' : Progress} {t : Stack} {ks : List Nat}
    (h : a.arriveAll t p ks = .ok p') {k : Nat} (hk : k ∈ ks) :
    ∃ m, p'.Held k m ∧ Stack.Fits a.hierarchy t m := by
  induction ks generalizing p with
  | nil => cases hk
  | cons k' ks ih =>
    rw [arriveAll] at h
    split at h
    · cases h
    · next q hq =>
      rcases List.mem_cons.mp hk with rfl | hk
      · obtain ⟨m, hm, htm⟩ := (arrive_ok hq).fits
        obtain ⟨m', hm', hmm'⟩ := (arriveAll_grows h).up _ _ hm
        exact ⟨m', hm', Stack.fits_trans htm hmm'⟩
      · exact ih h hk

end Analysis

end CilPatch
