import CilPatch.Proofs.Stack.Termination
import CilPatch.Proofs.Stack.Heights

/-!
# The turns of the loop, one after the other

`Running` is what holds whenever the loop takes a turn.  Then the block that is due has a start, and
the turn runs it from there and takes what it leaves to the blocks behind it
(`Running.turn_cases`); nothing else can happen.  `Visits` follows the turns and lists the blocks in
the order in which they are run.

* `Running.turn`, `Leads.running`   it holds throughout;
* `exists_visits`                   what the loop does in all, block by block;
* `Visits.covers`                   whatever has a start in the end has been run.
-/

namespace CilPatch.Analysis

variable {a : Analysis} {p q : Progress}

/-! ## what is scheduled -/

/-- every place that is scheduled is that of a block whose start is known -/
def Waiting (a : Analysis) (p : Progress) : Prop :=
  ∀ r ∈ p.pending, ∃ k s, a.order[r]? = some k ∧ p.Held k s

theorem Waiting.arrival (hw : a.Waiting p) {k : Nat} {t : Stack} (hk : k ∈ a.order)
    (h : a.Arrival p k t q) : a.Waiting q := by
  have hg := h.grows
  have hold : ∀ r ∈ p.pending, ∃ k s, a.order[r]? = some k ∧ q.Held k s := by
    intro r hr
    obtain ⟨k', s, hk', hs⟩ := hw r hr
    obtain ⟨s', hs', -⟩ := hg.up k' s hs
    exact ⟨k', s', hk', hs'⟩
  have hnew : ∃ s, a.order[a.order.idxOf k]? = some k ∧ q.Held k s := by
    obtain ⟨m, hm, -⟩ := h.fits
    exact ⟨m, List.getElem?_idxOf hk, hm⟩
  intro r hr
  cases h with
  | kept => exact hold r hr
  | first | raised =>
    rcases mem_schedule.mp hr with rfl | hr
    · exact ⟨k, hnew⟩
    · exact hold r hr

/-- arrivals schedule no block but those that the stack arrives at -/
theorem arriveAll_pending {t : Stack} {ks : List Nat} (h : a.arriveAll t p ks = .ok q) :
    ∀ r ∈ q.pending, r ∈ p.pending ∨ ∃ k ∈ ks, r = a.order.idxOf k := by
  refine arriveAll_induction
    (P := fun q => ∀ r ∈ q.pending, r ∈ p.pending ∨ ∃ k ∈ ks, r = a.order.idxOf k) ?_
    (fun _ hr => .inl hr) h
  intro q q' k hk hq harr r hr
  cases harr with
  | kept => exact hq r hr
  | first | raised =>
    rcases mem_schedule.mp hr with rfl | hr
    · exact .inr ⟨k, hk, rfl⟩
    · exact hq r hr

/-! ## turns -/

/-- what holds of the loop between two turns -/
structure Running (a : Analysis) (p : Progress) : Prop where
  proper : a.Proper
  valid : a.Valid p
  settled : a.Settled p
  increasing : p.pending.Pairwise (· < ·)
  waiting : a.Waiting p

/-- block `k` is the next to be visited, and is to be run from `s` -/
structure Due (a : Analysis) (p : Progress) (k : Nat) (s : Stack) : Prop where
  first : p.pending.head?.bind (a.order[·]?) = some k
  held : p.Held k s

/-- a turn with block `k` at place `r`: it is run from `s`, and what it leaves, `t`, is taken to the
blocks `next` behind it -/
structure Turn (a : Analysis) (p : Progress) (r : Nat) (rest : List Nat) (k : Nat) (s t : Stack)
    (next : List Nat) : Prop where
  pending : p.pending = r :: rest
  place : a.order[r]? = some k
  held : p.Held k s
  ran : ∃ blk, a.graph.block? k = some blk ∧ a.runCode s (blk.instructions a.body) = .ok t
  successors : a.graph.graph.successors? k = some next

theorem Turn.due {r k : Nat} {rest next : List Nat} {s t : Stack}
    (h : a.Turn p r rest k s t next) : a.Due p k s where
  first := by
    rw [h.pending]
    exact h.place
  held := h.held

theorem Turn.mem_order {r k : Nat} {rest next : List Nat} {s t : Stack}
    (h : a.Turn p r rest k s t next) : k ∈ a.order := List.mem_of_getElem? h.place

theorem Turn.next_mem_order {r k : Nat} {rest next : List Nat} {s t : Stack}
    (h : a.Turn p r rest k s t next) (ha : a.Proper) {k' : Nat} (hk' : k' ∈ next) :
    k' ∈ a.order := by
  have hk := h.mem_order
  rw [ha.ordered] at hk ⊢
  exact ha.refines.mem_order_of_adj hk ((Digraph.adj_iff_of_successors? h.successors k').mpr hk')

theorem running_initial (ha : a.Proper) : a.Running a.initial where
  proper := ha
  valid := (initial_ok ha).1
  settled := (initial_ok ha).2
  increasing := List.pairwise_singleton _ _
  waiting := by
    intro r hr
    rw [List.mem_singleton.mp hr]
    have hmem : 0 ∈ a.order := ha.ordered ▸ ha.refines.entry_mem_order
    exact ⟨0, [], List.getElem?_idxOf hmem, (initial_ok ha).1.entry⟩

namespace Running

/-- **All that a turn does.** -/
theorem turn_cases (h : a.Running p) (hturn : a.turn? p = some (.ok q)) :
    ∃ r rest k s t next, a.Turn p r rest k s t next ∧
      a.arriveAll t { p with pending := rest, visits := p.visits + 1 } next = .ok q := by
  obtain ⟨r, rest, k, hp, hk, hvisit, -⟩ := turn_seen h.proper h.valid hturn
  have hr : r < a.order.length := (List.getElem?_eq_some_iff.mp hk).1
  obtain ⟨k', s, hk', hs⟩ := h.waiting r (hp ▸ List.mem_cons_self)
  rw [hk] at hk'
  cases hk'
  obtain ⟨k', blk, hk', hblk, ⟨hn, -⟩ | ⟨s', hs', ⟨fault, -, e⟩ | ⟨t, next, ht, hnext, e⟩⟩⟩ :=
    visit_cases h.proper (h.valid.pop hp (p.visits + 1)) hr
  · rw [hk] at hk'
    cases hk'
    unfold Progress.Held at hs
    rw [hn] at hs
    cases hs
  · rw [e] at hvisit
    cases hvisit
  · rw [hk] at hk'
    cases hk'
    rw [Progress.Held.unique hs' hs] at ht
    exact ⟨r, rest, k, s, t, next, ⟨hp, hk, hs, ⟨blk, hblk, ht⟩, hnext⟩, e ▸ hvisit⟩

/-- the loop goes on as it has begun -/
theorem turn (h : a.Running p) (hturn : a.turn? p = some (.ok q)) : a.Running q := by
  obtain ⟨r, rest, k, s, t, next, hT, harr⟩ := h.turn_cases hturn
  have hp := hT.pending
  rw [turn?_of_cons hp] at hturn
  have hvisit := Option.some.inj hturn
  have hr : r < a.order.length := h.valid.scheduled r (hp ▸ List.mem_cons_self)
  obtain ⟨hvq, hsq⟩ := visit_ok h.proper (h.valid.pop hp (p.visits + 1)) hr
    (h.settled.pop h.valid hp (p.visits + 1)) hvisit
  refine ⟨h.proper, hvq, hsq, ?_, ?_⟩
  · have hsorted := h.increasing
    rw [hp] at hsorted
    exact pairwise_visit (List.pairwise_cons.mp hsorted).2 hvisit
  · refine arriveAll_induction (P := a.Waiting) (fun _ _ k' hk' hw harr => ?_) ?_ harr
    · exact hw.arrival (hT.next_mem_order h.proper hk') harr
    · exact fun r' hr' => h.waiting r' (hp ▸ List.mem_cons_of_mem _ hr')

end Running

theorem Leads.running (h : a.Leads p q) (hp : a.Running p) : a.Running q := by
  induction h with
  | refl => exact hp
  | tail _ hturn ih => exact ih.turn hturn

/-! ## the blocks in the order in which they are run -/

/-- the loop goes from `p` to `q` by running the blocks `ks` -/
inductive Visits (a : Analysis) : Progress → List Nat → Progress → Prop where
  | idle (p : Progress) : Visits a p [] p
  | turn {p p' q : Progress} {k : Nat} {s : Stack} {ks : List Nat} :
      a.Due p k s → a.turn? p = some (.ok p') → Visits a p' ks q → Visits a p (k :: ks) q

theorem visits_arriveAll {t : Stack} {ks : List Nat} (h : a.arriveAll t p ks = .ok q) :
    q.visits = p.visits := by
  refine arriveAll_induction (P := fun q => q.visits = p.visits) ?_ rfl h
  intro q q' k _ hq harr
  cases harr <;> exact hq

/-- every visit is counted -/
theorem Visits.count {ks : List Nat} (h : a.Visits p ks q) (hp : a.Running p) :
    q.visits = p.visits + ks.length := by
  induction h with
  | idle => rfl
  | @turn p p' q k s ks _ hturn _ ih =>
    obtain ⟨r, rest, -, -, t, next, -, harr⟩ := hp.turn_cases hturn
    have hcount := visits_arriveAll harr
    rw [ih (hp.turn hturn), hcount, List.length_cons]
    show p.visits + 1 + ks.length = _
    omega

/-- a loop that stops without a failure has run some blocks and has none left -/
theorem Loop.exists_visits {n : Nat} {result : Except Failure Progress}
    (h : a.Loop p n result) (hp : a.Running p) (hq : result = .ok q) :
    ∃ ks, a.Visits p ks q ∧ q.pending = [] := by
  induction h with
  | @idle p hturn =>
    cases hq
    refine ⟨[], .idle q, ?_⟩
    cases hc : q.pending with
    | nil => rfl
    | cons r rest =>
      rw [turn?_of_cons hc] at hturn
      cases hturn
  | failed => cases hq
  | @turn p p' n result hturn _ ih =>
    obtain ⟨ks, hvisits, hdone⟩ := ih (hp.turn hturn) hq
    obtain ⟨r, rest, k, s, t, next, hT, -⟩ := hp.turn_cases hturn
    exact ⟨k :: ks, .turn hT.due hturn hvisits, hdone⟩

/-- what the search does, block by block -/
theorem exists_visits (ha : a.Proper) (h : a.solve = .ok q) :
    ∃ ks, a.Visits a.initial ks q ∧ q.pending = [] ∧ q.visits = ks.length := by
  obtain ⟨n, -, hloop⟩ := loop_solve ha
  obtain ⟨ks, hvisits, hdone⟩ := hloop.exists_visits (running_initial ha) h
  have hcount := hvisits.count (running_initial ha)
  exact ⟨ks, hvisits, hdone, hcount.trans (Nat.zero_add _)⟩

/-- **A block with a start has been run**, or had the start from the outset and was not due. -/
theorem Visits.covers {ks : List Nat} (h : a.Visits p ks q) (hp : a.Running p)
    (hdone : q.pending = []) {k : Nat} {s : Stack} (hk : q.Held k s) :
    k ∈ ks ∨ (∃ s, p.Held k s) ∧ a.order.idxOf k ∉ p.pending := by
  induction h with
  | idle p =>
    rw [hdone]
    exact .inr ⟨⟨s, hk⟩, List.not_mem_nil⟩
  | @turn p p' q j s' ks hdue hturn _ ih =>
    rcases ih (hp.turn hturn) hdone hk with hmem | ⟨⟨u, hu⟩, hout⟩
    · exact .inl (List.mem_cons_of_mem _ hmem)
    · obtain ⟨r, rest, k', v, t, next, hT, harr⟩ := hp.turn_cases hturn
      have hg := arriveAll_grows harr
      have hold : p.Held k u := (hg.anew k u hu).resolve_right hout
      by_cases e : k = j
      · exact .inl (e ▸ List.mem_cons_self)
      · refine .inr ⟨⟨u, hold⟩, fun hmem => ?_⟩
        rw [hT.pending] at hmem
        rcases List.mem_cons.mp hmem with hr | hmem
        · have hplace := hT.place
          have hfirst := hdue.first
          rw [hT.pending] at hfirst
          have hkr := List.getElem?_idxOf (hp.valid.ordered k u hold)
          rw [hr] at hkr
          exact e (Option.some.inj (hkr.symm.trans hfirst))
        · exact hout (hg.pending _ hmem)

end CilPatch.Analysis

namespace CilPatch

/-- the visits of a profile are those of the search that it comes from -/
theorem Verifier.exists_solve {v : Verifier} {b : Body} {prof : Profile}
    (h : v.verify b = .ok (.analyzed prof)) :
    ∃ g q, FlowGraph.ofBody b = .ok g ∧
      (Analysis.start b g v.signature v.hierarchy).solve = .ok q ∧ prof.visits = q.visits := by
  unfold Verifier.verify at h
  split at h
  · split at h <;> cases h
  · split at h
    · cases h
    · next g hg =>
      split at h
      · cases h
      · next prof' hprof =>
        cases h
        unfold Analysis.profile at hprof
        split at hprof
        · cases hprof
        · next q hq =>
          split at hprof
          · cases hprof
          · cases hprof
            exact ⟨g, q, hg, hq, rfl⟩

end CilPatch
