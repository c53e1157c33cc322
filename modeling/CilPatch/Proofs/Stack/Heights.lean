import Mathlib.Logic.Function.Basic
import CilPatch.Proofs.Stack.Termination

/-!
# The iteration, seen by someone who is blind to types

Whether an instruction can be carried out hangs on the height of the stack, and so does everything
that can go wrong where paths meet.  Someone who sees of each start only its height sees the
iteration do the following (`Heights.Ends`): of the blocks whose visit would do anything at all, the
first is visited, until no block is left or one fails.  All other visits, which there may be more or
fewer of for another hierarchy, change no height and cannot fail, and go unseen.

* `Heights.pass`         what is seen of a visit;
* `Analysis.visit_seen`  it is all that is seen;
* `Analysis.Loop.ends`   the loop, seen as a whole;
* `Heights.Ends.unique`  the course that is seen is fixed by the body.
-/

namespace CilPatch

/-- a stack of this height that says nothing about types -/
def Stack.blank (d : Nat) : Stack := List.replicate d .unknown

theorem Stack.depth_blank (d : Nat) : (blank d).depth = d := List.length_replicate

/-- the fault without the types -/
def BodyFault.blank : BodyFault → BodyFault
  | heightMismatch k offset held arriving =>
    heightMismatch k offset (.blank held.depth) (.blank arriving.depth)
  | fault => fault

def Failure.blank : Failure → Failure
  | illFormed fault => illFormed fault.blank
  | f => f

/-! ## runs of instructions -/

/-- the height of the stack behind a run of instructions -/
def heightBehind (sig : Option Signature) (d : Nat) :
    List (Nat × Instruction) → Except BodyFault Nat
  | [] => .ok d
  | (i, x) :: rest =>
    match x.transfer sig i (.blank d) with
    | .error fault => .error fault
    | .ok t => heightBehind sig t.depth rest

/-- no instruction fails with a fault that names types -/
theorem Instruction.blank_of_transfer {x : Instruction} {sig : Option Signature} {i : Nat}
    {s : Stack} {fault : BodyFault} (h : x.transfer sig i s = .error fault) :
    fault.blank = fault := by
  rcases transfer_eq_error_iff.mp h with ⟨-, rfl⟩ | ⟨e, -, -, rfl⟩
  · rfl
  · rfl

namespace Analysis

theorem runCode_height (a : Analysis) (s : Stack) (l : List (Nat × Instruction)) :
    (a.runCode s l).map Stack.depth = heightBehind a.signature s.depth l := by
  induction l generalizing s with
  | nil => rfl
  | cons y l ih =>
    obtain ⟨i, x⟩ := y
    have hd : s.depth = (Stack.blank s.depth).depth := (Stack.depth_blank _).symm
    rw [runCode, heightBehind]
    cases hx : x.transfer a.signature i s with
    | error fault =>
      rw [Instruction.transfer_error_of_depth_eq hd hx]
      rfl
    | ok t =>
      obtain ⟨t', ht', hdt⟩ := Instruction.transfer_ok_of_depth_eq hd hx
      rw [ht']
      show (a.runCode t l).map Stack.depth = heightBehind a.signature t'.depth l
      rw [← hdt]
      exact ih t

theorem blank_of_runCode {a : Analysis} {s : Stack} {l : List (Nat × Instruction)}
    {fault : BodyFault} (h : a.runCode s l = .error fault) : fault.blank = fault := by
  induction l generalizing s with
  | nil => cases h
  | cons y l ih =>
    rw [runCode] at h
    split at h
    · next f hf =>
      cases h
      exact Instruction.blank_of_transfer hf
    · exact ih h

end Analysis

/-! ## what is seen of the iteration -/

/-- the height of the stack at the start of each block, none where control has not arrived -/
abbrev Heights := Nat → Option Nat

namespace Heights

/-- a stack of height `d` arrives at the starts of several blocks, one after the other -/
def spread (g : FlowGraph) (d : Nat) (H : Heights) : List Nat → Except Failure Heights
  | [] => .ok H
  | k :: rest =>
    match H k with
    | none => spread g d (Function.update H k (some d)) rest
    | some held =>
      if held = d then spread g d H rest
      else
        .error (.illFormed (.heightMismatch k (((g.block? k).map Block.start).getD 0)
          (.blank held) (.blank d)))

/-- a visit of block `k` -/
def pass (b : Body) (g : FlowGraph) (sig : Option Signature) (H : Heights) (k : Nat) :
    Except Failure Heights :=
  match H k, g.block? k, g.graph.successors? k with
  | some d, some blk, some next =>
    match heightBehind sig d (blk.instructions b) with
    | .error fault => .error (.illFormed fault)
    | .ok d => spread g d H next
  | _, _, _ => .ok H

/-- `k`, at place `r` of the order, is the first block whose visit does anything -/
structure First (b : Body) (g : FlowGraph) (sig : Option Signature) (H : Heights) (r k : Nat) :
    Prop where
  place : g.order[r]? = some k
  acts : pass b g sig H k ≠ .ok H
  least : ∀ r' k', r' < r → g.order[r']? = some k' → pass b g sig H k' = .ok H

/-- first blocks are visited until no visit does anything, or one fails -/
inductive Ends (b : Body) (g : FlowGraph) (sig : Option Signature) :
    Heights → Except Failure Heights → Prop where
  | level {H : Heights} : (∀ k ∈ g.order, pass b g sig H k = .ok H) → Ends b g sig H (.ok H)
  | failed {H : Heights} {r k : Nat} {f : Failure} :
      First b g sig H r k → pass b g sig H k = .error f → Ends b g sig H (.error f)
  | turn {H H' : Heights} {r k : Nat} {result : Except Failure Heights} :
      First b g sig H r k → pass b g sig H k = .ok H' → Ends b g sig H' result →
        Ends b g sig H result

variable {b : Body} {g : FlowGraph} {sig : Option Signature} {H : Heights}

theorem pass_of_none {k : Nat} (h : H k = none) : pass b g sig H k = .ok H := by
  unfold pass
  rw [h]

theorem pass_of_some {k d : Nat} {blk : Block} {next : List Nat} (h : H k = some d)
    (hblk : g.block? k = some blk) (hnext : g.graph.successors? k = some next) :
    pass b g sig H k =
      match heightBehind sig d (blk.instructions b) with
      | .error fault => .error (.illFormed fault)
      | .ok d => spread g d H next := by
  unfold pass
  rw [h, hblk, hnext]

/-- a stack that arrives where each start has its height is not seen -/
theorem spread_of_level {d : Nat} {ks : List Nat} (h : ∀ k ∈ ks, H k = some d) :
    spread g d H ks = .ok H := by
  induction ks with
  | nil => rfl
  | cons k ks ih =>
    rw [spread, h k List.mem_cons_self]
    show (if d = d then _ else _) = _
    rw [if_pos rfl]
    exact ih fun k' hk' => h k' (List.mem_cons_of_mem _ hk')

theorem First.unique {r k r' k' : Nat} (h : First b g sig H r k) (h' : First b g sig H r' k') :
    k = k' := by
  rcases Nat.lt_trichotomy r r' with hlt | rfl | hlt
  · exact absurd (h'.least r k hlt h.place) h.acts
  · exact Option.some.inj (h.place.symm.trans h'.place)
  · exact absurd (h.least r' k' hlt h'.place) h'.acts

theorem First.not_level {r k : Nat} (h : First b g sig H r k)
    (hlevel : ∀ k ∈ g.order, pass b g sig H k = .ok H) : False :=
  h.acts (hlevel k (List.mem_of_getElem? h.place))

/-- **There is one course only.** -/
theorem Ends.unique {result result' : Except Failure Heights} (h : Ends b g sig H result)
    (h' : Ends b g sig H result') : result = result' := by
  induction h with
  | level hlevel =>
    cases h' with
    | level => rfl
    | failed hfirst => exact (hfirst.not_level hlevel).elim
    | turn hfirst => exact (hfirst.not_level hlevel).elim
  | failed hfirst hf =>
    cases h' with
    | level hlevel => exact (hfirst.not_level hlevel).elim
    | failed hfirst' hf' =>
      rw [← hfirst.unique hfirst', hf] at hf'
      cases hf'
      rfl
    | turn hfirst' hok =>
      rw [← hfirst.unique hfirst', hf] at hok
      cases hok
  | turn hfirst hok _ ih =>
    cases h' with
    | level hlevel => exact (hfirst.not_level hlevel).elim
    | failed hfirst' hf =>
      rw [← hfirst.unique hfirst', hok] at hf
      cases hf
    | turn hfirst' hok' hends =>
      rw [← hfirst.unique hfirst', hok] at hok'
      cases hok'
      exact ih hends

end Heights

/-! ## the iteration is seen like that -/

/-- the heights of the starts -/
def Progress.heights (p : Progress) : Heights := fun k => p.starts[k]?.join.map Stack.depth

namespace Progress

variable {a : Analysis} {p : Progress} {k : Nat}

theorem heights_of_none (h : p.starts[k]? = some none) : p.heights k = none := by
  unfold heights
  rw [h]
  rfl

theorem Held.heights {s : Stack} (h : p.Held k s) : p.heights k = some s.depth := by
  unfold Progress.heights
  unfold Held at h
  rw [h]
  rfl

theorem exists_held {d : Nat} (h : p.heights k = some d) : ∃ s, p.Held k s ∧ s.depth = d := by
  obtain ⟨s, hs, rfl⟩ := Option.map_eq_some_iff.mp h
  exact ⟨s, Option.join_eq_some_iff.mp hs, rfl⟩

theorem heights_put (hk : k < p.starts.size) (m : Stack) :
    (p.put a k m).heights = Function.update p.heights k (some m.depth) := by
  funext j
  show ((p.starts.setIfInBounds k (some m))[j]?).join.map Stack.depth = _
  rw [Array.getElem?_setIfInBounds, Function.update_apply]
  by_cases e : j = k
  · rw [if_pos e.symm, if_pos hk, if_pos e]
    rfl
  · rw [if_neg (Ne.symm e), if_neg e]
    rfl

end Progress

/-- what is seen of a result -/
def Progress.seen : Except Failure Progress → Except Failure Heights
  | .ok p => .ok p.heights
  | .error f => .error f.blank

namespace Analysis

open Progress

variable {a : Analysis} {p p' : Progress}

/-- an arrival is seen if it is the first at its block -/
theorem Arrival.heights {k : Nat} {t : Stack} (h : a.Arrival p k t p') :
    (p.heights k = none ∧ p'.heights = Function.update p.heights k (some t.depth)) ∨
      (p.heights k = some t.depth ∧ p'.heights = p.heights) := by
  cases h with
  | first hn =>
    exact .inl ⟨heights_of_none hn, heights_put (Array.getElem?_eq_some_iff.mp hn).1 t⟩
  | kept hh hm =>
    obtain ⟨hd, -⟩ := Stack.merge_eq_some_iff.mp hm
    exact .inr ⟨hd ▸ hh.heights, rfl⟩
  | @raised held m hh hm hne =>
    obtain ⟨hd, -⟩ := Stack.merge_eq_some_iff.mp hm
    refine .inr ⟨hd ▸ hh.heights, ?_⟩
    rw [heights_put hh.lt, ← (Stack.fits_merge_left hm).depth_eq, ← hh.heights,
      Function.update_eq_self]

theorem arriveAll_seen (hv : p.starts.size = a.graph.blockCount) {t : Stack} {ks : List Nat}
    (hlt : ∀ k ∈ ks, k < a.graph.blockCount) :
    seen (a.arriveAll t p ks) = Heights.spread a.graph t.depth p.heights ks := by
  induction ks generalizing p with
  | nil => rfl
  | cons k ks ih =>
    have hk : k < a.graph.blockCount := hlt k List.mem_cons_self
    obtain ⟨blk, hblk⟩ := FlowGraph.Refines.exists_block hk
    rw [arriveAll, Heights.spread]
    cases harr : a.arrive p k t with
    | error f =>
      obtain ⟨held, hh, hd, rfl⟩ := arrive_error (hv.symm ▸ hk) hblk harr
      rw [hh.heights, hblk]
      show _ = if held.depth = t.depth then _ else _
      rw [if_neg hd]
      rfl
    | ok q =>
      have hsize : q.starts.size = a.graph.blockCount := (arrive_ok harr).grows.size.trans hv
      have hrest := ih hsize fun k' hk' => hlt k' (List.mem_cons_of_mem _ hk')
      refine hrest.trans ?_
      rcases (arrive_ok harr).heights with ⟨hn, e⟩ | ⟨hs, e⟩
      · rw [hn, e]
      · rw [hs, e]
        show _ = if t.depth = t.depth then _ else _
        rw [if_pos rfl]

/-- **All that is seen of a visit.** -/
theorem visit_seen (ha : a.Proper) (hv : a.Valid p) {r k : Nat} (hk : a.order[r]? = some k) :
    seen (a.visit r p) = Heights.pass a.body a.graph a.signature p.heights k := by
  obtain ⟨hr, -⟩ := List.getElem?_eq_some_iff.mp hk
  obtain ⟨k', blk, hk', hblk, hcase⟩ := visit_cases ha hv hr
  rw [hk] at hk'
  cases hk'
  rcases hcase with ⟨hn, e⟩ | ⟨s, hh, ⟨fault, hf, e⟩ | ⟨t, next, ht, hnext, e⟩⟩
  · rw [e, Heights.pass_of_none (heights_of_none hn)]
    rfl
  · have hlt := FlowGraph.Refines.lt_blockCount hblk
    obtain ⟨next, hnext, -⟩ := Digraph.successors?_isSome ha.refines.sound hlt
    have hd := a.runCode_height s (blk.instructions a.body)
    rw [hf] at hd
    rw [e, Heights.pass_of_some hh.heights hblk hnext, ← hd]
    exact congrArg (fun f => Except.error (Failure.illFormed f)) (blank_of_runCode hf)
  · have hd := a.runCode_height s (blk.instructions a.body)
    rw [ht] at hd
    rw [e, Heights.pass_of_some hh.heights hblk hnext, ← hd]
    refine arriveAll_seen hv.size fun k' hk' => ?_
    exact ((Digraph.adj_iff_of_successors? hnext k').mpr hk').lt_right ha.refines.sound

/-! ## the list -/

theorem pairwise_schedule {l : List Nat} (hl : l.Pairwise (· < ·)) (r : Nat) :
    (schedule r l).Pairwise (· < ·) := by
  induction l with
  | nil => exact List.pairwise_singleton _ r
  | cons x l ih =>
    obtain ⟨hx, hl'⟩ := List.pairwise_cons.mp hl
    rw [schedule]
    split
    · next hlt =>
      refine List.pairwise_cons.mpr ⟨fun y hy => ?_, hl⟩
      rcases List.mem_cons.mp hy with rfl | hy
      · exact hlt
      · exact Nat.lt_trans hlt (hx y hy)
    · split
      · exact hl
      · refine List.pairwise_cons.mpr ⟨fun y hy => ?_, ih hl'⟩
        rcases mem_schedule.mp hy with rfl | hy
        · omega
        · exact hx y hy

/-- the list stays increasing -/
theorem pairwise_visit {r : Nat} (hp : p.pending.Pairwise (· < ·)) (h : a.visit r p = .ok p') :
    p'.pending.Pairwise (· < ·) := by
  rcases visit_ok_cases h with rfl | ⟨t, ks, h⟩
  · exact hp
  · refine arriveAll_induction (P := fun q => q.pending.Pairwise (· < ·)) ?_ hp h
    intro q q' k _ hq harr
    cases harr with
    | first => exact pairwise_schedule hq _
    | kept => exact hq
    | raised => exact pairwise_schedule hq _

theorem idxOf_le {l : List Nat} {r k : Nat} (h : l[r]? = some k) : l.idxOf k ≤ r := by
  obtain ⟨hr, rfl⟩ := List.getElem?_eq_some_iff.mp h
  by_contra hlt
  have hne : (l[r] == l[r]) = false := List.not_of_lt_findIdx (Nat.lt_of_not_le hlt)
  rw [beq_self_eq_true] at hne
  cases hne

/-! ## the loop -/

/-- a block that has been run from its start does nothing when it is visited again -/
theorem Closed.pass {k : Nat} {s : Stack} (ha : a.Proper) (hh : p.Held k s)
    (hv : a.Valid p) (h : a.Closed p k s) :
    Heights.pass a.body a.graph a.signature p.heights k = .ok p.heights := by
  have hlt : k < a.graph.blockCount := hv.size ▸ hh.lt
  obtain ⟨blk, hblk⟩ := FlowGraph.Refines.exists_block hlt
  obtain ⟨next, hnext, -⟩ := Digraph.successors?_isSome ha.refines.sound hlt
  obtain ⟨t, ht, hsucc⟩ := h blk hblk
  have hd := a.runCode_height s (blk.instructions a.body)
  rw [ht] at hd
  rw [Heights.pass_of_some hh.heights hblk hnext, ← hd]
  refine Heights.spread_of_level fun k' hk' => ?_
  obtain ⟨m, hm, hfits⟩ := hsucc k' ((Digraph.adj_iff_of_successors? hnext k').mpr hk')
  rw [hm.heights, hfits.depth_eq]

/-- whatever would do something is on the list -/
theorem Settled.pending (ha : a.Proper) (hv : a.Valid p) (hs : a.Settled p) {k : Nat}
    (hacts : Heights.pass a.body a.graph a.signature p.heights k ≠ .ok p.heights) :
    a.order.idxOf k ∈ p.pending := by
  cases hk : p.heights k with
  | none => exact absurd (Heights.pass_of_none hk) hacts
  | some d =>
    obtain ⟨s, hh, -⟩ := exists_held hk
    exact (hs k s hh).resolve_right fun hc => hacts (hc.pass ha hh hv)

/-- the block that is taken off the list is the first that does anything, if it does -/
theorem first_of_pending (ha : a.Proper) (hv : a.Valid p) (hs : a.Settled p)
    (hp : p.pending.Pairwise (· < ·)) {r k : Nat} {rest : List Nat} (hcons : p.pending = r :: rest)
    (hk : a.order[r]? = some k)
    (hacts : Heights.pass a.body a.graph a.signature p.heights k ≠ .ok p.heights) :
    Heights.First a.body a.graph a.signature p.heights r k where
  place := ha.ordered ▸ hk
  acts := hacts
  least := by
    intro r' k' hlt hk'
    by_contra hacts'
    have hmem := hs.pending ha hv hacts'
    have hle : a.order.idxOf k' ≤ r' := idxOf_le (ha.ordered ▸ hk')
    rw [hcons] at hp hmem
    rcases List.mem_cons.mp hmem with e | hmem
    · omega
    · have hhead := (List.pairwise_cons.mp hp).1 _ hmem
      omega

/-- a turn of the loop is a visit, and is seen as one -/
theorem turn_seen (ha : a.Proper) (hv : a.Valid p) {result : Except Failure Progress}
    (h : a.turn? p = some result) :
    ∃ r rest k, p.pending = r :: rest ∧ a.order[r]? = some k ∧
      a.visit r { p with pending := rest, visits := p.visits + 1 } = result ∧
        seen result = Heights.pass a.body a.graph a.signature p.heights k := by
  cases hc : p.pending with
  | nil =>
    rw [turn?_of_nil hc] at h
    cases h
  | cons r rest =>
    rw [turn?_of_cons hc] at h
    have hvisit := Option.some.inj h
    have hr : r < a.order.length := hv.scheduled r (hc ▸ List.mem_cons_self)
    have hk : a.order[r]? = some a.order[r] := List.getElem?_eq_getElem hr
    refine ⟨r, rest, a.order[r], rfl, hk, hvisit, ?_⟩
    rw [← hvisit]
    exact visit_seen ha (hv.pop hc (p.visits + 1)) hk

/-- **The loop runs the course that is seen**, whatever the hierarchy. -/
theorem Loop.ends {n : Nat} {result : Except Failure Progress} (h : a.Loop p n result)
    (ha : a.Proper) (hv : a.Valid p) (hs : a.Settled p) (hp : p.pending.Pairwise (· < ·)) :
    Heights.Ends a.body a.graph a.signature p.heights (seen result) := by
  induction h with
  | @idle p hturn =>
    refine .level fun k _ => ?_
    by_contra hacts
    have hmem := hs.pending ha hv hacts
    cases hc : p.pending with
    | nil =>
      rw [hc] at hmem
      cases hmem
    | cons r rest =>
      rw [turn?_of_cons hc] at hturn
      cases hturn
  | @failed p f hturn =>
    obtain ⟨r, rest, k, hc, hk, -, hseen⟩ := turn_seen ha hv hturn
    refine .failed (first_of_pending ha hv hs hp hc hk fun e => ?_) hseen.symm
    rw [e] at hseen
    cases hseen
  | @turn p q n result hturn _ ih =>
    obtain ⟨r, rest, k, hc, hk, hvisit, hseen⟩ := turn_seen ha hv hturn
    have hr : r < a.order.length := (List.getElem?_eq_some_iff.mp hk).1
    obtain ⟨hvq, hsq⟩ :=
      visit_ok ha (hv.pop hc (p.visits + 1)) hr (hs.pop hv hc (p.visits + 1)) hvisit
    have hpq : q.pending.Pairwise (· < ·) := by
      rw [hc] at hp
      exact pairwise_visit (List.pairwise_cons.mp hp).2 hvisit
    have hends := ih hvq hsq hpq
    by_cases hacts : Heights.pass a.body a.graph a.signature p.heights k = .ok p.heights
    · -- the visit goes unseen
      have e : q.heights = p.heights := Except.ok.inj (hseen.trans hacts)
      rw [← e]
      exact hends
    · exact .turn (first_of_pending ha hv hs hp hc hk hacts) hseen.symm hends

/-- the search, seen as a whole -/
theorem solve_ends (ha : a.Proper) :
    Heights.Ends a.body a.graph a.signature a.initial.heights (seen a.solve) := by
  obtain ⟨n, -, hloop⟩ := loop_solve ha
  obtain ⟨hv, hs⟩ := initial_ok ha
  exact hloop.ends ha hv hs (List.pairwise_singleton _ _)

end Analysis

end CilPatch
