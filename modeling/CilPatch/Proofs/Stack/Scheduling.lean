import Mathlib.Data.Set.Card
import CilPatch.Proofs.Graph.Search
import CilPatch.Proofs.Stack.Hierarchies
import CilPatch.Proofs.Stack.Turns

/-!
# How often blocks are run

Every block that control comes to is run at least once.  Where no circle of edges is reached from
the entry, the blocks are run in the order of the graph, each of them once
(`Visits.eq_order`): an edge leads to a later place there, so that when the blocks before a place
have been run, all that can arrive at the block of the place has arrived (`Front`).
-/

namespace CilPatch

/-- no circle of edges is reached from the entry -/
def FlowGraph.LoopFree (g : FlowGraph) : Prop :=
  ∀ k, g.graph.Reachable g.entry k → ¬Relation.TransGen g.graph.Adj k k

namespace FlowGraph

variable {g : FlowGraph} {b : Body}

theorem nodup_order (g : FlowGraph) : g.order.Nodup :=
  List.nodup_reverse.mp (g.graph.nodup_postorder g.entry)

theorem Refines.entry_lt (hg : g.Refines b) : g.entry < g.graph.nodeCount :=
  hg.lt_of_mem_order hg.entry_mem_order

/-- without circles every edge goes forward in the order -/
theorem LoopFree.sublist_order (hfree : g.LoopFree) (hg : g.Refines b) {j k : Nat}
    (hj : g.graph.Reachable g.entry j) (h : g.graph.Adj j k) : [j, k].Sublist g.order := by
  refine Digraph.reversePostorder_forward hg.sound hg.entry_lt hj h fun hback => ?_
  exact hfree j hj (Relation.TransGen.head' h hback)

theorem LoopFree.idxOf_lt (hfree : g.LoopFree) (hg : g.Refines b) {j k : Nat} (hj : j ∈ g.order)
    (h : g.graph.Adj j k) : g.order.idxOf j < g.order.idxOf k := by
  obtain ⟨front, back, horder, hfront, hback⟩ :=
    List.cons_sublist_iff.mp (hfree.sublist_order hg (hg.mem_order_iff.mp hj) h)
  have hk : k ∈ back := List.singleton_sublist.mp hback
  have hdisjoint := horder ▸ g.nodup_order
  rw [horder, List.idxOf_append_of_mem hfront,
    List.idxOf_append_of_notMem fun hk' => List.disjoint_of_nodup_append hdisjoint hk' hk]
  have hlt := List.idxOf_lt_length_of_mem hfront
  omega

/-- the number of blocks that are reached -/
theorem Refines.ncard_reachable (hg : g.Refines b) :
    {k | g.graph.Reachable g.entry k}.ncard = g.order.length := by
  have hset : {k | g.graph.Reachable g.entry k} = (g.order.toFinset : Set Nat) := by
    ext k
    rw [Finset.mem_coe, List.mem_toFinset, hg.mem_order_iff]
    rfl
  rw [hset, Set.ncard_coe_finset, List.toFinset_card_of_nodup g.nodup_order]

end FlowGraph

namespace Analysis

variable {a : Analysis} {p q : Progress}

/-- a block that edges lead to has a start in the end -/
theorem held_of_reachable (hv : a.Valid q) (hc : ∀ k s, q.Held k s → a.Closed q k s) {k : Nat}
    (h : a.graph.graph.Reachable a.graph.entry k) : ∃ s, q.Held k s := by
  induction h with
  | refl => exact ⟨[], hv.entry⟩
  | @tail j k _ hadj ih =>
    obtain ⟨s, hs⟩ := ih
    obtain ⟨blk, hblk⟩ := FlowGraph.Refines.exists_block (hv.size ▸ hs.lt)
    obtain ⟨t, -, hnext⟩ := hc j s hs blk hblk
    obtain ⟨m, hm, -⟩ := hnext k hadj
    exact ⟨m, hm⟩

/-! ## the front -/

/-- the first `n` blocks of the order have been run, and no other ones -/
structure Front (a : Analysis) (n : Nat) (p : Progress) : Prop where
  beyond : ∀ r ∈ p.pending, n ≤ r
  scheduled : ∀ k s, p.Held k s → n ≤ a.order.idxOf k → a.order.idxOf k ∈ p.pending
  found : ∀ j k, j ∈ a.order → a.order.idxOf j < n → a.graph.graph.Adj j k → ∃ s, p.Held k s

theorem front_initial (ha : a.Proper) : a.Front 0 a.initial where
  beyond := fun _ _ => Nat.zero_le _
  scheduled := by
    intro k s hs _
    rw [((held_initial ha).mp hs).1]
    exact List.mem_cons_self
  found := fun _ _ _ hj => absurd hj (Nat.not_lt_zero _)

/-- where there are no circles, the block behind the front is scheduled -/
theorem Front.mem_pending {n : Nat} (hf : a.Front n p) (hp : a.Running p)
    (hfree : a.graph.LoopFree) (hn : n < a.order.length) : n ∈ p.pending := by
  have hg := hp.proper.refines
  have horder := hp.proper.ordered
  have hplace : a.order.idxOf a.order[n] = n :=
    (horder ▸ a.graph.nodup_order : a.order.Nodup).idxOf_getElem n hn
  have hmem : a.order[n] ∈ a.order := List.getElem_mem hn
  generalize a.order[n] = k at hplace hmem
  have hheld : ∃ s, p.Held k s := by
    rcases Relation.ReflTransGen.cases_tail (hg.mem_order_iff.mp (horder ▸ hmem)) with
      rfl | ⟨j, hj, hadj⟩
    · exact ⟨[], hp.valid.entry⟩
    · have hj' : j ∈ a.order := horder ▸ hg.mem_order_iff.mpr hj
      have hlt : a.order.idxOf j < a.order.idxOf k := by
        rw [horder] at hj' ⊢
        exact hfree.idxOf_lt hg hj' hadj
      exact hf.found j k hj' (hplace ▸ hlt) hadj
  obtain ⟨s, hs⟩ := hheld
  have hsched := hf.scheduled k s hs (Nat.le_of_eq hplace.symm)
  rw [hplace] at hsched
  exact hsched

/-- **A turn moves the front by one block.** -/
theorem Front.turn {n : Nat} (hf : a.Front n p) (hp : a.Running p) (hfree : a.graph.LoopFree)
    {k : Nat} {s : Stack} (hdue : a.Due p k s) (hturn : a.turn? p = some (.ok q)) :
    a.order[n]? = some k ∧ a.Front (n + 1) q := by
  have hg := hp.proper.refines
  have horder := hp.proper.ordered
  obtain ⟨r, rest, k', s', t, next, hT, harr⟩ := hp.turn_cases hturn
  have hadj : ∀ c, a.graph.graph.Adj k' c ↔ c ∈ next := Digraph.adj_iff_of_successors? hT.successors
  have hgrows := arriveAll_grows harr
  have hsorted := hp.increasing
  rw [hT.pending] at hsorted
  obtain ⟨hleast, -⟩ := List.pairwise_cons.mp hsorted
  have hr : r < a.order.length := (List.getElem?_eq_some_iff.mp hT.place).1
  have hle : n ≤ r := hf.beyond r (hT.pending ▸ List.mem_cons_self)
  have hmem := hf.mem_pending hp hfree (Nat.lt_of_le_of_lt hle hr)
  have hrn : r = n := by
    rw [hT.pending] at hmem
    rcases List.mem_cons.mp hmem with e | hmem
    · exact e.symm
    · have hlt := hleast n hmem
      omega
  subst hrn
  have hk : k = k' := by
    have hfirst := hdue.first
    rw [hT.pending] at hfirst
    exact Option.some.inj (hfirst.symm.trans hT.place)
  subst hk
  have hplace : a.order.idxOf k = r := by
    obtain ⟨hr', rfl⟩ := List.getElem?_eq_some_iff.mp hT.place
    exact (horder ▸ a.graph.nodup_order : a.order.Nodup).idxOf_getElem r hr'
  refine ⟨hT.place, ?_, ?_, ?_⟩
  · intro r' hr'
    rcases arriveAll_pending harr r' hr' with hold | ⟨c, hc, rfl⟩
    · exact hleast r' hold
    · have hk := hT.mem_order
      rw [horder] at hk
      have hlt := hfree.idxOf_lt hg hk ((hadj c).mpr hc)
      rw [← horder, hplace] at hlt
      exact hlt
  · intro c u hu hc
    rcases hgrows.anew c u hu with hold | hpend
    · have hsched := hf.scheduled c u hold (by omega)
      rw [hT.pending] at hsched
      rcases List.mem_cons.mp hsched with e | hsched
      · omega
      · exact hgrows.pending _ hsched
    · exact hpend
  · intro j c hj hlt hjc
    by_cases e : a.order.idxOf j < r
    · obtain ⟨u, hu⟩ := hf.found j c hj e hjc
      obtain ⟨u', hu', -⟩ := hgrows.up c u hu
      exact ⟨u', hu'⟩
    · have hjk : j = k := by
        have hjr := List.getElem?_idxOf hj
        rw [show a.order.idxOf j = r by omega, hT.place] at hjr
        exact (Option.some.inj hjr).symm
      obtain ⟨m, hm, -⟩ := arriveAll_fits harr ((hadj c).mp (hjk ▸ hjc))
      exact ⟨m, hm⟩

/-- **Without circles the blocks are run in the order of the graph**, each of them once. -/
theorem Visits.eq_drop {n : Nat} {ks : List Nat} (h : a.Visits p ks q) (hf : a.Front n p)
    (hp : a.Running p) (hfree : a.graph.LoopFree) (hdone : q.pending = []) :
    ks = a.order.drop n := by
  induction h generalizing n with
  | idle p =>
    rw [List.drop_eq_nil_of_le]
    by_contra hn
    have hmem := hf.mem_pending hp hfree (Nat.lt_of_not_le hn)
    rw [hdone] at hmem
    cases hmem
  | turn hdue hturn _ ih =>
    obtain ⟨hk, hf'⟩ := hf.turn hp hfree hdue hturn
    obtain ⟨hn, rfl⟩ := List.getElem?_eq_some_iff.mp hk
    rw [ih hf' (hp.turn hturn) hdone, List.drop_eq_getElem_cons hn]

end Analysis

/-- **Blocks are run no more often than they have to be.**  Every block that control comes to is
run, so that a verified body has at least as many visits as it has such blocks.  Where no circle of
edges is reached it has just as many: each block is run once, behind all that lead to it. -/
theorem blocks_run_once {v : Verifier} {b : Body} {prof : Profile}
    (h : v.verify b = .ok (.analyzed prof)) :
    ∃ g q ks, FlowGraph.ofBody b = .ok g ∧
      (Analysis.start b g v.signature v.hierarchy).solve = .ok q ∧
      (Analysis.start b g v.signature v.hierarchy).Visits
        (Analysis.start b g v.signature v.hierarchy).initial ks q ∧
      q.pending = [] ∧ prof.visits = ks.length ∧
      (∀ k, g.graph.Reachable g.entry k → k ∈ ks) ∧
      {k | g.graph.Reachable g.entry k}.ncard ≤ prof.visits ∧
      (g.LoopFree →
        prof.visits = {k | g.graph.Reachable g.entry k}.ncard ∧ ks.Nodup ∧
          (∀ k, k ∈ ks ↔ g.graph.Reachable g.entry k) ∧
          ∀ j k, g.graph.Reachable g.entry j → g.graph.Adj j k → [j, k].Sublist ks) := by
  obtain ⟨g, q, hg, hq, hcount⟩ := Verifier.exists_solve h
  have ha : (Analysis.start b g v.signature v.hierarchy).Proper := ⟨hg, rfl⟩
  have hrefines : g.Refines b := FlowGraph.ofBody_ok hg
  have hrun := Analysis.running_initial ha
  obtain ⟨hvalid, hclosed⟩ := Analysis.closed_of_solve ha hq
  obtain ⟨ks, hvisits, hdone, hlength⟩ := Analysis.exists_visits ha hq
  have hall : ∀ k, g.graph.Reachable g.entry k → k ∈ ks := by
    intro k hk
    obtain ⟨s, hs⟩ := Analysis.held_of_reachable hvalid hclosed hk
    refine (hvisits.covers hrun hdone hs).resolve_right ?_
    rintro ⟨⟨u, hu⟩, hout⟩
    rw [((Analysis.held_initial ha).mp hu).1] at hout
    exact hout List.mem_cons_self
  have hvisited : prof.visits = ks.length := hcount.trans hlength
  refine ⟨g, q, ks, hg, hq, hvisits, hdone, hvisited, hall, ?_, fun hfree => ?_⟩
  · have hsub : g.order ⊆ ks := fun k hk => hall k (hrefines.mem_order_iff.mp hk)
    rw [hrefines.ncard_reachable, hvisited]
    exact (g.nodup_order.subperm hsub).length_le
  · have horder : ks = g.order := hvisits.eq_drop (Analysis.front_initial ha) hrun hfree hdone
    rw [hvisited, hrefines.ncard_reachable, horder]
    exact ⟨rfl, g.nodup_order, fun k => hrefines.mem_order_iff,
      fun j k hj hjk => hfree.sublist_order hrefines hj hjk⟩

/-- a switch that names one place twice, a branch to the instruction behind it, and one place where
all ways meet -/
def nestedJoins : Body := .ofCode
  [{ opcode := .ldcI4, operand := .literal (.int32 1) },
   { opcode := .switch, operand := .switch [⟨0⟩, ⟨1⟩, ⟨0⟩] },
   { opcode := .nop },
   { opcode := .br, operand := .label ⟨1⟩ },
   { opcode := .ldcI4, operand := .literal (.int32 1), labels := [⟨0⟩] },
   { opcode := .brtrue, operand := .label ⟨1⟩ },
   { opcode := .ret, labels := [⟨1⟩] }]

def nestedJoinsProfile : Profile where
  points :=
    [some ⟨[], [.i4]⟩, some ⟨[.i4], []⟩, some ⟨[], []⟩, some ⟨[], []⟩, some ⟨[], [.i4]⟩,
      some ⟨[.i4], []⟩, some ⟨[], []⟩]
  blockCount := 4
  visits := 4

theorem blocks_run_once_nestedJoins :
    ({} : Verifier).verify nestedJoins = .ok (.analyzed nestedJoinsProfile) ∧
      ∃ g, FlowGraph.ofBody nestedJoins = .ok g ∧ g.LoopFree ∧
        {k | g.graph.Reachable g.entry k}.ncard = 4 := by
  have h : ({} : Verifier).verify nestedJoins = .ok (.analyzed nestedJoinsProfile) := by
    decide +kernel
  have hedges : (FlowGraph.ofBody nestedJoins).map
      (fun g => (g.graph.nodeCount, (List.range 4).map g.graph.successors?)) =
        .ok (4, [some [2, 3, 2, 1], some [3], some [3, 3], some []]) := by decide +kernel
  have hup : ∀ j < 4, ∀ k ∈
      ([some [2, 3, 2, 1], some [3], some [3, 3], some []] : List (Option (List Nat)))[j]?.join.getD
        [], j < k := by decide
  obtain ⟨g, q, ks, hg, -, -, -, -, -, -, hfewest⟩ := blocks_run_once h
  rw [hg] at hedges
  obtain ⟨hcount, hsuccessors⟩ := Prod.mk.inj (Except.ok.inj hedges)
  have hforward : ∀ j k, g.graph.Adj j k → j < k := by
    intro j k hjk
    have hj : j < 4 := hcount ▸ hjk.lt_left (FlowGraph.ofBody_ok hg).sound
    refine hup j hj k ?_
    rw [← hsuccessors, List.getElem?_map, List.getElem?_range hj]
    exact Digraph.mem_getD_successors?.mpr hjk
  have hfree : g.LoopFree := by
    intro k _ hcircle
    have hlt : ∀ j, Relation.TransGen g.graph.Adj k j → k < j := by
      intro j hj
      induction hj with
      | single hjk => exact hforward _ _ hjk
      | tail _ hjk ih => exact Nat.lt_trans ih (hforward _ _ hjk)
    exact Nat.lt_irrefl k (hlt k hcircle)
  exact ⟨h, g, hg, hfree, (hfewest hfree).1.symm⟩

end CilPatch
