import Mathlib.Algebra.BigOperators.Group.List.Basic
import CilPatch.Proofs.Graph.Insertion

/-!
# The stack does what recursion would do

`search` is the depth-first search as it is defined by recursion.  `visit`, which keeps the nodes to
enter on a stack, finishes the same nodes in the same order (`visit_enters`), so that what is true
of the order can be read off the recursion (`search_before`): what a node leads to is finished
before it, unless it leads back.

A node can wait on the stack several times, and counts when it is taken off the first time.  Still
every turn of the loop is paid for by a node or an edge (`Turns`, `exists_turns`).
-/

namespace CilPatch.Digraph

theorem length_erase_lt {fresh : List Nat} {v : Nat} (h : v ∈ fresh) :
    (fresh.erase v).length < fresh.length := by
  rw [List.length_erase_of_mem h]
  exact Nat.sub_lt (List.length_pos_of_mem h) Nat.one_pos

/-- search from the nodes `vs`, one after the other; a node that is still fresh comes behind all
that is found below it, and what is found is no longer fresh for the nodes that come later -/
def search (next : Nat → List Nat) (fresh : List Nat) : List Nat → List Nat
  | [] => []
  | v :: vs =>
    if v ∈ fresh then
      let below := search next (fresh.erase v) (next v)
      below ++ v :: search next ((fresh.erase v).filter (· ∉ below)) vs
    else search next fresh vs
termination_by vs => (fresh.length, vs.length)
decreasing_by
  · exact Prod.Lex.left _ _ (length_erase_lt ‹_›)
  · exact Prod.Lex.left _ _ (Nat.lt_of_le_of_lt (List.length_filter_le _ _) (length_erase_lt ‹_›))
  · exact Prod.Lex.right _ (Nat.lt_succ_self _)

section
variable {next : Nat → List Nat} {fresh vs : List Nat}

theorem search_of_mem {v : Nat} (h : v ∈ fresh) (vs : List Nat) :
    search next fresh (v :: vs) =
      search next (fresh.erase v) (next v) ++
        v :: search next
          ((fresh.erase v).filter (· ∉ search next (fresh.erase v) (next v))) vs := by
  rw [search, if_pos h]

theorem search_nil (next : Nat → List Nat) (fresh : List Nat) : search next fresh [] = [] := by
  rw [search]

/-! ## what is found -/

theorem mem_fresh_of_mem_search : ∀ u ∈ search next fresh vs, u ∈ fresh := by
  fun_induction search next fresh vs with
  | case1 fresh => exact fun u hu => absurd hu List.not_mem_nil
  | case2 fresh v vs hv below ihbelow ih =>
    intro u hu
    rcases List.mem_append.mp hu with hu | hu
    · exact List.mem_of_mem_erase (ihbelow u hu)
    · rcases List.mem_cons.mp hu with rfl | hu
      · exact hv
      · exact List.mem_of_mem_erase (List.mem_filter.mp (ih u hu)).1
  | case3 fresh v vs hv ih => exact ih

theorem nodup_search (h : fresh.Nodup) : (search next fresh vs).Nodup := by
  fun_induction search next fresh vs with
  | case1 fresh => exact List.nodup_nil
  | case2 fresh v vs hv below ihbelow ih =>
    have herase : (fresh.erase v).Nodup := h.erase v
    have hbelow : ∀ u ∈ below, u ∈ fresh.erase v := mem_fresh_of_mem_search
    have hrest : ∀ u ∈ search next ((fresh.erase v).filter (· ∉ below)) vs,
        u ∈ fresh.erase v ∧ u ∉ below := by
      intro u hu
      obtain ⟨hmem, hnot⟩ := List.mem_filter.mp (mem_fresh_of_mem_search u hu)
      exact ⟨hmem, of_decide_eq_true hnot⟩
    refine List.nodup_append'.mpr ⟨ihbelow herase, List.nodup_cons.mpr ⟨?_, ?_⟩, ?_⟩
    · exact fun hv' => h.not_mem_erase (hrest v hv').1
    · exact ih (herase.filter _)
    · intro u hu hu'
      rcases List.mem_cons.mp hu' with rfl | hu'
      · exact h.not_mem_erase (hbelow u hu)
      · exact (hrest u hu').2 hu
  | case3 fresh v vs hv ih => exact ih h

theorem mem_search_of_mem {v : Nat} (hv : v ∈ vs) (hf : v ∈ fresh) :
    v ∈ search next fresh vs := by
  fun_induction search next fresh vs with
  | case1 fresh => cases hv
  | case2 fresh u vs hu below ihbelow ih =>
    by_cases e : v = u
    · rw [e]
      exact List.mem_append_right _ List.mem_cons_self
    · by_cases hmem : v ∈ below
      · exact List.mem_append_left _ hmem
      · have hv' : v ∈ vs := (List.mem_cons.mp hv).resolve_left e
        have hf' : v ∈ (fresh.erase u).filter (· ∉ below) :=
          List.mem_filter.mpr ⟨(List.mem_erase_of_ne e).mpr hf, decide_eq_true hmem⟩
        exact List.mem_append_right _ (List.mem_cons_of_mem _ (ih hv' hf'))
  | case3 fresh u vs hu ih =>
    rcases List.mem_cons.mp hv with rfl | hv
    · exact absurd hf hu
    · exact ih hv hf

/-- what is found is found from one of the nodes that are searched -/
theorem exists_of_mem_search :
    ∀ u ∈ search next fresh vs,
      ∃ v ∈ vs, Relation.ReflTransGen (fun a b => b ∈ next a) v u := by
  fun_induction search next fresh vs with
  | case1 fresh => exact fun u hu => absurd hu List.not_mem_nil
  | case2 fresh v vs hv below ihbelow ih =>
    intro u hu
    rcases List.mem_append.mp hu with hu | hu
    · obtain ⟨w, hw, hpath⟩ := ihbelow u hu
      exact ⟨v, List.mem_cons_self, .head hw hpath⟩
    · rcases List.mem_cons.mp hu with rfl | hu
      · exact ⟨u, List.mem_cons_self, .refl⟩
      · obtain ⟨w, hw, hpath⟩ := ih u hu
        exact ⟨w, List.mem_cons_of_mem _ hw, hpath⟩
  | case3 fresh v vs hv ih =>
    intro u hu
    obtain ⟨w, hw, hpath⟩ := ih u hu
    exact ⟨w, List.mem_cons_of_mem _ hw, hpath⟩

/-! ## the order -/

theorem pair_sublist_append {w u : Nat} {xs ys : List Nat} (hw : w ∈ xs) (hu : u ∈ ys) :
    [w, u].Sublist (xs ++ ys) :=
  (List.singleton_sublist.mpr hw).append (List.singleton_sublist.mpr hu)

/-- **What a node leads to is found before it**, unless it leads back to the node. -/
theorem search_before :
    ∀ u ∈ search next fresh vs, ∀ w ∈ next u, w ∈ fresh →
      [w, u].Sublist (search next fresh vs) ∨
        Relation.ReflTransGen (fun a b => b ∈ next a) w u := by
  fun_induction search next fresh vs with
  | case1 fresh => exact fun u hu => absurd hu List.not_mem_nil
  | case2 fresh v vs hv below ihbelow ih =>
    intro u hu w hw hf
    rcases List.mem_append.mp hu with hu | hu
    · -- `u` is found below `v`
      by_cases e : w = v
      · obtain ⟨w', hw', hpath⟩ := exists_of_mem_search u hu
        exact .inr (e ▸ .head hw' hpath)
      · refine (ihbelow u hu w hw ((List.mem_erase_of_ne e).mpr hf)).imp_left fun hsub => ?_
        exact hsub.trans (List.sublist_append_left _ _)
    · by_cases hmem : w ∈ below
      · exact .inl (pair_sublist_append hmem hu)
      · by_cases e : w = v
        · rcases List.mem_cons.mp hu with rfl | hu
          · exact .inr (e ▸ .refl)
          · have hhead := pair_sublist_append (List.mem_singleton_self v) hu
            exact .inl (e ▸ hhead.trans (List.sublist_append_right below _))
        · have hf' : w ∈ fresh.erase v := (List.mem_erase_of_ne e).mpr hf
          rcases List.mem_cons.mp hu with rfl | hu
          · exact absurd (mem_search_of_mem hw hf') hmem
          · have hf'' : w ∈ (fresh.erase v).filter (· ∉ below) :=
              List.mem_filter.mpr ⟨hf', decide_eq_true hmem⟩
            refine (ih u hu w hw hf'').imp_left fun hsub => ?_
            exact (hsub.cons v).trans (List.sublist_append_right below _)
  | case3 fresh v vs hv ih => exact ih

/-! ## the stack -/

/-- what is fresh behind two searches in a row -/
theorem filter_filter_erase (h : fresh.Nodup) (v : Nat) (below rest : List Nat) :
    ((fresh.erase v).filter (· ∉ below)).filter (· ∉ rest) =
      fresh.filter (· ∉ below ++ v :: rest) := by
  rw [List.filter_filter, h.erase_eq_filter, List.filter_filter]
  refine List.filter_congr fun u _ => Bool.eq_iff_iff.mpr ?_
  simp
  tauto

/-- **Nodes that wait on top of the stack are gone through as by recursion.**  Those of them that
are not fresh may be missing, as `p` says. -/
theorem visit_enters (h : fresh.Nodup) {p : Nat → Bool} (hp : ∀ v ∈ fresh, p v = true)
    (rest : List Visit) (done : List Nat) :
    visit next fresh ((vs.filter p).map .enter ++ rest) done =
      visit next (fresh.filter (· ∉ search next fresh vs)) rest
        ((search next fresh vs).reverse ++ done) := by
  fun_induction search next fresh vs generalizing p rest done with
  | case1 fresh =>
    have hall : fresh.filter (· ∉ ([] : List Nat)) = fresh :=
      List.filter_eq_self.mpr fun u _ => decide_eq_true List.not_mem_nil
    rw [hall]
    rfl
  | case2 fresh v vs hv below ihbelow ih =>
    have herase : (fresh.erase v).Nodup := h.erase v
    have hstill : ∀ u ∈ (fresh.erase v).filter (· ∉ below), p u = true := fun u hu =>
      hp u (List.mem_of_mem_erase (List.mem_filter.mp hu).1)
    rw [List.filter_cons_of_pos (hp v hv), List.map_cons, List.cons_append, visit_enter_of_mem hv,
      ihbelow herase (fun u hu => List.contains_iff_mem.mpr hu), visit_finish]
    show visit next ((fresh.erase v).filter (· ∉ below)) _ (v :: (below.reverse ++ done)) = _
    rw [ih (herase.filter _) hstill, filter_filter_erase h, List.reverse_append,
      List.reverse_cons, List.append_assoc, List.append_assoc]
    rfl
  | case3 fresh v vs hv ih =>
    by_cases hpv : p v = true
    · rw [List.filter_cons_of_pos hpv, List.map_cons, List.cons_append,
        visit_enter_of_not_mem hv, ih h hp]
    · rw [List.filter_cons_of_neg hpv, ih h hp]

/-! ## the number of turns -/

/-- the loop of the search, begun like this, stops after `n` turns with the list `found` -/
inductive Turns (next : Nat → List Nat) :
    List Nat → List Visit → List Nat → Nat → List Nat → Prop where
  | stop {fresh done : List Nat} : Turns next fresh [] done 0 done
  | finish {fresh done found : List Nat} {v n : Nat} {rest : List Visit} :
      Turns next fresh rest (v :: done) n found →
        Turns next fresh (.finish v :: rest) done (n + 1) found
  | enter {fresh done found : List Nat} {v n : Nat} {rest : List Visit} : v ∈ fresh →
      Turns next (fresh.erase v)
        (((next v).filter (fresh.erase v).contains).map .enter ++ .finish v :: rest) done n found →
        Turns next fresh (.enter v :: rest) done (n + 1) found
  | skip {fresh done found : List Nat} {v n : Nat} {rest : List Visit} : v ∉ fresh →
      Turns next fresh rest done n found → Turns next fresh (.enter v :: rest) done (n + 1) found

theorem load_eq (next : Nat → List Nat) (fresh : List Nat) :
    load next fresh = (fresh.map fun v => (next v).length + 1).sum := by
  induction fresh with
  | nil => rfl
  | cons v fresh ih => rw [load, ih, List.map_cons, List.sum_cons]

/-- every turn takes a note off the stack, and no more come onto it than the load allows -/
theorem exists_turns (next : Nat → List Nat) (fresh : List Nat) (stack : List Visit)
    (done : List Nat) :
    ∃ n ≤ stack.length + load next fresh,
      Turns next fresh stack done n (visit next fresh stack done) := by
  fun_induction visit next fresh stack done with
  | case1 fresh done => exact ⟨0, Nat.zero_le _, .stop⟩
  | case2 fresh done v rest ih =>
    obtain ⟨n, hn, hturns⟩ := ih
    refine ⟨n + 1, ?_, .finish hturns⟩
    rw [List.length_cons]
    omega
  | case3 fresh done v rest hv ih =>
    obtain ⟨n, hn, hturns⟩ := ih
    refine ⟨n + 1, ?_, .enter hv hturns⟩
    have hfilter := List.length_filter_le (fresh.erase v).contains (next v)
    rw [List.length_append, List.length_map, List.length_cons] at hn
    rw [List.length_cons, load_erase hv]
    omega
  | case4 fresh done v rest hv ih =>
    obtain ⟨n, hn, hturns⟩ := ih
    refine ⟨n + 1, ?_, .skip hv hturns⟩
    rw [List.length_cons]
    omega

end

/-! ## the orders of a graph -/

variable {ν ε : Type} {g : Digraph ν ε} {start : Nat}

theorem postorder_eq_search (g : Digraph ν ε) (start : Nat) :
    g.postorder start =
      search (fun v => (g.successors? v).getD []) (List.range g.nodeCount) [start] := by
  have hvisit : ∀ next, visit next (List.range g.nodeCount) [.enter start] [] =
      (search next (List.range g.nodeCount) [start]).reverse := by
    intro next
    show visit next _ (([start].filter fun _ => true).map .enter ++ []) [] = _
    rw [visit_enters List.nodup_range fun _ _ => rfl, visit_nil, List.append_nil]
  unfold postorder reversePostorder
  rw [hvisit, List.reverse_reverse]

theorem nodup_postorder (g : Digraph ν ε) (start : Nat) : (g.postorder start).Nodup := by
  rw [postorder_eq_search]
  exact nodup_search List.nodup_range

theorem getLast?_postorder (hs : start < g.nodeCount) :
    (g.postorder start).getLast? = some start := by
  rw [postorder_eq_search, search_of_mem (List.mem_range.mpr hs), search_nil]
  exact List.getLast?_concat

theorem mem_postorder_iff (hg : g.Sound) (hs : start < g.nodeCount) {v : Nat} :
    v ∈ g.postorder start ↔ g.Reachable start v :=
  List.mem_reverse.trans (mem_reversePostorder_iff hg hs)

theorem postorder_before (hg : g.Sound) (hs : start < g.nodeCount) {u w : Nat}
    (hu : g.Reachable start u) (h : g.Adj u w) :
    [w, u].Sublist (g.postorder start) ∨ g.Reachable w u := by
  have hmem : u ∈ g.postorder start := (mem_postorder_iff hg hs).mpr hu
  rw [postorder_eq_search] at hmem ⊢
  refine (search_before u hmem w (mem_getD_successors?.mpr h)
    (List.mem_range.mpr (h.lt_right hg))).imp_right fun hpath => ?_
  exact Relation.ReflTransGen.mono (fun _ _ => mem_getD_successors?.mp) _ _ hpath

/-- an edge that closes no circle goes forward in the reverse postorder -/
theorem reversePostorder_forward (hg : g.Sound) (hs : start < g.nodeCount) {u w : Nat}
    (hu : g.Reachable start u) (h : g.Adj u w) (hback : ¬g.Reachable w u) :
    [u, w].Sublist (g.reversePostorder start) := by
  have hsub := ((postorder_before hg hs hu h).resolve_right hback).reverse
  unfold postorder at hsub
  rw [List.reverse_reverse] at hsub
  exact hsub

/-- **The depth-first orders.**  The search from a node of a graph stops, after no more turns than
the graph has nodes and edges and one.  Then it has found the nodes that are reached from the start,
each once and the start last, in the order in which the search by recursion is done with them, that
takes the edges of a node in the order in which they were added.  Of the two ends of an edge that is
reached the second is found before the first, unless it leads back to the first; so an edge that
closes no circle goes forward in the reverse order. -/
theorem postorder_depthFirst (hg : g.Built) (hs : start < g.nodeCount) :
    (∃ n ≤ 1 + g.nodeCount + g.edgeCount,
        Turns g.heads (List.range g.nodeCount) [.enter start] [] n (g.reversePostorder start)) ∧
      g.postorder start = search g.heads (List.range g.nodeCount) [start] ∧
      (∀ v, v ∈ g.postorder start ↔ g.Reachable start v) ∧
      (g.postorder start).Nodup ∧ (g.postorder start).getLast? = some start ∧
      (∀ e edge, g.edge? e = some edge → g.Reachable start edge.source →
        [edge.target, edge.source].Sublist (g.postorder start) ∨
          g.Reachable edge.target edge.source) ∧
      ∀ e edge, g.edge? e = some edge → g.Reachable start edge.source →
        ¬g.Reachable edge.target edge.source →
          [edge.source, edge.target].Sublist (g.reversePostorder start) := by
  have hnext : (fun v => (g.successors? v).getD []) = g.heads := funext hg.getD_successors?
  have hadj : ∀ e edge, g.edge? e = some edge → g.Adj edge.source edge.target :=
    fun e edge he => hg.adj_iff.mpr ⟨e, edge, he, rfl, rfl⟩
  refine ⟨?_, ?_, fun v => mem_postorder_iff hg.sound hs, nodup_postorder g start,
    getLast?_postorder hs, ?_, ?_⟩
  · obtain ⟨n, hn, hturns⟩ := exists_turns g.heads (List.range g.nodeCount) [.enter start] []
    refine ⟨n, ?_, ?_⟩
    · have hload : load g.heads (List.range g.nodeCount) = g.edgeCount + g.nodeCount := by
        rw [load_eq, List.sum_map_add, hg.sum_length_heads]
        simp
      rw [hload, List.length_singleton] at hn
      omega
    · unfold reversePostorder
      rw [hnext]
      exact hturns
  · rw [postorder_eq_search, hnext]
  · exact fun e edge he hu => postorder_before hg.sound hs hu (hadj e edge he)
  · exact fun e edge he hu => reversePostorder_forward hg.sound hs hu (hadj e edge he)

/-- parallel edges, a loop at one node, a circle through three and a node that is not reached -/
def tangle : Digraph Unit Unit := ofAdditions
  [.node (), .node (), .node (), .node (), .node (),
   .edge 0 2 (), .edge 0 1 (), .edge 0 1 (), .edge 1 1 (), .edge 1 3 (), .edge 3 0 (),
   .edge 2 3 (), .edge 4 0 (), .edge 0 9 ()]

theorem postorder_depthFirst_tangle :
    tangle.Built ∧ 0 < tangle.nodeCount ∧ tangle.postorder 0 = [3, 2, 1, 0] ∧
      tangle.postorder 0 = search tangle.heads (List.range 5) [0] ∧
      ([3, 1].Sublist (tangle.postorder 0) ∨ tangle.Reachable 3 1) ∧
      ([0, 3].Sublist (tangle.postorder 0) ∨ tangle.Reachable 0 3) := by
  have hb : tangle.Built := built_ofAdditions _
  have hs : 0 < tangle.nodeCount := by decide
  have horder : tangle.postorder 0 = [3, 2, 1, 0] := by decide +kernel
  obtain ⟨-, hsearch, hmem, -, -, hbefore, -⟩ := postorder_depthFirst hb hs
  have hreach : ∀ v ∈ [3, 2, 1, 0], tangle.Reachable 0 v := fun v hv =>
    (hmem v).mp (horder ▸ hv)
  exact ⟨hb, hs, horder, hsearch, hbefore 4 ⟨1, 3, ()⟩ rfl (hreach 1 (by decide)),
    hbefore 5 ⟨3, 0, ()⟩ rfl (hreach 3 (by decide))⟩

end CilPatch.Digraph
