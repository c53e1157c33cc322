import CilPatch.Graph.DepthFirst
import CilPatch.Proofs.Graph.Adjacency

/-!
# The depth-first search finds what is reachable

`mem_reversePostorder_iff` says that the search lists exactly the nodes to which edges lead from
its start.  One half is an invariant of every step (`reachable_of_mem_visit`): whatever is noted on
the stack is reachable.  For the other half `Searching` holds throughout: a node that is no longer
fresh is finished or will be, and whatever lies behind it is no longer fresh or waits on the stack.
With an empty stack the finished nodes are closed under edges.
-/

namespace CilPatch.Digraph

variable {next : Nat → List Nat} {all fresh : List Nat} {stack : List Visit} {done : List Nat}

/-- `v` is noted on the stack, or finished -/
def Noted (stack : List Visit) (done : List Nat) (v : Nat) : Prop :=
  .enter v ∈ stack ∨ .finish v ∈ stack ∨ v ∈ done

theorem mem_enters {ws : List Nat} {w : Nat} :
    Visit.enter w ∈ ws.map Visit.enter ↔ w ∈ ws := by
  simp

theorem finish_not_mem_enters (ws : List Nat) (v : Nat) :
    Visit.finish v ∉ ws.map Visit.enter := by
  simp

/-- a property that holds of all noted nodes and goes along edges holds of what is found -/
theorem of_mem_visit {P : Nat → Prop} (hnext : ∀ v w, P v → w ∈ next v → P w)
    (h : ∀ v, Noted stack done v → P v) :
    ∀ v ∈ visit next fresh stack done, P v := by
  fun_induction visit next fresh stack done with
  | case1 fresh done => exact fun v hv => h v (.inr (.inr hv))
  | case2 fresh done v rest ih =>
    refine ih fun w hw => h w ?_
    rcases hw with hw | hw | hw
    · exact .inl (List.mem_cons_of_mem _ hw)
    · exact .inr (.inl (List.mem_cons_of_mem _ hw))
    · rcases List.mem_cons.mp hw with rfl | hw
      · exact .inr (.inl List.mem_cons_self)
      · exact .inr (.inr hw)
  | case3 fresh done v rest hv ih =>
    have hPv : P v := h v (.inl List.mem_cons_self)
    refine ih fun w hw => ?_
    rcases hw with hw | hw | hw
    · rcases List.mem_append.mp hw with hw | hw
      · exact hnext v w hPv (List.mem_filter.mp (mem_enters.mp hw)).1
      · rcases List.mem_cons.mp hw with hw | hw
        · cases hw
        · exact h w (.inl (List.mem_cons_of_mem _ hw))
    · rcases List.mem_append.mp hw with hw | hw
      · exact absurd hw (finish_not_mem_enters _ _)
      · rcases List.mem_cons.mp hw with hw | hw
        · cases hw
          exact hPv
        · exact h w (.inr (.inl (List.mem_cons_of_mem _ hw)))
    · exact h w (.inr (.inr hw))
  | case4 fresh done v rest hv ih =>
    refine ih fun w hw => h w ?_
    rcases hw with hw | hw
    · exact .inl (List.mem_cons_of_mem _ hw)
    · exact .inr (hw.imp_left (List.mem_cons_of_mem _))

/-- what holds while the nodes `all` are searched -/
structure Searching (next : Nat → List Nat) (all fresh : List Nat) (stack : List Visit)
    (done : List Nat) : Prop where
  nodup : fresh.Nodup
  entered : ∀ v ∈ all, v ∉ fresh → v ∈ done ∨ .finish v ∈ stack
  used : ∀ v, v ∈ done ∨ .finish v ∈ stack → v ∉ fresh
  waiting : ∀ v ∈ all, v ∉ fresh → ∀ w ∈ next v, w ∈ fresh → .enter w ∈ stack

theorem Searching.finish {v : Nat} {rest : List Visit}
    (h : Searching next all fresh (.finish v :: rest) done) :
    Searching next all fresh rest (v :: done) where
  nodup := h.nodup
  entered := by
    intro w hw hn
    rcases h.entered w hw hn with hd | hs
    · exact .inl (List.mem_cons_of_mem _ hd)
    · rcases List.mem_cons.mp hs with e | hs
      · cases e
        exact .inl List.mem_cons_self
      · exact .inr hs
  used := by
    intro w hw
    refine h.used w ?_
    rcases hw with hw | hw
    · rcases List.mem_cons.mp hw with rfl | hw
      · exact .inr List.mem_cons_self
      · exact .inl hw
    · exact .inr (List.mem_cons_of_mem _ hw)
  waiting := by
    intro u hu hn w hw hf
    rcases List.mem_cons.mp (h.waiting u hu hn w hw hf) with e | hs
    · cases e
    · exact hs

theorem Searching.enter {v : Nat} {rest : List Visit}
    (h : Searching next all fresh (.enter v :: rest) done) :
    Searching next all (fresh.erase v)
      (((next v).filter (fresh.erase v).contains).map .enter ++ .finish v :: rest) done where
  nodup := h.nodup.erase v
  entered := by
    intro w hw hn
    by_cases e : w = v
    · rw [e]
      exact .inr (List.mem_append_right _ List.mem_cons_self)
    · have hw' : w ∉ fresh := fun hf => hn ((List.mem_erase_of_ne e).mpr hf)
      rcases h.entered w hw hw' with hd | hs
      · exact .inl hd
      · rcases List.mem_cons.mp hs with e' | hs
        · cases e'
        · exact .inr (List.mem_append_right _ (List.mem_cons_of_mem _ hs))
  used := by
    intro w hw hf
    rcases hw with hw | hw
    · exact h.used w (.inl hw) (List.mem_of_mem_erase hf)
    · rcases List.mem_append.mp hw with hw | hw
      · exact finish_not_mem_enters _ _ hw
      · rcases List.mem_cons.mp hw with e | hw
        · cases e
          exact h.nodup.not_mem_erase hf
        · exact h.used w (.inr (List.mem_cons_of_mem _ hw)) (List.mem_of_mem_erase hf)
  waiting := by
    intro u hu hn w hw hf
    refine List.mem_append.mpr ?_
    by_cases e : u = v
    · rw [e] at hw
      exact .inl (mem_enters.mpr (List.mem_filter.mpr ⟨hw, List.contains_iff_mem.mpr hf⟩))
    · have hu' : u ∉ fresh := fun hf' => hn ((List.mem_erase_of_ne e).mpr hf')
      rcases List.mem_cons.mp (h.waiting u hu hu' w hw (List.mem_of_mem_erase hf)) with e' | hs
      · cases e'
        exact absurd hf h.nodup.not_mem_erase
      · exact .inr (List.mem_cons_of_mem _ hs)

theorem Searching.skip {v : Nat} {rest : List Visit}
    (h : Searching next all fresh (.enter v :: rest) done) (hv : v ∉ fresh) :
    Searching next all fresh rest done where
  nodup := h.nodup
  entered := by
    intro w hw hn
    rcases h.entered w hw hn with hd | hs
    · exact .inl hd
    · rcases List.mem_cons.mp hs with e | hs
      · cases e
      · exact .inr hs
  used := fun w hw => h.used w (hw.imp_right (List.mem_cons_of_mem _))
  waiting := by
    intro u hu hn w hw hf
    rcases List.mem_cons.mp (h.waiting u hu hn w hw hf) with e | hs
    · cases e
      exact absurd hf hv
    · exact hs

/-- what is entered or waits is found, and what is found is closed under edges -/
theorem visit_closed (h : Searching next all fresh stack done) :
    (∀ v ∈ all, v ∉ fresh ∨ .enter v ∈ stack → v ∈ visit next fresh stack done) ∧
      ∀ v ∈ all, v ∈ visit next fresh stack done →
        ∀ w ∈ all, w ∈ next v → w ∈ visit next fresh stack done := by
  fun_induction visit next fresh stack done with
  | case1 fresh done =>
    have hdone : ∀ v ∈ all, v ∉ fresh → v ∈ done := by
      intro v hv hn
      rcases h.entered v hv hn with hd | hs
      · exact hd
      · cases hs
    refine ⟨fun v hv hn => ?_, fun v hv hd w hw hvw => ?_⟩
    · rcases hn with hn | hs
      · exact hdone v hv hn
      · cases hs
    · refine hdone w hw fun hf => ?_
      cases h.waiting v hv (h.used v (.inl hd)) w hvw hf
  | case2 fresh done v rest ih =>
    obtain ⟨hfound, hclosed⟩ := ih h.finish
    refine ⟨fun w hw hn => hfound w hw ?_, hclosed⟩
    rcases hn with hn | hs
    · exact .inl hn
    · rcases List.mem_cons.mp hs with e | hs
      · cases e
      · exact .inr hs
  | case3 fresh done v rest hv ih =>
    obtain ⟨hfound, hclosed⟩ := ih h.enter
    refine ⟨fun w hw hn => hfound w hw ?_, hclosed⟩
    by_cases e : w = v
    · rw [e]
      exact .inl h.nodup.not_mem_erase
    · rcases hn with hn | hs
      · exact .inl fun hf => hn (List.mem_of_mem_erase hf)
      · rcases List.mem_cons.mp hs with e' | hs
        · cases e'
          exact absurd rfl e
        · exact .inr (List.mem_append_right _ (List.mem_cons_of_mem _ hs))
  | case4 fresh done v rest hv ih =>
    obtain ⟨hfound, hclosed⟩ := ih (h.skip hv)
    refine ⟨fun w hw hn => hfound w hw ?_, hclosed⟩
    rcases hn with hn | hs
    · exact .inl hn
    · rcases List.mem_cons.mp hs with e | hs
      · cases e
        exact .inl hv
      · exact .inr hs

/-! ## the search of a graph -/

variable {ν ε : Type}

/-- edges lead from `v` to `w`, no edge at all if they are the same -/
def Reachable (g : Digraph ν ε) (v w : Nat) : Prop := Relation.ReflTransGen g.Adj v w

theorem mem_getD_successors? {g : Digraph ν ε} {v w : Nat} :
    w ∈ (g.successors? v).getD [] ↔ g.Adj v w := by
  cases h : g.successors? v with
  | none =>
    constructor
    · intro hw
      cases hw
    · rintro ⟨ws, hws, -⟩
      rw [h] at hws
      cases hws
  | some ws => exact (adj_iff_of_successors? h w).symm

/-- **The search lists what is reachable from its start.** -/
theorem mem_reversePostorder_iff {g : Digraph ν ε} (hg : g.Sound) {start : Nat}
    (hs : start < g.nodeCount) {v : Nat} :
    v ∈ g.reversePostorder start ↔ g.Reachable start v := by
  have hsearch : Searching (fun v => (g.successors? v).getD []) (List.range g.nodeCount)
      (List.range g.nodeCount) [.enter start] [] := by
    refine ⟨List.nodup_range, fun v hv hn => absurd hv hn, fun v hv => ?_,
      fun v hv hn => absurd hv hn⟩
    rcases hv with hv | hv
    · cases hv
    · simp at hv
  obtain ⟨hfound, hclosed⟩ := visit_closed hsearch
  unfold reversePostorder
  constructor
  · refine fun hv => of_mem_visit (P := g.Reachable start) ?_ ?_ v hv
    · exact fun u w hu hw => hu.tail (mem_getD_successors?.mp hw)
    · intro u hu
      rcases hu with hu | hu | hu
      · cases List.mem_singleton.mp hu
        exact .refl
      · simp at hu
      · cases hu
  · intro hv
    have hlt : ∀ w, g.Reachable start w → w < g.nodeCount := by
      intro w hw
      cases hw with
      | refl => exact hs
      | tail _ hadj => exact hadj.lt_right hg
    induction hv with
    | refl => exact hfound start (List.mem_range.mpr hs) (.inr (List.mem_singleton.mpr rfl))
    | tail hu hadj ih =>
      exact hclosed _ (List.mem_range.mpr (hlt _ hu)) ih _
        (List.mem_range.mpr (hlt _ (hu.tail hadj))) (mem_getD_successors?.mpr hadj)

end CilPatch.Digraph
