import CilPatch.Proofs.Stack.Deliveries
import CilPatch.Stack.Verify

/-!
# The order of merging

`join_laws` are the laws that the join has, and `merge_order_iff` says which one it has not: the
start of a block is what the stacks merge to that arrive there, and for some stacks it matters which
one comes first.  `orders_of_merging_differ` shows a body for which it does.
-/

namespace CilPatch

/-! ## laws -/

open Stack

/-- **Laws of the join.**  Both types may be used as their join; the held type stays exactly if the
arriving one may be used as it, so that a stack that has taken another one in never changes when it
meets it again; and it matters which of two types is held exactly where two classes lie on a circle
of bases. -/
theorem join_laws (h : Hierarchy) :
    (∀ t u, h.assignable t (h.join t u) = true ∧ h.assignable u (h.join t u) = true) ∧
      (∀ t u, h.join t u = t ↔ h.assignable u t = true) ∧
      (∀ s t, (merge h s t).bind (fun m => merge h m t) = merge h s t) ∧
      ((∀ t u, h.join t u = h.join u t) ↔
        ¬∃ a b, a ≠ b ∧ Relation.TransGen h.Base a b ∧ Relation.TransGen h.Base b a) := by
  refine ⟨fun t u => ⟨h.assignable_join_left t u, h.assignable_join_right t u⟩,
    fun t u => Hierarchy.join_eq_left_iff, merge_absorbs h, ?_⟩
  rw [Hierarchy.join_comm_iff]
  constructor
  · rintro hc ⟨a, b, hne, hab, hba⟩
    exact hne (hc a b ⟨hab, hba⟩)
  · rintro hnone a b ⟨hab, hba⟩
    by_contra hne
    exact hnone ⟨a, b, hne, hab, hba⟩

/-- **When the order of merging matters.**  Two stacks merge to the same in either order.  Of three
it matters which two are merged first exactly if, at some place, two types that come together are
not related while the third one, which is known, lies above both; and of any number the order
matters exactly if, at some place, two types are not related while another one, which is known, lies
above all.  The start of a block that was not reached before is what the arriving stacks merge to,
in the order of their arrival.  So it is throughout a run: whatever arrives at other blocks in
between, the start of a block is what the stacks merge to that have arrived there, and any other
order of them would have led to the same start exactly if their types are nowhere contested. -/
theorem merge_order_iff {h : Hierarchy} (hc : h.NoCircle) :
    (∀ s t : Stack, merge h s t = merge h t s) ∧
      (∀ q r s : Stack, q.depth = r.depth → r.depth = s.depth →
        ((∃ m, (merge h q r).bind (fun qr => merge h qr s) = some m ∧
            (merge h r s).bind (fun rs => merge h q rs) = some m) ↔
          ∀ (i : Nat) t u v, q[i]? = some t → r[i]? = some u → s[i]? = some v →
            ¬h.Parted t u v ∧ ¬h.Parted v u t)) ∧
      (∀ (family : List Stack) (d : Nat), (∀ s ∈ family, s.depth = d) →
        ((∃ m, ∀ held arriving, List.Perm (held :: arriving) family →
            mergeAll h held arriving = some m) ↔
          ∀ i, ¬h.Contested (typesAt i family)) ∧
        ∀ (a : Analysis) (p : Progress) (k : Nat), a.hierarchy = h → p.starts[k]? = some none →
          ∀ held arriving, List.Perm (held :: arriving) family →
            ∃ p' m, a.arriveInTurn k p (held :: arriving) = .ok p' ∧
              mergeAll h held arriving = some m ∧ p'.Held k m) ∧
      ∀ (a : Analysis) (n : Nat) (q : Progress), a.hierarchy = h → a.run n a.initial = .ok q →
        ∀ k < a.graph.blockCount,
          (a.arrivals n k = [] → q.starts[k]? = some none) ∧
          ∀ held arriving, a.arrivals n k = held :: arriving →
            ∃ m, mergeAll h held arriving = some m ∧ q.Held k m ∧
              ((∀ first rest, List.Perm (first :: rest) (a.arrivals n k) →
                  mergeAll h first rest = some m) ↔
                ∀ i, ¬h.Contested (typesAt i (a.arrivals n k))) := by
  refine ⟨merge_comm hc, fun q r s hqr hrs => groupings_agree_iff hc hqr hrs, ?_, ?_⟩
  · intro family d hd
    refine ⟨orders_agree_iff hc hd, ?_⟩
    rintro a p k rfl hn held arriving hp
    obtain ⟨m, hm, -⟩ := mergeAll_of_perm a.hierarchy hd hp
    obtain ⟨first, hfirst, hh⟩ := Analysis.held_arrive_first a hn held
    obtain ⟨p', hp', hh'⟩ := Analysis.held_arriveInTurn hh hm
    refine ⟨p', m, ?_, hm, hh'⟩
    rw [Analysis.arriveInTurn_cons, hfirst]
    exact hp'
  · rintro a n q rfl hrun k hk
    have hgathers := Analysis.gathers_run hk hrun
    refine ⟨fun hnone => ?_, fun held arriving hsome => ?_⟩
    · rw [hnone] at hgathers
      exact hgathers
    · rw [hsome] at hgathers ⊢
      obtain ⟨m, hm, hh⟩ := hgathers
      refine ⟨m, hm, hh, ?_⟩
      rw [← orders_agree_iff hc (depth_of_mergeAll hm)]
      constructor
      · exact fun hall => ⟨m, hall⟩
      · rintro ⟨m', hall⟩ first rest hp
        rw [hall first rest hp, ← hall held arriving (.refl _), hm]

/-- two kinds of animals -/
def kennel : Hierarchy := .registered [("Cat", "Animal"), ("Dog", "Animal")]

/-- the analysis of a body of one block, where no stack has arrived yet -/
def kennelRun : Analysis × Progress :=
  ({ body := .ofCode [{ opcode := .pop }, { opcode := .ret }]
     graph := ⟨{ nodes := #[⟨0, 0, 2⟩], leaving := #[[]], entering := #[[]] }, [0, 0]⟩
     order := [0], signature := none, hierarchy := kennel },
   { starts := #[none], pending := [0] })

/-- two branches to one place, with a cat and a dog, that are taken or not; who takes neither comes
there with some object -/
def forks : Body := .ofCode
  [{ opcode := .newobj, operand := .method ⟨"Cat", ".ctor", [], .void, true, false⟩ },
   { opcode := .ldcI4, operand := .literal (.int32 0) },
   { opcode := .brtrue, operand := .label ⟨0⟩ },
   { opcode := .pop },
   { opcode := .newobj, operand := .method ⟨"Dog", ".ctor", [], .void, true, false⟩ },
   { opcode := .ldcI4, operand := .literal (.int32 0) },
   { opcode := .brtrue, operand := .label ⟨0⟩ },
   { opcode := .pop },
   { opcode := .ldsfld, operand := .field ⟨"Zoo", "Star", .object, true⟩ },
   { opcode := .pop, labels := [⟨0⟩] },
   { opcode := .ret }]

theorem merge_order_iff_kennel :
    kennel.Acyclic ∧
      merge kennel [.classType "Cat"] [.null] = merge kennel [.null] [.classType "Cat"] ∧
      (¬∃ m,
        (merge kennel [.classType "Cat"] [.classType "Dog"]).bind
            (fun qr => merge kennel qr [.classType "Animal"]) = some m ∧
          (merge kennel [.classType "Dog"] [.classType "Animal"]).bind
            (fun rs => merge kennel [.classType "Cat"] rs) = some m) ∧
      (∃ m, ∀ held arriving,
        List.Perm (held :: arriving) [[.classType "Cat"], [.classType "Animal"], [.null]] →
          mergeAll kennel held arriving = some m) ∧
      (¬∃ m, ∀ held arriving,
        List.Perm (held :: arriving)
            [[.classType "Cat"], [.classType "Dog"], [.classType "Animal"]] →
          mergeAll kennel held arriving = some m) ∧
      (∃ p m,
        kennelRun.1.arriveInTurn 0 kennelRun.2
            [[.classType "Cat"], [.classType "Animal"], [.null]] = .ok p ∧
          mergeAll kennel [.classType "Cat"] [[.classType "Animal"], [.null]] = some m ∧
          p.Held 0 m) ∧
      ∃ g q m, FlowGraph.ofBody forks = .ok g ∧
        (Analysis.start forks g none kennel).run 4 (Analysis.start forks g none kennel).initial =
            .ok q ∧
          mergeAll kennel [.classType "Cat"] [[.classType "Dog"], [.object]] = some m ∧
          q.Held 3 m ∧
          ¬∀ first rest,
            List.Perm (first :: rest) [[.classType "Cat"], [.classType "Dog"], [.object]] →
              mergeAll kennel first rest = some m := by
  have hacyclic : kennel.Acyclic := by decide
  obtain ⟨hcomm, hgroupings, horders, hruns⟩ := merge_order_iff hacyclic.noCircle
  have hrun : (FlowGraph.ofBody forks).toOption.map (fun g =>
      let a := Analysis.start forks g none kennel
      (g.blockCount, (a.run 4 a.initial).toBool, a.arrivals 4 3)) =
        some (4, true, [[.classType "Cat"], [.classType "Dog"], [.object]]) := by decide +kernel
  refine ⟨hacyclic, hcomm _ _, ?_, ?_, ?_, ?_, ?_⟩
  · rw [hgroupings [.classType "Cat"] [.classType "Dog"] [.classType "Animal"] rfl rfl]
    intro hn
    exact (hn 0 _ _ _ rfl rfl rfl).1 (by decide)
  · apply (horders _ 1 (by decide)).1.mpr
    intro i
    cases i with
    | zero => decide
    | succ i => simp [typesAt, Hierarchy.Contested]
  · intro hm
    exact (horders _ 1 (by decide)).1.mp hm 0 (by decide)
  · exact (horders [[.classType "Cat"], [.classType "Animal"], [.null]] 1 (by decide)).2
      kennelRun.1 kennelRun.2 0 rfl rfl _ _ (.refl _)
  · -- between two stacks that arrive at the place where the branches meet, one goes on elsewhere
    cases hg : FlowGraph.ofBody forks with
    | error f =>
      rw [hg] at hrun
      cases hrun
    | ok g =>
      rw [hg] at hrun
      obtain ⟨hcount, hrest⟩ := Prod.mk.inj (Option.some.inj hrun)
      obtain ⟨hdone, harrived⟩ := Prod.mk.inj hrest
      cases hq : (Analysis.start forks g none kennel).run 4
          (Analysis.start forks g none kennel).initial with
      | error f =>
        rw [hq] at hdone
        cases hdone
      | ok q =>
        have hk : 3 < g.blockCount := by
          have hfour : g.blockCount = 4 := hcount
          omega
        obtain ⟨m, hm, hheld, horder⟩ := (hruns _ 4 q rfl hq 3 hk).2 _ _ harrived
        refine ⟨g, q, m, rfl, hq, hm, hheld, fun hall => ?_⟩
        rw [harrived] at horder
        exact horder.mp hall 0 (by decide)

/-- three paths that meet, with a cat, a dog and some object; `cases` are those of the `switch` -/
def meeting (cases : List Label) : Body := .ofCode
  [{ opcode := .ldcI4, operand := .literal (.int32 0) },
   { opcode := .switch, operand := .switch cases },
   { opcode := .newobj, operand := .method ⟨"Cat", ".ctor", [], .void, true, false⟩ },
   { opcode := .br, operand := .label ⟨2⟩ },
   { opcode := .newobj, operand := .method ⟨"Dog", ".ctor", [], .void, true, false⟩,
     labels := [⟨0⟩] },
   { opcode := .br, operand := .label ⟨2⟩ },
   { opcode := .ldsfld, operand := .field ⟨"Zoo", "Star", .object, true⟩, labels := [⟨1⟩] },
   { opcode := .pop, labels := [⟨2⟩] },
   { opcode := .ret }]

/-- Nothing is the base of anything here, and still the order of merging shows: `object` takes in
both classes if it is held, and comes too late if they have met before.  In a body the order of the
cases of a `switch` is enough to make the difference. -/
theorem orders_of_merging_differ :
    (¬∀ h : Hierarchy, h.Acyclic →
        ∀ a b c : Stack, a.depth = b.depth → b.depth = c.depth →
          (merge h a b).bind (fun m => merge h m c) = (merge h b c).bind (fun m => merge h a m)) ∧
      mergeAll .empty [.classType "Cat"] [[.classType "Dog"], [.object]] = some [.unknown] ∧
      mergeAll .empty [.object] [[.classType "Cat"], [.classType "Dog"]] = some [.object] ∧
      (({} : Verifier).verify (meeting [⟨0⟩, ⟨1⟩])).toOption.bind
          (fun v => v.profile?.map fun p => p.entry? 7) = some (some [.object]) ∧
      (({} : Verifier).verify (meeting [⟨1⟩, ⟨0⟩])).toOption.bind
          (fun v => v.profile?.map fun p => p.entry? 7) = some (some [.unknown]) := by
  refine ⟨?_, by decide, by decide, by decide +kernel, by decide +kernel⟩
  intro hall
  have e := hall .empty (by decide) [.classType "Cat"] [.classType "Dog"] [.object] rfl rfl
  exact absurd e (by decide)

end CilPatch
