import CilPatch.Patching.Run
import CilPatch.Proofs.Patching.Rosters

/-!
# What a registry holds

`Registry.Reachable` are the registries that operations can make.  In all of them the roster is
sound (`Reachable.sound`); so a target has at most one patch under an owner and an anchor, and the
patches of a target stand in the order of their numbers.

Patches run by priority, and in the order of their registration where that is the same.  To sort
them by priority and number therefore is to sort them by priority and leave the rest as it stands
(`Reachable.patches_eq`).  This order does not depend on which other patches there are: to leave
some out before sorting or after it is the same (`filter_inOrder`).
-/

namespace CilPatch

/-- what a stable sort picks out in order keeps its order -/
theorem filter_mergeSort {α : Type} {le : α → α → Bool}
    (htrans : ∀ a b c, le a b = true → le b c = true → le a c = true)
    (htotal : ∀ a b, (le a b || le b a) = true) {xs : List α} {f : α → Bool}
    (h : (xs.filter f).Pairwise fun a b => le a b = true) :
    (xs.mergeSort le).filter f = xs.filter f := by
  have hsub : (xs.filter f).Sublist (xs.mergeSort le) :=
    List.sublist_mergeSort htrans htotal h List.filter_sublist
  have hfilter := hsub.filter f
  rw [List.filter_filter] at hfilter
  simp only [Bool.and_self] at hfilter
  exact (hfilter.eq_of_length ((List.mergeSort_perm xs le).symm.filter _).length_eq).symm

namespace Patch

/-! ## the order of a run -/

/-- by priority, and as they stand where that is the same -/
def inOrder (ps : List Patch) : List Patch := ps.mergeSort fun a b => a.priority ≤ b.priority

theorem inOrder_perm (ps : List Patch) : (inOrder ps).Perm ps := List.mergeSort_perm ps _

theorem pairwise_inOrder (ps : List Patch) :
    (inOrder ps).Pairwise fun a b => a.priority ≤ b.priority := by
  have h : (inOrder ps).Pairwise fun a b => decide (a.priority ≤ b.priority) = true :=
    List.pairwise_mergeSort (fun a b c => by simp only [decide_eq_true_eq]; omega)
      (fun a b => by simp only [Bool.or_eq_true, decide_eq_true_eq]; omega) ps
  exact h.imp fun hab => of_decide_eq_true hab

/-- patches of one priority keep their order -/
theorem filter_priority_inOrder (ps : List Patch) (k : Int) :
    (inOrder ps).filter (·.priority == k) = ps.filter (·.priority == k) := by
  refine filter_mergeSort (fun a b c => by simp only [decide_eq_true_eq]; omega)
    (fun a b => by simp only [Bool.or_eq_true, decide_eq_true_eq]; omega) ?_
  refine List.pairwise_of_forall_mem_list fun a ha b hb => ?_
  have ha' := (List.mem_filter.mp ha).2
  have hb' := (List.mem_filter.mp hb).2
  rw [beq_iff_eq] at ha' hb'
  exact decide_eq_true (by omega)

theorem mem_of_filter_priority_eq {ps qs : List Patch}
    (h : ∀ k, ps.filter (·.priority == k) = qs.filter (·.priority == k)) {p : Patch}
    (hp : p ∈ ps) : p ∈ qs := by
  have hk : p ∈ ps.filter (·.priority == p.priority) := List.mem_filter.mpr ⟨hp, beq_self_eq_true _⟩
  rw [h] at hk
  exact (List.mem_filter.mp hk).1

/-- a sorted list is known from what it holds of each priority -/
theorem eq_of_filter_priority_eq {ps qs : List Patch}
    (hp : ps.Pairwise fun a b => a.priority ≤ b.priority)
    (hq : qs.Pairwise fun a b => a.priority ≤ b.priority)
    (h : ∀ k, ps.filter (·.priority == k) = qs.filter (·.priority == k)) : ps = qs := by
  induction ps generalizing qs with
  | nil =>
    cases qs with
    | nil => rfl
    | cons q qs =>
      exact absurd (mem_of_filter_priority_eq (fun k => (h k).symm) List.mem_cons_self)
        List.not_mem_nil
  | cons p ps ih =>
    cases qs with
    | nil => exact absurd (mem_of_filter_priority_eq h List.mem_cons_self) List.not_mem_nil
    | cons q qs =>
      obtain ⟨hp1, hp2⟩ := List.pairwise_cons.mp hp
      obtain ⟨hq1, hq2⟩ := List.pairwise_cons.mp hq
      -- both heads are of the least priority, and so each is the first of one class
      have hpq : p.priority = q.priority := by
        have h1 : q.priority ≤ p.priority := by
          have hm : p ∈ q :: qs := mem_of_filter_priority_eq h List.mem_cons_self
          rcases List.mem_cons.mp hm with rfl | hm
          · exact Int.le_refl _
          · exact hq1 p hm
        have h2 : p.priority ≤ q.priority := by
          have hm : q ∈ p :: ps :=
            mem_of_filter_priority_eq (fun k => (h k).symm) List.mem_cons_self
          rcases List.mem_cons.mp hm with rfl | hm
          · exact Int.le_refl _
          · exact hp1 q hm
        omega
      have hhead := h p.priority
      rw [List.filter_cons_of_pos (by simp), List.filter_cons_of_pos (by simp [hpq])] at hhead
      obtain rfl : p = q := (List.cons.inj hhead).1
      have htail : ∀ k, ps.filter (·.priority == k) = qs.filter (·.priority == k) := by
        intro k
        have hk := h k
        rw [List.filter_cons, List.filter_cons] at hk
        split at hk
        · exact (List.cons.inj hk).2
        · exact hk
      rw [ih hp2 hq2 htail]

/-- **Leaving out patches does not change the order of the others.** -/
theorem filter_inOrder (ps : List Patch) (f : Patch → Bool) :
    (inOrder ps).filter f = inOrder (ps.filter f) := by
  refine eq_of_filter_priority_eq ((pairwise_inOrder ps).filter f) (pairwise_inOrder _) fun k => ?_
  rw [filter_priority_inOrder, List.filter_comm, filter_priority_inOrder, List.filter_comm]

end Patch

namespace Registration

theorem precedes_trans (x y z : Registration) (hxy : x.precedes y = true)
    (hyz : y.precedes z = true) : x.precedes z = true := by
  rw [precedes_iff] at *
  omega

theorem precedes_total (x y : Registration) : (x.precedes y || y.precedes x) = true := by
  rw [Bool.or_eq_true, precedes_iff, precedes_iff]
  omega

end Registration

namespace Registry

variable {r : Registry}

/-- the patches of a target in the order of their registration -/
def registered (r : Registry) (target : String) : List Patch :=
  (r.registrations.listed target).map (·.patch)

/-- patches that stand in order run as they stand -/
theorem patches_of_pairwise {target : String}
    (h : (r.registrations.listed target).Pairwise fun x y => x.precedes y = true) :
    r.patches target = r.registered target :=
  congrArg (List.map Registration.patch) (List.mergeSort_of_pairwise h)

/-- a single patch needs no order -/
theorem patches_of_registered {target : String} {p : Patch} (h : r.registered target = [p]) :
    r.patches target = [p] := by
  obtain ⟨x, hx, -⟩ := List.map_eq_singleton_iff.mp h
  rw [patches_of_pairwise, h]
  rw [hx]
  exact List.pairwise_singleton _ _

/-! ## what operations do to it -/

theorem countFailure_eq (r : Registry) (owner : String) :
    ∃ owners, r.countFailure owner
      = { r with tally := r.tally.increment owner, quarantined := owners } := by
  unfold countFailure
  dsimp only
  split
  · exact ⟨_, rfl⟩
  · exact ⟨_, rfl⟩

theorem remember_eq (r : Registry) (e : AppliedEdit) :
    ∃ edits, r.remember e = { r with history := edits } := by
  unfold remember
  dsimp only
  split
  · exact ⟨_, rfl⟩
  · exact ⟨_, rfl⟩

/-- to run a patch changes no registration, and makes none -/
theorem offer_stored (target : String) (signature : Option Signature) (s : RunState) (p : Patch) :
    let r := (offer target signature s p).registry
    r.registrations = s.registry.registrations ∧ r.sequence = s.registry.sequence := by
  unfold offer
  dsimp only
  split
  · exact ⟨rfl, rfl⟩
  · split
    next edited warnings _ =>
      obtain ⟨edits, he⟩ := (s.registry.countSuccess p.owner).remember_eq
        (appliedEdit target p s.baseline edited warnings)
      rw [he]
      exact ⟨rfl, rfl⟩
    · obtain ⟨owners, ho⟩ := s.registry.countFailure_eq p.owner
      rw [ho]
      exact ⟨rfl, rfl⟩

theorem listed_register (r : Registry) (target : String) (p : Patch) (other : String) :
    (r.register target p).registrations.listed other =
      if other = target then
        (r.registrations.listed target).filter (fun x => !x.patch.isKeyed p.owner p.anchor) ++
          [⟨r.sequence, p⟩]
      else r.registrations.listed other :=
  Roster.listed_put ..

theorem registered_register (r : Registry) (target : String) (p : Patch) :
    (r.register target p).registered target
      = (r.registered target).filter (fun q => !q.isKeyed p.owner p.anchor) ++ [p] := by
  unfold registered
  rw [listed_register, if_pos rfl, List.map_append, List.filter_map]
  rfl

/-- a removal changes nothing but the roster -/
theorem unregister_eq (r : Registry) (target anchor : String) (owner : Option String) :
    ∃ R, (r.unregister target anchor owner).2 = { r with registrations := R } := by
  unfold unregister
  split
  · exact ⟨r.registrations, rfl⟩
  · exact ⟨_, rfl⟩

theorem listed_unregister (r : Registry) (target anchor : String) (owner : Option String)
    (other : String) :
    (r.unregister target anchor owner).2.registrations.listed other =
      if other = target then
        (r.registrations.listed target).filter fun x =>
          x.patch.anchor != anchor || owner.any fun o => x.patch.owner != o
      else r.registrations.listed other := by
  unfold unregister
  split
  next hnone =>
    split
    next ho =>
      rw [ho, Roster.listed_of_lookup_none hnone]
      rfl
    · rfl
  next list hlist =>
    rw [Roster.listed_of_lookup hlist]
    dsimp only
    split
    next hleft => rw [Roster.listed_erase, List.isEmpty_iff.mp hleft]
    · exact Roster.listed_put ..

theorem unregister_count (r : Registry) (target anchor : String) (owner : Option String) :
    (r.unregister target anchor owner).1
      = (r.registrations.listed target).countP fun x =>
          !(x.patch.anchor != anchor || owner.any fun o => x.patch.owner != o) := by
  unfold unregister
  split
  next hnone =>
    rw [Roster.listed_of_lookup_none hnone]
    rfl
  next list hlist =>
    rw [Roster.listed_of_lookup hlist]
    exact length_sub_length_filter list _

theorem listed_unregisterAll (hr : r.registrations.Sound r.sequence) (owner : Option String)
    (target : String) :
    (r.unregisterAll owner).2.registrations.listed target
      = (r.registrations.listed target).filter fun x =>
          owner.any fun o => x.patch.owner != o := by
  cases owner with
  | none => exact (List.filter_false _).symm
  | some o => exact hr.listed_sift _ target

/-! ## registries within reach -/

/-- the registries that operations make; the patches of several runs may be interleaved -/
inductive Reachable : Registry → Prop
  | new (settings : Settings) (hierarchy : Hierarchy) : Reachable { settings, hierarchy }
  | withHierarchy {r : Registry} (hr : Reachable r) (hierarchy : Hierarchy) :
      Reachable { r with hierarchy }
  | register {r : Registry} (hr : Reachable r) (target : String) (p : Patch) :
      Reachable (r.register target p)
  | unregister {r : Registry} (hr : Reachable r) (target anchor : String)
      (owner : Option String) : Reachable (r.unregister target anchor owner).2
  | unregisterAll {r : Registry} (hr : Reachable r) (owner : Option String) :
      Reachable (r.unregisterAll owner).2
  | clear {r : Registry} (hr : Reachable r) : Reachable r.clear
  | clearQuarantine {r : Registry} (hr : Reachable r) (owner : String) :
      Reachable (r.clearQuarantine owner).2
  | offer {s : RunState} (hs : Reachable s.registry) (target : String)
      (signature : Option Signature) (p : Patch) :
      Reachable (offer target signature s p).registry

namespace Reachable

theorem foldl_offer {s : RunState} (hs : Reachable s.registry) (target : String)
    (signature : Option Signature) (ps : List Patch) :
    Reachable (ps.foldl (Registry.offer target signature) s).registry := by
  induction ps generalizing s with
  | nil => exact hs
  | cons p ps ih => exact ih (hs.offer target signature p)

theorem run (hr : Reachable r) (target : String) (body : Body) (signature : Option Signature) :
    Reachable (r.run target body signature).2 :=
  foldl_offer hr target signature (r.patches target)

theorem runMany (hr : Reachable r) (jobs : List Job) : Reachable (r.runMany jobs).2 := by
  induction jobs generalizing r with
  | nil => exact hr
  | cons j jobs ih => exact ih (hr.run j.target j.body j.signature)

/-- **Operations keep the roster sound.** -/
theorem sound (hr : Reachable r) : r.registrations.Sound r.sequence := by
  induction hr with
  | new | clear => exact Roster.Sound.nil _
  | withHierarchy _ _ ih | clearQuarantine _ _ ih => exact ih
  | @register r _ target p ih =>
    refine ih.put target (((ih.listed target).filter _).concat fun x hx hkey => ?_)
      (List.append_ne_nil_of_right_ne_nil _ (List.cons_ne_nil _ _)) (Nat.le_succ _)
    have hkept := (List.mem_filter.mp hx).2
    rw [Patch.isKeyed_iff.mpr hkey] at hkept
    cases hkept
  | @unregister r _ target anchor owner ih =>
    unfold Registry.unregister
    split
    · exact ih
    next list hlist =>
      have hlisted := ih.listed target
      rw [Roster.listed_of_lookup hlist] at hlisted
      dsimp only
      split
      · exact ih.erase target
      next hleft =>
        refine ih.put target (hlisted.filter _) (fun hnil => hleft ?_) (Nat.le_refl _)
        rw [hnil]
        rfl
  | @unregisterAll r _ owner ih =>
    cases owner with
    | none => exact Roster.Sound.nil _
    | some o => exact ih.sift _
  | offer _ target signature p ih =>
    obtain ⟨hregistrations, hsequence⟩ := offer_stored target signature _ p
    rw [hregistrations, hsequence]
    exact ih

theorem nodup_registered (hr : Reachable r) (target : String) :
    ((r.registered target).map Patch.key).Nodup := by
  unfold registered
  rw [List.map_map]
  exact (hr.sound.listed target).keyed

/-- **The numbers tell the order of registration**, so to sort by priority and number is to sort by
priority alone and leave patches of one priority as they stand. -/
theorem patches_eq (hr : Reachable r) (target : String) :
    r.patches target = Patch.inOrder (r.registered target) := by
  have hlisted := hr.sound.listed target
  have hsorted : (r.patches target).Pairwise fun p q => p.priority ≤ q.priority := by
    have hs := List.pairwise_mergeSort Registration.precedes_trans Registration.precedes_total
      (r.registrations.listed target)
    refine List.pairwise_map.mpr (hs.imp fun hxy => ?_)
    rw [Registration.precedes_iff] at hxy
    omega
  refine Patch.eq_of_filter_priority_eq hsorted (Patch.pairwise_inOrder _) fun k => ?_
  rw [Patch.filter_priority_inOrder]
  unfold Registry.patches registered
  rw [List.filter_map, List.filter_map,
    filter_mergeSort Registration.precedes_trans Registration.precedes_total]
  refine (hlisted.filter _).increasing.imp_of_mem fun {x y} hx hy hxy => ?_
  have hx' : x.patch.priority = k := beq_iff_eq.mp (List.mem_filter.mp hx).2
  have hy' : y.patch.priority = k := beq_iff_eq.mp (List.mem_filter.mp hy).2
  rw [Registration.precedes_iff]
  omega

theorem nodup_patches (hr : Reachable r) (target : String) :
    ((r.patches target).map Patch.key).Nodup := by
  rw [hr.patches_eq]
  exact ((Patch.inOrder_perm _).map Patch.key).nodup_iff.mpr (hr.nodup_registered target)

end Reachable

/-! ## several registrations in a row -/

/-- register patches for a target, in this order -/
def registerAll (r : Registry) (target : String) (ps : List Patch) : Registry :=
  ps.foldl (fun q p => q.register target p) r

theorem registered_registerAll (r : Registry) (target : String) (ps : List Patch)
    (h : ((r.registered target ++ ps).map Patch.key).Nodup) :
    (r.registerAll target ps).registered target = r.registered target ++ ps := by
  induction ps generalizing r with
  | nil => exact (List.append_nil _).symm
  | cons p ps ih =>
    have hfresh : ∀ q ∈ r.registered target, (!q.isKeyed p.owner p.anchor) = true := by
      intro q hq
      rw [List.map_append, List.nodup_append'] at h
      rw [Bool.not_eq_true', ← Bool.not_eq_true, Patch.isKeyed_iff]
      intro hkey
      refine h.2.2 (List.mem_map_of_mem hq) ?_
      rw [hkey, List.map_cons]
      exact List.mem_cons_self
    have hstep : (r.register target p).registered target = r.registered target ++ [p] := by
      rw [registered_register, List.filter_eq_self.mpr hfresh]
    have hrest := ih (r.register target p) (by rw [hstep, List.append_assoc]; exact h)
    rw [hstep, List.append_assoc] at hrest
    exact hrest

/-- to register patches changes nothing but the roster and the number of the next one -/
theorem registerAll_eq (r : Registry) (target : String) (ps : List Patch) :
    ∃ R n, r.registerAll target ps = { r with registrations := R, sequence := n } := by
  induction ps generalizing r with
  | nil => exact ⟨r.registrations, r.sequence, rfl⟩
  | cons p ps ih => exact ih (r.register target p)

theorem Reachable.registerAll {r : Registry} (hr : Reachable r) (target : String)
    (ps : List Patch) : Reachable (r.registerAll target ps) := by
  induction ps generalizing r with
  | nil => exact hr
  | cons p ps ih => exact ih (hr.register target p)

end Registry

end CilPatch
