import Mathlib.Data.List.Perm.Basic
import CilPatch.Proofs.Types.Circles

/-!
# Joins

The join of two types that are related is the one above; that of two others is `unknown`, even if
something known lies above both of them.  So it is an upper bound, and the least one only where the
two are related.

* `join_eq_left_iff`     the held type stays exactly if the arriving one may be used as it;
* `join_comm_iff`        only circles of bases let it matter which of two types is held;
* `join_assoc_iff`       how three types are grouped matters exactly if two that come together are
                         not related and the third, known type lies above both (`Parted`);
* `foldl_join_perm`      the order in which types are joined does not matter unless two of them are
                         not related and another, known one lies above all of them (`Contested`).
-/

namespace CilPatch.Hierarchy

variable {h : Hierarchy} {t u v : CilType}

/-- one of the two types may be used as the other -/
def Related (h : Hierarchy) (t u : CilType) : Prop :=
  h.assignable t u = true ∨ h.assignable u t = true

instance (h : Hierarchy) (t u : CilType) : Decidable (h.Related t u) :=
  inferInstanceAs (Decidable (_ ∨ _))

theorem Related.symm (hr : h.Related t u) : h.Related u t := Or.symm hr

/-! ## the join of two types -/

theorem join_of_assignable_left (hut : h.assignable u t = true) : h.join t u = t := by
  unfold join
  split
  · rfl
  · split
    · next hor =>
      rw [Bool.or_eq_true, CilType.isUnknown_iff, CilType.isUnknown_iff] at hor
      rcases hor with rfl | rfl
      · rfl
      · exact (eq_unknown_of_assignable hut).symm
    · rfl

/-- the held type stays exactly if the arriving one may be used as it -/
theorem join_eq_left_iff : h.join t u = t ↔ h.assignable u t = true := by
  constructor
  · intro e
    have hright := h.assignable_join_right t u
    rwa [e] at hright
  · exact join_of_assignable_left

theorem join_of_assignable_right (htu : h.assignable t u = true)
    (hut : h.assignable u t = false) : h.join t u = u := by
  unfold join
  split
  · next e => exact e
  · split
    · next hor =>
      rw [Bool.or_eq_true, CilType.isUnknown_iff, CilType.isUnknown_iff] at hor
      rcases hor with rfl | rfl
      · rw [h.assignable_unknown] at hut
        cases hut
      · rfl
    · rw [if_neg (by simp [hut])]

theorem join_of_not_related (hr : ¬h.Related t u) : h.join t u = .unknown := by
  have htu : h.assignable t u = false := Bool.eq_false_iff.mpr fun e => hr (.inl e)
  have hut : h.assignable u t = false := Bool.eq_false_iff.mpr fun e => hr (.inr e)
  have hne : t ≠ u := by
    rintro rfl
    exact hr (.inl (h.assignable_self t))
  simp [join, hne, htu, hut]

theorem join_mem_of_related (hr : h.Related t u) : h.join t u = t ∨ h.join t u = u := by
  cases hut : h.assignable u t with
  | true => exact .inl (join_of_assignable_left hut)
  | false => exact .inr (join_of_assignable_right (hr.resolve_right (by simp [hut])) hut)

theorem join_unknown_left (h : Hierarchy) (t : CilType) : h.join .unknown t = .unknown :=
  join_of_assignable_left (h.assignable_unknown t)

theorem join_unknown_right (h : Hierarchy) (t : CilType) : h.join t .unknown = .unknown := by
  by_cases e : t = .unknown
  · rw [e, join_unknown_left]
  · apply join_of_assignable_right (h.assignable_unknown t)
    rw [Bool.eq_false_iff]
    exact fun hu => e (eq_unknown_of_assignable hu)

/-! ## two types in either order -/

/-- it does not matter which of two types is held unless they are two that may stand for each
other -/
theorem join_comm_of_antisymm (ha : h.assignable t u = true → h.assignable u t = true → t = u) :
    h.join t u = h.join u t := by
  cases htu : h.assignable t u with
  | true =>
    cases hut : h.assignable u t with
    | true => rw [ha htu hut]
    | false => rw [join_of_assignable_right htu hut, join_of_assignable_left htu]
  | false =>
    cases hut : h.assignable u t with
    | true => rw [join_of_assignable_left hut, join_of_assignable_right hut htu]
    | false =>
      have hr : ¬h.Related t u := by simp [Related, htu, hut]
      rw [join_of_not_related hr, join_of_not_related fun hr' => hr hr'.symm]

/-- **Only circles of bases let it matter which of two types is held.** -/
theorem join_comm_iff : (∀ t u, h.join t u = h.join u t) ↔ h.NoCircle := by
  constructor
  · intro hcomm a b hcircle
    have hab := h.assignable_class (derives_iff.mpr hcircle.1)
    have hba := h.assignable_class (derives_iff.mpr hcircle.2)
    have e := hcomm (.classType a) (.classType b)
    rw [join_of_assignable_left hba, join_of_assignable_left hab] at e
    cases e
    rfl
  · intro hc t u
    exact join_comm_of_antisymm hc.antisymm

/-! ## three types -/

/-- the first two types are not related, and the third one, which is known, lies above both -/
def Parted (h : Hierarchy) (t u v : CilType) : Prop :=
  ¬h.Related t u ∧ h.assignable t v = true ∧ h.assignable u v = true ∧ v ≠ .unknown

instance (h : Hierarchy) (t u v : CilType) : Decidable (h.Parted t u v) :=
  inferInstanceAs (Decidable (_ ∧ _))

theorem NoCircle.join_right (hc : h.NoCircle) (htu : h.assignable t u = true) :
    h.join t u = u := by
  rw [join_comm_of_antisymm hc.antisymm, join_of_assignable_left htu]

/-- where two types are not related, one of them joins with what lies above the other to `unknown`,
unless that lies above both -/
theorem join_of_not_parted (hr : ¬h.Related t u)
    (hp : ¬h.Parted t u v) (huv : h.assignable u v = true) : h.join t v = .unknown := by
  cases htv : h.assignable t v with
  | true =>
    have hv : v = .unknown := by
      by_contra hne
      exact hp ⟨hr, htv, huv, hne⟩
    rw [hv, join_unknown_right]
  | false =>
    apply join_of_not_related
    rintro (e | e)
    · rw [htv] at e
      cases e
    · exact hr (.inr (assignable_trans huv e))

/-- How three types are grouped matters exactly if two that come together are not related while the
third one lies above both of them and is known. -/
theorem join_assoc_iff (hc : h.NoCircle) :
    h.join (h.join t u) v = h.join t (h.join u v) ↔ ¬h.Parted t u v ∧ ¬h.Parted v u t := by
  constructor
  · intro e
    refine ⟨?_, ?_⟩
    · rintro ⟨hr, htv, huv, hv⟩
      rw [join_of_not_related hr, join_unknown_left, hc.join_right huv, hc.join_right htv] at e
      exact hv e.symm
    · rintro ⟨hr, hvt, hut, ht⟩
      rw [join_of_assignable_left hut, join_of_assignable_left hvt,
        join_of_not_related fun hr' => hr hr'.symm, join_unknown_right] at e
      exact ht e
  · rintro ⟨htuv, hvut⟩
    by_cases htu : h.Related t u
    · rcases htu with htu | hut
      · rw [hc.join_right htu]
        exact (hc.join_right (assignable_trans htu (h.assignable_join_left u v))).symm
      · rw [join_of_assignable_left hut]
        by_cases huv : h.Related u v
        · rcases huv with huv | hvu
          · rw [hc.join_right huv]
          · rw [join_of_assignable_left hvu, join_of_assignable_left hut,
              join_of_assignable_left (assignable_trans hvu hut)]
        · rw [join_of_not_related huv, join_unknown_right,
            join_comm_of_antisymm hc.antisymm]
          exact join_of_not_parted (fun hr => huv hr.symm) hvut hut
    · rw [join_of_not_related htu, join_unknown_left]
      by_cases huv : h.Related u v
      · rcases huv with huv | hvu
        · rw [hc.join_right huv, join_of_not_parted htu htuv huv]
        · rw [join_of_assignable_left hvu, join_of_not_related htu]
      · rw [join_of_not_related huv, join_unknown_right]

/-! ## any number of types -/

/-- two of the types are not related, and one of them, which is known, lies above all -/
def Contested (h : Hierarchy) (types : List CilType) : Prop :=
  (∃ t ∈ types, ∃ u ∈ types, ¬h.Related t u) ∧
    ∃ v ∈ types, v ≠ .unknown ∧ ∀ t ∈ types, h.assignable t v = true

instance (h : Hierarchy) (types : List CilType) : Decidable (h.Contested types) :=
  inferInstanceAs (Decidable (_ ∧ _))

theorem Contested.perm {types types' : List CilType} (hcontested : h.Contested types)
    (hp : List.Perm types types') : h.Contested types' := by
  obtain ⟨⟨t, ht, u, hu, hr⟩, v, hv, hne, habove⟩ := hcontested
  refine ⟨⟨t, hp.mem_iff.mp ht, u, hp.mem_iff.mp hu, hr⟩, v, hp.mem_iff.mp hv, hne, ?_⟩
  exact fun x hx => habove x (hp.mem_iff.mpr hx)

theorem assignable_foldl_join (h : Hierarchy) (t : CilType) (types : List CilType) :
    ∀ u ∈ t :: types, h.assignable u (types.foldl h.join t) = true := by
  induction types generalizing t with
  | nil =>
    intro u hu
    rw [List.mem_singleton.mp hu]
    exact h.assignable_self t
  | cons x types ih =>
    intro u hu
    rw [List.foldl_cons]
    have hjoin := ih (h.join t x)
    rcases List.mem_cons.mp hu with rfl | hu
    · exact assignable_trans (h.assignable_join_left u x) (hjoin _ List.mem_cons_self)
    · rcases List.mem_cons.mp hu with rfl | hu
      · exact assignable_trans (h.assignable_join_right t u) (hjoin _ List.mem_cons_self)
      · exact hjoin u (List.mem_cons_of_mem _ hu)

theorem foldl_join_unknown (h : Hierarchy) (types : List CilType) :
    types.foldl h.join .unknown = .unknown := by
  induction types with
  | nil => rfl
  | cons x types ih => rw [List.foldl_cons, join_unknown_left, ih]

theorem foldl_join_of_assignable {types : List CilType}
    (habove : ∀ u ∈ types, h.assignable u t = true) : types.foldl h.join t = t := by
  induction types with
  | nil => rfl
  | cons x types ih =>
    rw [List.foldl_cons, join_of_assignable_left (habove x List.mem_cons_self)]
    exact ih fun u hu => habove u (List.mem_cons_of_mem _ hu)

/-- a known join of several types is one of them -/
theorem foldl_join_mem (h : Hierarchy) (t : CilType) (types : List CilType) :
    types.foldl h.join t = .unknown ∨ types.foldl h.join t ∈ t :: types := by
  induction types generalizing t with
  | nil => exact .inr List.mem_cons_self
  | cons x types ih =>
    rw [List.foldl_cons]
    rcases ih (h.join t x) with e | hmem
    · exact .inl e
    · rcases List.mem_cons.mp hmem with e | hmem
      · rw [e]
        rcases h.join_eq_or t x with e | e | e <;> simp [e]
      · exact .inr (by simp [hmem])

/-- the join of types that are all related is one of them -/
theorem foldl_join_mem_of_related {types : List CilType}
    (hr : ∀ u ∈ t :: types, ∀ v ∈ t :: types, h.Related u v) :
    types.foldl h.join t ∈ t :: types := by
  induction types generalizing t with
  | nil => exact List.mem_cons_self
  | cons x types ih =>
    rw [List.foldl_cons]
    have hjoin : h.join t x = t ∨ h.join t x = x :=
      join_mem_of_related (hr t (by simp) x (by simp))
    have hsub : ∀ u ∈ h.join t x :: types, u ∈ t :: x :: types := by
      intro u hu
      rcases List.mem_cons.mp hu with rfl | hu
      · rcases hjoin with e | e <;> simp [e]
      · simp [hu]
    exact hsub _ (ih fun u hu v hv => hr u (hsub u hu) v (hsub v hv))

/-- **The order in which types are joined does not matter** unless they are contested. -/
theorem foldl_join_perm (hc : h.NoCircle) {types types' : List CilType}
    (hp : List.Perm (t :: types) (u :: types')) (hn : ¬h.Contested (t :: types)) :
    types.foldl h.join t = types'.foldl h.join u := by
  have habove := h.assignable_foldl_join t types
  have habove' := h.assignable_foldl_join u types'
  by_cases hr : ∀ x ∈ t :: types, ∀ y ∈ t :: types, h.Related x y
  · have hmem := foldl_join_mem_of_related hr
    have hmem' : types'.foldl h.join u ∈ u :: types' :=
      foldl_join_mem_of_related fun x hx y hy => hr x (hp.mem_iff.mpr hx) y (hp.mem_iff.mpr hy)
    exact hc.antisymm (habove' _ (hp.mem_iff.mp hmem)) (habove _ (hp.mem_iff.mpr hmem'))
  · -- no type that is known lies above all, so that both joins say nothing
    push Not at hr
    have hunknown : ∀ v ∈ t :: types, (∀ x ∈ t :: types, h.assignable x v = true) →
        v = .unknown := by
      intro v hv hall
      by_contra hne
      exact hn ⟨hr, v, hv, hne, hall⟩
    have hleft : types.foldl h.join t = .unknown := by
      rcases h.foldl_join_mem t types with e | hmem
      · exact e
      · exact hunknown _ hmem habove
    have hright : types'.foldl h.join u = .unknown := by
      rcases h.foldl_join_mem u types' with e | hmem
      · exact e
      · exact hunknown _ (hp.mem_iff.mpr hmem) fun x hx => habove' x (hp.mem_iff.mp hx)
    rw [hleft, hright]

end CilPatch.Hierarchy
