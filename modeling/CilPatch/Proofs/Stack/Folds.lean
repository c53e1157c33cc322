import CilPatch.Proofs.Stack.Order
import CilPatch.Proofs.Types.Joins

/-!
# Stacks merged one after the other

A merge that has taken a stack in does not change when it meets it again (`merge_absorbs`), but the
order of several merges can matter: two types that are not related come out as `unknown`, even where
a third one lies above both of them, which would have absorbed each if it had come first.
`groupings_agree_iff` and `orders_agree_iff` say when this happens, and that it happens in no other
case.

* `mergeAll`      stacks merged one after the other into one that is held;
* `typesAt`       the types of several stacks at one place.
-/

namespace CilPatch

namespace Stack

variable {h : Hierarchy} {held s t m : Stack} {arriving : List Stack}

/-- the stacks merged one after the other into the one that is held -/
def mergeAll (h : Hierarchy) (held : Stack) (arriving : List Stack) : Option Stack :=
  arriving.foldlM (merge h) held

/-- the types of the stacks at place `i` -/
def typesAt (i : Nat) (family : List Stack) : List CilType := family.filterMap fun s => s[i]?

theorem mergeAll_nil (h : Hierarchy) (held : Stack) : mergeAll h held [] = some held := rfl

theorem mergeAll_cons (h : Hierarchy) (held s : Stack) (arriving : List Stack) :
    mergeAll h held (s :: arriving) = (merge h held s).bind fun m => mergeAll h m arriving := rfl

theorem mergeAll_concat (h : Hierarchy) (held s : Stack) (arriving : List Stack) :
    mergeAll h held (arriving ++ [s])
      = (mergeAll h held arriving).bind fun m => merge h m s := by
  unfold mergeAll
  rw [List.foldlM_append]
  refine congrArg _ (funext fun m => ?_)
  exact bind_pure (merge h m s)

/-- only stacks of one height merge -/
theorem depth_of_mergeAll (hm : mergeAll h held arriving = some m) :
    ∀ s ∈ held :: arriving, s.depth = held.depth := by
  induction arriving generalizing held with
  | nil => simp
  | cons s arriving ih =>
    rw [mergeAll_cons] at hm
    obtain ⟨m', hm', hrest⟩ := Option.bind_eq_some_iff.mp hm
    have hs : held.depth = s.depth := (merge_eq_some_iff.mp hm').1
    intro t ht
    rcases List.mem_cons.mp ht with rfl | ht
    · rfl
    · rcases List.mem_cons.mp ht with rfl | ht
      · exact hs.symm
      · exact (ih hrest t (List.mem_cons_of_mem _ ht)).trans (depth_merge hm')

theorem typesAt_cons_of_eq_some {i : Nat} {x : CilType} (hx : s[i]? = some x)
    (family : List Stack) : typesAt i (s :: family) = x :: typesAt i family :=
  List.filterMap_cons_some hx

theorem mem_typesAt {i : Nat} {x : CilType} {family : List Stack} :
    x ∈ typesAt i family ↔ ∃ s ∈ family, s[i]? = some x := List.mem_filterMap

/-- stacks of one height merge, and each slot of the result is the join of the slots -/
theorem merge_of_depth_eq (h : Hierarchy) (hd : s.depth = t.depth) :
    ∃ m, merge h s t = some m ∧ m.depth = s.depth ∧
      ∀ (i : Nat) x y, s[i]? = some x → t[i]? = some y → m[i]? = some (h.join x y) := by
  have hm := (merge_eq_some_iff (h := h)).mpr ⟨hd, rfl⟩
  refine ⟨_, hm, depth_merge hm, ?_⟩
  intro i x y hx hy
  rw [List.getElem?_zipWith, hx, hy]

theorem exists_slot {i : Nat} (hi : i < s.depth) : ∃ x, s[i]? = some x :=
  ⟨_, List.getElem?_eq_getElem hi⟩

theorem lt_depth_of_slot {i : Nat} {x : CilType} (hx : s[i]? = some x) : i < s.depth :=
  (List.getElem?_eq_some_iff.mp hx).1

/-- stacks of one height are equal if their slots are -/
theorem eq_of_slots (hd : s.depth = t.depth)
    (hslots : ∀ (i : Nat) x y, s[i]? = some x → t[i]? = some y → x = y) : s = t := by
  apply List.ext_getElem hd
  intro i hs ht
  exact hslots i _ _ (List.getElem?_eq_getElem hs) (List.getElem?_eq_getElem ht)

/-- any number of stacks of one height merge, and each slot of the result is the join of the
slots -/
theorem mergeAll_of_depth_eq (h : Hierarchy) (hd : ∀ s ∈ arriving, s.depth = held.depth) :
    ∃ m, mergeAll h held arriving = some m ∧ m.depth = held.depth ∧
      ∀ (i : Nat) x, held[i]? = some x →
        m[i]? = some ((typesAt i arriving).foldl h.join x) := by
  induction arriving generalizing held with
  | nil => exact ⟨held, rfl, rfl, fun i x hx => hx⟩
  | cons s arriving ih =>
    have hs : held.depth = s.depth := (hd s List.mem_cons_self).symm
    obtain ⟨m, hm, hdepth, hslots⟩ := merge_of_depth_eq h hs
    have hrest : ∀ t ∈ arriving, t.depth = m.depth := fun t ht =>
      (hd t (List.mem_cons_of_mem _ ht)).trans hdepth.symm
    obtain ⟨m', hm', hdepth', hslots'⟩ := ih hrest
    refine ⟨m', ?_, hdepth'.trans hdepth, ?_⟩
    · rw [mergeAll_cons, hm]
      exact hm'
    · intro i x hx
      obtain ⟨y, hy⟩ := exists_slot (hs ▸ lt_depth_of_slot hx)
      rw [hslots' i _ (hslots i x y hx hy), typesAt_cons_of_eq_some hy, List.foldl_cons]

/-! ## two stacks -/

/-- a merge that has taken a stack in does not change when it meets it again -/
theorem merge_absorbs (h : Hierarchy) (s t : Stack) :
    (merge h s t).bind (fun m => merge h m t) = merge h s t := by
  by_cases hd : s.depth = t.depth
  · obtain ⟨m, hm, hdm, hslots⟩ := merge_of_depth_eq h hd
    obtain ⟨m', hm', hdm', hslots'⟩ := merge_of_depth_eq h (hdm.trans hd)
    rw [hm]
    show merge h m t = some m
    rw [hm']
    apply congrArg some
    apply eq_of_slots hdm'
    intro i x y hx hy
    have hi : i < s.depth := hdm ▸ lt_depth_of_slot hy
    obtain ⟨u, hu⟩ := exists_slot hi
    obtain ⟨v, hv⟩ := exists_slot (hd ▸ hi)
    rw [hslots i u v hu hv] at hy
    rw [hslots' i _ v (hslots i u v hu hv) hv,
      Hierarchy.join_of_assignable_left (h.assignable_join_right u v)] at hx
    rw [← Option.some.inj hx, ← Option.some.inj hy]
  · rw [merge_eq_none_iff.mpr hd]
    rfl

theorem merge_comm (hc : h.NoCircle) (s t : Stack) : merge h s t = merge h t s := by
  unfold merge
  rw [List.zipWith_comm_of_comm (Hierarchy.join_comm_iff.mpr hc)]
  simp only [eq_comm]

/-! ## groupings -/

/-- Merging the first two stacks first or the last two gives the same, unless two types that come
together are not related and the third one, which is known, lies above both. -/
theorem groupings_agree_iff (hc : h.NoCircle) {q r s : Stack} (hqr : q.depth = r.depth)
    (hrs : r.depth = s.depth) :
    (∃ m, (merge h q r).bind (fun qr => merge h qr s) = some m ∧
        (merge h r s).bind (fun rs => merge h q rs) = some m) ↔
      ∀ (i : Nat) t u v, q[i]? = some t → r[i]? = some u → s[i]? = some v →
        ¬h.Parted t u v ∧ ¬h.Parted v u t := by
  obtain ⟨qr, hmqr, hdqr, hsqr⟩ := merge_of_depth_eq h hqr
  obtain ⟨rs, hmrs, hdrs, hsrs⟩ := merge_of_depth_eq h hrs
  obtain ⟨left, hleft, hdleft, hsleft⟩ :=
    merge_of_depth_eq h (hdqr.trans (hqr.trans hrs))
  obtain ⟨right, hright, hdright, hsright⟩ :=
    merge_of_depth_eq h (hqr.trans hdrs.symm)
  rw [hmqr, hmrs]
  show (∃ m, merge h qr s = some m ∧ merge h q rs = some m) ↔ _
  rw [hleft, hright]
  have hslots : ∀ (i : Nat) t u v, q[i]? = some t → r[i]? = some u → s[i]? = some v →
      left[i]? = some (h.join (h.join t u) v) ∧ right[i]? = some (h.join t (h.join u v)) :=
    fun i t u v ht hu hv =>
      ⟨hsleft i _ v (hsqr i t u ht hu) hv, hsright i t _ ht (hsrs i u v hu hv)⟩
  constructor
  · rintro ⟨m, hl, hr⟩ i t u v ht hu hv
    have e : left = right := Option.some.inj (hl.trans hr.symm)
    obtain ⟨hsl, hsr⟩ := hslots i t u v ht hu hv
    rw [e, hsr] at hsl
    exact (Hierarchy.join_assoc_iff hc).mp (Option.some.inj hsl).symm
  · intro hn
    refine ⟨left, rfl, congrArg some ?_⟩
    apply eq_of_slots (hdright.trans (hdleft.trans hdqr).symm)
    intro i x y hx hy
    have hi : i < q.depth := hdright ▸ lt_depth_of_slot hx
    obtain ⟨t, ht⟩ := exists_slot hi
    obtain ⟨u, hu⟩ := exists_slot (hqr ▸ hi)
    obtain ⟨v, hv⟩ := exists_slot (hrs ▸ hqr ▸ hi)
    obtain ⟨hsl, hsr⟩ := hslots i t u v ht hu hv
    have hassoc := (Hierarchy.join_assoc_iff hc).mpr (hn i t u v ht hu hv)
    rw [hsr] at hx
    rw [hsl] at hy
    rw [← Option.some.inj hx, ← Option.some.inj hy, hassoc]

/-! ## orders -/

theorem depth_eq_of_perm {d : Nat} {family : List Stack} (hd : ∀ s ∈ family, s.depth = d)
    (hp : List.Perm (held :: arriving) family) :
    held.depth = d ∧ ∀ s ∈ arriving, s.depth = held.depth := by
  have hall : ∀ s ∈ held :: arriving, s.depth = d := fun s hs => hd s (hp.mem_iff.mp hs)
  have hheld := hall held List.mem_cons_self
  exact ⟨hheld, fun s hs => (hall s (List.mem_cons_of_mem _ hs)).trans hheld.symm⟩

/-- in every order, stacks of one height merge -/
theorem mergeAll_of_perm (h : Hierarchy) {d : Nat} {family : List Stack}
    (hd : ∀ s ∈ family, s.depth = d) (hp : List.Perm (held :: arriving) family) :
    ∃ m, mergeAll h held arriving = some m ∧ m.depth = d ∧
      ∀ (i : Nat) x, held[i]? = some x →
        m[i]? = some ((typesAt i arriving).foldl h.join x) := by
  obtain ⟨hheld, harriving⟩ := depth_eq_of_perm hd hp
  obtain ⟨m, hm, hdepth, hslots⟩ := mergeAll_of_depth_eq h harriving
  exact ⟨m, hm, hdepth.trans hheld, hslots⟩

/-- an order in which two types that are not related come first -/
theorem exists_order_of_not_related {d i : Nat} {family : List Stack} {t u : CilType}
    (hd : ∀ s ∈ family, s.depth = d) (ht : t ∈ typesAt i family) (hu : u ∈ typesAt i family)
    (hr : ¬h.Related t u) :
    ∃ held arriving m, List.Perm (held :: arriving) family ∧
      mergeAll h held arriving = some m ∧ m[i]? = some .unknown := by
  obtain ⟨st, hst, hti⟩ := mem_typesAt.mp ht
  obtain ⟨su, hsu, hui⟩ := mem_typesAt.mp hu
  have hne : su ≠ st := by
    rintro rfl
    obtain rfl := Option.some.inj (hti.symm.trans hui)
    exact hr (.inl (h.assignable_self t))
  have hsu' : su ∈ family.erase st := (List.mem_erase_of_ne hne).mpr hsu
  have hp : List.Perm (st :: su :: (family.erase st).erase su) family :=
    ((List.perm_cons_erase hst).trans ((List.perm_cons_erase hsu').cons st)).symm
  obtain ⟨m, hm, -, hslots⟩ := mergeAll_of_perm h hd hp
  refine ⟨_, _, m, hp, hm, ?_⟩
  rw [hslots i t hti, typesAt_cons_of_eq_some hui, List.foldl_cons,
    Hierarchy.join_of_not_related hr, Hierarchy.foldl_join_unknown]

/-- an order in which a type that lies above all comes first -/
theorem exists_order_of_above {d i : Nat} {family : List Stack} {v : CilType}
    (hd : ∀ s ∈ family, s.depth = d) (hv : v ∈ typesAt i family)
    (habove : ∀ t ∈ typesAt i family, h.assignable t v = true) :
    ∃ held arriving m, List.Perm (held :: arriving) family ∧
      mergeAll h held arriving = some m ∧ m[i]? = some v := by
  obtain ⟨sv, hsv, hvi⟩ := mem_typesAt.mp hv
  have hp : List.Perm (sv :: family.erase sv) family := (List.perm_cons_erase hsv).symm
  obtain ⟨m, hm, -, hslots⟩ := mergeAll_of_perm h hd hp
  refine ⟨_, _, m, hp, hm, ?_⟩
  rw [hslots i v hvi, Hierarchy.foldl_join_of_assignable]
  intro x hx
  obtain ⟨s, hs, hxi⟩ := mem_typesAt.mp hx
  exact habove x (mem_typesAt.mpr ⟨s, List.mem_of_mem_erase hs, hxi⟩)

/-- two orders of stacks whose types are nowhere contested -/
theorem mergeAll_perm (hc : h.NoCircle) {d : Nat} {family : List Stack}
    (hd : ∀ s ∈ family, s.depth = d) (hn : ∀ i, ¬h.Contested (typesAt i family))
    (hp : List.Perm (held :: arriving) family) {held' : Stack} {arriving' : List Stack}
    (hp' : List.Perm (held' :: arriving') family) :
    mergeAll h held arriving = mergeAll h held' arriving' := by
  obtain ⟨m, hm, hdm, hslots⟩ := mergeAll_of_perm h hd hp
  obtain ⟨m', hm', hdm', hslots'⟩ := mergeAll_of_perm h hd hp'
  rw [hm, hm']
  apply congrArg some
  apply eq_of_slots (hdm.trans hdm'.symm)
  intro i x y hx hy
  have hi : i < d := hdm ▸ lt_depth_of_slot hx
  obtain ⟨t, ht⟩ := exists_slot ((depth_eq_of_perm hd hp).1.symm ▸ hi)
  obtain ⟨u, hu⟩ := exists_slot ((depth_eq_of_perm hd hp').1.symm ▸ hi)
  have htypes : List.Perm (typesAt i (held :: arriving)) (typesAt i family) := hp.filterMap _
  have htypes' : List.Perm (typesAt i (held' :: arriving')) (typesAt i family) := hp'.filterMap _
  have hni : ¬h.Contested (typesAt i (held :: arriving)) := fun hcontested =>
    hn i (hcontested.perm htypes)
  rw [typesAt_cons_of_eq_some ht] at htypes hni
  rw [typesAt_cons_of_eq_some hu] at htypes'
  rw [hslots i t ht] at hx
  rw [hslots' i u hu] at hy
  rw [← Option.some.inj hx, ← Option.some.inj hy]
  exact Hierarchy.foldl_join_perm hc (htypes.trans htypes'.symm) hni

/-- Stacks of one height merge to the same in every order, unless their types at some place are
contested. -/
theorem orders_agree_iff (hc : h.NoCircle) {d : Nat} {family : List Stack}
    (hd : ∀ s ∈ family, s.depth = d) :
    (∃ m, ∀ held arriving, List.Perm (held :: arriving) family →
        mergeAll h held arriving = some m) ↔
      ∀ i, ¬h.Contested (typesAt i family) := by
  constructor
  · rintro ⟨m, hm⟩ i ⟨⟨t, ht, u, hu, hr⟩, v, hv, hne, habove⟩
    obtain ⟨_, _, low, hp, hlow, hunknown⟩ := exists_order_of_not_related hd ht hu hr
    obtain ⟨_, _, high, hp', hhigh, hknown⟩ := exists_order_of_above hd hv habove
    obtain rfl := Option.some.inj ((hm _ _ hp).symm.trans hlow)
    obtain rfl := Option.some.inj ((hm _ _ hp').symm.trans hhigh)
    exact hne (Option.some.inj (hknown.symm.trans hunknown))
  · intro hn
    cases family with
    | nil => exact ⟨[], fun held arriving hp => absurd hp.length_eq (by simp)⟩
    | cons first rest =>
      obtain ⟨m, hm, -⟩ := mergeAll_of_perm h hd (.refl (first :: rest))
      refine ⟨m, ?_⟩
      intro held arriving hp
      rw [mergeAll_perm hc hd hn hp (.refl (first :: rest)), hm]

end Stack

end CilPatch
