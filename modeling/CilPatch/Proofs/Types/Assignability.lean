import Mathlib.Data.Finset.Card
import Mathlib.Data.Finset.Range
import Mathlib.Data.Fintype.Pigeonhole
import Mathlib.Logic.Relation
import CilPatch.Types.Subtyping

/-!
# Assignability is a preorder with a greatest element

A hierarchy may run in circles, so nothing here asks that it does not.

* `derives_iff`              `derives` says exactly that one or more base steps lead up: a chain of
                             bases that is longer than the table meets some class twice and can be
                             shortened (`exists_short`);
* `assignable_iff`           the seven ways in which a type is assignable to another;
* `assignable_trans`         assignability is transitive;
* `assignable_join_left`,
  `assignable_join_right`    a join lies above both types;
* `join_ne_left`             a join that is not the held type has left it for good: it is not
                             assignable back.
-/

namespace CilPatch.Hierarchy

/-! ## chains of bases -/

/-- the class `n` base steps above `name` -/
def above? (h : Hierarchy) : Nat → String → Option String
  | 0, name => some name
  | n + 1, name => (h.base? name).bind (h.above? n)

theorem above?_succ (h : Hierarchy) (n : Nat) (name : String) :
    h.above? (n + 1) name = (h.base? name).bind (h.above? n) := rfl

theorem above?_add (h : Hierarchy) (m n : Nat) (name : String) :
    h.above? (m + n) name = (h.above? m name).bind (h.above? n) := by
  induction m generalizing name with
  | zero =>
    rw [Nat.zero_add]
    rfl
  | succ m ih =>
    rw [Nat.add_right_comm, above?_succ, above?_succ]
    cases h.base? name with
    | none => rfl
    | some base => exact ih base

theorem mem_climb_iff (h : Hierarchy) (n : Nat) (name base : String) :
    base ∈ h.climb n name ↔ ∃ k < n, h.above? (k + 1) name = some base := by
  induction n generalizing name with
  | zero => simp [climb]
  | succ n ih =>
    rw [climb]
    cases hb : h.base? name with
    | none => simp [above?_succ, hb]
    | some next =>
      show base ∈ next :: h.climb n next ↔ _
      rw [List.mem_cons, ih]
      constructor
      · rintro (rfl | ⟨k, hk, e⟩)
        · exact ⟨0, Nat.succ_pos n, by rw [above?_succ, hb]; rfl⟩
        · exact ⟨k + 1, Nat.succ_lt_succ hk, by rw [above?_succ, hb]; exact e⟩
      · rintro ⟨k, hk, e⟩
        rw [above?_succ, hb] at e
        cases k with
        | zero => exact .inl (Option.some.inj e).symm
        | succ k => exact .inr ⟨k, Nat.lt_of_succ_lt_succ hk, e⟩

/-- a name with a base is registered -/
theorem mem_of_base? {h : Hierarchy} {name base : String} (e : h.base? name = some base) :
    name ∈ h.bases.map Prod.fst :=
  List.mem_map_of_mem (mem_bases_of_base? e)

/-- on the way to a class above, every class has a base -/
theorem exists_base_of_above? {h : Hierarchy} {k i : Nat} {name base : String}
    (e : h.above? (k + 1) name = some base) (hi : i ≤ k) :
    ∃ mid next, h.above? i name = some mid ∧ h.base? mid = some next := by
  obtain ⟨d, rfl⟩ := Nat.exists_eq_add_of_le hi
  rw [Nat.add_assoc, above?_add] at e
  cases hm : h.above? i name with
  | none => rw [hm] at e; exact absurd e (by simp)
  | some mid =>
    rw [hm] at e
    change h.above? (d + 1) mid = some base at e
    rw [above?_succ] at e
    cases hn : h.base? mid with
    | none => rw [hn] at e; exact absurd e (by simp)
    | some next => exact ⟨mid, next, rfl, hn⟩

/-- a class above is reached in no more steps than there are registered classes -/
theorem exists_short {h : Hierarchy} {k : Nat} {name base : String}
    (e : h.above? (k + 1) name = some base) :
    ∃ j < h.bases.length, h.above? (j + 1) name = some base := by
  induction k using Nat.strong_induction_on with
  | _ k ih =>
    by_cases hk : k < h.bases.length
    · exact ⟨k, hk, e⟩
    -- the classes on a chain that is too long are all registered, so one of them occurs twice
    have hcard : ((h.bases.map Prod.fst).toFinset).card < (Finset.range (k + 1)).card := by
      rw [Finset.card_range]
      have hle := List.toFinset_card_le (h.bases.map Prod.fst)
      rw [List.length_map] at hle
      omega
    have hmem : ∀ i ∈ Finset.range (k + 1),
        (h.above? i name).getD "" ∈ (h.bases.map Prod.fst).toFinset := by
      intro i hi
      have hle : i ≤ k := Nat.le_of_lt_succ (Finset.mem_range.mp hi)
      obtain ⟨mid, next, hm, hn⟩ := exists_base_of_above? e hle
      rw [hm, List.mem_toFinset]
      exact mem_of_base? hn
    obtain ⟨x, hx, y, hy, hxy, heq⟩ :=
      Finset.exists_ne_map_eq_of_card_lt_of_maps_to hcard hmem
    obtain ⟨i, j, hij, hj, hsame⟩ : ∃ i j, i < j ∧ j ≤ k ∧
        h.above? i name = h.above? j name := by
      have hx' : x ≤ k := Nat.le_of_lt_succ (Finset.mem_range.mp hx)
      have hy' : y ≤ k := Nat.le_of_lt_succ (Finset.mem_range.mp hy)
      obtain ⟨mx, _, ex, _⟩ := exists_base_of_above? e hx'
      obtain ⟨my, _, ey, _⟩ := exists_base_of_above? e hy'
      have hsame : h.above? x name = h.above? y name := by
        change (h.above? x name).getD "" = (h.above? y name).getD "" at heq
        rw [ex, ey] at heq ⊢
        exact congrArg some heq
      rcases Nat.lt_or_gt_of_ne hxy with hlt | hlt
      · exact ⟨x, y, hlt, hy', hsame⟩
      · exact ⟨y, x, hlt, hx', hsame.symm⟩
    have ecut : h.above? (i + (k - j) + 1) name = some base := by
      have e' := e
      rw [show k + 1 = j + (k - j + 1) by omega, above?_add, ← hsame, ← above?_add] at e'
      exact e'
    exact ih (i + (k - j)) (by omega) ecut

def Base (h : Hierarchy) (derived base : String) : Prop := h.base? derived = some base

theorem transGen_of_above? {h : Hierarchy} {k : Nat} {name base : String}
    (e : h.above? (k + 1) name = some base) : Relation.TransGen h.Base name base := by
  induction k generalizing name with
  | zero =>
    rw [above?_succ] at e
    cases hb : h.base? name with
    | none => rw [hb] at e; exact absurd e (by simp)
    | some next =>
      rw [hb] at e
      have hn : next = base := Option.some.inj e
      exact .single (hn ▸ hb)
  | succ k ih =>
    rw [above?_succ] at e
    cases hb : h.base? name with
    | none => rw [hb] at e; exact absurd e (by simp)
    | some next =>
      rw [hb] at e
      exact .head hb (ih e)

theorem above?_of_transGen {h : Hierarchy} {name base : String}
    (r : Relation.TransGen h.Base name base) : ∃ k, h.above? (k + 1) name = some base := by
  induction r with
  | single hb => exact ⟨0, by rw [above?_succ, show h.base? name = _ from hb]; rfl⟩
  | tail _ hb ih =>
    obtain ⟨k, hk⟩ := ih
    refine ⟨k + 1, ?_⟩
    rw [above?_add, hk]
    show h.above? 1 _ = _
    rw [above?_succ, show h.base? _ = _ from hb]
    rfl

/-- **Derivation is reachability** through one or more bases, in circles too. -/
theorem derives_iff {h : Hierarchy} {derived base : String} :
    h.derives derived base = true ↔ Relation.TransGen h.Base derived base := by
  unfold derives ancestors
  rw [List.contains_iff_mem, mem_climb_iff]
  constructor
  · rintro ⟨k, -, e⟩
    exact transGen_of_above? e
  · intro r
    obtain ⟨k, e⟩ := above?_of_transGen r
    exact exists_short e

theorem derives_trans {h : Hierarchy} {a b c : String} (hab : h.derives a b = true)
    (hbc : h.derives b c = true) : h.derives a c = true :=
  derives_iff.mpr ((derives_iff.mp hab).trans (derives_iff.mp hbc))

/-! ## assignability -/

theorem assignable_of_null (h : Hierarchy) {t : CilType} (ht : t.isReference = true) :
    h.assignable .null t = true := by
  unfold assignable
  simp [ht]

theorem assignable_object (h : Hierarchy) {s : CilType} (hs : s.isReference = true) :
    h.assignable s .object = true := by
  cases s <;> first | rfl | cases hs

theorem assignable_class {h : Hierarchy} {a b : String} (e : h.derives a b = true) :
    h.assignable (.classType a) (.classType b) = true := by
  unfold assignable
  simp [e]

theorem assignable_array {h : Hierarchy} {a b : CilType} (ha : a.isReference = true)
    (hb : b.isReference = true) (e : h.assignable a b = true) :
    h.assignable (.array a) (.array b) = true := by
  unfold assignable
  simp [ha, hb, e]

theorem assignable_i4 (h : Hierarchy) {s : CilType} (hs : s.widened = .i4) :
    h.assignable s .i4 = true := by
  cases s <;> first | rfl | cases hs

/-- the ways in which one type is assignable to another -/
theorem assignable_iff {h : Hierarchy} {s t : CilType} :
    h.assignable s t = true ↔
      s = t ∨ t = .unknown ∨ (s = .null ∧ t.isReference = true) ∨
        (t = .object ∧ s.isReference = true) ∨
        (∃ a b, s = .classType a ∧ t = .classType b ∧ h.derives a b = true) ∨
        (∃ a b, s = .array a ∧ t = .array b ∧ a.isReference = true ∧ b.isReference = true ∧
          h.assignable a b = true) ∨
        (t = .i4 ∧ s.widened = .i4) := by
  constructor
  · intro e
    rw [assignable.eq_def, Bool.or_eq_true, Bool.or_eq_true, beq_iff_eq,
      CilType.isUnknown_iff, or_assoc] at e
    refine e.imp_right (Or.imp_right fun e => ?_)
    split at e
    · exact .inl ⟨rfl, e⟩
    · exact .inr (.inl ⟨rfl, e⟩)
    · exact .inr (.inr (.inl ⟨_, _, rfl, rfl, e⟩))
    · rw [Bool.and_eq_true, Bool.and_eq_true, and_assoc] at e
      exact .inr (.inr (.inr (.inl ⟨_, _, rfl, rfl, e⟩)))
    · exact .inr (.inr (.inr (.inr ⟨rfl, beq_iff_eq.mp e⟩)))
    · cases e
  · rintro (rfl | rfl | ⟨rfl, ht⟩ | ⟨rfl, hs⟩ | ⟨a, b, rfl, rfl, e⟩ | ⟨a, b, rfl, rfl, ha, hb, e⟩ |
      ⟨rfl, hs⟩)
    · exact h.assignable_self _
    · exact h.assignable_unknown _
    · exact h.assignable_of_null ht
    · exact h.assignable_object hs
    · exact assignable_class e
    · exact assignable_array ha hb e
    · exact h.assignable_i4 hs

/-- nothing but `unknown` lies above `unknown` -/
theorem eq_unknown_of_assignable {h : Hierarchy} {t : CilType}
    (e : h.assignable .unknown t = true) : t = .unknown := by
  rcases assignable_iff.mp e with e | e | ⟨e, -⟩ | ⟨-, e⟩ | ⟨a, b, e, -⟩ | ⟨a, b, e, -⟩ | ⟨-, e⟩
  · exact e.symm
  · exact e
  all_goals cases e

/-- a reference type has nothing but reference types and `unknown` above it -/
theorem isReference_of_assignable {h : Hierarchy} {s t : CilType}
    (e : h.assignable s t = true) (hs : s.isReference = true) :
    t = .unknown ∨ t.isReference = true := by
  rcases assignable_iff.mp e with
    rfl | e | ⟨-, e⟩ | ⟨rfl, -⟩ | ⟨a, b, -, rfl, -⟩ | ⟨a, b, -, rfl, -⟩ | ⟨-, e⟩
  · exact .inr hs
  · exact .inl e
  · exact .inr e
  · exact .inr rfl
  · exact .inr rfl
  · exact .inr rfl
  · rw [CilType.widened_of_isReference hs] at e
    rw [e] at hs
    cases hs

theorem assignable_trans {h : Hierarchy} {s t u : CilType} (hst : h.assignable s t = true)
    (htu : h.assignable t u = true) : h.assignable s u = true := by
  rcases assignable_iff.mp hst with
    rfl | rfl | ⟨rfl, ht⟩ | ⟨rfl, hs⟩ | ⟨a, b, rfl, rfl, hab⟩ | ⟨a, b, rfl, rfl, ha, hb, hab⟩ |
      ⟨rfl, hs⟩
  · exact htu
  · rw [eq_unknown_of_assignable htu]
    exact h.assignable_unknown _
  · rcases isReference_of_assignable htu ht with rfl | hu
    · exact h.assignable_unknown _
    · exact h.assignable_of_null hu
  · rcases assignable_iff.mp htu with
      rfl | rfl | ⟨e, -⟩ | ⟨rfl, -⟩ | ⟨_, _, e, -⟩ | ⟨_, _, e, -⟩ | ⟨-, e⟩
    · exact hst
    · exact h.assignable_unknown _
    · cases e
    · exact hst
    all_goals cases e
  · rcases assignable_iff.mp htu with
      rfl | rfl | ⟨e, -⟩ | ⟨rfl, -⟩ | ⟨_, c, e, rfl, hbc⟩ | ⟨_, _, e, -⟩ | ⟨-, e⟩
    · exact hst
    · exact h.assignable_unknown _
    · cases e
    · exact h.assignable_object rfl
    · cases e
      exact assignable_class (derives_trans hab hbc)
    all_goals cases e
  · rcases assignable_iff.mp htu with
      rfl | rfl | ⟨e, -⟩ | ⟨rfl, -⟩ | ⟨_, _, e, -⟩ | ⟨_, c, e, rfl, -, hc, hbc⟩ | ⟨-, e⟩
    · exact hst
    · exact h.assignable_unknown _
    · cases e
    · exact h.assignable_object rfl
    · cases e
    · cases e
      exact assignable_array ha hc (assignable_trans hab hbc)
    · cases e
  · rcases assignable_iff.mp htu with
      rfl | rfl | ⟨e, -⟩ | ⟨-, e⟩ | ⟨_, _, e, -⟩ | ⟨_, _, e, -⟩ | ⟨rfl, -⟩
    · exact hst
    · exact h.assignable_unknown _
    · cases e
    · cases e
    · cases e
    · cases e
    · exact hst
termination_by sizeOf s

theorem isNumeric_of_isReference {t : CilType} (ht : t.isReference = true) :
    t.isNumeric = false := by
  cases t <;> first | rfl | cases ht

/-- what lies above a type that widens to a number widens to the same number, or is `unknown` -/
theorem widened_eq_of_assignable {h : Hierarchy} {s t : CilType} (e : h.assignable s t = true)
    (hs : s.widened.isNumeric = true) : t = .unknown ∨ t.widened = s.widened := by
  rcases assignable_iff.mp e with
    rfl | rfl | ⟨rfl, -⟩ | ⟨-, hr⟩ | ⟨a, b, rfl, -⟩ | ⟨a, b, rfl, -⟩ | ⟨rfl, hw⟩
  · exact .inr rfl
  · exact .inl rfl
  · cases hs
  · rw [CilType.widened_of_isReference hr, isNumeric_of_isReference hr] at hs
    cases hs
  · cases hs
  · cases hs
  · exact .inr hw.symm

/-- what lies above a type that does not widen to a number does not either -/
theorem not_isNumeric_of_assignable {h : Hierarchy} {s t : CilType}
    (e : h.assignable s t = true) (hs : s.widened.isNumeric = false) :
    t.widened.isNumeric = false := by
  rcases assignable_iff.mp e with
    rfl | rfl | ⟨-, hr⟩ | ⟨rfl, -⟩ | ⟨a, b, -, rfl, -⟩ | ⟨a, b, -, rfl, -⟩ | ⟨rfl, hw⟩
  · exact hs
  · rfl
  · rw [CilType.widened_of_isReference hr]
    exact isNumeric_of_isReference hr
  · rfl
  · rfl
  · rfl
  · rw [hw] at hs
    cases hs

/-- a type is assignable to what it widens to -/
theorem assignable_widened (h : Hierarchy) (t : CilType) : h.assignable t t.widened = true := by
  by_cases e : t.widened = .i4
  · rw [e]
    exact assignable_iff.mpr (.inr (.inr (.inr (.inr (.inr (.inr ⟨rfl, e⟩))))))
  · have hw : t.widened = t := by
      cases t <;> first | rfl | exact absurd rfl e
    rw [hw]
    exact h.assignable_self t

theorem widened_mono {h : Hierarchy} {s t : CilType} (e : h.assignable s t = true) :
    h.assignable s.widened t.widened = true := by
  by_cases hs : s.widened = s
  · rw [hs]
    exact assignable_trans e (h.assignable_widened t)
  · have hi : s.widened = .i4 := by
      cases s <;> first | rfl | exact absurd rfl hs
    rcases widened_eq_of_assignable e (by rw [hi]; rfl) with rfl | hw
    · exact h.assignable_unknown _
    · rw [hw]
      exact h.assignable_self _

/-! ## joins -/

theorem assignable_join_left (h : Hierarchy) (held arriving : CilType) :
    h.assignable held (h.join held arriving) = true := by
  unfold join
  split
  · exact h.assignable_self held
  · split
    · exact h.assignable_unknown held
    · split
      · exact h.assignable_self held
      · split
        · next e => exact e
        · exact h.assignable_unknown held

theorem assignable_join_right (h : Hierarchy) (held arriving : CilType) :
    h.assignable arriving (h.join held arriving) = true := by
  unfold join
  split
  · next e => exact e ▸ h.assignable_self held
  · split
    · exact h.assignable_unknown arriving
    · split
      · next e => exact e
      · split
        · exact h.assignable_self arriving
        · exact h.assignable_unknown arriving

/-- a join that is not the held type is not assignable back to it -/
theorem join_ne_left {h : Hierarchy} {held arriving : CilType}
    (hne : h.join held arriving ≠ held) : h.assignable (h.join held arriving) held = false := by
  have hu : held ≠ .unknown → h.assignable .unknown held = false := by
    intro hu
    rw [Bool.eq_false_iff]
    exact fun e => hu (eq_unknown_of_assignable e)
  generalize hj : h.join held arriving = j at hne ⊢
  unfold join at hj
  split at hj
  · exact absurd hj.symm hne
  · split at hj
    · exact hj ▸ hu (hj ▸ Ne.symm hne)
    · split at hj
      · exact absurd hj.symm hne
      · next e =>
        split at hj
        · exact hj ▸ Bool.eq_false_iff.mpr e
        · exact hj ▸ hu (hj ▸ Ne.symm hne)

end CilPatch.Hierarchy
