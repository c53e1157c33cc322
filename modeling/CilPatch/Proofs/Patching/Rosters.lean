import Mathlib.Data.List.Nodup
import CilPatch.Patching.Roster

/-!
# What rosters hold

* `Roster.Sound`   what a registry keeps up: no target has two lists or an empty one, and along a
                   list the numbers increase and no key comes twice;
* `Sound.put`, `Sound.erase`, `Sound.sift`  the operations that keep it up;
* `entries_perm`   a roster whose lists are those of a log holds the entries of the log, so what is
                   counted in one can be counted in the other.
-/

namespace CilPatch

/-- a patch and the target that it is registered for -/
structure Entry where
  target : String
  patch : Patch

/-- a list is as much longer than what is kept of it as there are others -/
theorem length_sub_length_filter {α : Type} (xs : List α) (keep : α → Bool) :
    xs.length - (xs.filter keep).length = xs.countP fun x => !keep x := by
  have hsplit := List.length_eq_countP_add_countP keep (l := xs)
  simp only [Bool.not_eq_true, Bool.decide_eq_false] at hsplit
  rw [← List.countP_eq_length_filter]
  omega

namespace Patch

/-- what a patch is known by among those of a target -/
def key (p : Patch) : String × String := (p.owner, p.anchor)

theorem isKeyed_iff {p : Patch} {owner anchor : String} :
    p.isKeyed owner anchor = true ↔ p.key = (owner, anchor) := by
  unfold isKeyed key
  rw [Bool.and_eq_true, beq_iff_eq, beq_iff_eq, Prod.mk.injEq]

end Patch

namespace Roster

variable {R : Roster} {list : List Registration} {target : String} {next next' : Nat}

/-! ## one list -/

/-- the registrations of a target, with `next` as the number of the next one -/
structure Numbered (list : List Registration) (next : Nat) : Prop where
  increasing : list.Pairwise fun x y => x.number < y.number
  below : ∀ x ∈ list, x.number < next
  keyed : (list.map (·.patch.key)).Nodup

namespace Numbered

theorem nil (next : Nat) : Numbered [] next where
  increasing := List.Pairwise.nil
  below := fun _ hx => absurd hx List.not_mem_nil
  keyed := List.nodup_nil

theorem filter (h : Numbered list next) (f : Registration → Bool) :
    Numbered (list.filter f) next where
  increasing := h.increasing.filter f
  below := fun x hx => h.below x (List.mem_of_mem_filter hx)
  keyed := h.keyed.sublist (List.filter_sublist.map _)

theorem mono (h : Numbered list next) (hn : next ≤ next') : Numbered list next' :=
  { h with below := fun x hx => Nat.lt_of_lt_of_le (h.below x hx) hn }

/-- the next registration may be one more, if its key is new -/
theorem concat (h : Numbered list next) {p : Patch} (hp : ∀ x ∈ list, x.patch.key ≠ p.key) :
    Numbered (list ++ [⟨next, p⟩]) (next + 1) where
  increasing := by
    refine List.pairwise_append.mpr ⟨h.increasing, List.pairwise_singleton _ _, ?_⟩
    intro x hx y hy
    rw [List.mem_singleton.mp hy]
    exact h.below x hx
  below := by
    intro x hx
    rcases List.mem_append.mp hx with hx | hx
    · exact Nat.lt_succ_of_lt (h.below x hx)
    · rw [List.mem_singleton.mp hx]
      exact Nat.lt_succ_self next
  keyed := by
    rw [List.map_append]
    refine List.Nodup.append h.keyed (List.nodup_singleton _) fun key hold hnew => ?_
    obtain ⟨x, hx, rfl⟩ := List.mem_map.mp hold
    exact hp x hx (List.mem_singleton.mp hnew)

end Numbered

/-! ## all lists -/

/-- no target has two lists or an empty one, and every list is in order -/
structure Sound (R : Roster) (next : Nat) : Prop where
  distinct : R.targets.Nodup
  nonempty : ∀ row ∈ R, row.2 ≠ []
  numbered : ∀ row ∈ R, Numbered row.2 next

theorem mem_of_lookup (h : R.lookup target = some list) : (target, list) ∈ R := by
  obtain ⟨before, after, rfl, -⟩ := List.lookup_eq_some_iff.mp h
  exact List.mem_append_right _ List.mem_cons_self

theorem listed_of_lookup (h : R.lookup target = some list) : R.listed target = list := by
  unfold listed
  rw [h]
  rfl

theorem listed_of_lookup_none (h : R.lookup target = none) : R.listed target = [] := by
  unfold listed
  rw [h]
  rfl

theorem listed_of_not_mem (h : target ∉ R.targets) : R.listed target = [] := by
  cases hl : R.lookup target with
  | none => exact listed_of_lookup_none hl
  | some list =>
    have hmem : target ∈ R.targets := List.mem_map.mpr ⟨_, mem_of_lookup hl, rfl⟩
    exact absurd hmem h

theorem listed_cons (name : String) (list : List Registration) (R : Roster) (target : String) :
    listed ((name, list) :: R) target = if target = name then list else R.listed target := by
  unfold listed
  rw [List.lookup_cons]
  by_cases ht : target = name
  · rw [if_pos ht, beq_iff_eq.mpr ht]
    rfl
  · have hne : (target == name) = false := by simpa using ht
    rw [if_neg ht, hne]

/-- with one list for each target, to take out the empty ones changes no list -/
theorem listed_dropEmpty (h : R.targets.Nodup) (target : String) :
    R.dropEmpty.listed target = R.listed target := by
  unfold dropEmpty
  induction R with
  | nil => rfl
  | cons row R ih =>
    obtain ⟨name, list⟩ := row
    obtain ⟨hname, hrest⟩ := List.nodup_cons.mp h
    cases list with
    | nil =>
      rw [List.filter_cons_of_neg (by simp), ih hrest, listed_cons]
      split
      next ht => rw [ht, listed_of_not_mem hname]
      · rfl
    | cons x list =>
      rw [List.filter_cons_of_pos (by simp), listed_cons, listed_cons, ih hrest]

theorem targets_retain (R : Roster) (keep : Patch → Bool) :
    (R.retain keep).targets = R.targets := by
  unfold retain targets
  rw [List.map_map]
  rfl

namespace Sound

theorem nil (next : Nat) : Sound [] next where
  distinct := List.nodup_nil
  nonempty := fun _ h => absurd h List.not_mem_nil
  numbered := fun _ h => absurd h List.not_mem_nil

theorem listed (h : Sound R next) (target : String) : Numbered (R.listed target) next := by
  unfold Roster.listed
  cases hl : R.lookup target with
  | none => exact Numbered.nil next
  | some list => exact h.numbered _ (mem_of_lookup hl)

/-- its targets are those for which something is listed -/
theorem mem_targets (h : Sound R next) : target ∈ R.targets ↔ R.listed target ≠ [] := by
  constructor
  · intro hmem hnil
    obtain ⟨⟨name, list⟩, hrow, rfl⟩ := List.mem_map.mp hmem
    cases hl : R.lookup name with
    | none => exact absurd rfl (bne_iff_ne.mp (List.lookup_eq_none_iff.mp hl _ hrow))
    | some other =>
      rw [listed_of_lookup hl] at hnil
      exact h.nonempty _ (mem_of_lookup hl) hnil
  · intro hne
    by_contra hmem
    exact hne (listed_of_not_mem hmem)

theorem erase (h : Sound R next) (target : String) : Sound (R.erase target) next where
  distinct := h.distinct.sublist (List.filter_sublist.map _)
  nonempty := fun row hrow => h.nonempty row (List.mem_of_mem_filter hrow)
  numbered := fun row hrow => h.numbered row (List.mem_of_mem_filter hrow)

theorem put (h : Sound R next) (target : String) (hlist : Numbered list next')
    (hne : list ≠ []) (hn : next ≤ next') : Sound (R.put target list) next' where
  distinct := by
    refine List.nodup_cons.mpr ⟨fun hmem => ?_, (h.erase target).distinct⟩
    obtain ⟨row, hrow, ht⟩ := List.mem_map.mp hmem
    have hkept := (List.mem_filter.mp hrow).2
    rw [bne_iff_ne] at hkept
    exact hkept ht
  nonempty := by
    intro row hrow
    rcases List.mem_cons.mp hrow with rfl | hrow
    · exact hne
    · exact (h.erase target).nonempty row hrow
  numbered := by
    intro row hrow
    rcases List.mem_cons.mp hrow with rfl | hrow
    · exact hlist
    · exact ((h.erase target).numbered row hrow).mono hn

/-- where patches are removed from all lists, those that become empty have to go -/
theorem sift (h : Sound R next) (keep : Patch → Bool) :
    Sound (R.retain keep).dropEmpty next where
  distinct := by
    have hkeys : (R.retain keep).targets.Nodup := by
      rw [targets_retain]
      exact h.distinct
    exact hkeys.sublist (List.filter_sublist.map _)
  nonempty := by
    intro row hrow hnil
    have hkept := (List.mem_filter.mp hrow).2
    rw [hnil] at hkept
    cases hkept
  numbered := by
    intro row hrow
    obtain ⟨old, hold, rfl⟩ := List.mem_map.mp (List.mem_of_mem_filter hrow)
    exact (h.numbered old hold).filter _

theorem listed_sift (h : Sound R next) (keep : Patch → Bool) (target : String) :
    (R.retain keep).dropEmpty.listed target = (R.listed target).filter fun x => keep x.patch := by
  have hkeys : (R.retain keep).targets.Nodup := by
    rw [targets_retain]
    exact h.distinct
  rw [listed_dropEmpty hkeys, listed_retain]

end Sound

/-! ## all entries -/

/-- what is registered, target after target -/
def entries (R : Roster) : List Entry :=
  R.flatMap fun row => row.2.map fun x => ⟨row.1, x.patch⟩

theorem size_eq (R : Roster) : R.size = R.entries.length := by
  unfold entries
  induction R with
  | nil => rfl
  | cons row R ih => rw [size, ih, List.flatMap_cons, List.length_append, List.length_map]

theorem entries_dropEmpty (R : Roster) : R.dropEmpty.entries = R.entries := by
  unfold dropEmpty entries
  induction R with
  | nil => rfl
  | cons row R ih =>
    obtain ⟨name, list⟩ := row
    cases list with
    | nil =>
      rw [List.filter_cons_of_neg (by simp), ih]
      rfl
    | cons x list =>
      rw [List.filter_cons_of_pos (by simp), List.flatMap_cons, List.flatMap_cons, ih]

theorem entries_retain (R : Roster) (keep : Patch → Bool) :
    (R.retain keep).entries = R.entries.filter fun e => keep e.patch := by
  unfold retain entries
  induction R with
  | nil => rfl
  | cons row R ih =>
    rw [List.map_cons, List.flatMap_cons, List.flatMap_cons, List.filter_append, ih,
      List.filter_map]
    rfl

/-- what patches are removed from all lists, and nothing else, makes the difference in size -/
theorem size_sift (R : Roster) (keep : Patch → Bool) :
    R.size - (R.retain keep).dropEmpty.size = R.entries.countP fun e => !keep e.patch := by
  rw [size_eq, size_eq, entries_dropEmpty, entries_retain, length_sub_length_filter]

theorem map_mk_filter (log : List Entry) (target : String) :
    ((log.filter (·.target == target)).map (·.patch)).map (Entry.mk target)
      = log.filter (·.target == target) := by
  have hself : ∀ e ∈ log.filter (·.target == target), Entry.mk target e.patch = e := by
    intro e he
    have ht := (List.mem_filter.mp he).2
    rw [beq_iff_eq] at ht
    rw [← ht]
  rw [List.map_map]
  exact (List.map_congr_left hself).trans (List.map_id' _)

/-- **The lists of a log hold the entries of the log**, if every target has one list. -/
theorem entries_perm {log : List Entry} (hd : R.targets.Nodup)
    (h : ∀ target, (R.listed target).map (·.patch)
      = (log.filter (·.target == target)).map (·.patch)) : R.entries.Perm log := by
  induction R generalizing log with
  | nil =>
    have hlog : log = [] := by
      refine List.eq_nil_iff_forall_not_mem.mpr fun e he => ?_
      have hmem : e ∈ log.filter (·.target == e.target) :=
        List.mem_filter.mpr ⟨he, beq_self_eq_true e.target⟩
      rw [List.map_eq_nil_iff.mp (h e.target).symm] at hmem
      cases hmem
    rw [hlog]
    exact List.Perm.refl []
  | cons row R ih =>
    obtain ⟨name, list⟩ := row
    obtain ⟨hname, hrest⟩ := List.nodup_cons.mp hd
    have hhead : list.map (fun x => (⟨name, x.patch⟩ : Entry))
        = log.filter (·.target == name) := by
      have hn := h name
      rw [listed_cons, if_pos rfl] at hn
      rw [← map_mk_filter, ← hn, List.map_map]
      rfl
    have htail : (entries R).Perm (log.filter fun e => !(e.target == name)) := by
      refine ih hrest fun target => ?_
      rw [List.filter_filter]
      by_cases ht : target = name
      · rw [ht, listed_of_not_mem hname]
        simp
      · have hn := h target
        rw [listed_cons, if_neg ht] at hn
        rw [hn]
        refine congrArg _ (List.filter_congr fun e _ => ?_)
        by_cases he : e.target = target
        · simp [he, ht]
        · simp [he]
    show (list.map _ ++ entries R).Perm log
    rw [hhead]
    exact (htail.append_left _).trans (List.filter_append_perm _ log)

end Roster

end CilPatch
