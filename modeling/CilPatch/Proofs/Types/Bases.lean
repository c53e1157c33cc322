import CilPatch.Proofs.Types.Assignability

/-!
# Registered bases

`registered` is the hierarchy that a list of registrations makes: the base of a class is the one
that was registered last (`base?_registered`).
-/

namespace CilPatch.Hierarchy

/-- the hierarchy after these registrations, each a class and its base, the first one first -/
def registered (registrations : List (String × String)) : Hierarchy :=
  registrations.foldl (fun h r => h.addBase r.1 r.2) empty

/-- `base` is what was registered last for `derived` -/
def CurrentBase (registrations : List (String × String)) (derived base : String) : Prop :=
  ∃ earlier later, registrations = earlier ++ (derived, base) :: later ∧ ∀ r ∈ later, r.1 ≠ derived

theorem registered_concat (registrations : List (String × String)) (r : String × String) :
    registered (registrations ++ [r]) = (registered registrations).addBase r.1 r.2 := by
  simp [registered, List.foldl_append]

theorem not_currentBase_nil (derived base : String) : ¬CurrentBase [] derived base := by
  rintro ⟨earlier, later, h, -⟩
  simp at h

theorem currentBase_concat (registrations : List (String × String)) (r : String × String)
    (derived base : String) :
    CurrentBase (registrations ++ [r]) derived base ↔
      r = (derived, base) ∨ r.1 ≠ derived ∧ CurrentBase registrations derived base := by
  constructor
  · rintro ⟨earlier, later, h, hlater⟩
    rcases List.eq_nil_or_concat later with rfl | ⟨later, last, rfl⟩
    · left
      have hlast := (List.append_inj' h rfl).2
      simpa using hlast
    · right
      rw [List.concat_eq_append] at h hlater
      rw [← List.cons_append, ← List.append_assoc] at h
      obtain ⟨hfront, hlast⟩ := List.append_inj' h rfl
      obtain rfl : r = last := by simpa using hlast
      refine ⟨hlater r (by simp), earlier, later, hfront, ?_⟩
      intro r' hr'
      exact hlater r' (List.mem_append_left _ hr')
  · rintro (rfl | ⟨hne, earlier, later, rfl, hlater⟩)
    · exact ⟨registrations, [], rfl, by simp⟩
    · refine ⟨earlier, later ++ [r], by simp, ?_⟩
      intro r' hr'
      rcases List.mem_append.mp hr' with hr' | hr'
      · exact hlater r' hr'
      · rw [List.mem_singleton.mp hr']
        exact hne

theorem base?_registered (registrations : List (String × String)) (derived base : String) :
    (registered registrations).base? derived = some base ↔
      CurrentBase registrations derived base := by
  induction registrations using List.reverseRecOn with
  | nil =>
    constructor
    · intro h
      cases h
    · intro h
      exact absurd h (not_currentBase_nil derived base)
  | append_singleton registrations r ih =>
    rw [registered_concat, base?_addBase, currentBase_concat]
    by_cases e : derived = r.1
    · rw [if_pos e, e]
      constructor
      · intro h
        left
        rw [← Option.some.inj h]
      · rintro (h | ⟨hne, -⟩)
        · rw [h]
        · exact absurd rfl hne
    · rw [if_neg e, ih]
      constructor
      · exact fun h => .inr ⟨Ne.symm e, h⟩
      · rintro (h | ⟨-, h⟩)
        · exact absurd (congrArg Prod.fst h).symm e
        · exact h

theorem base_registered (registrations : List (String × String)) :
    (registered registrations).Base = CurrentBase registrations := by
  funext derived base
  exact propext (base?_registered registrations derived base)

end CilPatch.Hierarchy
