import CilPatch.Proofs.Stack.Transfer
import CilPatch.Proofs.Types.Assignability
import CilPatch.Stack.Basic

/-!
# Stacks that fit one another

A stack fits another if it has the same height and every value may be used where the other has one:
`Stack.Fits` is assignability slot by slot.

* `fits_merge_left`,
  `fits_merge_right`   both stacks that are merged fit the result;
* `transfer_mono`      an instruction that can be carried out on a stack can be carried out on every
                       stack that fits it, and the results fit again;
* `transfer_of_fits`   so it can be carried out on both stacks or on neither.
-/

namespace CilPatch

namespace Stack

/-- `s` may stand where `m` is expected -/
def Fits (h : Hierarchy) (s m : Stack) : Prop :=
  List.Forall₂ (fun a b => h.assignable a b = true) s m

variable {h : Hierarchy}

theorem fits_refl (h : Hierarchy) (s : Stack) : Fits h s s :=
  List.forall₂_same.mpr fun t _ => h.assignable_self t

theorem fits_trans {a b c : Stack} (hab : Fits h a b) (hbc : Fits h b c) : Fits h a c := by
  unfold Fits at *
  induction hab generalizing c with
  | nil => exact hbc
  | cons hd _ ih =>
    cases hbc with
    | cons hd' htl => exact .cons (Hierarchy.assignable_trans hd hd') (ih htl)

theorem Fits.depth_eq {s m : Stack} (hf : Fits h s m) : s.depth = m.depth := hf.length_eq

theorem fits_nil_iff {m : Stack} : Fits h [] m ↔ m = [] := List.forall₂_nil_left_iff

/-! ## merges -/

theorem merge_eq_some_iff {held arriving m : Stack} :
    merge h held arriving = some m ↔
      held.depth = arriving.depth ∧ m = List.zipWith h.join held arriving := by
  unfold merge
  split
  · next e => simp [e, eq_comm]
  · next e => simp [e]

theorem merge_eq_none_iff {held arriving : Stack} :
    merge h held arriving = none ↔ held.depth ≠ arriving.depth := by
  unfold merge
  split <;> simp_all

theorem fits_merge_left {held arriving m : Stack} (hm : merge h held arriving = some m) :
    Fits h held m := by
  obtain ⟨hd, rfl⟩ := merge_eq_some_iff.mp hm
  clear hm
  unfold Fits depth at *
  induction held generalizing arriving with
  | nil => exact .nil
  | cons a held ih =>
    cases arriving with
    | nil => cases hd
    | cons b arriving =>
      exact .cons (h.assignable_join_left a b) (ih (Nat.succ.inj hd))

theorem fits_merge_right {held arriving m : Stack} (hm : merge h held arriving = some m) :
    Fits h arriving m := by
  obtain ⟨hd, rfl⟩ := merge_eq_some_iff.mp hm
  clear hm
  unfold Fits depth at *
  induction held generalizing arriving with
  | nil =>
    cases arriving with
    | nil => exact .nil
    | cons b arriving => cases hd
  | cons a held ih =>
    cases arriving with
    | nil => cases hd
    | cons b arriving =>
      exact .cons (h.assignable_join_right a b) (ih (Nat.succ.inj hd))

end Stack

/-! ## transfers -/

/-- the numbers whose combination is known -/
theorem isNumeric_of_arithmetic_ne {a b : CilType} (hne : arithmetic a b ≠ .unknown) :
    a.widened.isNumeric = true ∧ b.widened.isNumeric = true := by
  unfold arithmetic at hne
  split at hne
  · next h => exact ⟨h.2, h.1 ▸ h.2⟩
  · split at hne
    · next ha hb => exact ⟨ha ▸ rfl, hb ▸ rfl⟩
    · next ha hb => exact ⟨ha ▸ rfl, hb ▸ rfl⟩
    · exact absurd rfl hne

theorem arithmetic_congr {a b a' b' : CilType} (ha : a'.widened = a.widened)
    (hb : b'.widened = b.widened) : arithmetic a' b' = arithmetic a b := by
  unfold arithmetic
  rw [ha, hb]

theorem arithmetic_mono {h : Hierarchy} {a b a' b' : CilType} (ha : h.assignable a a' = true)
    (hb : h.assignable b b' = true) :
    h.assignable (arithmetic a b) (arithmetic a' b') = true := by
  by_cases hu : arithmetic a' b' = .unknown
  · rw [hu]
    exact h.assignable_unknown _
  -- a known result needs two numbers above, and a number lies only above its own kind
  have below : ∀ {t t' : CilType}, h.assignable t t' = true → t'.widened.isNumeric = true →
      t'.widened = t.widened := by
    intro t t' e hn
    cases ht : t.widened.isNumeric with
    | false =>
      rw [Hierarchy.not_isNumeric_of_assignable e ht] at hn
      cases hn
    | true =>
      rcases Hierarchy.widened_eq_of_assignable e ht with rfl | hw
      · cases hn
      · exact hw
  obtain ⟨na, nb⟩ := isNumeric_of_arithmetic_ne hu
  rw [arithmetic_congr (below ha na) (below hb nb)]
  exact h.assignable_self _

namespace Instruction

theorem binaryResult_mono {h : Hierarchy} {taken taken' : List CilType}
    (ht : Stack.Fits h taken taken') :
    h.assignable (binaryResult taken) (binaryResult taken') = true := by
  unfold Stack.Fits at ht
  rcases ht with _ | ⟨hr, _ | ⟨hl, _ | ⟨_, _⟩⟩⟩
  · exact h.assignable_self _
  · exact h.assignable_self _
  · exact arithmetic_mono hl hr
  · exact h.assignable_self _

theorem unaryResult_mono {h : Hierarchy} {taken taken' : List CilType}
    (ht : Stack.Fits h taken taken') :
    h.assignable (unaryResult taken) (unaryResult taken') = true := by
  unfold unaryResult
  rcases getLast?_rel ht with ⟨hl, hr⟩ | ⟨a, b, hl, hr, hab⟩
  · rw [hl, hr]
    exact h.assignable_self _
  · rw [hl, hr]
    exact Hierarchy.widened_mono hab

theorem produced_mono (h : Hierarchy) (i : Instruction) (sig : Option Signature) :
    i.RespectedBy sig fun a b => h.assignable a b = true := by
  intro taken taken' ht
  rcases produced_cases i sig with hp | hp | hp
  · rw [hp taken, hp taken']
    exact h.assignable_self _
  · rw [hp, hp]
    exact binaryResult_mono ht
  · rw [hp, hp]
    exact unaryResult_mono ht

/-- **Transfers are monotone** for every operation. -/
theorem transfer_mono {h : Hierarchy} {i : Instruction} {sig : Option Signature} {offset : Nat}
    {s m t : Stack} (hs : Stack.Fits h s m) (e : i.transfer sig offset s = .ok t) :
    ∃ t', i.transfer sig offset m = .ok t' ∧ Stack.Fits h t t' :=
  transfer_rel h.assignable_self (produced_mono h i sig) hs e

/-- **Stacks that fit go through the same.**  An instruction can be carried out on both or on
neither, with the same fault then; and the results fit as the stacks before it do. -/
theorem transfer_of_fits {h : Hierarchy} {s m : Stack} (hs : Stack.Fits h s m) (i : Instruction)
    (sig : Option Signature) (offset : Nat) :
    ((∃ t, i.transfer sig offset s = .ok t) ↔ ∃ t', i.transfer sig offset m = .ok t') ∧
      (∀ t t', i.transfer sig offset s = .ok t → i.transfer sig offset m = .ok t' →
        Stack.Fits h t t') ∧
      ∀ f, i.transfer sig offset s = .error f ↔ i.transfer sig offset m = .error f := by
  have hd := hs.depth_eq
  refine ⟨⟨?_, ?_⟩, ?_, fun f => ⟨?_, ?_⟩⟩
  · rintro ⟨t, ht⟩
    obtain ⟨t', ht', -⟩ := transfer_mono hs ht
    exact ⟨t', ht'⟩
  · -- fitting goes one way only, but success is a matter of the height
    rintro ⟨t', ht'⟩
    obtain ⟨t, ht, -⟩ := transfer_ok_of_depth_eq hd.symm ht'
    exact ⟨t, ht⟩
  · intro t t' ht ht'
    obtain ⟨u, hu, hfits⟩ := transfer_mono hs ht
    cases ht'.symm.trans hu
    exact hfits
  · exact transfer_error_of_depth_eq hd
  · exact transfer_error_of_depth_eq hd.symm

/-- the sum of two small numbers fits the sum where one of them is no longer known -/
theorem transfer_of_fits_add :
    Stack.Fits .empty [.boolean, .i4, .null] [.i4, .unknown, .string] ∧
      Instruction.transfer { opcode := .add } none 0 [.boolean, .i4, .null] = .ok [.i4, .null] ∧
      Instruction.transfer { opcode := .add } none 0 [.i4, .unknown, .string] =
        .ok [.unknown, .string] ∧
      Stack.Fits .empty [.i4, .null] [.unknown, .string] := by
  have hs : Stack.Fits .empty [.boolean, .i4, .null] [.i4, .unknown, .string] := by
    unfold Stack.Fits
    decide
  exact ⟨hs, rfl, rfl, (transfer_of_fits hs { opcode := .add } none 0).2.1 _ _ rfl rfl⟩

end Instruction

end CilPatch
