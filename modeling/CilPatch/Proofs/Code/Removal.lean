import CilPatch.Proofs.Code.Bounds
import CilPatch.Proofs.Code.Splice

/-!
# A stretch of code for another

What `Body.substitute` leaves, said without it: the code in front of the stretch, the new code and
the code behind, in which one instruction alone is changed (`code_substitute`).  It is the one that
now stands where the stretch began, and what it gets are the labels that went (`Label.missing`).

So a label that marked an instruction outside the stretch goes where that instruction goes, and
every other one leads to the place where the stretch began, as long as anything is left there
(`resolve_substitute`).
-/

namespace CilPatch

namespace Label

/-- the labels of `extra` that are not among `held`, each of them once -/
def missing (held extra : List Label) : List Label := (extra.filter (· ∉ held)).eraseDups

theorem missing_nil (held : List Label) : missing held [] = [] := rfl

theorem missing_cons (held : List Label) (l : Label) (extra : List Label) :
    missing held (l :: extra) =
      if l ∈ held then missing held extra else l :: missing (held ++ [l]) extra := by
  unfold missing
  split
  · next hl => rw [List.filter_cons_of_neg (by simpa using hl)]
  · next hl =>
    have hrest : (extra.filter (· ∉ held)).filter (fun l' => !l' == l) =
        extra.filter (· ∉ held ++ [l]) := by
      rw [List.filter_filter]
      refine List.filter_congr fun l' _ => ?_
      simp [and_comm, Bool.beq_eq_decide_eq]
    rw [List.filter_cons_of_pos (by simpa using hl), List.eraseDups_cons, hrest]

/-- labels that join others come in behind them, in order and without duplicates -/
theorem union_eq (held extra : List Label) : union held extra = held ++ missing held extra := by
  induction extra generalizing held with
  | nil => rw [union_nil, missing_nil, List.append_nil]
  | cons l extra ih =>
    rw [union_cons, missing_cons, ih]
    split
    · rfl
    · rw [List.append_assoc]
      rfl

end Label

namespace Instruction

/-- `x` with further labels behind its own, none of which it had -/
def receive (labels : List Label) (x : Instruction) : Instruction :=
  { x with labels := x.labels ++ Label.missing x.labels labels }

theorem gain_eq_receive : gain = receive := by
  funext labels x
  unfold gain receive
  rw [Label.union_eq]

theorem mem_labels_receive {labels : List Label} {x : Instruction} {l : Label} :
    l ∈ (receive labels x).labels ↔ l ∈ x.labels ∨ l ∈ labels := by
  rw [← gain_eq_receive]
  exact Label.mem_union

end Instruction

namespace Body

open Instruction

variable {b : Body} {code : List Instruction} {p n : Nat}

/-- the code with another stretch in the place of `n` instructions, where no label has moved yet -/
def exchanged (b : Body) (p n : Nat) (code : List Instruction) : List Instruction :=
  b.code.take p ++ code ++ b.code.drop (p + n)

/-- **One stretch goes and another one comes**; the labels that went are the only other change. -/
theorem code_substitute (h : p ≤ b.length) :
    (b.substitute p n code).code =
      (b.exchanged p n code).modify p (receive (allLabels (b.window p n))) := by
  have hfront : (b.code.take p).length = p := List.length_take_of_le h
  have hmodify := modify_gain (allLabels (b.window p n)) (b.code.take p) (b.tailAfter p n code)
  rw [hfront, gain_eq_receive] at hmodify
  unfold exchanged
  rw [List.append_assoc]
  exact hmodify.symm

theorem getElem?_exchanged_of_lt {i : Nat} (hi : i < p) (h : p ≤ b.length) :
    (b.exchanged p n code)[i]? = b.instruction? i := by
  have hfront : (b.code.take p).length = p := List.length_take_of_le h
  unfold exchanged instruction?
  rw [List.append_assoc, List.getElem?_append_left (by omega), List.getElem?_take_of_lt hi]

theorem getElem?_exchanged_inside {i : Nat} (hi : i < code.length) (h : p ≤ b.length) :
    (b.exchanged p n code)[p + i]? = code[i]? := by
  have hfront : (b.code.take p).length = p := List.length_take_of_le h
  unfold exchanged
  rw [List.append_assoc, List.getElem?_append_right (by omega), hfront, Nat.add_sub_cancel_left,
    List.getElem?_append_left hi]

theorem getElem?_exchanged_behind {i : Nat} (hi : p + n ≤ i) (h : p + n ≤ b.length) :
    (b.exchanged p n code)[i - n + code.length]? = b.instruction? i := by
  have hfront : (b.code.take p).length = p := List.length_take_of_le (by unfold length at h; omega)
  unfold exchanged instruction?
  rw [List.getElem?_append_right (by rw [List.length_append]; omega), List.length_append, hfront,
    List.getElem?_drop]
  congr 1
  omega

theorem instruction?_substitute (h : p ≤ b.length) (i : Nat) :
    (b.substitute p n code).instruction? i = (b.exchanged p n code)[i]?.map fun x =>
      if p = i then receive (allLabels (b.window p n)) x else x := by
  unfold instruction?
  rw [code_substitute h, List.getElem?_modify]
  cases (b.exchanged p n code)[i]? <;> rfl

/-- an instruction that stays keeps its labels -/
theorem attached_substitute (h : p ≤ b.length) {i : Nat} {x : Instruction} {l : Label}
    (hx : (b.exchanged p n code)[i]? = some x) (hl : l ∈ x.labels) :
    (b.substitute p n code).Attached l i := by
  unfold Attached
  rw [instruction?_substitute h, hx]
  refine ⟨_, rfl, ?_⟩
  split
  · exact mem_labels_receive.mpr (.inl hl)
  · exact hl

/-- a label of the stretch marks what has come where the stretch began -/
theorem attached_substitute_start (h : p ≤ b.length) {l : Label}
    (hl : l ∈ allLabels (b.window p n)) (hp : p < (b.substitute p n code).length) :
    (b.substitute p n code).Attached l p := by
  have hx : (b.substitute p n code).instruction? p = _ := instruction?_substitute h p
  obtain ⟨x, hx'⟩ : ∃ x, (b.exchanged p n code)[p]? = some x := by
    refine ⟨_, List.getElem?_eq_getElem ?_⟩
    unfold length at hp
    rwa [code_substitute h, List.length_modify] at hp
  rw [hx', Option.map_some, if_pos rfl] at hx
  exact ⟨_, hx, mem_labels_receive.mpr (.inr hl)⟩

theorem mem_window {l : Label} {j : Nat} (hl : b.Attached l j) (hp : p ≤ j) (hj : j < p + n) :
    l ∈ allLabels (b.window p n) := by
  obtain ⟨x, hx, hlx⟩ := hl
  refine List.mem_flatMap.mpr ⟨x, List.mem_of_getElem? (i := j - p) ?_, hlx⟩
  unfold window
  rw [List.getElem?_take_of_lt (by omega), List.getElem?_drop, Nat.add_sub_cancel' hp]
  exact hx

/-- new code without labels leaves each label where it is once, or nowhere -/
theorem LabelsUnique.substitute (hu : b.LabelsUnique) (hc : Unlabeled code) :
    (b.substitute p n code).LabelsUnique := by
  by_cases he : b.tailAfter p n code = []
  · unfold LabelsUnique at hu
    rw [labels_substitute_end he] at hu
    exact (List.nodup_append.mp hu).1
  · exact (labels_substitute hu hc he).nodup_iff.mpr hu

/-- the body ends where the stretch began, if nothing came or stood behind it -/
theorem tailAfter_eq_nil_iff (h : p + n ≤ b.length) :
    b.tailAfter p n code = [] ↔ (b.substitute p n code).length ≤ p := by
  have hlen := length_substitute code h
  have htail : (b.tailAfter p n code).length + (p + n) = b.length + code.length := by
    unfold tailAfter length at *
    rw [List.length_append, List.length_drop]
    omega
  rw [← List.length_eq_zero_iff]
  omega

/-- **Labels go where their instructions go**; those of the removed stretch go to where it began,
and are gone if nothing is there. -/
theorem resolve_substitute (hu : b.LabelsUnique) (hc : Unlabeled code) (h : p + n ≤ b.length)
    {l : Label} {j : Nat} (hl : b.Attached l j) :
    (b.substitute p n code).resolve l =
      if j < p then some j
      else if j < p + n then (if p < (b.substitute p n code).length then some p else none)
      else some (j - n + code.length) := by
  have hp : p ≤ b.length := by omega
  have hu' : (b.substitute p n code).LabelsUnique := hu.substitute hc
  obtain ⟨x, hx, hlx⟩ := id hl
  split
  · next h1 =>
    rw [hu'.resolve_eq_some_iff]
    exact attached_substitute hp ((getElem?_exchanged_of_lt h1 hp).trans hx) hlx
  split
  · next h1 h2 =>
    have hw : l ∈ allLabels (b.window p n) := mem_window hl (by omega) h2
    split
    · next h3 =>
      rw [hu'.resolve_eq_some_iff]
      exact attached_substitute_start hp hw h3
    · next h3 =>
      -- nothing has come in the place of the stretch, and its labels were attached nowhere else
      unfold LabelsUnique at hu
      rw [labels_substitute_end ((tailAfter_eq_nil_iff h).mpr (Nat.le_of_not_lt h3))] at hu
      cases hr : (b.substitute p n code).resolve l with
      | none => rfl
      | some i =>
        have hmem := mem_labels.mpr ⟨i, hu'.resolve_eq_some_iff.mp hr⟩
        exact absurd rfl ((List.nodup_append.mp hu).2.2 l hmem l hw)
  · next h1 h2 =>
    rw [hu'.resolve_eq_some_iff]
    exact attached_substitute hp ((getElem?_exchanged_behind (by omega) h).trans hx) hlx

end Body

end CilPatch
