import CilPatch.Proofs.Code.Padding
import CilPatch.Proofs.Stack.Acceptance

/-!
# Idle instructions change no path

A path through a body that is padded is one through the body as it was, with idle instructions in
between: the same instructions are reached with the same heights (`Padded.reachedWith_iff`), and the
idle ones are reached as the instruction behind them is, or behind the last instruction if control
runs off there (`Padded.reached_cases`).  So one body is verifiable exactly if the other is
(`Padded.verifiable_iff`).
-/

namespace CilPatch

namespace Instruction

/-- what an instruction does to a stack does not hang on its labels nor on its position -/
theorem transfer_labels {x : Instruction} {sig : Option Signature} {i j : Nat} {s t : Stack}
    {ls : List Label} :
    { x with labels := ls }.transfer sig j s = .ok t ↔ x.transfer sig i s = .ok t := by
  have hd : ∀ d, { x with labels := ls }.demand sig d = x.demand sig d := fun _ => rfl
  rw [transfer_eq_ok_iff, transfer_eq_ok_iff, hd]

theorem transfer_nop {x : Instruction} (hx : x.opcode = .nop) (sig : Option Signature) (i : Nat)
    (s : Stack) : x.transfer sig i s = .ok s := by
  obtain ⟨op, operand, ls⟩ := x
  cases hx
  exact transfer_eq_ok_iff.mpr (.inr ⟨⟨0, fun _ => []⟩, rfl, Nat.zero_le _, rfl⟩)

end Instruction

namespace Body.Padded

variable {b b' : Body} {q n : Nat} {sig : Option Signature}

/-- apart from its labels, an instruction is as it was -/
theorem origin (h : b.Padded b' q n) {i : Nat} {x' : Instruction} (hi : i < b.length)
    (hx' : b'.instruction? (shifted q n i) = some x') :
    ∃ x ls, b.instruction? i = some x ∧ x' = { x with labels := ls } := by
  obtain ⟨ls, hx⟩ := h.kept i b.code[i] (List.getElem?_eq_getElem hi)
  rw [hx'] at hx
  exact ⟨b.code[i], ls, List.getElem?_eq_getElem hi, Option.some.inj hx⟩

/-! ## steps -/

/-- control goes on as before, perhaps by way of the idle instructions -/
theorem successor (h : b.Padded b' q n) {i j : Nat} (hs : b.Successor i j) :
    b'.Successor (shifted q n i) (shifted q n j) ∨ (j = q ∧ b'.Successor (shifted q n i) q) := by
  have hlen := h.length
  obtain ⟨x, hx, hgo⟩ := hs
  obtain ⟨ls, hx'⟩ := h.kept i x hx
  rcases hgo with ⟨hbr, l, hl, hatt⟩ | ⟨hft, rfl, hj⟩
  · rcases h.lands l j hatt with hj | ⟨e, hj⟩
    · exact .inl ⟨_, hx', .inl ⟨hbr, l, hl, hj⟩⟩
    · exact .inr ⟨e, _, hx', .inl ⟨hbr, l, hl, hj⟩⟩
  · by_cases e : i + 1 = q
    · refine .inr ⟨e, _, hx', .inr ⟨hft, ?_, by omega⟩⟩
      rw [shifted_of_lt (by omega), e]
    · have hnext : shifted q n (i + 1) = shifted q n i + 1 := by
        unfold shifted
        split <;> split <;> omega
      refine .inl ⟨_, hx', .inr ⟨hft, hnext, ?_⟩⟩
      have hle := shifted_le q n (i + 1)
      omega

/-- control goes on nowhere else, but it may run off into idle instructions at the end -/
theorem of_successor (h : b.Padded b' q n) {i j' : Nat} (hi : i < b.length)
    (hs : b'.Successor (shifted q n i) j') :
    (∃ j, b.Successor i j ∧ (j' = shifted q n j ∨ (j = q ∧ j' = q))) ∨
      (j' = q ∧ q = b.length ∧ i + 1 = b.length ∧
        ∃ x, b.instruction? i = some x ∧ x.opcode.fallsThrough = true) := by
  have hlen := h.length
  obtain ⟨x', hx', hgo⟩ := hs
  obtain ⟨x, ls, hx, rfl⟩ := h.origin hi hx'
  rcases hgo with ⟨hbr, l, hl, hatt⟩ | ⟨hft, hj, hlt⟩
  · obtain ⟨j, hj, hcame⟩ := h.came l j' hatt
    exact .inl ⟨j, ⟨_, hx, .inl ⟨hbr, l, hl, hj⟩⟩, hcame⟩
  · by_cases hlast : i + 1 = b.length
    · have hwithin := h.within
      refine .inr ⟨?_, ?_, hlast, _, hx, hft⟩
      all_goals
        unfold shifted at hj
        split at hj <;> omega
    · refine .inl ⟨i + 1, ⟨_, hx, .inr ⟨hft, rfl, by omega⟩⟩, ?_⟩
      rw [hj]
      unfold shifted
      split <;> split <;> omega

theorem successor_idle (h : b.Padded b' q n) {k : Nat} (hk : k < n) (j : Nat) :
    b'.Successor (q + k) j ↔ j = q + k + 1 ∧ j < b'.length := by
  obtain ⟨x, hx, hop, ht⟩ := h.idle k hk
  rw [successor_iff hx]
  constructor
  · rintro (⟨hbr, -⟩ | ⟨-, hj⟩)
    · rw [hop] at hbr
      cases hbr
    · exact hj
  · intro hj
    refine .inr ⟨?_, hj⟩
    rw [hop]
    rfl

/-! ## reached with a height -/

/-- control that comes to the first idle instruction goes through them all -/
theorem through (h : b.Padded b' q n) {d k : Nat} (hr : b'.ReachedWith sig q d) (hk : k ≤ n)
    (hlt : q + k < b'.length) : b'.ReachedWith sig (q + k) d := by
  induction k with
  | zero => exact hr
  | succ k ih =>
    obtain ⟨x, hx, hop, -⟩ := h.idle k hk
    have hgo : b'.Successor (q + k) (q + k + 1) := (h.successor_idle hk _).mpr ⟨rfl, hlt⟩
    obtain ⟨passed, s, path, hs, rfl⟩ := ih (by omega) (by omega)
    exact ReachedWith.step ⟨passed, s, path, hs, rfl⟩ hx (Instruction.transfer_nop hop sig _ s) hgo

/-- the instructions from before are reached as they were -/
theorem reachedWith_shifted (h : b.Padded b' q n) {i d : Nat} (hr : b.ReachedWith sig i d) :
    b'.ReachedWith sig (shifted q n i) d := by
  have hlen := h.length
  -- where control came to `q`, it now goes through the idle instructions
  have comes : ∀ {d}, q < b.length → b'.ReachedWith sig q d →
      b'.ReachedWith sig (shifted q n q) d := by
    intro d hq hr
    rw [shifted_of_le (Nat.le_refl q)]
    exact h.through hr (Nat.le_refl n) (by omega)
  have hlt := hr.lt_length
  refine ReachedWith.induction (P := fun i d => b'.ReachedWith sig (shifted q n i) d) ?_ ?_ hr
  · have hstart : b'.ReachedWith sig 0 0 := reachedWith_start (by omega)
    by_cases e : q = 0
    · subst e
      exact comes (by omega) hstart
    · rw [shifted_of_lt (by omega)]
      exact hstart
  · intro i j s t x _ hi hx ht hsucc
    obtain ⟨ls, hx'⟩ := h.kept i x hx
    have ht' : { x with labels := ls }.transfer sig (shifted q n i) s = .ok t :=
      Instruction.transfer_labels.mpr ht
    rcases h.successor hsucc with hgo | ⟨rfl, hgo⟩
    · exact hi.step hx' ht' hgo
    · exact comes hsucc.lt_right (hi.step hx' ht' hgo)

/-- what is reached is an instruction that was reached before, or idle: then control comes to the
instruction behind, or there is none and control ran off -/
theorem reached_cases (h : b.Padded b' q n) (hpos : 0 < b.length) {i' d : Nat}
    (hr : b'.ReachedWith sig i' d) :
    (∃ i, i' = shifted q n i ∧ b.ReachedWith sig i d) ∨
      ∃ k, k < n ∧ i' = q + k ∧ (b.ReachedWith sig q d ∨ (q = b.length ∧ b.RunsOff)) := by
  have hlen := h.length
  have hwithin := h.within
  have hn := h.positive
  refine ReachedWith.induction
    (P := fun i' d => (∃ i, i' = shifted q n i ∧ b.ReachedWith sig i d) ∨
      ∃ k, k < n ∧ i' = q + k ∧ (b.ReachedWith sig q d ∨ (q = b.length ∧ b.RunsOff))) ?_ ?_ hr
  · by_cases e : q = 0
    · subst e
      exact .inr ⟨0, hn, rfl, .inl (reachedWith_start hpos)⟩
    · exact .inl ⟨0, (shifted_of_lt (by omega)).symm, reachedWith_start hpos⟩
  · rintro i' j' s t x' - (⟨i, rfl, hi⟩ | ⟨k, hk, rfl, hq⟩) hx' ht hsucc
    · have hlt := hi.lt_length
      obtain ⟨x, ls, hx, rfl⟩ := h.origin hlt hx'
      have ht : x.transfer sig i s = .ok t := Instruction.transfer_labels.mp ht
      rcases h.of_successor hlt hsucc with ⟨j, hj, hj'⟩ | ⟨rfl, e, hlast, x, hx, hft⟩
      · have hreach := hi.step hx ht hj
        rcases hj' with rfl | ⟨rfl, rfl⟩
        · exact .inl ⟨j, rfl, hreach⟩
        · exact .inr ⟨0, hn, rfl, .inl hreach⟩
      · obtain ⟨passed, -, path, -⟩ := hi
        have hi' : i = b.length - 1 := by omega
        exact .inr ⟨0, hn, rfl, .inr ⟨e, x, passed, hi' ▸ path, hi' ▸ hx, hft⟩⟩
    · obtain ⟨y, hy, hop, -⟩ := h.idle k hk
      rw [hx'] at hy
      cases hy
      rw [Instruction.transfer_nop hop] at ht
      cases ht
      obtain ⟨rfl, hlt⟩ := (h.successor_idle hk j').mp hsucc
      by_cases hlast : k + 1 < n
      · exact .inr ⟨k + 1, hlast, rfl, hq⟩
      · rcases hq with hq | ⟨e, -⟩
        · refine .inl ⟨q, ?_, hq⟩
          rw [shifted_of_le (Nat.le_refl q)]
          omega
        · omega

/-- **Idle instructions change no height.** -/
theorem reachedWith_iff (h : b.Padded b' q n) (hpos : 0 < b.length) {i d : Nat} :
    b'.ReachedWith sig (shifted q n i) d ↔ b.ReachedWith sig i d := by
  constructor
  · intro hr
    rcases h.reached_cases hpos hr with ⟨j, e, hj⟩ | ⟨k, hk, e, -⟩
    · rw [shifted_inj.mp e]
      exact hj
    · exact absurd e (shifted_ne hk)
  · exact h.reachedWith_shifted

/-! ## verifiable -/

/-- control that runs off the body runs off the padded one -/
theorem runsOff (h : b.Padded b' q n) {s t : Stack} {x : Instruction}
    (hr : b.ReachedWith sig (b.length - 1) s.depth) (hx : b.instruction? (b.length - 1) = some x)
    (ht : x.transfer sig (b.length - 1) s = .ok t) (hft : x.opcode.fallsThrough = true) :
    b'.RunsOff := by
  have hlen := h.length
  have hn := h.positive
  have hlt := hr.lt_length
  have hr' := h.reachedWith_shifted hr
  obtain ⟨ls, hx'⟩ := h.kept _ x hx
  rcases Nat.lt_or_eq_of_le h.within with hq | hq
  · have e : shifted q n (b.length - 1) = b'.length - 1 := by
      rw [shifted_of_le (by omega)]
      omega
    obtain ⟨passed, -, path, -⟩ := hr'
    exact ⟨{ x with labels := ls }, passed, e ▸ path, e ▸ hx', hft⟩
  · -- the idle instructions are at the end, and control falls through them all
    have e : shifted q n (b.length - 1) + 1 = q := by
      rw [shifted_of_lt (by omega)]
      omega
    have hgo : b'.Successor (shifted q n (b.length - 1)) q :=
      ⟨_, hx', .inr ⟨hft, e.symm, by omega⟩⟩
    have hfirst := hr'.step hx' (Instruction.transfer_labels.mpr ht) hgo
    obtain ⟨y, hy, hop, -⟩ := h.idle (n - 1) (by omega)
    obtain ⟨passed, -, path, -⟩ := h.through hfirst (Nat.sub_le n 1) (by omega)
    have elast : q + (n - 1) = b'.length - 1 := by omega
    refine ⟨y, passed, elast ▸ path, elast ▸ hy, ?_⟩
    rw [hop]
    rfl

/-- control that runs off the padded body ran off the one before -/
theorem of_runsOff (h : b.Padded b' q n) (hpos : 0 < b.length) {d : Nat} {x' : Instruction}
    (hr : b'.ReachedWith sig (b'.length - 1) d) (hx' : b'.instruction? (b'.length - 1) = some x')
    (hft : x'.opcode.fallsThrough = true) : b.RunsOff := by
  have hlen := h.length
  have hn := h.positive
  rcases h.reached_cases hpos hr with ⟨i, e, hi⟩ | ⟨k, hk, e, hq | ⟨-, hoff⟩⟩
  · have hlast : i = b.length - 1 := by
      have hlt := hi.lt_length
      unfold shifted at e
      split at e <;> omega
    obtain ⟨x, ls, hx, rfl⟩ := h.origin hi.lt_length (e ▸ hx')
    obtain ⟨passed, -, path, -⟩ := hi
    exact ⟨x, passed, hlast ▸ path, hlast ▸ hx, hft⟩
  · have hlt := hq.lt_length
    omega
  · exact hoff

/-- idle instructions refer to nothing, and no label is lost -/
theorem resolved_iff (h : b.Padded b' q n) : b'.Resolved ↔ b.Resolved := by
  have hlen := h.length
  constructor
  · intro hb i x l hx hl
    obtain ⟨ls, hx'⟩ := h.kept i x hx
    obtain ⟨j', hj'⟩ := hb _ _ l hx' hl
    obtain ⟨j, hj, -⟩ := h.came l j' hj'
    exact ⟨j, hj⟩
  · intro hb i' x' l hx' hl
    have hlt : i' < b.length + n := by
      rw [← hlen]
      exact (List.getElem?_eq_some_iff.mp hx').1
    rcases exists_shifted h.within hlt with ⟨i, hi, rfl⟩ | ⟨k, hk, rfl⟩
    · obtain ⟨x, ls, hx, rfl⟩ := h.origin hi hx'
      obtain ⟨j, hj⟩ := hb i x l hx hl
      rcases h.lands l j hj with hj' | ⟨-, hj'⟩
      · exact ⟨_, hj'⟩
      · exact ⟨_, hj'⟩
    · obtain ⟨y, hy, -, ht⟩ := h.idle k hk
      rw [hx'] at hy
      cases hy
      rw [ht] at hl
      cases hl

theorem carried_iff (h : b.Padded b' q n) (hpos : 0 < b.length) :
    b'.Carried sig ↔ b.Carried sig := by
  constructor
  · intro hb i x s hr hx
    obtain ⟨ls, hx'⟩ := h.kept i x hx
    obtain ⟨t, ht⟩ := hb _ _ s (h.reachedWith_shifted hr) hx'
    exact ⟨t, Instruction.transfer_labels.mp ht⟩
  · intro hb i' x' s hr hx'
    rcases h.reached_cases hpos hr with ⟨i, rfl, hi⟩ | ⟨k, hk, rfl, -⟩
    · obtain ⟨x, ls, hx, rfl⟩ := h.origin hi.lt_length hx'
      obtain ⟨t, ht⟩ := hb i x s hi hx
      exact ⟨t, Instruction.transfer_labels.mpr ht⟩
    · obtain ⟨y, hy, hop, -⟩ := h.idle k hk
      rw [hx'] at hy
      cases hy
      exact ⟨s, Instruction.transfer_nop hop sig _ s⟩

/-- control runs off the one body if it runs off the other, unless it gets stuck before -/
theorem runsOff_iff (h : b.Padded b' q n) (hpos : 0 < b.length) (hc : b.Carried sig) :
    b'.RunsOff ↔ b.RunsOff := by
  constructor
  · rintro ⟨x', passed, path, hx', hft⟩
    obtain ⟨d, hr⟩ := path.exists_reachedWith ((h.carried_iff hpos).mpr hc)
    exact h.of_runsOff hpos hr hx' hft
  · rintro ⟨x, passed, path, hx, hft⟩
    obtain ⟨_, passed, s, path, hs, rfl⟩ := path.exists_reachedWith hc
    have hr : b.ReachedWith sig (b.length - 1) s.depth := ⟨passed, s, path, hs, rfl⟩
    obtain ⟨t, ht⟩ := hc _ x s hr hx
    exact h.runsOff hr hx ht hft

/-- an idle instruction has the height of the one behind, if control does not run off there -/
theorem level_iff (h : b.Padded b' q n) (hpos : 0 < b.length) (hoff : ¬b.RunsOff) :
    b'.Level sig ↔ b.Level sig := by
  constructor
  · intro hb i d d' hd hd'
    exact hb _ d d' (h.reachedWith_shifted hd) (h.reachedWith_shifted hd')
  · intro hb i' d d' hd hd'
    rcases h.reached_cases hpos hd with ⟨i, rfl, hi⟩ | ⟨k, hk, rfl, hq | ⟨-, hoff'⟩⟩
    · exact hb i d d' hi ((h.reachedWith_iff hpos).mp hd')
    · rcases h.reached_cases hpos hd' with ⟨i, e, -⟩ | ⟨-, -, -, hq' | ⟨-, hoff'⟩⟩
      · exact absurd e.symm (shifted_ne hk)
      · exact hb q d d' hq hq'
      · exact absurd hoff' hoff
    · exact absurd hoff' hoff

/-- **A body that is padded is verifiable exactly if it was before.** -/
theorem verifiable_iff (h : b.Padded b' q n) (hpos : 0 < b.length) (hu : b.LabelsUnique)
    (hu' : b'.LabelsUnique) : b'.Verifiable sig ↔ b.Verifiable sig := by
  have hlen := h.length
  constructor
  · intro hb
    have hc := (h.carried_iff hpos).mp hb.carried
    have hoff := mt (h.runsOff_iff hpos hc).mpr hb.stays
    exact ⟨hpos, hu, h.resolved_iff.mp hb.resolved, hoff, (h.level_iff hpos hoff).mp hb.level, hc⟩
  · intro hb
    have hoff := mt (h.runsOff_iff hpos hb.carried).mp hb.stays
    exact ⟨by omega, hu', h.resolved_iff.mpr hb.resolved, hoff,
      (h.level_iff hpos hb.stays).mpr hb.level, (h.carried_iff hpos).mpr hb.carried⟩

end Body.Padded

/-! ## verdicts -/

/-- the verifier accepts both bodies or none, and records for each instruction of the first the
height that it records for it in the second, `n` positions on if it is not before `q` -/
structure Verifier.Agrees (v : Verifier) (b b' : Body) (q n : Nat) : Prop where
  accepted : (∃ w, v.verify b' = .ok w) ↔ ∃ w, v.verify b = .ok w
  depths : ∀ prof prof', v.verify b = .ok (.analyzed prof) → v.verify b' = .ok (.analyzed prof') →
    ∀ i, i < b.length → prof'.depth? (Body.shifted q n i) = prof.depth? i

/-- **Idle instructions change no verdict.** -/
theorem Body.Padded.agrees {b b' : Body} {q n : Nat} (h : b.Padded b' q n) (hpos : 0 < b.length)
    (hu : b.LabelsUnique) (hu' : b'.LabelsUnique) (hregions : b'.regions = b.regions)
    (v : Verifier) : v.Agrees b b' q n where
  accepted := by
    have hsame : b'.hasRegions = b.hasRegions := by
      unfold hasRegions
      rw [hregions]
    cases hr : b.hasRegions with
    | false =>
      rw [v.verify_ok_iff hr hu, v.verify_ok_iff (hsame.trans hr) hu', h.verifiable_iff hpos hu hu']
    | true =>
      unfold Verifier.verify
      rw [hsame, hr, hregions]
      rfl
  depths := by
    intro prof prof' hv hv' i _
    refine Option.ext fun d => ?_
    rw [(verify_analyzed hv').depth?_eq_some_iff, (verify_analyzed hv).depth?_eq_some_iff,
      h.reachedWith_iff hpos]

end CilPatch
