import CilPatch.Proofs.Stack.Soundness

/-!
# A fault that is reported is there

A body without protected regions is refused only for a fault, and the fault is true of it
(`refused_witnessed`).  The faults come from three places: the checks of the labels and the end of
the body (`ofBody_witnessed`), the iteration (`run_error`), and the last pass over the blocks
(`traceBlocks_error`), which could only repeat what the iteration has found before.
-/

namespace CilPatch

namespace FlowGraph

variable {b : Body}

/-- control that runs past the end does so behind the last instruction -/
theorem Refines.witnessed_of_fallsOff {g : FlowGraph} (hg : g.Refines b)
    (h : g.fallsOff b = true) (sig : Option Signature) :
    (BodyFault.fallsOffEnd (b.length - 1)).Witnessed b sig := by
  have hpos := hg.nonempty
  have hlast : b.code.getLast? = b.instruction? (b.length - 1) := List.getLast?_eq_getElem?
  obtain ⟨x, hx⟩ := Body.exists_instruction (show b.length - 1 < b.length by omega)
  unfold fallsOff at h
  rw [hlast, hx] at h
  obtain ⟨hft, horder⟩ := (Bool.and_eq_true _ _).mp h
  exact .inr ⟨by omega, ⟨x, hx, hft⟩, hg.path_of_last_mem_order (List.contains_iff_mem.mp horder)⟩

theorem ofBody_witnessed {f : Failure} (h : ofBody b = .error f) (sig : Option Signature) :
    ∃ fault, f = .illFormed fault ∧ fault.Witnessed b sig := by
  rcases ofBody_cases b with
    ⟨hnil, e⟩ | ⟨fault, hf, e⟩ | ⟨index, fault, hindex, hf, e⟩ | ⟨index, hix, h0, e⟩
  · rw [e] at h
    cases h
    exact ⟨_, rfl, .inl ⟨hnil, rfl⟩⟩
  · rw [e] at h
    cases h
    obtain ⟨l, first, second, rfl, htwice⟩ := Body.labelIndex_error hf
    exact ⟨_, rfl, htwice⟩
  · rw [e] at h
    cases h
    obtain ⟨i, x, l, rfl, hx, hl, hnone⟩ := Body.checkTargets_error hf
    refine ⟨_, rfl, hx, hl, fun j hj => ?_⟩
    rw [(Body.labelIndex_ok hindex l j).mpr hj] at hnone
    cases hnone
  · obtain ⟨g, hg, e'⟩ := ofIndexed_eq hix h0
    rw [e, e'] at h
    split at h
    · next hfalls =>
      cases h
      exact ⟨_, rfl, hg.witnessed_of_fallsOff hfalls sig⟩
    · cases h

end FlowGraph

namespace Analysis

variable {a : Analysis} {q : Progress}

theorem traceBlock_error (ha : a.Proper) (hv : a.Valid q) {k : Nat} {blk : Block}
    (hblk : a.graph.block? k = some blk) {f : Failure}
    (h : a.traceBlock q.starts k blk = .error f) :
    ∃ fault, f = .illFormed fault ∧ fault.Witnessed a.body a.signature := by
  unfold traceBlock at h
  split at h
  · next hn =>
    have hlt := FlowGraph.Refines.lt_blockCount hblk
    rw [Array.getElem?_eq_none_iff, hv.size] at hn
    omega
  · cases h
  · next s hs =>
    split at h
    · next fault hfault =>
      cases h
      obtain ⟨hlt, hle⟩ := ha.refines.bounds hblk
      have hrun := traceCode_error hfault
      rw [Block.instructions_eq] at hrun
      exact ⟨fault, rfl, (ha.straight hblk).witnessed (Nat.le_of_lt hlt) hle
        (hv.reached k s blk hs hblk) hrun⟩
    · cases h

theorem traceBlocks_error (ha : a.Proper) (hv : a.Valid q) {bs : List (Block × Nat)}
    (hbs : ∀ entry ∈ bs, a.graph.block? entry.2 = some entry.1) {f : Failure}
    (h : a.traceBlocks q.starts bs = .error f) :
    ∃ fault, f = .illFormed fault ∧ fault.Witnessed a.body a.signature := by
  induction bs with
  | nil => cases h
  | cons entry bs ih =>
    obtain ⟨blk, k⟩ := entry
    rw [traceBlocks] at h
    split at h
    · next f' hf =>
      cases h
      exact traceBlock_error ha hv (hbs (blk, k) List.mem_cons_self) hf
    · split at h
      · next f' hf =>
        cases h
        exact ih (fun entry hentry => hbs entry (List.mem_cons_of_mem _ hentry)) hf
      · cases h

theorem profile_witnessed (ha : a.Proper) {f : Failure} (h : a.profile = .error f) :
    ∃ fault, f = .illFormed fault ∧ fault.Witnessed a.body a.signature := by
  obtain ⟨hv, hs⟩ := initial_ok ha
  unfold profile at h
  split at h
  · next f' hf =>
    cases h
    exact run_error ha hv hs hf
  · next q hq =>
    split at h
    · next f' hf =>
      cases h
      exact traceBlocks_error ha (run_ok ha hv hs hq).1
        (fun _ hentry => FlowGraph.block?_of_mem_zipIdx hentry) hf
    · cases h

end Analysis

/-- **A body that is refused is ill-formed**, and the fault that is named is true of it. -/
theorem refused_witnessed {v : Verifier} {b : Body} {f : Failure} (hr : b.hasRegions = false)
    (h : v.verify b = .error f) :
    ∃ fault, f = .illFormed fault ∧ fault.Witnessed b v.signature := by
  unfold Verifier.verify at h
  rw [hr] at h
  split at h
  · next hc => cases hc
  · split at h
    · next f' hf =>
      cases h
      exact FlowGraph.ofBody_witnessed hf v.signature
    · next g hg =>
      split at h
      · next f' hf =>
        cases h
        exact Analysis.profile_witnessed (a := .start b g v.signature v.hierarchy) ⟨hg, rfl⟩ hf
      · cases h

/-- two ways to one instruction, one of them with a value more on the stack -/
def unevenJoin : Body := .ofCode
  [{ opcode := .ldcI4, operand := .literal (.int32 1) },
   { opcode := .brtrue, operand := .label ⟨0⟩ },
   { opcode := .ldnull },
   { opcode := .ret, labels := [⟨0⟩] }]

theorem refused_witnessed_unevenJoin :
    unevenJoin.hasRegions = false ∧
      ({} : Verifier).verify unevenJoin =
        .error (.illFormed (.heightMismatch 2 3 [] [.null])) ∧
      ∃ fault, Failure.illFormed (.heightMismatch 2 3 [] [.null]) = .illFormed fault ∧
        fault.Witnessed unevenJoin none := by
  have hr : unevenJoin.hasRegions = false := rfl
  have h : ({} : Verifier).verify unevenJoin =
      .error (.illFormed (.heightMismatch 2 3 [] [.null])) := by decide +kernel
  exact ⟨hr, h, refused_witnessed hr h⟩

end CilPatch
