import CilPatch.Flow.FlowGraph
import CilPatch.Proofs.Flow.Control
import CilPatch.Proofs.Stack.Transfer

/-!
# Stacks along paths

What happens on one run: the instructions of a path are carried out one after the other, from the
empty stack on.  `Body.follow` is the stack behind a path, and `Body.ReachedWith` says that some
path reaches a position with a given number of values on the stack.  Only the height is recorded,
since whether an instruction can be carried out hangs on nothing else.

`BodyFault.Witnessed` says for every fault what there has to be in the body for the fault to be
true of it.
-/

namespace CilPatch

namespace Body

variable {b : Body} {sig : Option Signature}

/-- the stack behind the instruction at `i`, none if it cannot be carried out -/
def carryOut (b : Body) (sig : Option Signature) (s : Stack) (i : Nat) : Option Stack :=
  (b.instruction? i).bind fun x => (x.transfer sig i s).toOption

/-- the stack behind the instructions at these positions, none if one of them cannot be carried
out -/
def follow (b : Body) (sig : Option Signature) (passed : List Nat) : Option Stack :=
  passed.foldlM (b.carryOut sig) []

/-- a path reaches the instruction at `i` with `d` values on the stack -/
def ReachedWith (b : Body) (sig : Option Signature) (i d : Nat) : Prop :=
  ∃ passed s, b.Path passed i ∧ b.follow sig passed = some s ∧ s.depth = d

theorem carryOut_eq_some_iff {s t : Stack} {i : Nat} :
    b.carryOut sig s i = some t ↔
      ∃ x, b.instruction? i = some x ∧ x.transfer sig i s = .ok t := by
  unfold carryOut
  rw [Option.bind_eq_some_iff]
  constructor
  · rintro ⟨x, hx, h⟩
    refine ⟨x, hx, ?_⟩
    cases e : x.transfer sig i s with
    | error f =>
      rw [e] at h
      cases h
    | ok t' =>
      rw [e] at h
      cases h
      rfl
  · rintro ⟨x, hx, h⟩
    exact ⟨x, hx, by rw [h]; rfl⟩

theorem follow_nil : b.follow sig [] = some [] := rfl

theorem follow_append (passed : List Nat) (i : Nat) :
    b.follow sig (passed ++ [i]) = (b.follow sig passed).bind fun s => b.carryOut sig s i := by
  unfold follow
  rw [List.foldlM_append]
  cases List.foldlM (b.carryOut sig) [] passed with
  | none => rfl
  | some s =>
    show (b.carryOut sig s i).bind some = b.carryOut sig s i
    exact Option.bind_fun_some _

theorem reachedWith_start (h : 0 < b.length) : b.ReachedWith sig 0 0 :=
  ⟨[], [], .start h, follow_nil, rfl⟩

theorem ReachedWith.lt_length {i d : Nat} (h : b.ReachedWith sig i d) : i < b.length := by
  obtain ⟨passed, -, path, -⟩ := h
  exact path.lt_length

/-- a path goes on behind an instruction that can be carried out -/
theorem ReachedWith.step {i j : Nat} {s t : Stack} {x : Instruction}
    (h : b.ReachedWith sig i s.depth) (hx : b.instruction? i = some x)
    (ht : x.transfer sig i s = .ok t) (hj : b.Successor i j) : b.ReachedWith sig j t.depth := by
  obtain ⟨passed, s', hp, hf, hd⟩ := h
  obtain ⟨t', ht', hd'⟩ := Instruction.transfer_ok_of_depth_eq hd.symm ht
  refine ⟨passed ++ [i], t', hp.step hj, ?_, hd'.symm⟩
  rw [follow_append, hf]
  exact carryOut_eq_some_iff.mpr ⟨x, hx, ht'⟩

/-- what holds at the start and goes from each instruction to its successors holds wherever control
comes, with whatever height -/
theorem ReachedWith.induction {P : Nat → Nat → Prop} (start : P 0 0)
    (step : ∀ i j s t x, b.ReachedWith sig i s.depth → P i s.depth → b.instruction? i = some x →
      x.transfer sig i s = .ok t → b.Successor i j → P j t.depth)
    {i d : Nat} (h : b.ReachedWith sig i d) : P i d := by
  obtain ⟨passed, s, path, hs, rfl⟩ := h
  induction path generalizing s with
  | start _ =>
    cases hs
    exact start
  | @step passed i j path hsucc ih =>
    rw [follow_append] at hs
    obtain ⟨u, hu, hcarry⟩ := Option.bind_eq_some_iff.mp hs
    obtain ⟨x, hx, htr⟩ := carryOut_eq_some_iff.mp hcarry
    exact step i j u s x ⟨passed, u, path, hu, rfl⟩ (ih u hu) hx htr hsucc

end Body

/-! ## witnesses of faults -/

/-- what there is in a body that has the fault -/
def BodyFault.Witnessed (b : Body) (sig : Option Signature) : BodyFault → Prop
  | .duplicateLabel l first second => b.AttachedTwice l first second
  | .danglingLabel i x l =>
    b.instruction? i = some x ∧ l ∈ x.targets ∧ ∀ j, ¬b.Attached l j
  | .fallsOffEnd i =>
    (b.code = [] ∧ i = 0) ∨
      (i + 1 = b.length ∧ (∃ x, b.instruction? i = some x ∧ x.opcode.fallsThrough = true) ∧
        ∃ passed, b.Path passed i)
  | .stackUnderflow i x required available =>
    b.instruction? i = some x ∧ b.ReachedWith sig i available ∧
      (∃ e, x.demand sig available = some (.exchange e) ∧ e.pops = required) ∧
        available < required
  | .invalidOperand i x =>
    b.instruction? i = some x ∧ (∃ d, b.ReachedWith sig i d) ∧
      (x.opcode = .call ∨ x.opcode = .callvirt ∨ x.opcode = .newobj) ∧ x.method? = none
  | .heightMismatch k i held arriving =>
    (∃ g blk, FlowGraph.ofBody b = .ok g ∧ g.block? k = some blk ∧ blk.start = i) ∧
      b.ReachedWith sig i held.depth ∧ b.ReachedWith sig i arriving.depth ∧
        held.depth ≠ arriving.depth

/-- an instruction that fails where a path comes shows its fault -/
theorem Body.ReachedWith.witnessed {b : Body} {sig : Option Signature} {i : Nat} {s : Stack}
    {x : Instruction} {f : BodyFault} (h : b.ReachedWith sig i s.depth)
    (hx : b.instruction? i = some x) (hf : x.transfer sig i s = .error f) :
    f.Witnessed b sig := by
  rcases Instruction.transfer_eq_error_iff.mp hf with ⟨hd, rfl⟩ | ⟨e, hd, hlt, rfl⟩
  · exact ⟨hx, ⟨s.depth, h⟩, Instruction.demand_eq_none hd⟩
  · exact ⟨hx, h, ⟨e, hd, rfl⟩, hlt⟩

end CilPatch
