import CilPatch.Proofs.Stack.Soundness

/-!
# Verified code does not get stuck

Where control comes in a body that is verified, the method ends there or control goes on inside the
body (`control_goes_on`).  The graph says the same of its blocks: one that no edge leaves ends the
method.

Two cases are left open.  The last block may run past its end as long as control does not come
there, and nothing is said of a jump whose operand holds no label (`jumpsNowhere`).
-/

namespace CilPatch

namespace Instruction

variable {x : Instruction}

/-- the method ends with the instruction, or the handler that it is in -/
def endsMethod (x : Instruction) : Bool :=
  match x.opcode.flow with
  | .ret | .throw | .endFinally => true
  | _ => false

/-- the instruction can only jump, and its operand holds no label to jump to -/
def jumpsNowhere (x : Instruction) : Bool :=
  x.opcode.isBranch && !x.opcode.fallsThrough && x.targets.isEmpty

/-- an instruction ends the method, goes on behind itself, or can only jump -/
theorem endsMethod_or (x : Instruction) :
    x.endsMethod = true ∨ x.opcode.fallsThrough = true ∨
      (x.opcode.isBranch = true ∧ x.opcode.fallsThrough = false) := by
  unfold endsMethod Opcode.fallsThrough Opcode.isBranch
  cases x.opcode.flow <;> simp

end Instruction

namespace Body

variable {b : Body} {index : LabelIndex}

/-- control that neither ends nor jumps nowhere goes on, if only past the last instruction -/
theorem Indexed.goes_on (hix : b.Indexed index) {i : Nat} {x : Instruction}
    (hx : b.instruction? i = some x) :
    x.endsMethod = true ∨ x.jumpsNowhere = true ∨ (∃ j, b.Successor i j) ∨
      (x.opcode.fallsThrough = true ∧ i + 1 = b.length) := by
  have hi : i < b.length := (List.getElem?_eq_some_iff.mp hx).1
  rcases x.endsMethod_or with hend | hft | ⟨hbr, hft⟩
  · exact .inl hend
  · by_cases hlast : i + 1 = b.length
    · exact .inr (.inr (.inr ⟨hft, hlast⟩))
    · have hnext : b.Successor i (i + 1) := ⟨x, hx, .inr ⟨hft, rfl, by omega⟩⟩
      exact .inr (.inr (.inl ⟨i + 1, hnext⟩))
  · cases ht : x.targets with
    | nil =>
      refine .inr (.inl ?_)
      unfold Instruction.jumpsNowhere
      rw [hbr, hft, ht]
      rfl
    | cons l ls =>
      have hl : l ∈ x.targets := ht ▸ List.mem_cons_self
      obtain ⟨j, hj⟩ := hix.resolved i x l hx hl
      have hjump : b.Successor i j := ⟨x, hx, .inl ⟨hbr, l, hl, (hix.lookup l j).mp hj⟩⟩
      exact .inr (.inr (.inl ⟨j, hjump⟩))

end Body

namespace FlowGraph

variable {b : Body} {g : FlowGraph}

/-- a graph that is built has passed all checks -/
theorem checked_of_ofBody (h : ofBody b = .ok g) :
    (∃ index, b.Indexed index) ∧ g.Refines b ∧ g.fallsOff b = false := by
  obtain ⟨index, hix, -, -, -, hfalls⟩ := ofBody_eq_ok h
  exact ⟨⟨index, hix⟩, ofBody_ok h, hfalls⟩

/-- control does not come to a last block that runs past its end -/
theorem not_mem_order_of_fallsOff (hf : g.fallsOff b = false) {x : Instruction}
    (hx : b.instruction? (b.length - 1) = some x) (hft : x.opcode.fallsThrough = true) :
    g.blockCount - 1 ∉ g.order := by
  have hlast : b.code.getLast? = some x := List.getLast?_eq_getElem?.trans hx
  unfold fallsOff at hf
  rw [hlast] at hf
  simp only [hft, Bool.true_and] at hf
  intro hmem
  rw [List.contains_iff_mem.mpr hmem] at hf
  cases hf

/-- nothing comes behind a block that no edge leaves -/
theorem Refines.not_successor_of_mem_exits (hg : g.Refines b) {k : Nat} {blk : Block}
    (hk : k ∈ g.exits) (hblk : g.block? k = some blk) (j : Nat) : ¬b.Successor blk.last j := by
  rw [hg.outward k blk hblk]
  rintro ⟨k', -, hadj, -⟩
  exact ((Digraph.mem_exits_iff hg.sound).mp hk).2 k' hadj

/-- the block that ends with the last instruction is the last one -/
theorem Refines.eq_last_of_stop (hg : g.Refines b) {k : Nat} {blk : Block}
    (hblk : g.block? k = some blk) (hstop : blk.stop = b.length) : k + 1 = g.blockCount := by
  rcases hg.tile.next ((getElem?_blocks g k).trans hblk) with ⟨c, hc, hstart⟩ | ⟨hk, -⟩
  · obtain ⟨-, -, hlt, hle⟩ := hg.tile.get hc
    omega
  · rw [hk, length_blocks]

/-- a block that no edge leaves ends the method, or is one of the two exceptions -/
theorem exits_cases (h : ofBody b = .ok g) {k : Nat} (hk : k ∈ g.exits) :
    ∃ blk x, g.block? k = some blk ∧ b.instruction? blk.last = some x ∧
      (x.endsMethod = true ∨ x.jumpsNowhere = true ∨
        (k + 1 = g.blockCount ∧ k ∉ g.order ∧ x.opcode.fallsThrough = true)) := by
  obtain ⟨⟨index, hix⟩, hg, hf⟩ := checked_of_ofBody h
  obtain ⟨blk, hblk⟩ := Refines.exists_block ((Digraph.mem_exits_iff hg.sound).mp hk).1
  obtain ⟨hlt, hle⟩ := hg.bounds hblk
  have hstop : blk.last + 1 = blk.stop := by
    unfold Block.last
    omega
  obtain ⟨x, hx⟩ := Body.exists_instruction (show blk.last < b.length by omega)
  refine ⟨blk, x, hblk, hx, ?_⟩
  rcases hix.goes_on hx with hend | hnowhere | ⟨j, hj⟩ | ⟨hft, hlast⟩
  · exact .inl hend
  · exact .inr (.inl hnowhere)
  · exact absurd hj (hg.not_successor_of_mem_exits hk hblk j)
  · have hk' := hg.eq_last_of_stop hblk (hstop.symm.trans hlast)
    have hlen : b.length - 1 = blk.last := by omega
    have hout := not_mem_order_of_fallsOff hf (hlen ▸ hx) hft
    rw [← hk', Nat.add_sub_cancel] at hout
    exact .inr (.inr ⟨hk', hout, hft⟩)

/-- where control comes in a body with a graph, the method ends or control goes on, unless it can
only jump and has nowhere to go -/
theorem path_cases (h : ofBody b = .ok g) {passed : List Nat} {i : Nat} (path : b.Path passed i) :
    ∃ x, b.instruction? i = some x ∧
      (x.endsMethod = true ∨ x.jumpsNowhere = true ∨ ∃ j, b.Successor i j) := by
  obtain ⟨⟨index, hix⟩, hg, hf⟩ := checked_of_ofBody h
  obtain ⟨x, hx⟩ := Body.exists_instruction path.lt_length
  refine ⟨x, hx, ?_⟩
  rcases hix.goes_on hx with hend | hnowhere | hj | ⟨hft, hlast⟩
  · exact .inl hend
  · exact .inr (.inl hnowhere)
  · exact .inr (.inr hj)
  · obtain ⟨k, blk, hblk, h1, h2⟩ := hg.exists_block_at path.lt_length
    have hmem := hg.mem_order_of_path path hblk h1 h2
    have hk := hg.eq_last_of_stop hblk (by have := (hg.bounds hblk).2; omega)
    have hlen : b.length - 1 = i := by omega
    have hout := not_mem_order_of_fallsOff hf (hlen ▸ hx) hft
    rw [← hk, Nat.add_sub_cancel] at hout
    exact absurd hmem hout

end FlowGraph

/-- a body that is verified has a graph -/
theorem Verifier.exists_graph {v : Verifier} {b : Body} {prof : Profile}
    (h : v.verify b = .ok (.analyzed prof)) : ∃ g, FlowGraph.ofBody b = .ok g := by
  unfold verify at h
  split at h
  · split at h <;> cases h
  · split at h
    · cases h
    · next g hg => exact ⟨g, hg⟩

/-- **Control that comes to an instruction of verified code goes on or ends the method**, and so
does control at the end of every block, apart from jumps without a label to jump to and from a last
block that control does not come to. -/
theorem control_goes_on (b : Body) :
    (∀ g, FlowGraph.ofBody b = .ok g → ∀ k ∈ g.exits, ∃ blk x,
        g.block? k = some blk ∧ b.instruction? blk.last = some x ∧
          (x.endsMethod = true ∨ x.jumpsNowhere = true ∨
            (k + 1 = g.blockCount ∧ k ∉ g.order ∧ x.opcode.fallsThrough = true))) ∧
      ∀ v prof, Verifier.verify v b = .ok (.analyzed prof) → ∀ passed i, b.Path passed i →
        ∃ x, b.instruction? i = some x ∧
          (x.endsMethod = true ∨ x.jumpsNowhere = true ∨ ∃ j, b.Successor i j) := by
  constructor
  · intro g h k hk
    exact FlowGraph.exits_cases h hk
  · intro v prof h passed i path
    obtain ⟨g, hg⟩ := Verifier.exists_graph h
    exact FlowGraph.path_cases hg path

/-- a jump over dead code, and dead code at the end -/
def deadTail : Body := .ofCode
  [{ opcode := .br, operand := .label ⟨0⟩ },
   { opcode := .pop },
   { opcode := .ret, labels := [⟨0⟩] },
   { opcode := .nop }]

def deadTailProfile : Profile where
  points := [some ⟨[], []⟩, none, some ⟨[], []⟩, none]
  blockCount := 4
  visits := 2

theorem control_goes_on_deadTail :
    (∃ g, FlowGraph.ofBody deadTail = .ok g ∧ g.exits = [2, 3] ∧ ∃ blk x,
        g.block? 2 = some blk ∧ deadTail.instruction? blk.last = some x ∧
          (x.endsMethod = true ∨ x.jumpsNowhere = true ∨
            (2 + 1 = g.blockCount ∧ 2 ∉ g.order ∧ x.opcode.fallsThrough = true))) ∧
      ({} : Verifier).verify deadTail = .ok (.analyzed deadTailProfile) ∧
        deadTail.Path [0] 2 ∧ ∃ x, deadTail.instruction? 2 = some x ∧
          (x.endsMethod = true ∨ x.jumpsNowhere = true ∨ ∃ j, deadTail.Successor 2 j) := by
  have hgraph : (FlowGraph.ofBody deadTail).map FlowGraph.exits = .ok [2, 3] := by decide +kernel
  have hverify : ({} : Verifier).verify deadTail = .ok (.analyzed deadTailProfile) := by
    decide +kernel
  have hjump : deadTail.Successor 0 2 :=
    ⟨_, rfl, .inl ⟨rfl, ⟨0⟩, List.mem_singleton.mpr rfl, _, rfl, List.mem_singleton.mpr rfl⟩⟩
  have hpath : deadTail.Path [0] 2 := (Body.Path.start (by decide)).step hjump
  cases hg : FlowGraph.ofBody deadTail with
  | error f =>
    rw [hg] at hgraph
    cases hgraph
  | ok g =>
    rw [hg] at hgraph
    have hexits : g.exits = [2, 3] := Except.ok.inj hgraph
    refine ⟨⟨g, rfl, hexits, ?_⟩, hverify, hpath, ?_⟩
    · exact (control_goes_on deadTail).1 g hg 2 (hexits ▸ List.mem_cons_self)
    · exact (control_goes_on deadTail).2 {} deadTailProfile hverify [0] 2 hpath

/-- a jump that says nothing about where to go -/
def bareJump : Body := .ofCode [{ opcode := .br }]

def bareJumpProfile : Profile where
  points := [some ⟨[], []⟩]
  blockCount := 1
  visits := 1

/-- **Without the exceptions it is false**: the last block of `deadTail` is left by no edge and runs
past its end, and `bareJump` is verified though control stands still at its only instruction. -/
theorem exits_other_than_ends :
    (∃ g blk x, FlowGraph.ofBody deadTail = .ok g ∧ 3 ∈ g.exits ∧ g.block? 3 = some blk ∧
        deadTail.instruction? blk.last = some x ∧ x.endsMethod = false) ∧
      ({} : Verifier).verify bareJump = .ok (.analyzed bareJumpProfile) ∧
        bareJump.Path [] 0 ∧ (∀ x, bareJump.instruction? 0 = some x → x.endsMethod = false) ∧
          ∀ j, ¬bareJump.Successor 0 j := by
  have hgraph : (FlowGraph.ofBody deadTail).map (fun g => (g.exits, g.block? 3)) =
      .ok ([2, 3], some ⟨3, 3, 4⟩) := by decide +kernel
  refine ⟨?_, by decide +kernel, .start (by decide), ?_, ?_⟩
  · cases hg : FlowGraph.ofBody deadTail with
    | error f =>
      rw [hg] at hgraph
      cases hgraph
    | ok g =>
      rw [hg] at hgraph
      obtain ⟨hexits, hblk⟩ := Prod.mk.inj (Except.ok.inj hgraph)
      refine ⟨g, ⟨3, 3, 4⟩, { opcode := .nop }, rfl, ?_, hblk, rfl, rfl⟩
      rw [hexits]
      decide
  · intro x hx
    cases hx
    rfl
  · rintro j ⟨x, hx, ⟨-, l, hl, -⟩ | ⟨hft, -⟩⟩
    · cases hx
      cases hl
    · cases hx
      cases hft

end CilPatch
