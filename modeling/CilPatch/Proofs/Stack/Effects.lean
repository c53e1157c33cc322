import CilPatch.Proofs.Stack.Soundness

/-!
# Declared effects

How many values an instruction takes off the stack and puts back is declared in three places: in the
table of operations where it is fixed, else by the method that is called or built with, else by the
signature of the method that returns (`Instruction.effect?`).  The types are worked out elsewhere,
case by case, and with them the values that are in fact exchanged.

* `demand_cases`         what each operation exchanges is what is declared for it;
* `transfer_effect`      so an instruction fails, or leaves the lower values alone and has as many
                         on top of them, just as declared;
* `heights_by_effects`   the same between the stacks that a profile records.
-/

namespace CilPatch

/-- apart from `dup`, no operation puts back more than one value -/
theorem Opcode.pushes_le_one {op : Opcode} {e : Effect} (h : op.effect? = some e)
    (hdup : op ≠ .dup) : e.pushes ≤ 1 := by
  cases op <;> cases h <;> first | exact absurd rfl hdup | decide

/-- the exchange takes as many values as the effect says, and puts as many back -/
def Exchange.Has (x : Exchange) (e : Effect) : Prop :=
  x.pops = e.pops ∧ ∀ taken : List CilType, taken.length = x.pops → (x.push taken).length = e.pushes

/-- a call takes the arguments and puts back what the method returns -/
theorem Exchange.has_call (m : MethodRef) :
    Exchange.Has ⟨m.argumentCount, fun _ => if m.returnType.isVoid then [] else [m.returnType]⟩
      ⟨m.argumentCount, if m.returnType.isVoid then 0 else 1⟩ := by
  refine ⟨rfl, fun _ _ => ?_⟩
  show (if m.returnType.isVoid then [] else [m.returnType]).length = _
  split <;> rfl

theorem Stack.depth_ofSlots (slots : List CilType) : (ofSlots slots).depth = slots.length :=
  List.length_reverse

theorem Stack.length_take_slots {s : Stack} {n : Nat} (h : n ≤ s.depth) :
    (s.slots.take n).length = n :=
  List.length_take_of_le (List.length_reverse.symm ▸ h)

namespace Instruction

/-- the operation empties the stack -/
def Clears (i : Instruction) : Prop := i.opcode = .leave ∨ i.opcode = .endfinally

/-- the operation needs a method, and the operand is none -/
def LacksMethod (i : Instruction) : Prop :=
  (i.opcode = .call ∨ i.opcode = .callvirt ∨ i.opcode = .newobj) ∧ i.method? = none

/-- how many values `ret` takes off a stack of height `depth` -/
def returned (sig : Option Signature) (depth : Nat) : Nat :=
  match sig with
  | some s => if s.returnsValue then 1 else 0
  | none => if depth = 0 then 0 else 1

/-- the effect that is declared for an instruction on a stack of height `depth`: by the table of
operations where it is fixed there, else by the method that it refers to or by the signature -/
def effect? (i : Instruction) (sig : Option Signature) (depth : Nat) : Option Effect :=
  match i.opcode.effect? with
  | some e => some e
  | none =>
    match i.opcode, i.method? with
    | .call, some m | .callvirt, some m =>
      some ⟨m.argumentCount, if m.returnType.isVoid then 0 else 1⟩
    | .newobj, some m => some ⟨m.params.length, 1⟩
    | .ret, _ => some ⟨returned sig depth, 0⟩
    | _, _ => none

variable {i : Instruction} {sig : Option Signature} {offset d : Nat} {s t : Stack}

/-! ## what is declared and what is demanded -/

theorem effect?_of_table {e : Effect} (h : i.opcode.effect? = some e) :
    i.effect? sig d = some e := by
  rw [effect?, h]

theorem effect?_call {m : MethodRef} (hop : i.opcode = .call ∨ i.opcode = .callvirt)
    (hm : i.method? = some m) :
    i.effect? sig d = some ⟨m.argumentCount, if m.returnType.isVoid then 0 else 1⟩ := by
  rcases hop with hop | hop <;> rw [effect?, hop, hm] <;> rfl

theorem effect?_newobj {m : MethodRef} (hop : i.opcode = .newobj) (hm : i.method? = some m) :
    i.effect? sig d = some ⟨m.params.length, 1⟩ := by
  rw [effect?, hop, hm]
  rfl

theorem effect?_ret (hop : i.opcode = .ret) : i.effect? sig d = some ⟨returned sig d, 0⟩ := by
  rw [effect?, hop]
  rfl

/-- **What an instruction demands is what is declared for it**, unless it empties the stack or
cannot be carried out on any. -/
theorem demand_cases (i : Instruction) (sig : Option Signature) (d : Nat) :
    (i.LacksMethod ∧ i.demand sig d = none) ∨ (i.Clears ∧ i.demand sig d = some .clear) ∨
      ∃ x e, i.demand sig d = some (.exchange x) ∧ i.effect? sig d = some e ∧ x.Has e := by
  cases hd : i.demand sig d with
  | none => exact .inl ⟨demand_eq_none hd, rfl⟩
  | some dem =>
    refine .inr ?_
    unfold demand at hd
    split at hd
    · next hop =>
      obtain ⟨m, hm, rfl⟩ := Option.map_eq_some_iff.mp hd
      exact .inr ⟨_, _, rfl, effect?_call (.inl hop) hm, Exchange.has_call m⟩
    · next hop =>
      obtain ⟨m, hm, rfl⟩ := Option.map_eq_some_iff.mp hd
      exact .inr ⟨_, _, rfl, effect?_call (.inr hop) hm, Exchange.has_call m⟩
    · next hop =>
      obtain ⟨m, hm, rfl⟩ := Option.map_eq_some_iff.mp hd
      exact .inr ⟨_, _, rfl, effect?_newobj hop hm, rfl, fun _ _ => rfl⟩
    · next hop =>
      cases hd
      refine .inr ⟨_, _, rfl, effect?_ret hop, ?_, fun _ _ => rfl⟩
      unfold returned
      cases sig with
      | none => rfl
      | some s =>
        show s.returnsValue.toNat = if s.returnsValue = true then 1 else 0
        cases s.returnsValue <;> rfl
    · next hop =>
      cases hd
      exact .inl ⟨.inl hop, rfl⟩
    · next hop =>
      cases hd
      exact .inl ⟨.inr hop, rfl⟩
    · next hop =>
      cases hd
      refine .inr ⟨_, ⟨1, 2⟩, rfl, effect?_of_table (by rw [hop]; rfl), rfl, fun taken h => ?_⟩
      rw [List.length_append, h]
      rfl
    · next hdup =>
      obtain ⟨e, he, rfl⟩ := Option.map_eq_some_iff.mp hd
      refine .inr ⟨_, e, rfl, effect?_of_table he, rfl, fun taken _ => ?_⟩
      have hle := Opcode.pushes_le_one he hdup
      show (if e.pushes = 0 then [] else [i.produced sig taken]).length = e.pushes
      split
      · next h => exact h.symm
      · next h => exact (by omega : 1 = e.pushes)

theorem lacksMethod_iff (sig : Option Signature) (d : Nat) :
    i.LacksMethod ↔ i.demand sig d = none :=
  ⟨fun h => demand_of_method?_eq_none h.1 h.2 sig d, demand_eq_none⟩

/-! ## transfers -/

theorem transfer_of_clears (h : i.Clears) : i.transfer sig offset s = .ok [] := by
  unfold transfer demand
  rcases h with hop | hop <;> rw [hop]

/-- an exchange leaves the lowest slots alone and has what it puts back on top of them -/
theorem exchanged_eq (x : Exchange) (s : Stack) :
    x.push (s.take x.pops) ++ s.drop x.pops =
      Stack.ofSlots (s.slots.take (s.depth - x.pops) ++ (x.push (s.take x.pops)).reverse) := by
  have hlow : s.slots.take (s.depth - x.pops) = (s.drop x.pops).reverse := List.reverse_drop.symm
  rw [hlow, Stack.ofSlots, List.reverse_append, List.reverse_reverse, List.reverse_reverse]

theorem transfer_eq_invalidOperand_iff :
    i.transfer sig offset s = .error (.invalidOperand offset i) ↔ i.LacksMethod := by
  rw [transfer_eq_error_iff, lacksMethod_iff sig s.depth]
  constructor
  · rintro (⟨hd, -⟩ | ⟨x, -, -, hf⟩)
    · exact hd
    · cases hf
  · exact fun hd => .inl ⟨hd, rfl⟩

theorem transfer_eq_stackUnderflow_iff {x : Exchange} {e : Effect}
    (hd : i.demand sig s.depth = some (.exchange x)) (hx : x.Has e) :
    i.transfer sig offset s = .error (.stackUnderflow offset i e.pops s.depth) ↔
      s.depth < e.pops := by
  rw [transfer_eq_error_iff, hd, ← hx.1]
  constructor
  · rintro (⟨hn, -⟩ | ⟨x', hx', hlt, -⟩)
    · cases hn
    · cases hx'
      exact hlt
  · exact fun hlt => .inr ⟨x, rfl, hlt, rfl⟩

/-- with enough on the stack, what is put back stands in the place of what is taken -/
theorem transfer_of_has {x : Exchange} {e : Effect} (hd : i.demand sig s.depth = some (.exchange x))
    (hx : x.Has e) (hle : e.pops ≤ s.depth) :
    ∃ top : List CilType, top.length = e.pushes ∧
      i.transfer sig offset s = .ok (Stack.ofSlots (s.slots.take (s.depth - e.pops) ++ top)) := by
  obtain ⟨hpops, hpush⟩ := hx
  rw [← hpops] at hle ⊢
  refine ⟨(x.push (s.take x.pops)).reverse, ?_, ?_⟩
  · rw [List.length_reverse, hpush _ (List.length_take_of_le hle)]
  · rw [← exchanged_eq]
    exact transfer_eq_ok_iff.mpr (.inr ⟨x, hd, hle, rfl⟩)

/-- **A transfer has the declared effect and touches nothing below it.**  It fails for want of a
method, or of the values it should take, exactly then; otherwise it leaves the lower slots as they
are and puts the declared number of values on top of them.  `leave` and `endfinally` always
succeed, with the empty stack. -/
theorem transfer_effect (i : Instruction) (sig : Option Signature) (offset : Nat) (s : Stack) :
    (i.Clears → i.transfer sig offset s = .ok []) ∧
      (i.transfer sig offset s = .error (.invalidOperand offset i) ↔ i.LacksMethod) ∧
      (¬i.Clears → ¬i.LacksMethod → ∃ e, i.effect? sig s.depth = some e ∧
        (i.transfer sig offset s = .error (.stackUnderflow offset i e.pops s.depth) ↔
          s.depth < e.pops) ∧
        (e.pops ≤ s.depth → ∃ top : List CilType, top.length = e.pushes ∧
          i.transfer sig offset s =
            .ok (Stack.ofSlots (s.slots.take (s.depth - e.pops) ++ top)))) := by
  refine ⟨transfer_of_clears, transfer_eq_invalidOperand_iff, fun hc hm => ?_⟩
  rcases demand_cases i sig s.depth with ⟨hm', -⟩ | ⟨hc', -⟩ | ⟨x, e, hd, he, hx⟩
  · exact absurd hm' hm
  · exact absurd hc' hc
  · exact ⟨e, he, transfer_eq_stackUnderflow_iff hd hx, transfer_of_has hd hx⟩

/-- a call of a method of two parameters that returns a string -/
def concatCall : Instruction where
  opcode := .call
  operand := .method ⟨"System.String", "Concat", [.object, .object], .string, false, false⟩

/-- on a stack of three the call leaves one value alone; a stack of one is too small for it -/
theorem transfer_effect_concatCall :
    ¬concatCall.Clears ∧ ¬concatCall.LacksMethod ∧
      concatCall.effect? none 3 = some ⟨2, 1⟩ ∧
      (∃ top : List CilType, top.length = 1 ∧
        concatCall.transfer none 4 [.null, .string, .i4] = .ok (Stack.ofSlots (.i4 :: top))) ∧
      concatCall.transfer none 4 [.null] = .error (.stackUnderflow 4 concatCall 2 1) := by
  have hc : ¬concatCall.Clears := by rintro (h | h) <;> cases h
  have hm : ¬concatCall.LacksMethod := fun h => by cases h.2
  refine ⟨hc, hm, rfl, ?_, ?_⟩
  · obtain ⟨e, he, -, hok⟩ := (transfer_effect concatCall none 4 [.null, .string, .i4]).2.2 hc hm
    cases he
    exact hok (by decide)
  · obtain ⟨e, he, hfault, -⟩ := (transfer_effect concatCall none 4 [.null]).2.2 hc hm
    cases he
    exact hfault.mpr (by decide)

/-- behind an instruction that can be carried out the stack is empty, or as much higher as is
declared -/
theorem depth_of_transfer (ht : i.transfer sig offset s = .ok t) :
    (i.Clears ∧ t.depth = 0) ∨ ∃ e, i.effect? sig s.depth = some e ∧ e.pops ≤ s.depth ∧
      t.depth = s.depth - e.pops + e.pushes := by
  rcases demand_cases i sig s.depth with ⟨hm, -⟩ | ⟨hc, -⟩ | ⟨x, e, hd, he, hx⟩
  · cases ht.symm.trans (transfer_eq_invalidOperand_iff.mpr hm)
  · cases ht.symm.trans (transfer_of_clears hc)
    exact .inl ⟨hc, rfl⟩
  · have hle : e.pops ≤ s.depth := by
      refine Nat.le_of_not_lt fun hlt => ?_
      cases ht.symm.trans ((transfer_eq_stackUnderflow_iff hd hx).mpr hlt)
    obtain ⟨top, htop, ht'⟩ := transfer_of_has hd hx hle
    cases ht.symm.trans ht'
    refine .inr ⟨e, he, hle, ?_⟩
    rw [Stack.depth_ofSlots, List.length_append, htop, Stack.length_take_slots (Nat.sub_le _ _)]

end Instruction

/-- **Heights follow from the declared effects**: between the stacks that a profile records before
and behind an instruction lies what is declared for it. -/
theorem heights_by_effects {v : Verifier} {b : Body} {prof : Profile}
    (h : v.verify b = .ok (.analyzed prof)) {i : Nat} {p : Point} (hp : prof.point? i = some p) :
    ∃ x, b.instruction? i = some x ∧
      ((x.Clears ∧ p.after.depth = 0) ∨
        ∃ e, x.effect? v.signature p.before.depth = some e ∧ e.pops ≤ p.before.depth ∧
          p.after.depth = p.before.depth - e.pops + e.pushes) := by
  obtain ⟨x, hx, ht⟩ := (verify_analyzed h).carried i p hp
  exact ⟨x, hx, Instruction.depth_of_transfer ht⟩

end CilPatch
