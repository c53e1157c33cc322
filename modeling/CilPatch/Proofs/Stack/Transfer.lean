import Mathlib.Data.List.Forall2
import CilPatch.Stack.Transfer

/-!
# What a transfer depends on

Everything that later proofs need to know about single instructions is said here once, so that no
other module looks at the table of operations again.

* `transfer_eq_ok_iff`,
  `transfer_eq_error_iff`   when a transfer succeeds, and with which fault it fails: whether it
                            does hangs on the height of the stack alone;
* `push_cases`              the three shapes of what an instruction puts back;
* `transfer_rel`            a transfer takes related stacks to related stacks, for every relation
                            on types that `produced` respects;
* `length_transfer_le`,
  `mem_transfer`            a stack grows by at most one, and only by types of a finite supply.
-/

namespace CilPatch.Instruction

variable {i : Instruction} {sig : Option Signature} {offset : Nat}

/-! ## success and failure -/

theorem transfer_eq_ok_iff {s t : Stack} :
    i.transfer sig offset s = .ok t ↔
      (i.demand sig s.depth = some .clear ∧ t = []) ∨
        ∃ e, i.demand sig s.depth = some (.exchange e) ∧ e.pops ≤ s.depth ∧
          t = e.push (s.take e.pops) ++ s.drop e.pops := by
  unfold transfer
  split
  · next e => simp [e]
  · next e => simp [e, eq_comm]
  · next e he =>
    rw [he]
    split
    · next hle => simp [hle, eq_comm]
    · next hle => simp [hle]

theorem transfer_eq_error_iff {s : Stack} {f : BodyFault} :
    i.transfer sig offset s = .error f ↔
      (i.demand sig s.depth = none ∧ f = .invalidOperand offset i) ∨
        ∃ e, i.demand sig s.depth = some (.exchange e) ∧ s.depth < e.pops ∧
          f = .stackUnderflow offset i e.pops s.depth := by
  unfold transfer
  split
  · next e => simp [e, eq_comm]
  · next e => simp [e]
  · next e he =>
    rw [he]
    split
    · next hle => simp [Nat.not_lt.mpr hle]
    · next hle => simp [Nat.lt_of_not_le hle, eq_comm]

/-- the operations without a fixed effect -/
theorem opcode_of_effect?_eq_none {op : Opcode} (h : op.effect? = none) :
    op = .call ∨ op = .callvirt ∨ op = .newobj ∨ op = .ret ∨ op = .leave ∨ op = .endfinally := by
  cases op <;> first | decide | cases h

/-- an instruction that no stack satisfies is a call without a method -/
theorem demand_eq_none {d : Nat} (h : i.demand sig d = none) :
    (i.opcode = .call ∨ i.opcode = .callvirt ∨ i.opcode = .newobj) ∧ i.method? = none := by
  unfold demand at h
  split at h
  · next e => exact ⟨.inl e, Option.map_eq_none_iff.mp h⟩
  · next e => exact ⟨.inr (.inl e), Option.map_eq_none_iff.mp h⟩
  · next e => exact ⟨.inr (.inr e), Option.map_eq_none_iff.mp h⟩
  · cases h
  · cases h
  · cases h
  · cases h
  · next h1 h2 h3 h4 h5 h6 h7 =>
    rcases opcode_of_effect?_eq_none (Option.map_eq_none_iff.mp h) with e | e | e | e | e | e
    · exact (h1 e).elim
    · exact (h2 e).elim
    · exact (h3 e).elim
    · exact (h4 e).elim
    · exact (h5 e).elim
    · exact (h6 e).elim

/-- a call without a method asks for what no stack has -/
theorem demand_of_method?_eq_none
    (hop : i.opcode = .call ∨ i.opcode = .callvirt ∨ i.opcode = .newobj) (hm : i.method? = none)
    (sig : Option Signature) (d : Nat) : i.demand sig d = none := by
  unfold demand
  rcases hop with e | e | e <;> rw [e, hm] <;> rfl

/-! ## what an instruction puts back -/

/-- an instruction puts back types that do not hang on the stack, the value it took twice, or one
type that is a function of those it took -/
theorem push_cases {d : Nat} {e : Exchange} (h : i.demand sig d = some (.exchange e)) :
    (∃ ts : List CilType, ts.length ≤ 1 ∧ ∀ taken, e.push taken = ts) ∨
      (e.pops = 1 ∧ ∀ taken, e.push taken = taken ++ taken) ∨
        ∀ taken, e.push taken = [i.produced sig taken] := by
  have hcall : ∀ m : MethodRef, ∀ n,
      Demand.exchange ⟨n, fun _ => if m.returnType.isVoid then [] else [m.returnType]⟩ =
        Demand.exchange e →
      ∃ ts : List CilType, ts.length ≤ 1 ∧ ∀ taken, e.push taken = ts := by
    intro m n he
    cases he
    refine ⟨if m.returnType.isVoid then [] else [m.returnType], ?_, fun _ => rfl⟩
    split <;> simp
  unfold demand at h
  split at h
  · obtain ⟨m, -, h⟩ := Option.map_eq_some_iff.mp h
    exact .inl (hcall m _ h)
  · obtain ⟨m, -, h⟩ := Option.map_eq_some_iff.mp h
    exact .inl (hcall m _ h)
  · obtain ⟨m, -, h⟩ := Option.map_eq_some_iff.mp h
    cases h
    exact .inl ⟨[m.declaringSort], Nat.le_refl 1, fun _ => rfl⟩
  · cases h
    exact .inl ⟨[], Nat.zero_le 1, fun _ => rfl⟩
  · cases h
  · cases h
  · cases h
    exact .inr (.inl ⟨rfl, fun _ => rfl⟩)
  · obtain ⟨eff, -, h⟩ := Option.map_eq_some_iff.mp h
    cases h
    by_cases hp : eff.pushes = 0
    · exact .inl ⟨[], Nat.zero_le 1, fun _ => if_pos hp⟩
    · exact .inr (.inr fun _ => if_neg hp)

/-- what an instruction puts back does not hang on the height of the stack -/
theorem push_eq_of_demand {d : Nat} {e : Exchange} (h : i.demand sig d = some (.exchange e))
    (d' : Nat) : ∃ e', i.demand sig d' = some (.exchange e') ∧ e'.push = e.push := by
  unfold demand at h ⊢
  split at h
  · exact ⟨e, h, rfl⟩
  · exact ⟨e, h, rfl⟩
  · exact ⟨e, h, rfl⟩
  · cases h
    exact ⟨_, rfl, rfl⟩
  · cases h
  · cases h
  · exact ⟨e, h, rfl⟩
  · exact ⟨e, h, rfl⟩

/-- the result of an operation on two numbers -/
def binaryResult (taken : List CilType) : CilType :=
  match taken with
  | [right, left] => arithmetic left right
  | _ => .unknown

/-- the result of an operation on one number, or of a shift -/
def unaryResult (taken : List CilType) : CilType :=
  match taken.getLast? with
  | some t => t.widened
  | none => .unknown

/-- the type that an instruction produces does not hang on the stack, or is that of an operation on
numbers -/
theorem produced_cases (i : Instruction) (sig : Option Signature) :
    (∀ taken, i.produced sig taken = i.produced sig []) ∨
      (∀ taken, i.produced sig taken = binaryResult taken) ∨
        ∀ taken, i.produced sig taken = unaryResult taken := by
  unfold produced
  split
  all_goals first
    | exact .inl fun _ => rfl
    | exact .inr (.inl fun _ => rfl)
    | exact .inr (.inr fun _ => rfl)

theorem getLast?_rel {R : CilType → CilType → Prop} {l l' : List CilType}
    (h : List.Forall₂ R l l') :
    (l.getLast? = none ∧ l'.getLast? = none) ∨
      ∃ a b, l.getLast? = some a ∧ l'.getLast? = some b ∧ R a b := by
  rw [← List.head?_reverse, ← List.head?_reverse]
  have hr := List.rel_reverse h
  generalize l.reverse = r, l'.reverse = r' at hr ⊢
  cases hr with
  | nil => exact .inl ⟨rfl, rfl⟩
  | cons hab _ => exact .inr ⟨_, _, rfl, rfl, hab⟩

/-- `produced` takes related types to related types -/
def RespectedBy (i : Instruction) (sig : Option Signature) (R : CilType → CilType → Prop) : Prop :=
  ∀ taken taken', List.Forall₂ R taken taken' →
    R (i.produced sig taken) (i.produced sig taken')

theorem push_rel {R : CilType → CilType → Prop} (hrefl : ∀ t, R t t)
    (hi : i.RespectedBy sig R) {d : Nat} {e : Exchange}
    (h : i.demand sig d = some (.exchange e)) {taken taken' : List CilType}
    (ht : List.Forall₂ R taken taken') : List.Forall₂ R (e.push taken) (e.push taken') := by
  rcases push_cases h with ⟨ts, -, hp⟩ | ⟨-, hp⟩ | hp
  · rw [hp, hp]
    exact List.forall₂_same.mpr fun t _ => hrefl t
  · rw [hp, hp]
    exact List.rel_append ht ht
  · rw [hp, hp]
    exact .cons (hi _ _ ht) .nil

/-- **A transfer keeps stacks related**, and whether it succeeds does not hang on the types. -/
theorem transfer_rel {R : CilType → CilType → Prop} (hrefl : ∀ t, R t t)
    (hi : i.RespectedBy sig R) {s s' t : Stack} (hs : List.Forall₂ R s s')
    (h : i.transfer sig offset s = .ok t) :
    ∃ t', i.transfer sig offset s' = .ok t' ∧ List.Forall₂ R t t' := by
  have hd : s'.depth = s.depth := hs.length_eq.symm
  rcases transfer_eq_ok_iff.mp h with ⟨hc, rfl⟩ | ⟨e, he, hle, rfl⟩
  · exact ⟨[], transfer_eq_ok_iff.mpr (.inl ⟨hd ▸ hc, rfl⟩), .nil⟩
  · refine ⟨_, transfer_eq_ok_iff.mpr (.inr ⟨e, hd ▸ he, hd ▸ hle, rfl⟩), ?_⟩
    exact List.rel_append (push_rel hrefl hi he (List.forall₂_take _ hs)) (List.forall₂_drop _ hs)

theorem forall₂_true_iff {s s' : Stack} :
    List.Forall₂ (fun _ _ : CilType => True) s s' ↔ s.depth = s'.depth := by
  constructor
  · exact fun h => h.length_eq
  · intro h
    exact List.forall₂_of_length_eq_of_get h fun _ _ _ => trivial

/-- the height behind an instruction hangs on the height before it alone -/
theorem transfer_ok_of_depth_eq {s s' t : Stack} (hd : s.depth = s'.depth)
    (h : i.transfer sig offset s = .ok t) :
    ∃ t', i.transfer sig offset s' = .ok t' ∧ t.depth = t'.depth := by
  obtain ⟨t', h', ht⟩ := transfer_rel (R := fun _ _ => True) (fun _ => trivial)
    (fun _ _ _ => trivial) (forall₂_true_iff.mpr hd) h
  exact ⟨t', h', forall₂_true_iff.mp ht⟩

/-- so does the fault with which an instruction fails -/
theorem transfer_error_of_depth_eq {s s' : Stack} {f : BodyFault} (hd : s.depth = s'.depth)
    (h : i.transfer sig offset s = .error f) : i.transfer sig offset s' = .error f := by
  rw [transfer_eq_error_iff] at h ⊢
  rw [← hd]
  exact h

/-! ## growth of the stack -/

theorem length_transfer_le {s t : Stack} (h : i.transfer sig offset s = .ok t) :
    t.depth ≤ s.depth + 1 := by
  rcases transfer_eq_ok_iff.mp h with ⟨-, rfl⟩ | ⟨e, he, hle, rfl⟩
  · exact Nat.zero_le _
  · have hp : (e.push (s.take e.pops)).length ≤ e.pops + 1 := by
      rcases push_cases he with ⟨ts, hts, hp⟩ | ⟨h1, hp⟩ | hp
      · rw [hp]
        omega
      · rw [hp, List.length_append, List.length_take, h1]
        omega
      · rw [hp]
        exact Nat.succ_le_succ (Nat.zero_le _)
    have hle' : e.pops ≤ s.length := hle
    show (e.push (s.take e.pops) ++ s.drop e.pops).length ≤ s.length + 1
    rw [List.length_append, List.length_drop]
    omega

/-- the types that instructions make of others -/
def derivedTypes : List CilType :=
  [.unknown, .i4, .u4, .i8, .u8, .r4, .r8, .native, .unative]

/-- the types that the instruction pushes whatever lies on the stack -/
def pushes (i : Instruction) (sig : Option Signature) : List CilType :=
  match i.demand sig 0 with
  | some (.exchange e) => e.push []
  | _ => []

theorem length_pushes_le (i : Instruction) (sig : Option Signature) :
    (i.pushes sig).length ≤ 1 := by
  unfold pushes
  split
  · next e he =>
    rcases push_cases he with ⟨ts, hts, hp⟩ | ⟨-, hp⟩ | hp
    · rw [hp]
      exact hts
    · rw [hp]
      exact Nat.zero_le 1
    · rw [hp]
      exact Nat.le_refl 1
  · exact Nat.zero_le 1

theorem widened_mem (t : CilType) : t.widened ∈ derivedTypes ∨ t.widened = t := by
  cases t <;> first | exact .inr rfl | exact .inl (by decide)

theorem unaryResult_mem (taken : List CilType) :
    unaryResult taken ∈ derivedTypes ∨ unaryResult taken ∈ taken := by
  unfold unaryResult
  split
  · next t ht =>
    rcases widened_mem t with h | h
    · exact .inl h
    · rw [h]
      exact .inr (List.mem_of_getLast? ht)
  · exact .inl List.mem_cons_self

theorem arithmetic_mem (a b : CilType) : arithmetic a b ∈ derivedTypes := by
  unfold arithmetic
  split
  · next h =>
    have hn := h.2
    clear h
    cases a <;> first | decide | cases hn
  · split <;> decide

theorem binaryResult_mem (taken : List CilType) : binaryResult taken ∈ derivedTypes := by
  unfold binaryResult
  split
  · exact arithmetic_mem _ _
  · exact List.mem_cons_self

theorem produced_mem (i : Instruction) (sig : Option Signature) (taken : List CilType) :
    i.produced sig taken = i.produced sig [] ∨ i.produced sig taken ∈ derivedTypes ∨
      i.produced sig taken ∈ taken := by
  rcases produced_cases i sig with h | h | h
  · exact .inl (h taken)
  · rw [h]
    exact .inr (.inl (binaryResult_mem taken))
  · rw [h]
    exact .inr (unaryResult_mem taken)

/-- what is on the stack behind an instruction was there before, is pushed by it whatever was
there, or is derived -/
theorem mem_transfer {s t : Stack} (h : i.transfer sig offset s = .ok t) {u : CilType}
    (hu : u ∈ t) : u ∈ s ∨ u ∈ i.pushes sig ∨ u ∈ derivedTypes := by
  rcases transfer_eq_ok_iff.mp h with ⟨-, rfl⟩ | ⟨e, he, -, rfl⟩
  · cases hu
  rcases List.mem_append.mp hu with hu | hu
  · obtain ⟨e', he', hpush⟩ := push_eq_of_demand he 0
    have hp : i.pushes sig = e.push [] := by
      rw [← hpush]
      unfold pushes
      rw [he']
    rcases push_cases he with ⟨ts, -, hs⟩ | ⟨-, hs⟩ | hs
    · rw [hs] at hu
      rw [hp, hs]
      exact .inr (.inl hu)
    · rw [hs, List.mem_append, or_self] at hu
      exact .inl (List.mem_of_mem_take hu)
    · rw [hs, List.mem_singleton] at hu
      rw [hp, hs, hu, List.mem_singleton]
      rcases produced_mem i sig (s.take e.pops) with hm | hm | hm
      · exact .inr (.inl hm)
      · exact .inr (.inr hm)
      · exact .inl (List.mem_of_mem_take hm)
  · exact .inl (List.mem_of_mem_drop hu)

end CilPatch.Instruction
