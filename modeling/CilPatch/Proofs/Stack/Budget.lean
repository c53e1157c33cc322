import Mathlib.Algebra.GroupWithZero.Nat
import CilPatch.Proofs.Stack.Iteration

/-!
# The iteration comes to an end

All types on all stacks come from a finite supply (`supply`), and a start is at most one body
higher than one that was found before it, so that no stack exceeds `ceiling` (`Bounded`).  Hence the
start of a block changes only so often: `room` counts, slot by slot, the types of the supply that
the slot has not absorbed yet.  Every arrival that changes a start makes room smaller and schedules
at most one block, and every visit takes one block off the list.

* `visit_potential`      a visit does not raise the sum of room and scheduled blocks;
* `potential_initial`    at the beginning the sum is within the budget;
* `solve_done`           so nothing is scheduled when the iteration stops.
-/

namespace CilPatch.Analysis

variable {a : Analysis} {p p' : Progress}

/-! ## sums over the blocks -/

/-- a quantity of every start, summed over the blocks -/
def total (f : Option Stack → Nat) (starts : Array (Option Stack)) : Nat :=
  (starts.toList.map f).sum

theorem sum_set {f : Option Stack → Nat} {l : List (Option Stack)} {k : Nat}
    {old new : Option Stack} (h : l[k]? = some old) :
    ((l.set k new).map f).sum + f old = (l.map f).sum + f new := by
  induction l generalizing k with
  | nil => cases h
  | cons o l ih =>
    cases k with
    | zero =>
      cases h
      simp only [List.set_cons_zero, List.map_cons, List.sum_cons]
      omega
    | succ k =>
      have hrest := ih (k := k) h
      simp only [List.set_cons_succ, List.map_cons, List.sum_cons]
      omega

theorem total_set {f : Option Stack → Nat} {starts : Array (Option Stack)} {k : Nat}
    {old new : Option Stack} (h : starts[k]? = some old) :
    total f (starts.setIfInBounds k new) + f old = total f starts + f new := by
  unfold total
  rw [Array.toList_setIfInBounds]
  exact sum_set (Array.getElem?_toList.trans h)

/-! ## the supply of types -/

/-- the types that can come onto a stack of the body -/
def supply (a : Analysis) : List CilType :=
  a.body.code.flatMap (·.pushes a.signature) ++ Instruction.derivedTypes

theorem length_supply_le (a : Analysis) : a.supply.length ≤ a.body.length + 9 := by
  have hcode : ∀ l : List Instruction, (l.flatMap (·.pushes a.signature)).length ≤ l.length := by
    intro l
    induction l with
    | nil => exact Nat.le_refl _
    | cons x l ih =>
      have hx := Instruction.length_pushes_le x a.signature
      rw [List.flatMap_cons, List.length_append, List.length_cons]
      omega
  unfold supply
  rw [List.length_append]
  exact Nat.add_le_add_right (hcode a.body.code) 9

theorem mem_supply_of_transfer {x : Instruction} {i : Nat} {s t : Stack} (hx : x ∈ a.body.code)
    (hs : ∀ u ∈ s, u ∈ a.supply) (h : x.transfer a.signature i s = .ok t) :
    ∀ u ∈ t, u ∈ a.supply := by
  intro u hu
  rcases Instruction.mem_transfer h hu with hu | hu | hu
  · exact hs u hu
  · exact List.mem_append_left _ (List.mem_flatMap.mpr ⟨x, hx, hu⟩)
  · exact List.mem_append_right _ hu

theorem runCode_bounds {l : List (Nat × Instruction)} {s t : Stack}
    (hl : ∀ y ∈ l, y.2 ∈ a.body.code) (hs : ∀ u ∈ s, u ∈ a.supply) (h : a.runCode s l = .ok t) :
    (∀ u ∈ t, u ∈ a.supply) ∧ t.depth ≤ s.depth + l.length := by
  induction l generalizing s with
  | nil =>
    cases h
    exact ⟨hs, Nat.le_refl _⟩
  | cons y l ih =>
    rw [runCode_cons] at h
    obtain ⟨u, hu, h⟩ := bind_eq_ok h
    obtain ⟨hsup, hd⟩ := ih (fun y' hy' => hl y' (List.mem_cons_of_mem _ hy'))
      (mem_supply_of_transfer (hl y List.mem_cons_self) hs hu) h
    have hstep := Instruction.length_transfer_le hu
    refine ⟨hsup, ?_⟩
    rw [List.length_cons]
    omega

theorem instructions_bounds (blk : Block) (b : Body) :
    (∀ y ∈ blk.instructions b, y.2 ∈ b.code) ∧ (blk.instructions b).length ≤ b.length := by
  unfold Block.instructions
  constructor
  · exact fun y hy => List.mem_of_mem_drop (List.of_mem_zip hy).2
  · rw [List.length_zip, List.length_drop]
    exact Nat.le_trans (Nat.min_le_right _ _) (Nat.sub_le _ _)

theorem mem_merge {h : Hierarchy} {held arriving m : Stack}
    (hm : Stack.merge h held arriving = some m) {u : CilType} (hu : u ∈ m) :
    u ∈ held ∨ u ∈ arriving ∨ u = .unknown := by
  obtain ⟨-, rfl⟩ := Stack.merge_eq_some_iff.mp hm
  clear hm
  induction held generalizing arriving with
  | nil => cases hu
  | cons x held ih =>
    cases arriving with
    | nil => cases hu
    | cons y arriving =>
      rcases List.mem_cons.mp hu with rfl | hu
      · rcases h.join_eq_or x y with e | e | e
        · rw [e]
          exact .inl List.mem_cons_self
        · rw [e]
          exact .inr (.inl List.mem_cons_self)
        · exact .inr (.inr e)
      · rcases ih hu with hu | hu | hu
        · exact .inl (List.mem_cons_of_mem _ hu)
        · exact .inr (.inl (List.mem_cons_of_mem _ hu))
        · exact .inr (.inr hu)

/-! ## bounds -/

/-- the height that no stack exceeds -/
def ceiling (a : Analysis) : Nat := a.graph.blockCount * a.body.length

/-- the number of blocks whose start is not known -/
def unknown (p : Progress) : Nat := total (fun o => if o.isNone then 1 else 0) p.starts

/-- every start is made from the supply, and each block that has none yet may still add the height
of a body -/
structure Bounded (a : Analysis) (p : Progress) : Prop where
  supplied : ∀ k s, p.Held k s → ∀ u ∈ s, u ∈ a.supply
  height : ∀ k s, p.Held k s → s.depth + a.body.length * unknown p ≤ a.ceiling

/-- a stack that may arrive at blocks -/
structure Admissible (a : Analysis) (p : Progress) (t : Stack) : Prop where
  supplied : ∀ u ∈ t, u ∈ a.supply
  height : t.depth + a.body.length * unknown p ≤ a.ceiling + a.body.length

theorem unknown_put_none {k : Nat} {m : Stack} (h : p.starts[k]? = some none) :
    unknown (p.put a k m) + 1 = unknown p :=
  total_set (f := fun o => if o.isNone then 1 else 0) h

theorem unknown_put_some {k : Nat} {held m : Stack} (h : p.Held k held) :
    unknown (p.put a k m) = unknown p :=
  total_set (f := fun o => if o.isNone then 1 else 0) h

theorem bounded_put (hb : a.Bounded p) {k : Nat} {m : Stack} (hk : k < p.starts.size)
    (hle : unknown (p.put a k m) ≤ unknown p) (hm : ∀ u ∈ m, u ∈ a.supply)
    (hd : m.depth + a.body.length * unknown (p.put a k m) ≤ a.ceiling) :
    a.Bounded (p.put a k m) where
  supplied := by
    intro k' s hs
    rcases (Progress.held_put hk _ _).mp hs with ⟨-, rfl⟩ | ⟨-, hs⟩
    · exact hm
    · exact hb.supplied k' s hs
  height := by
    intro k' s hs
    rcases (Progress.held_put hk _ _).mp hs with ⟨-, rfl⟩ | ⟨-, hs⟩
    · exact hd
    · have hold := hb.height k' s hs
      have hmul := Nat.mul_le_mul_left a.body.length hle
      omega

theorem unknown_arrival_le {k : Nat} {t : Stack} (h : a.Arrival p k t p') :
    unknown p' ≤ unknown p := by
  cases h with
  | first hn => exact Nat.le_of_lt (Nat.lt_of_succ_le (Nat.le_of_eq (unknown_put_none hn)))
  | kept => exact Nat.le_refl _
  | raised hh => exact Nat.le_of_eq (unknown_put_some hh)

theorem Admissible.mono {t : Stack} (ht : a.Admissible p t) (hle : unknown p' ≤ unknown p) :
    a.Admissible p' t where
  supplied := ht.supplied
  height := by
    have h := ht.height
    have hmul := Nat.mul_le_mul_left a.body.length hle
    omega

theorem mem_supply_of_merge {k : Nat} {t held m : Stack} (hb : a.Bounded p)
    (ht : a.Admissible p t) (hh : p.Held k held) (hm : Stack.merge a.hierarchy held t = some m) :
    ∀ u ∈ m, u ∈ a.supply := by
  intro u hu
  rcases mem_merge hm hu with hu | hu | rfl
  · exact hb.supplied k held hh u hu
  · exact ht.supplied u hu
  · exact List.mem_append_right _ List.mem_cons_self

theorem Bounded.arrival (hb : a.Bounded p) {k : Nat} {t : Stack} (ht : a.Admissible p t)
    (h : a.Arrival p k t p') : a.Bounded p' := by
  have hle := unknown_arrival_le h
  cases h with
  | first hn =>
    have he := unknown_put_none (a := a) (m := t) hn
    have hd := ht.height
    refine bounded_put hb (Array.getElem?_eq_some_iff.mp hn).1 hle ht.supplied ?_
    rw [← he, Nat.mul_add, Nat.mul_one] at hd
    omega
  | kept => exact hb
  | raised hh hm hne =>
    refine bounded_put hb hh.lt hle (mem_supply_of_merge hb ht hh hm) ?_
    rw [unknown_put_some hh, Stack.depth_merge hm]
    exact hb.height k _ hh

/-! ## room -/

/-- the number of types that a slot of type `t` has not absorbed yet -/
def slotRoom (a : Analysis) (t : CilType) : Nat :=
  a.supply.countP fun u => !a.hierarchy.assignable u t

/-- a number that every change of a start makes smaller -/
def room (a : Analysis) : Option Stack → Nat
  | none => a.ceiling * a.supply.length + 1
  | some s => (s.map a.slotRoom).sum

theorem countP_lt {α : Type} {P Q : α → Bool} {l : List α} (h : ∀ x ∈ l, P x = true → Q x = true)
    {x : α} (hx : x ∈ l) (hp : P x = false) (hq : Q x = true) : l.countP P < l.countP Q := by
  have hfilter : l.countP P = (l.filter Q).countP P := by
    rw [List.countP_filter]
    refine List.countP_congr fun y hy => ?_
    rw [Bool.and_eq_true]
    exact ⟨fun hpy => ⟨hpy, h y hy hpy⟩, fun hpq => hpq.1⟩
  rw [hfilter, List.countP_eq_length_filter (p := Q), List.countP_lt_length_iff]
  exact ⟨x, List.mem_filter.mpr ⟨hx, hq⟩, hp⟩

/-- what a slot has absorbed it never gives back, and a join that changes it is absorbed anew -/
theorem slotRoom_join (x y : CilType) :
    a.slotRoom (a.hierarchy.join x y) ≤ a.slotRoom x ∧
      (a.hierarchy.join x y ≠ x → a.hierarchy.join x y ∈ a.supply →
        a.slotRoom (a.hierarchy.join x y) < a.slotRoom x) := by
  have hmono : ∀ u ∈ a.supply, (!a.hierarchy.assignable u (a.hierarchy.join x y)) = true →
      (!a.hierarchy.assignable u x) = true := by
    intro u _ hu
    rw [Bool.not_eq_true'] at hu ⊢
    by_contra hux
    rw [Bool.not_eq_false] at hux
    rw [Hierarchy.assignable_trans hux (a.hierarchy.assignable_join_left x y)] at hu
    cases hu
  refine ⟨List.countP_mono_left hmono, fun hne hmem => ?_⟩
  refine countP_lt hmono hmem ?_ ?_
  · rw [a.hierarchy.assignable_self]
    rfl
  · rw [Hierarchy.join_ne_left hne]
    rfl

theorem room_merge {held arriving m : Stack}
    (hm : Stack.merge a.hierarchy held arriving = some m) (hs : ∀ u ∈ m, u ∈ a.supply) :
    a.room (some m) ≤ a.room (some held) ∧ (m ≠ held → a.room (some m) < a.room (some held)) := by
  obtain ⟨hd, rfl⟩ := Stack.merge_eq_some_iff.mp hm
  clear hm
  unfold room
  unfold Stack.depth at hd
  induction held generalizing arriving with
  | nil => exact ⟨Nat.le_refl _, fun hne => absurd rfl hne⟩
  | cons x held ih =>
    cases arriving with
    | nil => cases hd
    | cons y arriving =>
      rw [List.zipWith_cons_cons] at hs ⊢
      obtain ⟨hle, hlt⟩ := slotRoom_join (a := a) x y
      obtain ⟨hle', hlt'⟩ := ih (Nat.succ.inj hd) fun u hu => hs u (List.mem_cons_of_mem _ hu)
      simp only [List.map_cons, List.sum_cons] at hle' hlt' ⊢
      refine ⟨by omega, fun hne => ?_⟩
      by_cases e : a.hierarchy.join x y = x
      · have hrest : List.zipWith a.hierarchy.join held arriving ≠ held := by
          intro e'
          rw [e, e'] at hne
          exact hne rfl
        have := hlt' hrest
        omega
      · have := hlt e (hs _ List.mem_cons_self)
        omega

theorem room_le (s : Stack) : a.room (some s) ≤ s.depth * a.supply.length := by
  show (s.map a.slotRoom).sum ≤ s.length * a.supply.length
  induction s with
  | nil => exact Nat.zero_le _
  | cons t s ih =>
    have ht : a.slotRoom t ≤ a.supply.length := List.countP_le_length
    rw [List.length_cons, Nat.add_mul, Nat.one_mul, List.map_cons, List.sum_cons]
    omega

/-! ## the potential -/

/-- what is left to do: the blocks that are scheduled and the changes that can still schedule one -/
def potential (a : Analysis) (p : Progress) : Nat := p.pending.length + total a.room p.starts

theorem potential_put {k : Nat} {old : Option Stack} {m : Stack} (h : p.starts[k]? = some old)
    (hlt : a.room (some m) < a.room old) : a.potential (p.put a k m) ≤ a.potential p := by
  have hsum : total a.room (p.put a k m).starts + a.room old =
      total a.room p.starts + a.room (some m) := total_set h
  have hlen : (p.put a k m).pending.length ≤ p.pending.length + 1 := length_schedule_le _ _
  unfold potential
  omega

theorem potential_arrival (hb : a.Bounded p) {k : Nat} {t : Stack} (ht : a.Admissible p t)
    (h : a.Arrival p k t p') : a.potential p' ≤ a.potential p := by
  cases h with
  | first hn =>
    refine potential_put hn ?_
    have hd := ht.height
    rw [← unknown_put_none (a := a) (m := t) hn, Nat.mul_add, Nat.mul_one] at hd
    have hle : t.depth ≤ a.ceiling := by omega
    have hroom := room_le (a := a) t
    have hmul := Nat.mul_le_mul_right a.supply.length hle
    show a.room (some t) < a.ceiling * a.supply.length + 1
    omega
  | kept => exact Nat.le_refl _
  | raised hh hm hne =>
    exact potential_put hh ((room_merge hm (mem_supply_of_merge hb ht hh hm)).2 hne)

/-- **A visit does not raise the potential**, so taking the block off the list lowers it. -/
theorem visit_potential (ha : a.Proper) (hv : a.Valid p) (hb : a.Bounded p) {r : Nat}
    (hr : r < a.order.length) (h : a.visit r p = .ok p') :
    a.Bounded p' ∧ a.potential p' ≤ a.potential p := by
  obtain ⟨k, blk, -, -, ⟨-, e⟩ | ⟨s, hh, ⟨fault, -, e⟩ | ⟨t, next, ht, -, e⟩⟩⟩ :=
    visit_cases ha hv hr
  · rw [e] at h
    cases h
    exact ⟨hb, Nat.le_refl _⟩
  · rw [e] at h
    cases h
  · rw [e] at h
    obtain ⟨hcode, hlen⟩ := instructions_bounds blk a.body
    obtain ⟨hsup, hd⟩ := runCode_bounds hcode (hb.supplied k s hh) ht
    have hheight := hb.height k s hh
    have hadm : a.Admissible p t := ⟨hsup, by omega⟩
    have hall : a.Bounded p' ∧ a.Admissible p' t ∧ a.potential p' ≤ a.potential p := by
      refine arriveAll_induction (P := fun q => a.Bounded q ∧ a.Admissible q t ∧
        a.potential q ≤ a.potential p) ?_ ⟨hb, hadm, Nat.le_refl _⟩ h
      rintro q q' k' - ⟨hbq, haq, hpq⟩ harr
      exact ⟨hbq.arrival haq harr, haq.mono (unknown_arrival_le harr),
        Nat.le_trans (potential_arrival hbq haq harr) hpq⟩
    exact ⟨hall.1, hall.2.2⟩

/-- within its potential a run comes to an end -/
theorem run_done (ha : a.Proper) {n : Nat} (hv : a.Valid p) (hs : a.Settled p) (hb : a.Bounded p)
    (hn : a.potential p ≤ n) (h : a.run n p = .ok p') : p'.pending = [] := by
  induction n generalizing p with
  | zero =>
    cases h
    unfold potential at hn
    exact List.length_eq_zero_iff.mp (by omega)
  | succ n ih =>
    cases hp : p.pending with
    | nil =>
      rw [run_nil _ hp] at h
      cases h
      exact hp
    | cons r rest =>
      rw [run_cons n hp] at h
      obtain ⟨q, hq, h⟩ := bind_eq_ok h
      have hr : r < a.order.length := hv.scheduled r (hp ▸ List.mem_cons_self)
      have hv' := hv.pop hp (p.visits + 1)
      obtain ⟨hvq, hsq⟩ := visit_ok ha hv' hr (hs.pop hv hp (p.visits + 1)) hq
      obtain ⟨hbq, hpot⟩ := visit_potential ha hv' ⟨hb.supplied, hb.height⟩ hr hq
      refine ih hvq hsq hbq ?_ h
      unfold potential at hn hpot ⊢
      rw [hp, List.length_cons] at hn
      have hpot' : q.pending.length + total a.room q.starts ≤
          rest.length + total a.room p.starts := hpot
      omega

/-! ## the budget -/

theorem total_initial (ha : a.Proper) (f : Option Stack → Nat) :
    total f a.initial.starts + f none = a.graph.blockCount * f none + f (some []) := by
  obtain ⟨blk, hblk, -⟩ := ha.refines.entry
  have h0 := FlowGraph.Refines.lt_blockCount hblk
  have hnone : (Array.replicate a.graph.blockCount (none : Option Stack))[0]? = some none := by
    rw [Array.getElem?_replicate, if_pos h0]
  have hset : total f a.initial.starts + f none =
      total f (Array.replicate a.graph.blockCount none) + f (some []) := total_set hnone
  have hrep : total f (Array.replicate a.graph.blockCount none) = a.graph.blockCount * f none := by
    unfold total
    rw [Array.toList_replicate, List.map_replicate, List.sum_replicate_nat]
  rw [hset, hrep]

theorem bounded_initial (ha : a.Proper) : a.Bounded a.initial where
  supplied := by
    intro k s hs u hu
    rw [((held_initial ha).mp hs).2] at hu
    cases hu
  height := by
    intro k s hs
    have htotal : unknown a.initial + 1 = a.graph.blockCount * 1 + 0 :=
      total_initial ha fun o => if o.isNone then 1 else 0
    have hle : unknown a.initial ≤ a.graph.blockCount := by omega
    rw [((held_initial ha).mp hs).2]
    show 0 + a.body.length * unknown a.initial ≤ a.graph.blockCount * a.body.length
    rw [Nat.zero_add, Nat.mul_comm a.graph.blockCount]
    exact Nat.mul_le_mul_left _ hle

/-- **The budget is enough.** -/
theorem potential_initial (ha : a.Proper) : a.potential a.initial ≤ a.budget := by
  have htotal : total a.room a.initial.starts + a.room none =
      a.graph.blockCount * a.room none + 0 := total_initial ha a.room
  have hroom : a.room none ≤ a.graph.blockCount * a.body.length * (a.body.length + 32) + 2 := by
    have hsupply := length_supply_le a
    have hmul := Nat.mul_le_mul_left a.ceiling
      (show a.supply.length ≤ a.body.length + 32 by omega)
    show a.ceiling * a.supply.length + 1 ≤ a.ceiling * (a.body.length + 32) + 2
    omega
  have hmul := Nat.mul_le_mul_left a.graph.blockCount hroom
  have hone : a.initial.pending.length = 1 := rfl
  unfold potential
  show _ ≤ a.graph.blockCount *
    (a.graph.blockCount * a.body.length * (a.body.length + 32) + 2) + 1
  omega

theorem solve_done (ha : a.Proper) (h : a.solve = .ok p) : p.pending = [] := by
  obtain ⟨hv, hs⟩ := initial_ok ha
  exact run_done ha hv hs (bounded_initial ha) (potential_initial ha) h

end CilPatch.Analysis
