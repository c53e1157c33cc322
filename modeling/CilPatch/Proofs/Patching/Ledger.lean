import CilPatch.Proofs.Patching.Registrations
import CilPatch.Proofs.Patching.Sessions

/-!
# The registrations that are left

What a registry holds can be read off the operations that were performed: an entry of the log is
there as long as no later operation has ended it (`Operation.live`), and what is there for a target
stands in the order in which it was registered.  Its numbers are the places in the log
(`Registry.Records`).

* `Operation.ends`   an operation ends an entry: one under the same owner and anchor takes its
                     place, or it is removed;
* `perform_listed`   each operation leaves what it does not end, and adds at most one registration
                     at the end;
* `live_concat`      the same for the log;
* `Records.perform`  so the two stay in step.
-/

namespace CilPatch

namespace Operation

/-- what the operation registers -/
def made? : Operation → Option Entry
  | register target p => some ⟨target, p⟩
  | _ => none

/-- everything that a log registers, the oldest first -/
def made (log : List Operation) : List Entry := log.filterMap made?

/-- once the operation is performed, what was registered as `x` before is no longer there -/
def ends (op : Operation) (x : Entry) : Bool :=
  match op with
  | register target p =>
    x.target == target && x.patch.owner == p.owner && x.patch.anchor == p.anchor
  | unregister target anchor owner =>
    x.target == target && x.patch.anchor == anchor &&
      (owner == none || owner == some x.patch.owner)
  | unregisterAll owner => owner == none || owner == some x.patch.owner
  | clear => true
  | clearQuarantine _ | run _ | apply _ | runMany _ => false

/-- the entries of a log that no later operation ends, the oldest first -/
def live : List Operation → List Entry
  | [] => []
  | op :: later => op.made?.toList.filter (fun x => !later.any (·.ends x)) ++ live later

/-- the live entries for one target -/
def liveFor (target : String) (log : List Operation) : List Patch :=
  ((live log).filter (·.target == target)).map (·.patch)

theorem made_concat (log : List Operation) (op : Operation) :
    made (log ++ [op]) = made log ++ op.made?.toList := by
  unfold made
  rw [List.filterMap_append]
  cases op <;> rfl

/-- one more operation ends some of the live entries, and perhaps adds one -/
theorem live_concat (log : List Operation) (op : Operation) :
    live (log ++ [op]) = (live log).filter (fun x => !op.ends x) ++ op.made?.toList := by
  induction log with
  | nil =>
    have hall : op.made?.toList.filter (fun x => !([] : List Operation).any (·.ends x)) =
        op.made?.toList := List.filter_eq_self.mpr fun _ _ => rfl
    show op.made?.toList.filter (fun x => !([] : List Operation).any (·.ends x)) ++ [] = _
    rw [List.append_nil, hall]
    rfl
  | cons first log ih =>
    rw [List.cons_append, live, live, ih, List.filter_append, List.filter_filter,
      List.append_assoc]
    congr 1
    refine List.filter_congr fun x _ => ?_
    simp [List.any_append, Bool.and_comm]

theorem liveFor_concat (target : String) (log : List Operation) (op : Operation) :
    liveFor target (log ++ [op])
      = (liveFor target log).filter (fun p => !op.ends ⟨target, p⟩) ++
        (op.made?.toList.filter (·.target == target)).map (·.patch) := by
  unfold liveFor
  rw [live_concat, List.filter_append, List.map_append, List.filter_map, List.filter_filter,
    List.filter_filter]
  refine congrArg (List.map _ · ++ _) (List.filter_congr fun x _ => ?_)
  by_cases ht : x.target = target
  · rw [beq_iff_eq.mpr ht, Bool.true_and, Bool.and_true, Function.comp_apply, ← ht]
  · have hne : (x.target == target) = false := by simpa using ht
    rw [hne, Bool.false_and, Bool.and_false]

/-- whom a removal is for -/
theorem asks_eq (owner : Option String) (name : String) :
    (owner == none || owner == some name) = !(owner.any fun o => name != o) := by
  cases owner with
  | none => rfl
  | some o =>
    rw [Option.any_some, bne, Bool.not_not]
    simp [eq_comm, Bool.beq_eq_decide_eq]

/-- at the target, what an `unregister` ends is what it does not keep -/
theorem ends_unregister (target anchor : String) (owner : Option String) (p : Patch) :
    ends (.unregister target anchor owner) ⟨target, p⟩
      = !(p.anchor != anchor || owner.any fun o => p.owner != o) := by
  rw [ends, beq_self_eq_true, Bool.true_and, asks_eq, Bool.not_or, bne, Bool.not_not]

theorem ends_unregister_of_ne {target other : String} (h : other ≠ target) (anchor : String)
    (owner : Option String) (p : Patch) :
    ends (.unregister target anchor owner) ⟨other, p⟩ = false := by
  have hne : (other == target) = false := by simpa using h
  rw [ends, hne, Bool.false_and, Bool.false_and]

theorem ends_unregisterAll (owner : Option String) (x : Entry) :
    ends (.unregisterAll owner) x = !(owner.any fun o => x.patch.owner != o) :=
  asks_eq owner x.patch.owner

end Operation

namespace Registry

/-! ## what operations do to the roster -/

theorem run_stored (r : Registry) (target : String) (body : Body)
    (signature : Option Signature) :
    (r.run target body signature).2.registrations = r.registrations ∧
      (r.run target body signature).2.sequence = r.sequence := by
  suffices h : ∀ (ps : List Patch) (s : RunState),
      let r := (ps.foldl (offer target signature) s).registry
      r.registrations = s.registry.registrations ∧ r.sequence = s.registry.sequence from
    h (r.patches target) { registry := r, baseline := body }
  intro ps
  induction ps with
  | nil => exact fun _ => ⟨rfl, rfl⟩
  | cons p ps ih =>
    intro s
    obtain ⟨hroster, hsequence⟩ := offer_stored target signature s p
    exact ⟨(ih _).1.trans hroster, (ih _).2.trans hsequence⟩

theorem runMany_stored (r : Registry) (jobs : List Job) :
    (r.runMany jobs).2.registrations = r.registrations ∧
      (r.runMany jobs).2.sequence = r.sequence := by
  induction jobs generalizing r with
  | nil => exact ⟨rfl, rfl⟩
  | cons j jobs ih =>
    obtain ⟨hroster, hsequence⟩ := r.run_stored j.target j.body j.signature
    exact ⟨(ih _).1.trans hroster, (ih _).2.trans hsequence⟩

/-- an operation leaves what it does not end, and what it makes comes last, under the next number -/
theorem perform_listed {r : Registry} (hr : r.registrations.Sound r.sequence) (op : Operation)
    (target : String) :
    (op.perform r).registrations.listed target
      = (r.registrations.listed target).filter (fun x => !op.ends ⟨target, x.patch⟩) ++
        (op.made?.toList.filter (·.target == target)).map fun e => ⟨r.sequence, e.patch⟩ := by
  have hkeep : ∀ list : List Registration, list = list.filter (fun _ => !false) ++ [] := by
    intro list
    rw [List.append_nil]
    exact (List.filter_true list).symm
  cases op with
  | register name p =>
    show (r.register name p).registrations.listed target
      = (r.registrations.listed target).filter _ ++
        ([(⟨name, p⟩ : Entry)].filter (·.target == target)).map _
    rw [listed_register]
    split
    next ht =>
      have hnew : [(⟨name, p⟩ : Entry)].filter (·.target == target) = [⟨name, p⟩] := by simp [ht]
      rw [hnew, ht]
      refine congrArg (· ++ _) (List.filter_congr fun x _ => ?_)
      rw [Operation.ends, Patch.isKeyed, beq_self_eq_true, Bool.true_and]
    next ht =>
      have hnew : [(⟨name, p⟩ : Entry)].filter (·.target == target) = [] := by simp [Ne.symm ht]
      have hne : (target == name) = false := by simpa using ht
      rw [hnew, List.map_nil, List.append_nil]
      refine (List.filter_eq_self.mpr fun x _ => ?_).symm
      rw [Operation.ends, hne, Bool.false_and, Bool.false_and]
      rfl
  | unregister name anchor owner =>
    show (r.unregister name anchor owner).2.registrations.listed target = _ ++ []
    rw [List.append_nil, listed_unregister]
    split
    next ht =>
      rw [ht]
      refine List.filter_congr fun x _ => ?_
      rw [Operation.ends_unregister, Bool.not_not]
    next ht =>
      refine (List.filter_eq_self.mpr fun x _ => ?_).symm
      rw [Operation.ends_unregister_of_ne ht]
      rfl
  | unregisterAll owner =>
    show (r.unregisterAll owner).2.registrations.listed target = _ ++ []
    rw [List.append_nil, listed_unregisterAll hr]
    refine List.filter_congr fun x _ => ?_
    rw [Operation.ends_unregisterAll, Bool.not_not]
  | clear =>
    show [] = (r.registrations.listed target).filter (fun _ => !true) ++ []
    rw [List.append_nil]
    exact (List.filter_false _).symm
  | clearQuarantine owner => exact hkeep _
  | run j | apply j =>
    show (r.run j.target j.body j.signature).2.registrations.listed target = _
    rw [(r.run_stored j.target j.body j.signature).1]
    exact hkeep _
  | runMany jobs =>
    show (r.runMany jobs).2.registrations.listed target = _
    rw [(r.runMany_stored jobs).1]
    exact hkeep _

/-- numbers are given out in sequence -/
theorem perform_sequence (r : Registry) (op : Operation) :
    (op.perform r).sequence = r.sequence + op.made?.toList.length := by
  cases op with
  | register | unregisterAll | clear | clearQuarantine => rfl
  | unregister target anchor owner =>
    obtain ⟨R, hR⟩ := r.unregister_eq target anchor owner
    rw [Operation.perform, hR]
    rfl
  | run j | apply j => exact (r.run_stored j.target j.body j.signature).2
  | runMany jobs => exact (r.runMany_stored jobs).2

theorem Reachable.perform {r : Registry} (hr : Reachable r) (op : Operation) :
    Reachable (op.perform r) := by
  cases op with
  | register target p => exact hr.register target p
  | unregister target anchor owner => exact hr.unregister target anchor owner
  | unregisterAll owner => exact hr.unregisterAll owner
  | clear => exact hr.clear
  | clearQuarantine owner => exact hr.clearQuarantine owner
  | run j => exact hr.run j.target j.body j.signature
  | apply j => exact hr.run j.target j.body j.signature
  | runMany jobs => exact hr.runMany jobs

theorem Reachable.performAll {r : Registry} (hr : Reachable r) (ops : List Operation) :
    Reachable (Operation.performAll ops r) := by
  induction ops generalizing r with
  | nil => exact hr
  | cons op ops ih => exact ih (hr.perform op)

/-! ## the log -/

/-- The registry is in step with the log.  The patches that are listed for a target are its live
ones in the order of the log, and the number of each is its place among all that were ever
registered. -/
structure Records (r : Registry) (log : List Operation) : Prop where
  sequence : r.sequence = (Operation.made log).length
  live : ∀ target, r.registered target = Operation.liveFor target log
  numbers : ∀ target, ∀ x ∈ r.registrations.listed target,
    (Operation.made log)[x.number]? = some ⟨target, x.patch⟩

theorem Records.new (settings : Settings) (hierarchy : Hierarchy) :
    Records { settings, hierarchy } [] where
  sequence := rfl
  live := fun _ => rfl
  numbers := fun _ _ hx => absurd hx List.not_mem_nil

/-- one more operation keeps them in step -/
theorem Records.perform {r : Registry} {log : List Operation} (h : r.Records log)
    (hr : r.registrations.Sound r.sequence) (op : Operation) :
    (op.perform r).Records (log ++ [op]) where
  sequence := by
    rw [perform_sequence, h.sequence, Operation.made_concat, List.length_append]
  live := by
    intro target
    rw [Operation.liveFor_concat, ← h.live]
    unfold registered
    rw [perform_listed hr, List.map_append, List.filter_map, List.map_map]
    rfl
  numbers := by
    intro target x hx
    rw [perform_listed hr] at hx
    rw [Operation.made_concat]
    rcases List.mem_append.mp hx with hold | hnew
    · have hx' := List.mem_of_mem_filter hold
      have hlt := (hr.listed target).below x hx'
      rw [List.getElem?_append_left (h.sequence ▸ hlt)]
      exact h.numbers target x hx'
    · obtain ⟨e, he, rfl⟩ := List.mem_map.mp hnew
      obtain ⟨hmade, ht⟩ := List.mem_filter.mp he
      rw [beq_iff_eq] at ht
      have hone : op.made? = some e := Option.mem_toList.mp hmade
      rw [hone, h.sequence, ← ht]
      exact List.getElem?_concat_length

/-- **A registry holds what is live.** -/
theorem records_performAll (settings : Settings) (hierarchy : Hierarchy) (ops : List Operation) :
    (Operation.performAll ops { settings, hierarchy }).Records ops := by
  induction ops using List.reverseRecOn with
  | nil => exact Records.new settings hierarchy
  | append_singleton ops op ih =>
    have hr := Reachable.performAll (.new settings hierarchy) ops
    have hlast : Operation.performAll (ops ++ [op]) { settings, hierarchy }
        = op.perform (Operation.performAll ops { settings, hierarchy }) := List.foldl_concat ..
    rw [hlast]
    exact ih.perform hr.sound op

namespace Records

variable {r : Registry} {log : List Operation}

/-- the roster holds the live entries -/
theorem entries_perm (h : r.Records log) (hr : r.registrations.Sound r.sequence) :
    r.registrations.entries.Perm (Operation.live log) :=
  Roster.entries_perm hr.distinct h.live

theorem mem_targets (h : r.Records log) (hr : r.registrations.Sound r.sequence)
    {target : String} :
    target ∈ r.targets ↔ ∃ x ∈ Operation.live log, x.target = target := by
  unfold targets
  have hlive := h.live target
  have hnil : r.registrations.listed target = [] ↔
      (Operation.live log).filter (·.target == target) = [] := by
    rw [← List.map_eq_nil_iff (f := Registration.patch), ← List.map_eq_nil_iff (f := Entry.patch)]
    exact iff_of_eq (congrArg (· = []) hlive)
  rw [List.mem_mergeSort, hr.mem_targets, Ne, hnil, List.filter_eq_nil_iff]
  simp

/-- a removal for one target counts what it ends -/
theorem unregister_count (h : r.Records log) (target anchor : String) (owner : Option String) :
    (r.unregister target anchor owner).1
      = (Operation.live log).countP (Operation.ends (.unregister target anchor owner)) := by
  have hlisted : (r.unregister target anchor owner).1
      = (r.registered target).countP
          fun p => Operation.ends (.unregister target anchor owner) ⟨target, p⟩ := by
    unfold registered
    rw [Registry.unregister_count, List.countP_map]
    refine List.countP_congr fun x _ => ?_
    rw [Function.comp_apply, Operation.ends_unregister]
  rw [hlisted, h.live]
  unfold Operation.liveFor
  rw [List.countP_map, List.countP_filter]
  refine List.countP_congr fun x _ => ?_
  by_cases ht : x.target = target
  · rw [Function.comp_apply, ← ht, beq_self_eq_true, Bool.and_true]
  · have hne : (x.target == target) = false := by simpa using ht
    rw [hne, Bool.and_false, Operation.ends_unregister_of_ne ht]

/-- a removal for all targets counts what it ends -/
theorem unregisterAll_count (h : r.Records log) (hr : r.registrations.Sound r.sequence)
    (owner : Option String) :
    (r.unregisterAll owner).1
      = (Operation.live log).countP (Operation.ends (.unregisterAll owner)) := by
  rw [← (h.entries_perm hr).countP_eq]
  cases owner with
  | none =>
    show r.registrations.size - 0 = r.registrations.entries.countP fun _ => true
    rw [Roster.size_eq, List.countP_true]
    rfl
  | some o =>
    refine (Roster.size_sift r.registrations _).trans (List.countP_congr fun x _ => ?_)
    rw [Operation.ends_unregisterAll]
    rfl

end Records

theorem pairwise_targets {r : Registry} (hr : r.registrations.Sound r.sequence) :
    r.targets.Pairwise (· < ·) := by
  unfold targets
  have htrans : ∀ a b c : String, decide (a ≤ b) = true → decide (b ≤ c) = true →
      decide (a ≤ c) = true := fun a b c hab hbc =>
    decide_eq_true (String.le_trans (of_decide_eq_true hab) (of_decide_eq_true hbc))
  have htotal : ∀ a b : String, (decide (a ≤ b) || decide (b ≤ a)) = true := by
    intro a b
    rw [Bool.or_eq_true, decide_eq_true_eq, decide_eq_true_eq]
    exact String.le_total a b
  have hsorted := List.pairwise_mergeSort htrans htotal r.registrations.targets
  have hnodup := (List.mergeSort_perm r.registrations.targets
    fun a b => a ≤ b).nodup_iff.mpr hr.distinct
  refine hsorted.imp₂ (fun a b hab hne => String.not_le.mp fun hba => ?_) hnodup
  exact hne (String.le_antisymm (of_decide_eq_true hab) hba)

/-! ## the order of the patches -/

/-- among the patches of one priority the one that is registered comes last -/
theorem filter_priority_register {r : Registry} (hr : r.Reachable) (target : String) (p : Patch) :
    ((r.register target p).patches target).filter (·.priority == p.priority)
      = (r.patches target).filter (fun q => q.priority == p.priority && q.key != p.key) ++ [p] := by
  have hkeyed : ∀ q : Patch, (!q.isKeyed p.owner p.anchor) = (q.key != p.key) := by
    intro q
    rw [Bool.eq_iff_iff, Bool.not_eq_true', ← Bool.not_eq_true, Patch.isKeyed_iff, bne_iff_ne]
    exact Iff.rfl
  have hold : (r.patches target).filter (fun q => q.priority == p.priority && q.key != p.key)
      = (r.registered target).filter (fun q => q.priority == p.priority && q.key != p.key) := by
    simp only [Bool.and_comm (_ == _)]
    rw [← List.filter_filter, ← List.filter_filter, hr.patches_eq, Patch.filter_priority_inOrder]
  have hnew : [p].filter (·.priority == p.priority) = [p] :=
    List.filter_cons_of_pos (beq_self_eq_true p.priority)
  rw [hold, (hr.register target p).patches_eq, Patch.filter_priority_inOrder, registered_register,
    List.filter_append, List.filter_filter, hnew]
  refine congrArg (· ++ [p]) (List.filter_congr fun q _ => ?_)
  rw [hkeyed]

/-- **A registry is what its log says.**  After any operations the roster is sound: no target has
two lists or an empty one, and along each list the numbers increase; a number is a place in the log,
and so none is ever given out twice.  What is listed for a target are its live entries.  Its patches
are these, ordered by priority and, where that is the same, as in the log; so no key occurs twice,
and a patch that is registered again goes behind the others of its priority.  The targets are those
with live entries, in strictly increasing order.  A removal reports how many entries it ends: with
it in the log these and no others are live no longer. -/
theorem registry_refines_log (settings : Settings) (hierarchy : Hierarchy)
    (ops : List Operation) :
    let r := Operation.performAll ops { settings, hierarchy }
    (r.registrations.Sound r.sequence ∧ r.Records ops) ∧
    (∀ target,
      (r.patches target).Perm (Operation.liveFor target ops) ∧
        (r.patches target).Pairwise (fun p q => p.priority ≤ q.priority) ∧
        (∀ k, (r.patches target).filter (·.priority == k)
          = (Operation.liveFor target ops).filter (·.priority == k)) ∧
        ((r.patches target).map Patch.key).Nodup) ∧
    (∀ target p,
      ((r.register target p).patches target).filter (·.priority == p.priority)
        = (r.patches target).filter (fun q => q.priority == p.priority && q.key != p.key) ++
          [p]) ∧
    (r.targets.Pairwise (· < ·) ∧
      ∀ target, target ∈ r.targets ↔ ∃ x ∈ Operation.live ops, x.target = target) ∧
    (∀ target anchor owner,
      let op := Operation.unregister target anchor owner
      (r.unregister target anchor owner).1 = (Operation.live ops).countP op.ends ∧
        Operation.live (ops ++ [op]) = (Operation.live ops).filter (fun x => !op.ends x)) ∧
    ∀ owner,
      let op := Operation.unregisterAll owner
      (r.unregisterAll owner).1 = (Operation.live ops).countP op.ends ∧
        Operation.live (ops ++ [op]) = (Operation.live ops).filter (fun x => !op.ends x) := by
  intro r
  have hreach : Reachable r := Reachable.performAll (.new settings hierarchy) ops
  have hrecords : r.Records ops := records_performAll settings hierarchy ops
  refine ⟨⟨hreach.sound, hrecords⟩, fun target => ?_,
    fun target p => filter_priority_register hreach target p,
    ⟨pairwise_targets hreach.sound, fun target => hrecords.mem_targets hreach.sound⟩,
    fun target anchor owner => ⟨hrecords.unregister_count target anchor owner, ?_⟩,
    fun owner => ⟨hrecords.unregisterAll_count hreach.sound owner, ?_⟩⟩
  · refine ⟨?_, ?_, ?_, hreach.nodup_patches target⟩
    · rw [hreach.patches_eq, ← hrecords.live]
      exact Patch.inOrder_perm _
    · rw [hreach.patches_eq]
      exact Patch.pairwise_inOrder _
    · rw [hreach.patches_eq, ← hrecords.live]
      exact Patch.filter_priority_inOrder _
  · rw [Operation.live_concat]
    exact List.append_nil _
  · rw [Operation.live_concat]
    exact List.append_nil _

end Registry

end CilPatch
