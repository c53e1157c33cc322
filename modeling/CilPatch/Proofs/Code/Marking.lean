import CilPatch.Proofs.Code.Splice

/-!
# Marking an instruction

`Body.places` says where a label stands: the positions of the instructions that carry it, each as
often as its list names it.  To mark an instruction leaves the label this one place, and every other
label those that it had (`marked_of_markLabel`).

`Body.markLabel` gives a new body or an error.  `Body.markInPlace` does the same work on a body that
changes as it goes on: the label is taken off one instruction after the other, then attached.  What
the loop has done after `k` turns is `Body.detachedUpTo`, and in the end the two agree
(`markInPlace_on`): where the work breaks off, nothing has been written yet.
-/

namespace CilPatch

namespace Instruction

def detach (x : Instruction) (l : Label) : Instruction :=
  { x with labels := x.labels.filter (· != l) }

def attach (x : Instruction) (l : Label) : Instruction := { x with labels := x.labels ++ [l] }

variable (x : Instruction) {l l' : Label}

theorem count_detach_self : (x.detach l).labels.count l = 0 := by
  rw [List.count_eq_zero]
  intro h
  simpa using (List.mem_filter.mp h).2

theorem count_detach_of_ne (h : l' ≠ l) : (x.detach l).labels.count l' = x.labels.count l' :=
  List.count_filter (by simpa using h)

theorem count_attach_self : (x.attach l).labels.count l = x.labels.count l + 1 := by
  show (x.labels ++ [l]).count l = _
  rw [List.count_append, List.count_singleton_self]

theorem count_attach_of_ne (h : l' ≠ l) : (x.attach l).labels.count l' = x.labels.count l' := by
  show (x.labels ++ [l]).count l' = _
  rw [List.count_append, List.count_singleton, if_neg (by simpa using h.symm), Nat.add_zero]

theorem detach_detach : (x.detach l).detach l = x.detach l := by
  unfold detach
  rw [List.filter_filter]
  simp only [Bool.and_self]

theorem detach_attach : (x.attach l).detach l = x.detach l := by
  unfold detach attach
  simp

end Instruction

/-! ## places -/

/-- the places of `l` in code that starts at position `n` -/
def placesFrom (n : Nat) (code : List Instruction) (l : Label) : List Nat :=
  (code.zipIdx n).flatMap fun (x, i) => List.replicate (x.labels.count l) i

section

variable {n : Nat} {code code' : List Instruction} {l : Label}

theorem placesFrom_cons (n : Nat) (x : Instruction) (code : List Instruction) (l : Label) :
    placesFrom n (x :: code) l =
      List.replicate (x.labels.count l) n ++ placesFrom (n + 1) code l := by
  unfold placesFrom
  rw [List.zipIdx_cons, List.flatMap_cons]

theorem placesFrom_append :
    placesFrom n (code ++ code') l =
      placesFrom n code l ++ placesFrom (n + code.length) code' l := by
  unfold placesFrom
  rw [List.zipIdx_append, List.flatMap_append]

/-- what counts is how often each instruction carries the label -/
theorem placesFrom_congr
    (h : code'.map (·.labels.count l) = code.map (·.labels.count l)) :
    placesFrom n code' l = placesFrom n code l := by
  have hcounts : ∀ code : List Instruction, placesFrom n code l =
      ((code.map (·.labels.count l)).zipIdx n).flatMap fun entry =>
        List.replicate entry.1 entry.2 := by
    intro code
    unfold placesFrom
    rw [List.zipIdx_map, List.flatMap_map]
    rfl
  rw [hcounts, hcounts, h]

theorem placesFrom_detached (n : Nat) (code : List Instruction) (l : Label) :
    placesFrom n (code.map (·.detach l)) l = [] := by
  refine List.flatMap_eq_nil_iff.mpr ?_
  rintro ⟨y, i⟩ hy
  obtain ⟨x, -, rfl⟩ := List.mem_map.mp (List.fst_mem_of_mem_zipIdx hy)
  show List.replicate ((x.detach l).labels.count l) i = []
  rw [x.count_detach_self, List.replicate_zero]

end

namespace Body

/-- the positions of the instructions that carry `l`, each as often as its list names it -/
def places (b : Body) (l : Label) : List Nat := placesFrom 0 b.code l

/-- `b'` is `b` with the label `l` at position `i` and nowhere else -/
structure Marked (b : Body) (i : Nat) (l : Label) (b' : Body) : Prop where
  once : b'.places l = [i]
  others : ∀ l', l' ≠ l → b'.places l' = b.places l'
  /-- apart from this label the instructions are the same, with their other labels in order -/
  code : b'.code.map (·.detach l) = b.code.map (·.detach l)
  regions : b'.regions = b.regions

variable {b b' : Body} {i k m : Nat} {l : Label}

theorem markLabel_of_lt (h : i < b.length) (l : Label) :
    b.markLabel i l = .ok
      { b with
        code := (b.code.map (·.detach l)).modify i (·.attach l)
        nextLabel := max b.nextLabel (l.id + 1) } :=
  if_pos h

theorem markLabel_of_le (h : b.length ≤ i) (l : Label) :
    b.markLabel i l = .error ⟨l, i, b.length⟩ :=
  if_neg (Nat.not_lt.mpr h)

theorem lt_length_of_markLabel (h : b.markLabel i l = .ok b') : i < b.length := by
  by_contra hle
  rw [markLabel_of_le (Nat.le_of_not_lt hle)] at h
  cases h

theorem of_markLabel_eq_error {e : NoInstruction} (h : b.markLabel i l = .error e) :
    b.length ≤ i ∧ e = ⟨l, i, b.length⟩ := by
  rcases Nat.lt_or_ge i b.length with hi | hi
  · rw [markLabel_of_lt hi] at h
    cases h
  · rw [markLabel_of_le hi] at h
    cases h
    exact ⟨hi, rfl⟩

theorem marked_of_markLabel (h : b.markLabel i l = .ok b') : b.Marked i l b' := by
  have hi := lt_length_of_markLabel h
  rw [markLabel_of_lt hi] at h
  cases h
  have hlt : i < (b.code.map (·.detach l)).length := by
    rw [List.length_map]
    exact hi
  constructor
  case once =>
    show placesFrom 0 (List.modify _ i _) l = [i]
    -- no instruction before or behind the marked one carries the label
    rw [List.modify_eq_take_cons_drop hlt, placesFrom_append, placesFrom_cons,
      ← List.map_take, ← List.map_drop, placesFrom_detached, placesFrom_detached,
      List.getElem_map, Instruction.count_attach_self, Instruction.count_detach_self,
      List.length_map, List.length_take_of_le (Nat.le_of_lt hi), Nat.zero_add, Nat.zero_add]
    rfl
  case others =>
    intro l' hne
    refine placesFrom_congr ?_
    show (List.modify _ i _).map _ = _
    rw [List.map_modify_of_eq fun x => x.count_attach_of_ne hne, List.map_map]
    exact List.map_congr_left fun x _ => x.count_detach_of_ne hne
  case code =>
    show (List.modify _ i _).map _ = _
    rw [List.map_modify_of_eq fun x => x.detach_attach, List.map_map]
    exact List.map_congr_left fun x _ => x.detach_detach
  case regions => rfl

/-! ## in place -/

/-- a computation that changes a body step by step and may break off -/
abbrev Editing := ExceptT NoInstruction (StateM Body)

/-- what a computation returns, and the body that it leaves -/
def Editing.on {α : Type} (work : Editing α) (b : Body) : Except NoInstruction α × Body :=
  work.run.run b

/-- the second part of a computation goes on with the body that the first one leaves -/
theorem Editing.on_bind {α β : Type} {first : Editing α} {b b' : Body} {a : α}
    (h : first.on b = (.ok a, b')) (next : α → Editing β) :
    (first >>= next).on b = (next a).on b' := by
  unfold Editing.on at h ⊢
  rw [ExceptT.run_bind, StateT.run_bind, h]
  rfl

/-- put `f x` in the place of the instruction `x` at `i` -/
def rewriteAt (f : Instruction → Instruction) (i : Nat) (b : Body) : Body :=
  { b with code := b.code.modify i f }

/-- take `l` off the instructions at `positions`, one after the other -/
def detachEach (l : Label) (positions : List Nat) : Editing Unit := do
  for i in positions do
    modify (rewriteAt (·.detach l) i)

/-- the check first, then the loop over all instructions, then the attachment -/
def markInPlace (i : Nat) (l : Label) : Editing Unit := do
  let b ← get
  if b.length ≤ i then throw ⟨l, i, b.length⟩
  else
    detachEach l (List.range b.length)
    modify (rewriteAt (·.attach l) i)
    modify fun b => { b with nextLabel := max b.nextLabel (l.id + 1) }

/-- `l` taken off the first `k` instructions -/
def detachedUpTo (b : Body) (l : Label) (k : Nat) : Body :=
  { b with code := (b.code.take k).map (·.detach l) ++ b.code.drop k }

theorem rewriteAt_detachedUpTo (h : k < b.length) :
    (b.detachedUpTo l k).rewriteAt (·.detach l) k = b.detachedUpTo l (k + 1) := by
  have hlt : k < b.code.length := h
  have hk : ((b.code.take k).map (·.detach l)).length = k := by
    rw [List.length_map, List.length_take_of_le (Nat.le_of_lt h)]
  have hdrop : b.code.drop k = b.code[k] :: b.code.drop (k + 1) := List.drop_eq_getElem_cons hlt
  have htake : b.code.take (k + 1) = b.code.take k ++ [b.code[k]] :=
    (List.take_append_getElem hlt).symm
  unfold rewriteAt detachedUpTo
  rw [List.modify_eq_take_drop, List.take_left' hk, List.drop_left' hk, hdrop, htake,
    List.map_append, List.append_assoc]
  rfl

theorem detachEach_cons (i : Nat) (positions : List Nat) :
    (detachEach l (i :: positions)).on b =
      (detachEach l positions).on (b.rewriteAt (·.detach l) i) := by
  unfold detachEach
  rw [List.forIn_cons]
  rfl

theorem detachEach_on (h : k + m ≤ b.length) :
    (detachEach l (List.range' k m)).on (b.detachedUpTo l k) =
      (.ok (), b.detachedUpTo l (k + m)) := by
  induction m generalizing k with
  | zero => rfl
  | succ m ih =>
    rw [List.range'_succ, detachEach_cons, rewriteAt_detachedUpTo (by omega), ih (by omega),
      Nat.add_right_comm, Nat.add_assoc]

/-- the whole loop takes the label off everywhere -/
theorem detachEach_range (b : Body) (l : Label) :
    (detachEach l (List.range b.length)).on b =
      (.ok (), { b with code := b.code.map (·.detach l) }) := by
  have h : (detachEach l (List.range' 0 b.length)).on b =
      (.ok (), b.detachedUpTo l (0 + b.length)) := detachEach_on (Nat.le_of_eq (Nat.zero_add _))
  have hall : b.detachedUpTo l b.length = { b with code := b.code.map (·.detach l) } := by
    unfold detachedUpTo length
    rw [List.take_length, List.drop_length, List.append_nil]
  rw [List.range_eq_range', h, Nat.zero_add, hall]

/-- **Marking in place is marking.**  Where it breaks off, the body is the one that it began with. -/
theorem markInPlace_on (b : Body) (i : Nat) (l : Label) :
    (markInPlace i l).on b =
      match b.markLabel i l with
      | .ok b' => (.ok (), b')
      | .error e => (.error e, b) := by
  have hget : (get : Editing Body).on b = (.ok b, b) := rfl
  unfold markInPlace
  rw [Editing.on_bind hget]
  rcases Nat.lt_or_ge i b.length with hi | hi
  · rw [markLabel_of_lt hi, if_neg (Nat.not_le.mpr hi), Editing.on_bind (detachEach_range b l)]
    rfl
  · rw [markLabel_of_le hi, if_pos hi]
    rfl

end Body

end CilPatch
