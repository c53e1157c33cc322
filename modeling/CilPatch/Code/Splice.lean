import CilPatch.Code.Body

/-!
# Changes of the code of a body

What is put into a body and what goes with the labels of the code that is put away.  Jumps stay
alive: the labels of an instruction that goes join those of whatever takes its place, behind them
and without duplicates.  Fresh labels are afterwards above all labels of the new code.

* `insertAt`, `insertLabeledAt`   new code before a position; the second hands the labels of the
                                  instruction there over to the new code;
* `replaceAt`                     one instruction for another;
* `substitute`                    a stretch for new code of any length;
* `overlayAt`                     a stretch slot by slot, filled up with `nop`.
-/

namespace CilPatch

namespace Instruction

/-- `new` in the place of `old`, with the labels of both -/
def takePlace (old new : Instruction) : Instruction :=
  { new with labels := Label.union old.labels new.labels }

/-- `code` laid slot by slot over `window`; every slot keeps its labels -/
def overlay : List Instruction → List Instruction → List Instruction
  | [], _ => []
  | old :: window, [] => takePlace old .nop :: overlay window []
  | old :: window, new :: code => takePlace old new :: overlay window code

/-- the labels join those of the first instruction; without one they are lost -/
def inherit (labels : List Label) : List Instruction → List Instruction
  | [] => []
  | x :: xs => { x with labels := Label.union x.labels labels } :: xs

def allLabels (code : List Instruction) : List Label := code.flatMap (·.labels)

theorem length_overlay (window code : List Instruction) :
    (overlay window code).length = window.length := by
  induction window generalizing code with
  | nil => rfl
  | cons old window ih => cases code <;> simp [overlay, ih]

theorem length_inherit (labels : List Label) (code : List Instruction) :
    (inherit labels code).length = code.length := by
  cases code <;> rfl

theorem inherit_nil (code : List Instruction) : inherit [] code = code := by
  cases code <;> rfl

end Instruction

namespace Body

/-- the `n` instructions from `p` on -/
def window (b : Body) (p n : Nat) : List Instruction := (b.code.drop p).take n

/-- put `code` before position `p` -/
def insertAt (b : Body) (p : Nat) (code : List Instruction) : Body :=
  { b.reserve code with code := b.code.take p ++ code ++ b.code.drop p }

/-- put `code` before position `p`; jumps to what stood there run it first -/
def insertLabeledAt (b : Body) (p : Nat) (code : List Instruction) : Body :=
  match b.code.drop p with
  | [] => b.insertAt p code
  | x :: rest =>
    { b.reserve code with
      code := b.code.take p ++ Instruction.inherit x.labels code ++ x.unlabeled :: rest }

def replaceAt (b : Body) (p : Nat) (i : Instruction) : Body :=
  { b.reserve [i] with code := b.code.modify p (·.takePlace i) }

/-- what stands from position `p` on once `code` has taken the place of `n` instructions there,
before it gets their labels -/
def tailAfter (b : Body) (p n : Nat) (code : List Instruction) : List Instruction :=
  code ++ b.code.drop (p + n)

/-- put `code` in the place of the `n` instructions from `p` on -/
def substitute (b : Body) (p n : Nat) (code : List Instruction) : Body :=
  { b.reserve code with
    code := b.code.take p ++
      Instruction.inherit (Instruction.allLabels (b.window p n)) (b.tailAfter p n code) }

/-- lay `code` over the `n` slots from `p` on -/
def overlayAt (b : Body) (p n : Nat) (code : List Instruction) : Body :=
  { b.reserve code with
    code := b.code.take p ++ Instruction.overlay (b.window p n) code ++ b.code.drop (p + n) }

theorem length_window {b : Body} {p n : Nat} (h : p + n ≤ b.length) :
    (b.window p n).length = n := by
  unfold window length at *
  rw [List.length_take, List.length_drop]
  omega

theorem length_substitute {b : Body} {p n : Nat} (code : List Instruction)
    (h : p + n ≤ b.length) : (b.substitute p n code).length + n = b.length + code.length := by
  unfold substitute tailAfter length at *
  simp only [List.length_append, Instruction.length_inherit, List.length_take, List.length_drop]
  omega

theorem length_overlayAt {b : Body} {p n : Nat} (code : List Instruction)
    (h : p + n ≤ b.length) : (b.overlayAt p n code).length = b.length := by
  have hw := length_window h
  unfold overlayAt length at *
  simp only [List.length_append, Instruction.length_overlay, List.length_take, List.length_drop, hw]
  omega

theorem length_insertAt (b : Body) (p : Nat) (code : List Instruction) :
    (b.insertAt p code).length = b.length + code.length := by
  unfold insertAt length
  simp only [List.length_append, List.length_take, List.length_drop]
  omega

theorem length_replaceAt (b : Body) (p : Nat) (i : Instruction) :
    (b.replaceAt p i).length = b.length := by
  unfold replaceAt length
  rw [List.length_modify]

end Body

end CilPatch
