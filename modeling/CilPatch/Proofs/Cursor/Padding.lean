import CilPatch.Cursor.Edit
import CilPatch.Proofs.Stack.Padding

/-!
# Insertion of idle instructions

Whichever way idle instructions are inserted at the cursor, the verifier sees no difference: it
accepts the body if it accepted it before, and finds the same height at each instruction that was
there.  The blocks are others, though: an idle instruction may split one, or be the one that is
jumped to.
-/

namespace CilPatch

namespace Cursor

/-- an insertion that is carried out -/
theorem body_insertAs {c : Cursor} {p : Nat} {code : List Instruction} (operation : String)
    (insert : Body → Nat → List Instruction → Body) (hp : c.position = some p) (hne : code ≠ []) :
    (insertAs operation insert c code).body = insert c.body p code := by
  unfold insertAs
  rw [hp]
  show (if code.isEmpty = true then _ else _ : Cursor).body = _
  rw [if_neg (mt List.isEmpty_iff.mp hne)]

/-- **Idle instructions go unnoticed**, wherever the cursor points and whichever operation inserts
them. -/
theorem insertions_unnoticed {c : Cursor} {p : Nat} {code : List Instruction}
    (hp : c.position = some p) (hlt : p < c.length) (hu : c.body.LabelsUnique)
    (hidle : ∀ x ∈ code, x.IsIdle) (hne : code ≠ []) (v : Verifier) :
    v.Agrees c.body (c.insertBefore code).body p code.length ∧
      v.Agrees c.body (c.insertBeforeLabeled code).body p code.length ∧
        v.Agrees c.body (c.insertAfter code).body (p + 1) code.length := by
  have hlt : p < c.body.length := hlt
  have hunlabeled : Instruction.Unlabeled code := fun x hx => (hidle x hx).labels
  have hpos : 0 < c.body.length := by omega
  have inserted : ∀ q, q ≤ c.body.length →
      v.Agrees c.body (c.body.insertAt q code) q code.length := by
    intro q hq
    have hu' : (c.body.insertAt q code).LabelsUnique := by
      unfold Body.LabelsUnique
      rw [Body.labels_insertAt hunlabeled]
      exact hu
    exact (Body.padded_insertAt hidle hne hq).agrees hpos hu hu' rfl v
  refine ⟨?_, ?_, ?_⟩
  · unfold insertBefore
    rw [body_insertAs _ _ hp hne]
    exact inserted p (by omega)
  · have hu' : (c.body.insertLabeledAt p code).LabelsUnique := by
      unfold Body.LabelsUnique
      rw [Body.labels_insertLabeledAt hu hunlabeled hne]
      exact hu
    have hx : c.body.instruction? p = some c.body.code[p] := List.getElem?_eq_getElem hlt
    unfold insertBeforeLabeled
    rw [body_insertAs _ _ hp hne]
    exact (Body.padded_insertLabeledAt hidle hne hx).agrees hpos hu hu'
      (Body.regions_insertLabeledAt _ _ _) v
  · unfold insertAfter
    rw [body_insertAs _ _ hp hne]
    exact inserted (p + 1) (by omega)

/-- the cursor on the instruction that the loop jumps back to -/
def atKeptLoop : Cursor := { body := keptLoop, position := some 1 }

theorem insertions_unnoticed_keptLoop :
    (∃ w, ({} : Verifier).verify keptLoop = .ok w) ∧ atKeptLoop.position = some 1 ∧
      1 < atKeptLoop.length ∧ atKeptLoop.body.LabelsUnique ∧
        (∀ x ∈ [Instruction.nop, .nop], x.IsIdle) ∧
          ({} : Verifier).Agrees keptLoop (atKeptLoop.insertBefore [.nop, .nop]).body 1 2 ∧
            ({} : Verifier).Agrees keptLoop (atKeptLoop.insertBeforeLabeled [.nop, .nop]).body 1 2 ∧
              ({} : Verifier).Agrees keptLoop (atKeptLoop.insertAfter [.nop, .nop]).body 2 2 := by
  have hv : ({} : Verifier).verify keptLoop = .ok (.analyzed keptLoopProfile) := by decide +kernel
  have hlt : 1 < atKeptLoop.length := by decide
  have hu : atKeptLoop.body.LabelsUnique := by
    unfold Body.LabelsUnique
    decide
  have hidle : ∀ x ∈ [Instruction.nop, .nop], x.IsIdle := by
    intro x hx
    have e : x = .nop := by
      rcases List.mem_cons.mp hx with e | hx
      · exact e
      · exact List.mem_singleton.mp hx
    exact e ▸ Instruction.isIdle_nop
  exact ⟨⟨_, hv⟩, rfl, hlt, hu, hidle,
    insertions_unnoticed rfl hlt hu hidle (List.cons_ne_nil _ _) {}⟩

end Cursor

end CilPatch
