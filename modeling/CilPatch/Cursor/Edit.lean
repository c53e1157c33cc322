import CilPatch.Code.Splice
import CilPatch.Cursor.Basic

/-!
# Edits at the cursor

An edit is skipped with one warning of its own name if the cursor points at nothing or there is
nothing to do; otherwise it is carried out as a whole.  A removal may add warnings about labels:
those from inside the removed stretch now mark its start, and at the end of the body there may be
nothing left for them to mark.

* `insertBefore`, `insertAfter`     new code; labels stay where they are;
* `insertBeforeLabeled`             new code that jumps to the current instruction run first;
* `replace`                         one instruction for another, labels kept;
* `delete`, `deleteMany`,
  `replaceMany`                     a stretch of code for another, perhaps empty one.
-/

namespace CilPatch.Cursor

/-! ## labels -/

def defineLabel (c : Cursor) : Label × Cursor :=
  let (l, body) := c.body.defineLabel
  (l, { c with body })

/-- attach `l` to the current instruction, away from wherever it was -/
def markLabel (c : Cursor) (l : Label) : Cursor :=
  match c.position with
  | none => c.warn "mark_label" .invalidCursor
  | some p =>
    match c.body.markLabel p l with
    | .ok body => { c with body }
    | .error e => c.warn "mark_label" (.unmarkable e)

/-! ## insertion -/

def insertAs (operation : String) (insert : Body → Nat → List Instruction → Body) (c : Cursor)
    (code : List Instruction) : Cursor :=
  match c.position with
  | none => c.warn operation .invalidCursor
  | some p =>
    if code.isEmpty then c.warn operation .nothingToInsert
    else { c with body := insert c.body p code, position := some (p + code.length) }

/-- insert before the current instruction, which stays current and keeps its labels -/
def insertBefore (c : Cursor) (code : List Instruction) : Cursor :=
  insertAs "insert_before" Body.insertAt c code

/-- insert before the current instruction, which stays current; its labels go to the new code -/
def insertBeforeLabeled (c : Cursor) (code : List Instruction) : Cursor :=
  insertAs "insert_before_labeled" Body.insertLabeledAt c code

/-- insert behind the current instruction and point at the last new one -/
def insertAfter (c : Cursor) (code : List Instruction) : Cursor :=
  insertAs "insert_after" (fun b p code => b.insertAt (p + 1) code) c code

/-! ## replacement and removal -/

def replace (c : Cursor) (i : Instruction) : Cursor :=
  match c.position with
  | none => c.warn "replace" .invalidCursor
  | some p => { c with body := c.body.replaceAt p i }

/-- what is recorded of labels inside a stretch that is removed at `p` -/
def movedWarning (operation : String) (p : Nat) (inner : List Label) : List Warning :=
  if inner.isEmpty then [] else [⟨operation, .moved inner p⟩]

/-- what is recorded of labels that nothing is left to carry -/
def droppedWarning (operation : String) (labels : List Label) : List Warning :=
  if labels.isEmpty then [] else [⟨operation, .dropped labels⟩]

/-- put `code` in the place of the `n` instructions from `p` on; the cursor is left where it is -/
def substitute (operation : String) (c : Cursor) (p n : Nat) (code : List Instruction) : Cursor :=
  let removed := c.body.window p n
  { c with
    body := c.body.substitute p n code
    warnings := c.warnings ++ movedWarning operation p (Instruction.allLabels removed.tail) ++
      if (c.body.tailAfter p n code).isEmpty then
        droppedWarning operation (Instruction.allLabels removed)
      else [] }

def removeAs (operation : String) (c : Cursor) (n : Nat) (code : List Instruction) : Cursor :=
  match c.position with
  | none => c.warn operation .invalidCursor
  | some p =>
    if n = 0 then c.warn operation .nothingToRemove
    else if c.length < p + n then c.warn operation (.pastEnd n p)
    else (substitute operation c p n code).settle p

def delete (c : Cursor) : Cursor := removeAs "delete" c 1 []

/-- remove `n` instructions from the current one on -/
def deleteMany (c : Cursor) (n : Nat) : Cursor := removeAs "delete_n" c n []

/-- remove `n` instructions from the current one on and put `code` in their place -/
def replaceMany (c : Cursor) (n : Nat) (code : List Instruction) : Cursor :=
  removeAs "replace_sequence" c n code

end CilPatch.Cursor
