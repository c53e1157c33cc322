import CilPatch.Listing.Lines

/-!
# Differences between bodies

Two bodies are compared line by line, a line being an instruction without its labels.  The lines
that stay form a longest common subsequence of the two texts; where either of two steps keeps its
length, the line of the old text goes first.

`suffixLengths` is the table behind this: row `i`, column `j` holds the length of a longest common
subsequence of the old text from line `i` on and the new one from line `j` on.
-/

namespace CilPatch

inductive DiffLine where
  | same (text : String)
  | removed (text : String)
  | added (text : String)
deriving DecidableEq

namespace DiffLine

def text : DiffLine → String
  | same s => "  " ++ s
  | removed s => "- " ++ s
  | added s => "+ " ++ s

/-- a row of the table: the lengths for the old text `x :: …` against every suffix of `new`, from
the row `below` of the old text without `x` -/
def row (x : String) : List String → List Nat → List Nat
  | [], _ => [0]
  | y :: ys, below =>
    let rest := row x ys below.tail
    (if x = y then below.tail.headD 0 + 1 else max (below.headD 0) (rest.headD 0)) :: rest

/-- one row for every suffix of `old`, the longest first -/
def suffixLengths (new : List String) : List String → List (List Nat)
  | [] => [List.replicate (new.length + 1) 0]
  | x :: xs =>
    let below := suffixLengths new xs
    row x new (below.headD []) :: below

/-- walk from the start of both texts; `table` holds the rows from the one of `old` on -/
def walk : List (List Nat) → List String → List String → List DiffLine
  | _, old, [] => old.map removed
  | _, [], new => new.map added
  | table, x :: xs, y :: ys =>
    if x = y then same x :: walk (table.tail.map List.tail) xs ys
    else if (table.headD []).tail.headD 0 ≤ (table.tail.headD []).headD 0 then
      removed x :: walk table.tail xs (y :: ys)
    else added y :: walk (table.map List.tail) (x :: xs) ys
termination_by _ old new => old.length + new.length

theorem walk_nil_right (table : List (List Nat)) (old : List String) :
    walk table old [] = old.map removed := by
  rw [walk]

theorem walk_nil_left (table : List (List Nat)) (new : List String) :
    walk table [] new = new.map added := by
  cases new <;> rw [walk] <;> simp

theorem walk_cons_self (table : List (List Nat)) (x : String) (old new : List String) :
    walk table (x :: old) (x :: new) = same x :: walk (table.tail.map List.tail) old new := by
  rw [walk, if_pos rfl]

theorem walk_cons_of_ne {x y : String} (h : x ≠ y) (table : List (List Nat))
    (old new : List String) :
    walk table (x :: old) (y :: new) =
      if (table.headD []).tail.headD 0 ≤ (table.tail.headD []).headD 0 then
        removed x :: walk table.tail old (y :: new)
      else added y :: walk (table.map List.tail) (x :: old) new := by
  rw [walk, if_neg h]

def ofTexts (old new : List String) : List DiffLine := walk (suffixLengths new old) old new

end DiffLine

namespace Body

def codeTexts (b : Body) : List String := b.code.map Instruction.text

def diff (before after : Body) : List DiffLine :=
  DiffLine.ofTexts before.codeTexts after.codeTexts

def diffText (before after : Body) : String :=
  joinLines ((diff before after).map DiffLine.text)

end Body

end CilPatch
