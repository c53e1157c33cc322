import CilPatch.Proofs.Code.FreshLabels
import CilPatch.Proofs.Cursor.LabelSurvival

/-!
# Fresh labels

A `Change` is what a caller may do with a body, a session with a cursor among it; the new code may
carry and refer to whatever labels it likes.  Every change keeps the source of fresh labels above
all labels of the code (`Change.advances`), and the labels that are handed out follow one another
upwards (`Change.hands_applyAll`).

So a label that is handed out is new to the code and to whoever got a label before
(`fresh_label_exceeds`).
-/

namespace CilPatch

namespace Cursor

open Instruction Body

variable {c c' : Cursor}

/-! ## operations of a cursor -/

theorem Moved.advances (h : Moved c c') : c.body.Advances c'.body := by
  rw [h.1]
  exact .refl _

theorem advances_markLabel (c : Cursor) (l : Label) : c.body.Advances (c.markLabel l).body := by
  unfold markLabel
  split
  · exact .refl _
  · split
    · next body hbody => exact Body.advances_markLabel hbody
    · exact .refl _

theorem advances_insertAs (operation : String) {insert : Body → Nat → List Instruction → Body}
    {code : List Instruction} (hi : ∀ p, c.body.Advances (insert c.body p code)) :
    c.body.Advances (insertAs operation insert c code).body := by
  unfold insertAs
  split
  · exact .refl _
  · next p hp =>
    split
    · exact .refl _
    · exact hi p

theorem advances_replace (c : Cursor) (x : Instruction) : c.body.Advances (c.replace x).body := by
  unfold replace
  split
  · exact .refl _
  · exact advances_replaceAt _ _ _

theorem advances_removeAs (operation : String) (c : Cursor) (n : Nat) (code : List Instruction) :
    c.body.Advances (removeAs operation c n code).body := by
  unfold removeAs
  split
  · exact .refl _
  · next p hp =>
    split
    · exact .refl _
    · split
      · exact .refl _
      · exact advances_substitute _ _ _ _

theorem Sweep.advances_step (operation : String) (width : Nat) (produce : Producer)
    (mode : ReplaceMode) (s : Sweep) (p : Nat) :
    s.cursor.body.Advances (s.step operation width produce mode p).cursor.body := by
  unfold step
  cases mode with
  | pad =>
    dsimp only
    split
    · exact .refl _
    · exact advances_overlayAt _ _ _ _
  | splice => exact advances_substitute _ _ _ _

/-- by induction on the code that is left to search -/
theorem Sweep.advances_run (operation : String) (patterns : List Pattern) (produce : Producer)
    (mode : ReplaceMode) (hne : patterns ≠ []) (s : Sweep) :
    s.cursor.body.Advances (run operation patterns produce mode hne s).cursor.body := by
  fun_induction run operation patterns produce mode hne s with
  | case1 s h => exact .refl _
  | case2 s p h ih => exact (advances_step operation _ produce mode s p).trans ih

theorem advances_replaceMatches (operation : String) (c : Cursor) (patterns : List Pattern)
    (produce : Producer) (mode : ReplaceMode) :
    c.body.Advances (replaceMatches operation c patterns produce mode).2.body := by
  by_cases hne : patterns = []
  · unfold replaceMatches
    rw [dif_pos hne]
    exact .refl _
  · have hrun := Sweep.advances_run operation patterns produce mode hne { cursor := c }
    exact hrun.trans (moved_replaceMatches operation c produce mode hne).advances

end Cursor

namespace Command

open Cursor

/-- **Every operation of a cursor keeps fresh labels fresh**, whatever code it brings in. -/
theorem advances (k : Command) (c : Cursor) : c.body.Advances (k.run c).body := by
  cases k with
  | start => exact (moved_seekAs _ c _).advances
  | finish => exact (moved_finish c).advances
  | seek i => exact (moved_seekAs _ c i).advances
  | advance delta => exact (moved_advance c delta).advances
  | find pattern mode => exact (moved_searchAs "find" c [pattern] mode).advances
  | findWindow patterns mode => exact (moved_searchAs _ c _ mode).advances
  | defineLabel => exact c.body.advances_defineLabel
  | markLabel l => exact advances_markLabel c l
  | insertBefore code => exact advances_insertAs _ fun p => Body.advances_insertAt _ p code
  | insertBeforeLabeled code =>
    exact advances_insertAs _ fun p => Body.advances_insertLabeledAt _ p code
  | insertAfter code => exact advances_insertAs _ fun p => Body.advances_insertAt _ (p + 1) code
  | replace x => exact advances_replace c x
  | delete => exact advances_removeAs _ c 1 []
  | deleteMany n => exact advances_removeAs _ c n []
  | replaceMany n code => exact advances_removeAs _ c n code
  | replaceAll patterns code mode => exact advances_replaceMatches _ c patterns _ mode
  | replaceAllWith patterns produce mode => exact advances_replaceMatches _ c patterns produce mode

theorem advances_runAll (ks : List Command) (c : Cursor) :
    c.body.Advances (runAll ks c).body := by
  induction ks generalizing c with
  | nil => exact .refl _
  | cons k ks ih => exact (advances k c).trans (ih (k.run c))

/-- the label that an operation hands out, if it is the one that does -/
def handsOut (c : Cursor) : Command → List Label
  | defineLabel => [c.defineLabel.1]
  | _ => []

/-- the labels that are handed out in a session, in order -/
def handedOut : List Command → Cursor → List Label
  | [], _ => []
  | k :: ks, c => k.handsOut c ++ handedOut ks (k.run c)

end Command

/-! ## labels handed out -/

/-- between the one body and the other the labels were handed out, upwards and each of them fresh -/
structure Body.Hands (b : Body) (ls : List Label) (b' : Body) : Prop where
  rising : ls.Pairwise fun l l' => l.id < l'.id
  above : ∀ l ∈ ls, b.nextLabel ≤ l.id
  below : ∀ l ∈ ls, l.id < b'.nextLabel

namespace Body

variable {b b' b'' : Body} {ls ls' : List Label}

theorem Hands.none (b b' : Body) : Hands b [] b' where
  rising := List.Pairwise.nil
  above _ hl := absurd hl List.not_mem_nil
  below _ hl := absurd hl List.not_mem_nil

theorem Hands.append (h : Hands b ls b') (h' : Hands b' ls' b'') (hb : b.Advances b')
    (hb' : b'.Advances b'') : Hands b (ls ++ ls') b'' where
  rising := by
    refine List.pairwise_append.mpr ⟨h.rising, h'.rising, fun l hl l' hl' => ?_⟩
    exact Nat.lt_of_lt_of_le (h.below l hl) (h'.above l' hl')
  above := List.forall_mem_append.mpr ⟨h.above, fun l hl => Nat.le_trans hb.next (h'.above l hl)⟩
  below := List.forall_mem_append.mpr
    ⟨fun l hl => Nat.lt_of_lt_of_le (h.below l hl) hb'.next, h'.below⟩

theorem hands_defineLabel (b : Body) : Hands b [b.defineLabel.1] b.defineLabel.2 where
  rising := List.pairwise_singleton _ _
  above := List.forall_mem_singleton.mpr (Nat.le_refl _)
  below := List.forall_mem_singleton.mpr (Nat.lt_succ_self _)

end Body

theorem Command.hands (k : Command) (c : Cursor) :
    c.body.Hands (k.handsOut c) (k.run c).body := by
  cases k with
  | defineLabel => exact c.body.hands_defineLabel
  | _ => exact .none _ _

theorem Command.hands_runAll (ks : List Command) (c : Cursor) :
    c.body.Hands (handedOut ks c) (runAll ks c).body := by
  induction ks generalizing c with
  | nil => exact .none _ _
  | cons k ks ih =>
    exact (hands k c).append (ih (k.run c)) (advances k c) (advances_runAll ks (k.run c))

/-! ## changes of a body -/

inductive Change where
  | push (instruction : Instruction)
  | addRegion (region : Region)
  | defineLabel
  /-- the body stays as it is if there is no such instruction -/
  | markLabel (index : Nat) (label : Label)
  /-- a session with a new cursor on the body -/
  | edit (verifier : Verifier) (commands : List Command)

namespace Change

/-- the body behind the change -/
def apply (b : Body) : Change → Body
  | push x => b.push x
  | addRegion r => b.addRegion r
  | defineLabel => b.defineLabel.2
  | markLabel i l =>
    match b.markLabel i l with
    | .ok b' => b'
    | .error _ => b
  | edit v ks => (Command.runAll ks (.ofBody b v)).body

/-- the labels that are handed out on the way, in order -/
def handsOut (b : Body) : Change → List Label
  | defineLabel => [b.defineLabel.1]
  | edit v ks => Command.handedOut ks (.ofBody b v)
  | _ => []

/-- the body behind several changes -/
def applyAll (chs : List Change) (b : Body) : Body := chs.foldl apply b

/-- the labels that are handed out in the course of several changes, in order -/
def handedOut : List Change → Body → List Label
  | [], _ => []
  | ch :: chs, b => ch.handsOut b ++ handedOut chs (ch.apply b)

variable (b : Body) (ch : Change) (chs : List Change)

/-- **Every change keeps fresh labels fresh.** -/
theorem advances : b.Advances (ch.apply b) := by
  cases ch with
  | push x => exact b.advances_push x
  | addRegion r => exact b.advances_addRegion r
  | defineLabel => exact b.advances_defineLabel
  | markLabel i l =>
    dsimp only [apply]
    split
    next b' hb' => exact Body.advances_markLabel hb'
    next => exact .refl b
  | edit v ks => exact Command.advances_runAll ks (.ofBody b v)

theorem advances_applyAll : b.Advances (applyAll chs b) := by
  induction chs generalizing b with
  | nil => exact .refl b
  | cons ch chs ih => exact (advances b ch).trans (ih (ch.apply b))

theorem hands : b.Hands (ch.handsOut b) (ch.apply b) := by
  cases ch with
  | push | addRegion | markLabel => exact .none _ _
  | defineLabel => exact b.hands_defineLabel
  | edit v ks => exact Command.hands_runAll ks (.ofBody b v)

theorem hands_applyAll : b.Hands (handedOut chs b) (applyAll chs b) := by
  induction chs generalizing b with
  | nil => exact .none b b
  | cons ch chs ih =>
    exact (hands b ch).append (ih (ch.apply b)) (advances b ch) (advances_applyAll (ch.apply b) chs)

end Change

/-- the label is above all that the code of the body carries or refers to, and above all that were
handed out before -/
structure Label.Fresh (l : Label) (b : Body) (earlier : List Label) : Prop where
  above_code : ∀ x ∈ b.code, ∀ l', l' ∈ x.labels ∨ l' ∈ x.targets → l'.id < l.id
  above_earlier : ∀ l' ∈ earlier, l'.id < l.id

theorem Body.Reserved.fresh {b : Body} (h : b.Reserved) {earlier : List Label}
    (he : ∀ l ∈ earlier, l.id < b.nextLabel) : b.defineLabel.1.Fresh b earlier where
  above_code x hx l' hl' := h x hx l' (Instruction.mem_mentioned.mpr hl')
  above_earlier := he

/-- **A label that is handed out is new.**  Whatever has been done with a body, with cursors and
without, the next label that it hands out is above all labels that its code carries or refers to and
above all that it handed out before, and the same goes for a cursor in the midst of a session. -/
theorem fresh_label_exceeds (code : List Instruction) (chs : List Change) :
    let start := Body.ofCode code
    let b := Change.applyAll chs start
    b.defineLabel.1.Fresh b (Change.handedOut chs start) ∧
      ∀ (v : Verifier) (ks : List Command),
        let c := Command.runAll ks (.ofBody b v)
        c.defineLabel.1.Fresh c.body
          (Change.handedOut chs start ++ Command.handedOut ks (.ofBody b v)) := by
  intro start b
  have hb : b.Reserved := (Change.advances_applyAll start chs).reserved (Body.reserved_ofCode code)
  have hhanded : start.Hands (Change.handedOut chs start) b := Change.hands_applyAll start chs
  refine ⟨hb.fresh hhanded.below, fun v ks => ?_⟩
  have hadvances : b.Advances (Command.runAll ks (.ofBody b v)).body :=
    Command.advances_runAll ks (.ofBody b v)
  have hsession : b.Hands (Command.handedOut ks (.ofBody b v))
      (Command.runAll ks (.ofBody b v)).body := Command.hands_runAll ks (.ofBody b v)
  exact (hadvances.reserved hb).fresh
    (hhanded.append hsession (Change.advances_applyAll start chs) hadvances).below

/-- a body without code is where a caller may begin as well -/
example : Body.ofCode [] = {} := rfl

end CilPatch
