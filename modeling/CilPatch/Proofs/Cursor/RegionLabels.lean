import CilPatch.Proofs.Cursor.FreshLabels

/-!
# Labels that delimit regions

Code that comes into a body has its labels reserved, a region has not.  So a label that delimits a
region and that the body knows from nowhere else may be handed out as a fresh one, and to attach it
then moves an end of the region (`region_end_handed_out`).

Labels that the body has `Met` in its code or has handed out itself are safe: as long as regions are
delimited by such labels, no fresh label is one of theirs, and to attach it leaves the ends of all
regions where they are (`met_delimiters_stay`).
-/

namespace CilPatch

/-! ## marking -/

/-- the instructions that carry `l` are read off the code alone -/
theorem Body.resolve_congr {b b' : Body} {l : Label}
    (h : b'.code.map (·.hasLabel l) = b.code.map (·.hasLabel l)) : b'.resolve l = b.resolve l := by
  have hmap : ∀ code : List Instruction,
      code.findIdx? (·.hasLabel l) = (code.map (·.hasLabel l)).findIdx? id := by
    intro code
    rw [List.findIdx?_map]
    rfl
  unfold resolve
  rw [hmap, hmap, h]

/-- to attach one label leaves all others where they are -/
theorem Body.resolve_markLabel_of_ne {b b' : Body} {i : Nat} {l l' : Label}
    (h : b.markLabel i l = .ok b') (hne : l' ≠ l) : b'.resolve l' = b.resolve l' := by
  unfold markLabel at h
  split at h
  · cases h
    apply resolve_congr
    show (List.modify _ i _).map _ = _
    rw [List.map_modify_of_eq, List.map_map]
    · refine List.map_congr_left fun x _ => ?_
      simp [Instruction.hasLabel, hne]
    · intro x
      simp [Instruction.hasLabel, hne]
  · cases h

/-! ## labels that the body has met -/

/-- the code carries the label or refers to it -/
def Body.Mentions (b : Body) (l : Label) : Prop := ∃ x ∈ b.code, l ∈ x.labels ∨ l ∈ x.targets

theorem Body.Reserved.lt_of_mentions {b : Body} {l : Label} (h : b.Reserved) (hl : b.Mentions l) :
    l.id < b.nextLabel := by
  obtain ⟨x, hx, hl⟩ := hl
  exact h x hx l (Instruction.mem_mentioned.mpr hl)

/-- the bodies behind each operation of a session -/
def Command.stages : List Command → Cursor → List Body
  | [], _ => []
  | k :: ks, c => (k.run c).body :: stages ks (k.run c)

theorem Command.advances_stages {ks : List Command} {c : Cursor} {b : Body} (hb : b ∈ stages ks c) :
    c.body.Advances b ∧ b.Advances (runAll ks c).body := by
  induction ks generalizing c with
  | nil => exact absurd hb List.not_mem_nil
  | cons k ks ih =>
    have hk : c.body.Advances (k.run c).body := advances k c
    rcases List.mem_cons.mp hb with rfl | hb
    · exact ⟨hk, advances_runAll ks (k.run c)⟩
    · exact ⟨hk.trans (ih hb).1, (ih hb).2⟩

namespace Change

/-- the bodies on the way through a change, the last one behind it -/
def stages (b : Body) : Change → List Body
  | edit v ks => Command.stages ks (.ofBody b v)
  | ch => [ch.apply b]

/-- the bodies on the way through several changes, the first one in front of them -/
def stagesAll : List Change → Body → List Body
  | [], b => [b]
  | ch :: chs, b => b :: ch.stages b ++ stagesAll chs (ch.apply b)

theorem advances_stages {ch : Change} {b b' : Body} (hb : b' ∈ ch.stages b) :
    b.Advances b' ∧ b'.Advances (ch.apply b) := by
  have hsingle : b' ∈ [ch.apply b] → b.Advances b' ∧ b'.Advances (ch.apply b) := by
    intro hb
    obtain rfl := List.mem_singleton.mp hb
    exact ⟨advances b ch, .refl _⟩
  cases ch with
  | push | addRegion | defineLabel | markLabel => exact hsingle hb
  | edit v ks => exact Command.advances_stages hb

theorem advances_stagesAll {chs : List Change} {b b' : Body} (hb : b' ∈ stagesAll chs b) :
    b.Advances b' ∧ b'.Advances (applyAll chs b) := by
  induction chs generalizing b with
  | nil =>
    obtain rfl := List.mem_singleton.mp hb
    exact ⟨.refl _, .refl _⟩
  | cons ch chs ih =>
    have hch : b.Advances (ch.apply b) := advances b ch
    have hchs : (ch.apply b).Advances (applyAll chs (ch.apply b)) := advances_applyAll _ chs
    rcases List.mem_append.mp hb with hb | hb
    · rcases List.mem_cons.mp hb with rfl | hb
      · exact ⟨.refl _, hch.trans hchs⟩
      · exact ⟨(advances_stages hb).1, (advances_stages hb).2.trans hchs⟩
    · exact ⟨hch.trans (ih hb).1, (ih hb).2⟩

/-- in the course of the changes the label was handed out, or the code had it at some time -/
def Met (chs : List Change) (start : Body) (l : Label) : Prop :=
  l ∈ handedOut chs start ∨ ∃ b ∈ stagesAll chs start, b.Mentions l

theorem Met.lt {chs : List Change} {start : Body} {l : Label} (hs : start.Reserved)
    (h : Met chs start l) : l.id < (applyAll chs start).nextLabel := by
  rcases h with h | ⟨b, hb, hl⟩
  · exact (hands_applyAll start chs).below l h
  · obtain ⟨hto, hfrom⟩ := advances_stagesAll hb
    exact Nat.lt_of_lt_of_le ((hto.reserved hs).lt_of_mentions hl) hfrom.next

end Change

/-- **A region that is delimited by labels which the body has met stays where it is.**  A fresh
label is none of them, and to attach it leaves every end of the region at its instruction. -/
theorem met_delimiters_stay (code : List Instruction) (chs : List Change) :
    let b := Change.applyAll chs (.ofCode code)
    ∀ r ∈ b.regions, (∀ l ∈ r.labels, Change.Met chs (.ofCode code) l) →
      b.defineLabel.1 ∉ r.labels ∧
        ∀ i b', b.defineLabel.2.markLabel i b.defineLabel.1 = .ok b' →
          r.labels.map b'.resolve = r.labels.map b.resolve := by
  intro b r _ hmet
  have hne : ∀ l ∈ r.labels, l ≠ b.defineLabel.1 := by
    rintro l hl rfl
    have hlt : b.nextLabel < b.nextLabel := (hmet _ hl).lt (Body.reserved_ofCode code)
    exact Nat.lt_irrefl _ hlt
  refine ⟨fun hl => hne _ hl rfl, fun i b' hb' => List.map_congr_left fun l hl => ?_⟩
  exact Body.resolve_markLabel_of_ne (b := b.defineLabel.2) hb' (hne l hl)

/-- a method that ends with the handler of a region -/
def handlerLast : List Instruction :=
  [{ opcode := .nop, labels := [⟨0⟩] }, { opcode := .endfinally, labels := [⟨1⟩] }]

/-- the region up to the end of the method, where no instruction can carry the label -/
def regionToEnd : Region := ⟨.finally, ⟨0⟩, ⟨1⟩, ⟨1⟩, ⟨2⟩⟩

/-- the label behind the handler was handed out for it -/
theorem met_delimiters_stay_handlerLast :
    let chs := [.defineLabel, .addRegion regionToEnd]
    let b := Change.applyAll chs (.ofCode handlerLast)
    regionToEnd ∈ b.regions ∧
      (∀ l ∈ regionToEnd.labels, Change.Met chs (.ofCode handlerLast) l) ∧
      b.defineLabel.1 ∉ regionToEnd.labels ∧
        ∀ i b', b.defineLabel.2.markLabel i b.defineLabel.1 = .ok b' →
          regionToEnd.labels.map b'.resolve = regionToEnd.labels.map b.resolve := by
  intro chs b
  have hregion : regionToEnd ∈ b.regions := by decide
  have hcode : ∀ x ∈ handlerLast, ∀ l ∈ x.labels, Change.Met chs (.ofCode handlerLast) l :=
    fun x hx l hl => .inr ⟨_, List.mem_cons_self, x, hx, .inl hl⟩
  have hmet : ∀ l ∈ regionToEnd.labels, Change.Met chs (.ofCode handlerLast) l := by
    intro l hl
    have hcases : l ∈ handlerLast.flatMap (·.labels) ∨
        l ∈ Change.handedOut chs (.ofCode handlerLast) := by
      revert l
      decide
    rcases hcases with hl | hl
    · obtain ⟨x, hx, hl⟩ := List.mem_flatMap.mp hl
      exact hcode x hx l hl
    · exact .inl hl
  exact ⟨hregion, hmet, met_delimiters_stay handlerLast chs regionToEnd hregion hmet⟩

/-- Where nobody asked for the label behind the handler, it is handed out to the next who asks for
one; attached to the first instruction it ends the handler there. -/
theorem region_end_handed_out :
    let b := Change.applyAll [.addRegion regionToEnd] (.ofCode handlerLast)
    regionToEnd ∈ b.regions ∧ b.defineLabel.1 ∈ regionToEnd.labels ∧
      b.resolve regionToEnd.handlerEnd = none ∧
      ∃ b', b.defineLabel.2.markLabel 0 b.defineLabel.1 = .ok b' ∧
        b'.resolve regionToEnd.handlerEnd = some 0 :=
  ⟨by decide, by decide, by decide, _, rfl, by decide⟩

end CilPatch
