import CilPatch.Proofs.Code.Removal
import CilPatch.Proofs.Cursor.Bounds
import CilPatch.Proofs.Cursor.RegionLabels
import CilPatch.Proofs.Cursor.SinglePass

/-!
# Bulk replacement slot by slot

A sweep that pads overwrites the windows of the code as it was (`windows`), each one slot for slot.
What it overwrites lies in front of the place where it goes on searching, so it finds the windows
that one scan finds beforehand, whatever the patterns look at and whatever labels the new code
carries.

* `getElem?_filled_outside`,
  `getElem?_filled_inside`     code whose windows are replaced by others of the same width;
* `Sweep.At.lay`               what the sweep does with one window;
* `Sweep.At.lays`              and what it does from there on, by induction on the windows;
* `slots_preserved`            the whole of a bulk replacement.
-/

namespace CilPatch

open Instruction

/-! ## slots of a window -/

namespace Instruction

/-- `new` in the slot of `old`: the labels of the slot come first -/
def inSlot (old new : Instruction) : Instruction :=
  { new with labels := old.labels ++ Label.missing old.labels new.labels }

theorem takePlace_eq_inSlot (old new : Instruction) : takePlace old new = inSlot old new := by
  unfold takePlace inSlot
  rw [Label.union_eq]

theorem hasLabel_takePlace {new : Instruction} {l : Label} (hl : l ∉ new.labels)
    (old : Instruction) : (takePlace old new).hasLabel l = old.hasLabel l := by
  unfold hasLabel takePlace
  rw [Bool.eq_iff_iff, List.contains_iff_mem, List.contains_iff_mem, Label.mem_union]
  simp [hl]

/-- what `f` makes of a window laid over it, if it is not too long for that -/
def laid (width : Nat) (f : List Instruction → List Instruction) (window : List Instruction) :
    List Instruction :=
  if (f window).length ≤ width then overlay window (f window) else window

theorem length_laid (width : Nat) (f : List Instruction → List Instruction)
    (window : List Instruction) : (laid width f window).length = window.length := by
  unfold laid
  split
  · exact length_overlay window (f window)
  · rfl

end Instruction

/-! ## code with its windows replaced -/

section
variable {code : List Instruction} {patterns : List Pattern}
  {g : List Instruction → List Instruction} {start i : Nat}

theorem getElem?_filledFrom_cons (hg : ∀ window, (g window).length = window.length)
    {width p : Nat} (ps : List Nat) (hle : start ≤ p) (hend : p + width ≤ code.length)
    (hi : start ≤ i) :
    (filledFrom code width g start (p :: ps))[i - start]? =
      if i < p then code[i]?
      else if i < p + width then (g ((code.drop p).take width))[i - p]?
      else (filledFrom code width g (p + width) ps)[i - (p + width)]? := by
  have hfront : ((code.drop start).take (p - start)).length = p - start := by
    rw [List.length_take, List.length_drop]
    omega
  have hwindow : (g ((code.drop p).take width)).length = width := by
    rw [hg, List.length_take, List.length_drop]
    omega
  rw [filledFrom]
  split
  · rw [List.append_assoc, List.getElem?_append_left (by omega),
      List.getElem?_take_of_lt (by omega), List.getElem?_drop, Nat.add_sub_cancel' hi]
  split
  · rw [List.append_assoc, List.getElem?_append_right (by omega), hfront,
      List.getElem?_append_left (by omega)]
    congr 1
    omega
  · rw [List.getElem?_append_right (by rw [List.length_append]; omega), List.length_append, hfront,
      hwindow]
    congr 1
    omega

theorem length_filledFrom (hg : ∀ window, (g window).length = window.length)
    (hne : patterns ≠ []) {ws : List Nat} (hws : windows code patterns start = ws) :
    (filledFrom code patterns.length g start ws).length = code.length - start := by
  induction ws generalizing start with
  | nil => rw [filledFrom, List.length_drop]
  | cons p ps ih =>
    obtain ⟨hl, hps⟩ := (windows_eq_cons_iff hne).mp hws
    obtain ⟨hle, hend, -⟩ := locate_eq_some hl hne
    rw [filledFrom, List.length_append, List.length_append, ih hps, hg, List.length_take,
      List.length_take, List.length_drop, List.length_drop]
    omega

theorem getElem?_filledFrom_outside (hg : ∀ window, (g window).length = window.length)
    (hne : patterns ≠ []) {ws : List Nat} (hws : windows code patterns start = ws)
    (hi : start ≤ i) (hout : ∀ p ∈ ws, i < p ∨ p + patterns.length ≤ i) :
    (filledFrom code patterns.length g start ws)[i - start]? = code[i]? := by
  induction ws generalizing start with
  | nil => rw [filledFrom, List.getElem?_drop, Nat.add_sub_cancel' hi]
  | cons p ps ih =>
    obtain ⟨hl, hps⟩ := (windows_eq_cons_iff hne).mp hws
    obtain ⟨hle, hend, -⟩ := locate_eq_some hl hne
    rw [getElem?_filledFrom_cons hg ps hle hend hi]
    rcases hout p List.mem_cons_self with h | h
    · rw [if_pos h]
    · rw [if_neg (by omega), if_neg (by omega)]
      exact ih hps h fun q hq => hout q (List.mem_cons_of_mem _ hq)

theorem getElem?_filledFrom_inside (hg : ∀ window, (g window).length = window.length)
    (hne : patterns ≠ []) {ws : List Nat} (hws : windows code patterns start = ws) {p : Nat}
    (hp : p ∈ ws) (hi : p ≤ i) (hend : i < p + patterns.length) :
    (filledFrom code patterns.length g start ws)[i - start]? =
      (g ((code.drop p).take patterns.length))[i - p]? := by
  induction ws generalizing start with
  | nil => cases hp
  | cons q qs ih =>
    obtain ⟨hl, hqs⟩ := (windows_eq_cons_iff hne).mp hws
    obtain ⟨hle, hq, -⟩ := locate_eq_some hl hne
    rcases List.mem_cons.mp hp with rfl | hp
    · rw [getElem?_filledFrom_cons hg qs hle hq (by omega), if_neg (by omega), if_pos hend]
    · have hbehind : q + patterns.length ≤ p :=
        (bounds_of_mem_windows hne (by rw [hqs]; exact hp)).1
      rw [getElem?_filledFrom_cons hg qs hle hq (by omega), if_neg (by omega), if_neg (by omega)]
      exact ih hqs hp

end

/-! ## the sweep -/

namespace Cursor.Sweep

variable {operation : String} {patterns : List Pattern} {f : List Instruction → List Instruction}
  {b : Body} {width start : Nat} {s s' s'' : Sweep} {front : List Instruction} {ws ws' : List Nat}

/-- what a sweep records of the windows of `b` at `ws`, those that are replaced and those for which
the new code is too long -/
structure Lays (operation : String) (width : Nat) (f : List Instruction → List Instruction)
    (b : Body) (ws : List Nat) (s s' : Sweep) : Prop where
  regions_eq : s'.cursor.body.regions = s.cursor.body.regions
  warnings_eq : s'.cursor.warnings = s.cursor.warnings ++
    (ws.filter fun p => width < (f (b.window p width)).length).map fun p =>
      ⟨operation, .tooLong (f (b.window p width)).length width p⟩
  matched_eq : s'.matched = s.matched + ws.length
  replaced_eq : s'.replaced =
    s.replaced + (ws.filter fun p => (f (b.window p width)).length ≤ width).length
  last_eq : s'.last =
    (ws.filter fun p => (f (b.window p width)).length ≤ width).getLast?.or s.last

theorem Lays.refl (s : Sweep) : Lays operation width f b [] s s where
  regions_eq := rfl
  warnings_eq := (List.append_nil _).symm
  matched_eq := rfl
  replaced_eq := rfl
  last_eq := rfl

theorem Lays.trans (h : Lays operation width f b ws s s')
    (h' : Lays operation width f b ws' s' s'') :
    Lays operation width f b (ws ++ ws') s s'' where
  regions_eq := h'.regions_eq.trans h.regions_eq
  warnings_eq := by
    rw [h'.warnings_eq, h.warnings_eq, List.append_assoc, List.filter_append, List.map_append]
  matched_eq := by
    rw [h'.matched_eq, h.matched_eq, List.length_append, Nat.add_assoc]
  replaced_eq := by
    rw [h'.replaced_eq, h.replaced_eq, List.filter_append, List.length_append, Nat.add_assoc]
  last_eq := by
    rw [h'.last_eq, h.last_eq, List.filter_append, List.getLast?_append, Option.or_assoc]

theorem step_of_fits (operation : String) {p : Nat}
    (h : (f (s.cursor.body.window p width)).length ≤ width) :
    s.step operation width (.uniform f) .pad p = s.advance
      { s.cursor with
        body := s.cursor.body.overlayAt p width (f (s.cursor.body.window p width)) }
      p (p + width) :=
  if_neg (Nat.not_lt.mpr h)

theorem step_of_not_fits (operation : String) {p : Nat}
    (h : ¬(f (s.cursor.body.window p width)).length ≤ width) :
    s.step operation width (.uniform f) .pad p =
      s.refuse operation p width (f (s.cursor.body.window p width)) :=
  if_pos (Nat.lt_of_not_le h)

/-- **One window**: its new code is laid over it, or else it is refused. -/
theorem lays_step (operation : String) (f : List Instruction → List Instruction) {p : Nat}
    (hw : s.cursor.body.window p width = b.window p width) :
    Lays operation width f b [p] s (s.step operation width (.uniform f) .pad p) := by
  by_cases hfits : (f (b.window p width)).length ≤ width
  · rw [step_of_fits operation (by rw [hw]; exact hfits)]
    refine ⟨rfl, ?_, rfl, ?_, ?_⟩
    · rw [List.filter_cons_of_neg (by simpa using hfits)]
      exact (List.append_nil _).symm
    · rw [List.filter_cons_of_pos (by simpa using hfits)]
      rfl
    · rw [List.filter_cons_of_pos (by simpa using hfits)]
      rfl
  · rw [step_of_not_fits operation (by rw [hw]; exact hfits), hw]
    refine ⟨rfl, ?_, rfl, ?_, ?_⟩
    · rw [List.filter_cons_of_pos (by simpa using hfits)]
      rfl
    · rw [List.filter_cons_of_neg (by simpa using hfits)]
      rfl
    · rw [List.filter_cons_of_neg (by simpa using hfits)]
      rfl

/-- behind either step the window is the laid one, and nothing else has changed -/
theorem code_step (operation : String) (f : List Instruction → List Instruction) (width p : Nat) :
    (s.step operation width (.uniform f) .pad p).cursor.body.code =
      s.cursor.body.code.take p ++ laid width f (s.cursor.body.window p width) ++
        s.cursor.body.code.drop (p + width) := by
  unfold laid
  split
  · next hfits =>
    rw [step_of_fits operation hfits]
    rfl
  · next hfits =>
    rw [step_of_not_fits operation hfits]
    exact s.cursor.body.code_eq_window p width

theorem next_step (operation : String) (f : List Instruction → List Instruction) (width p : Nat) :
    (s.step operation width (.uniform f) .pad p).next = p + width := by
  by_cases hfits : (f (s.cursor.body.window p width)).length ≤ width
  · rw [step_of_fits operation hfits]
    rfl
  · rw [step_of_not_fits operation hfits]
    rfl

/-- the sweep stands in front of the window that `b` has at `p` -/
theorem At.window_at (h : s.At b.code front [] front.length) (k width : Nat) :
    s.cursor.body.code.take (front.length + k) = front ++ (b.code.drop front.length).take k ∧
      s.cursor.body.window (front.length + k) width = b.window (front.length + k) width ∧
        s.cursor.body.code.drop (front.length + k + width) =
          b.code.drop (front.length + k + width) := by
  have hcode : s.cursor.body.code = front ++ b.code.drop front.length := by
    rw [h.code_eq, inherit_nil]
  refine ⟨?_, ?_, ?_⟩
  · rw [hcode, List.take_length_add_append]
  · unfold Body.window
    rw [hcode, List.drop_length_add_append, List.drop_drop]
  · rw [hcode, Nat.add_assoc, List.drop_length_add_append, List.drop_drop]

/-- the sweep has come to the end of a window -/
theorem At.lay (h : s.At b.code front [] front.length) (operation : String)
    (f : List Instruction → List Instruction) {k : Nat}
    (hend : front.length + k + width ≤ b.length) :
    let p := front.length + k
    let front' := front ++ (b.code.drop front.length).take k ++ laid width f (b.window p width)
    front'.length = p + width ∧
      (s.step operation width (.uniform f) .pad p).At b.code front' [] front'.length := by
  intro p front'
  obtain ⟨hfront, hwindow, hbehind⟩ := h.window_at k width
  have hlen : front'.length = p + width := by
    have hb : b.length = b.code.length := rfl
    rw [List.length_append, List.length_append, length_laid, Body.length_window hend,
      List.length_take, List.length_drop]
    omega
  refine ⟨hlen, ?_, ?_⟩
  · rw [code_step, hfront, hwindow, hbehind, hlen, inherit_nil]
  · rw [next_step, hlen]

/-- **The sweep from there on** goes through the windows that are left, by induction on them. -/
theorem At.lays (hne : patterns ≠ []) (operation : String)
    (f : List Instruction → List Instruction) (h : s.At b.code front [] front.length)
    (hws : windows b.code patterns front.length = ws) :
    let s' := Sweep.run operation patterns (.uniform f) .pad hne s
    Lays operation patterns.length f b ws s s' ∧
      s'.cursor.body.code = front ++
        filledFrom b.code patterns.length (laid patterns.length f) front.length ws := by
  induction ws generalizing s front with
  | nil =>
    have hnone := h.locate_eq (hidden_nil b.code patterns f _)
    rw [(windows_eq_nil_iff hne).mp hws] at hnone
    rw [run_of_locate_eq_none hnone]
    refine ⟨.refl s, ?_⟩
    rw [h.code_eq, inherit_nil]
    rfl
  | cons p ps ih =>
    obtain ⟨hfound, hps⟩ := (windows_eq_cons_iff hne).mp hws
    obtain ⟨hle, hend, -⟩ := locate_eq_some hfound hne
    obtain ⟨k, rfl⟩ := Nat.exists_eq_add_of_le hle
    have hsome := h.locate_eq (hidden_nil b.code patterns f _)
    rw [hfound, Option.map_some, Nat.add_sub_cancel_left] at hsome
    obtain ⟨hlen, hat⟩ := h.lay operation f hend
    obtain ⟨hrest, hcode⟩ := ih hat (hlen.symm ▸ hps)
    rw [run_of_locate_eq_some hsome]
    refine ⟨(lays_step operation f (h.window_at k _).2.1).trans hrest, ?_⟩
    rw [hcode, hlen, filledFrom, Nat.add_sub_cancel_left]
    simp only [List.append_assoc]
    rfl

end Cursor.Sweep

/-! ## the whole code -/

/-- the windows for which the new code is not too long -/
def fitting (b : Body) (patterns : List Pattern) (f : List Instruction → List Instruction) :
    List Nat :=
  (windows b.code patterns).filter fun p =>
    (f (b.window p patterns.length)).length ≤ patterns.length

/-- the windows for which it is -/
def overflowing (b : Body) (patterns : List Pattern) (f : List Instruction → List Instruction) :
    List Nat :=
  (windows b.code patterns).filter fun p =>
    patterns.length < (f (b.window p patterns.length)).length

section
variable {b : Body} {patterns : List Pattern} {f : List Instruction → List Instruction} {p i : Nat}

theorem mem_fitting : p ∈ fitting b patterns f ↔ p ∈ windows b.code patterns ∧
    (f (b.window p patterns.length)).length ≤ patterns.length := by
  unfold fitting
  rw [List.mem_filter, decide_eq_true_iff]

theorem bounds_of_mem_fitting (hne : patterns ≠ []) (hp : p ∈ fitting b patterns f) :
    p < b.length ∧ p + patterns.length ≤ b.length := by
  have hpos : 0 < patterns.length := List.length_pos_iff.mpr hne
  have hend : p + patterns.length ≤ b.length :=
    (bounds_of_mem_windows hne (mem_fitting.mp hp).1).2.1
  exact ⟨by omega, hend⟩

theorem getElem?_window {n k : Nat} (hk : k < n) :
    (b.window p n)[k]? = b.instruction? (p + k) := by
  unfold Body.window Body.instruction?
  rw [List.getElem?_take_of_lt hk, List.getElem?_drop]

/-- a slot of a window that is replaced -/
theorem getElem?_filled_inside (hne : patterns ≠ []) (hp : p ∈ fitting b patterns f) {k : Nat}
    (hk : k < patterns.length) :
    (filled b.code patterns (laid patterns.length f))[p + k]? =
      (b.instruction? (p + k)).map fun x =>
        inSlot x ((f (b.window p patterns.length))[k]?.getD nop) := by
  obtain ⟨hw, hfits⟩ := mem_fitting.mp hp
  have hslot : (filled b.code patterns (laid patterns.length f))[p + k]? =
      (laid patterns.length f (b.window p patterns.length))[p + k - p]? :=
    getElem?_filledFrom_inside (i := p + k) (length_laid _ f) hne rfl hw (by omega) (by omega)
  rw [hslot, Nat.add_sub_cancel_left, laid, if_pos hfits, getElem?_overlay, getElem?_window hk]
  simp only [takePlace_eq_inSlot]

/-- an instruction outside of these windows is in none, or in one that is left as it is -/
theorem getElem?_filled_outside (hne : patterns ≠ [])
    (hout : ∀ p ∈ fitting b patterns f, i < p ∨ p + patterns.length ≤ i) :
    (filled b.code patterns (laid patterns.length f))[i]? = b.instruction? i := by
  by_cases hin : ∃ p ∈ windows b.code patterns, p ≤ i ∧ i < p + patterns.length
  · obtain ⟨p, hw, hle, hend⟩ := hin
    have hfits : ¬(f (b.window p patterns.length)).length ≤ patterns.length := by
      intro hfits
      have := hout p (mem_fitting.mpr ⟨hw, hfits⟩)
      omega
    have hslot : (filled b.code patterns (laid patterns.length f))[i]? =
        (laid patterns.length f (b.window p patterns.length))[i - p]? :=
      getElem?_filledFrom_inside (length_laid _ f) hne rfl hw hle hend
    rw [hslot, laid, if_neg hfits, getElem?_window (by omega), Nat.add_sub_cancel' hle]
  · refine getElem?_filledFrom_outside (length_laid _ f) hne rfl (Nat.zero_le i) fun p hw => ?_
    have : ¬(p ≤ i ∧ i < p + patterns.length) := fun h => hin ⟨p, hw, h⟩
    omega

/-- a label that no new code carries stays where it is -/
theorem hasLabel_filled (hne : patterns ≠ []) {l : Label}
    (hl : ∀ p ∈ fitting b patterns f, l ∉ allLabels (f (b.window p patterns.length))) :
    (filled b.code patterns (laid patterns.length f)).map (·.hasLabel l) =
      b.code.map (·.hasLabel l) := by
  apply List.ext_getElem?
  intro i
  rw [List.getElem?_map, List.getElem?_map]
  by_cases hin : ∃ p ∈ fitting b patterns f, p ≤ i ∧ i < p + patterns.length
  · obtain ⟨p, hp, hle, hend⟩ := hin
    obtain ⟨k, rfl⟩ := Nat.exists_eq_add_of_le hle
    have hnew : l ∉ ((f (b.window p patterns.length))[k]?.getD nop).labels := by
      intro hmem
      cases hx : (f (b.window p patterns.length))[k]? with
      | none =>
        rw [hx] at hmem
        cases hmem
      | some x =>
        rw [hx] at hmem
        exact hl p hp (List.mem_flatMap.mpr ⟨x, List.mem_of_getElem? hx, hmem⟩)
    rw [getElem?_filled_inside hne hp (by omega), Option.map_map]
    show (b.instruction? (p + k)).map _ = (b.instruction? (p + k)).map _
    congr 1
    funext x
    show (inSlot x _).hasLabel l = x.hasLabel l
    rw [← takePlace_eq_inSlot, hasLabel_takePlace hnew]
  · have hout : ∀ p ∈ fitting b patterns f, i < p ∨ p + patterns.length ≤ i := by
      intro p hp
      have : ¬(p ≤ i ∧ i < p + patterns.length) := fun h => hin ⟨p, hp, h⟩
      omega
    rw [getElem?_filled_outside hne hout]
    rfl

end

namespace Cursor

/-- what bulk replacement slot by slot makes of `c`: the number that it reports and the cursor
behind it.

The windows are those of one scan over the code as it was, from left to right. -/
structure KeepsSlots (operation : String) (patterns : List Pattern)
    (f : List Instruction → List Instruction) (c : Cursor) (result : Nat × Cursor) : Prop where
  length_eq : result.2.length = c.length
  regions_eq : result.2.body.regions = c.body.regions
  outside : ∀ i, (∀ p ∈ fitting c.body patterns f, i < p ∨ p + patterns.length ≤ i) →
    result.2.body.instruction? i = c.body.instruction? i
  inside : ∀ p ∈ fitting c.body patterns f, ∀ k < patterns.length,
    ∃ x, c.body.instruction? (p + k) = some x ∧ result.2.body.instruction? (p + k) =
      some (inSlot x ((f (c.body.window p patterns.length))[k]?.getD nop))
  count_eq : result.1 = (fitting c.body patterns f).length
  warnings_eq : result.2.warnings = c.warnings ++
    ((overflowing c.body patterns f).map fun p =>
      ⟨operation, .tooLong (f (c.body.window p patterns.length)).length patterns.length p⟩) ++
    if windows c.body.code patterns = [] then
      [⟨operation, .noMatch (Pattern.windowText patterns)⟩] else []
  position_eq : result.2.position = (fitting c.body patterns f).getLast?.or c.position
  resolve_eq : ∀ l, (∀ p ∈ fitting c.body patterns f,
      l ∉ allLabels (f (c.body.window p patterns.length))) →
    result.2.body.resolve l = c.body.resolve l

theorem keepsSlots_replaceMatches (operation : String) (c : Cursor) {patterns : List Pattern}
    (f : List Instruction → List Instruction) (hne : patterns ≠ []) :
    KeepsSlots operation patterns f c
      (replaceMatches operation c patterns (.uniform f) .pad) := by
  have hat : Sweep.At c.body.code [] [] 0 { cursor := c } := ⟨by rw [inherit_nil]; rfl, rfl⟩
  obtain ⟨hlays, hcode⟩ := hat.lays hne operation f rfl
  obtain ⟨hcount, hbody⟩ := replaceMatches_eq operation c (.uniform f) .pad hne
  obtain ⟨hwarnings, hposition⟩ := replaceMatches_ends operation c (.uniform f) .pad hne
  have hrests := Sweep.rests_run operation patterns (.uniform f) .pad hne { cursor := c }
  generalize Sweep.run operation patterns (.uniform f) .pad hne { cursor := c } = s at *
  generalize replaceMatches operation c patterns (.uniform f) .pad = result at *
  have hcode : result.2.body.code = filled c.body.code patterns (laid patterns.length f) := by
    rw [hbody, hcode]
    rfl
  have hlength : s.cursor.length = c.length := by
    show s.cursor.body.code.length = c.body.code.length
    rw [← hbody, hcode]
    exact length_filledFrom (length_laid _ f) hne rfl
  exact {
    length_eq := by
      show result.2.body.code.length = c.body.code.length
      rw [hbody]
      exact hlength
    regions_eq := by rw [hbody, hlays.regions_eq]
    outside := fun i hout => by
      unfold Body.instruction?
      rw [hcode]
      exact getElem?_filled_outside hne hout
    inside := fun p hp k hk => by
      have hend := (bounds_of_mem_fitting hne hp).2
      have hlt : p + k < c.body.code.length := Nat.lt_of_lt_of_le (by omega) hend
      obtain ⟨x, hx⟩ : ∃ x, c.body.instruction? (p + k) = some x :=
        ⟨_, List.getElem?_eq_getElem hlt⟩
      refine ⟨x, hx, ?_⟩
      unfold Body.instruction? at hx ⊢
      rw [hcode, getElem?_filled_inside hne hp hk]
      unfold Body.instruction?
      rw [hx]
      rfl
    count_eq := by
      rw [hcount, hlays.replaced_eq]
      exact Nat.zero_add _
    warnings_eq := by
      rw [hwarnings, hlays.warnings_eq, hlays.matched_eq]
      show _ ++ (if 0 + _ = 0 then _ else _) = _
      simp only [Nat.zero_add, List.length_eq_zero_iff]
      rfl
    position_eq := by
      have hlast : s.last = (fitting c.body patterns f).getLast? := by
        rw [hlays.last_eq]
        exact Option.or_none
      rw [hposition, hlast, hrests.position]
      cases hl : (fitting c.body patterns f).getLast? with
      | none => rfl
      | some p =>
        have hlt : p < c.length := (bounds_of_mem_fitting hne (List.mem_of_getLast? hl)).1
        dsimp only
        rw [hlength, if_pos hlt]
        rfl
    resolve_eq := fun l hl => Body.resolve_congr (by rw [hcode]; exact hasLabel_filled hne hl) }

end Cursor

/-- **Slots stay where they are.**  Whatever the patterns look at and whatever `f` makes of a
window, bulk replacement slot by slot moves no instruction and no label. -/
theorem slots_preserved (c : Cursor) {patterns : List Pattern} (hne : patterns ≠ []) :
    (∀ f, c.KeepsSlots "replace_all_with" patterns f
        (c.replaceAllWith patterns (.uniform f) .pad)) ∧
      ∀ code, c.KeepsSlots "replace_all" patterns (fun _ => code)
        (c.replaceAll patterns code .pad) :=
  ⟨fun f => c.keepsSlots_replaceMatches _ f hne,
    fun _ => c.keepsSlots_replaceMatches _ _ hne⟩

/-- control may come in between a load and the removal of what it loads -/
def markedPop : Body := .ofCode
  [.loadInt32 7,
   { opcode := .pop, labels := [⟨0⟩] },
   { opcode := .br, operand := .label ⟨0⟩ }]

theorem slots_preserved_markedPop :
    let patterns := [Pattern.opcode .ldcI4, .opcode .pop]
    let c := Cursor.ofBody markedPop
    patterns ≠ [] ∧ fitting markedPop patterns (fun _ => [.nop]) = [0] ∧
      c.KeepsSlots "replace_all" patterns (fun _ => [.nop]) (c.replaceAll patterns [.nop] .pad) ∧
        (c.replaceAll patterns [.nop] .pad).2.body.resolve ⟨0⟩ = some 1 := by
  intro patterns c
  have hne : patterns ≠ [] := List.cons_ne_nil _ _
  have hslots := (slots_preserved c hne).2 [.nop]
  have hresolve := hslots.resolve_eq ⟨0⟩ fun _ _ => by decide
  exact ⟨hne, by decide, hslots, hresolve.trans (by decide)⟩

end CilPatch
