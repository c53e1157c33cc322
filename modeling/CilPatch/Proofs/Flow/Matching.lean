import Mathlib.Data.List.Forall2
import Mathlib.Data.List.ReduceOption
import CilPatch.Proofs.Stack.Acceptance

/-!
# Bodies that differ in their labels

Two bodies match if they are the same but for labels and corresponding labels lead to the same
places.  The flow graph of a body is made of the operations and of the places that references lead
to (`Body.outline`): so plain bodies that match have the same graph, or neither has one, for the
same reason (`FlowGraph.ofBody_eq_of_matches`).

* `Body.Plain`, `Body.Matches`   the bodies that are compared, and when they match;
* `Body.RenamedBy.matches`       a body under new names of labels matches;
* `_eq_of_outline`               what the graph is made of, step by step.
-/

/-- lists whose entries are related one by one have the same image under functions that take related
entries to the same -/
theorem List.Forall₂.map_eq_map {α β γ : Type} {R : α → β → Prop} {f : α → γ} {g : β → γ}
    {xs : List α} {ys : List β} (h : List.Forall₂ R xs ys) (hfg : ∀ x y, R x y → f x = g y) :
    xs.map f = ys.map g := by
  induction h with
  | nil => rfl
  | cons hxy _ ih => rw [List.map_cons, List.map_cons, hfg _ _ hxy, ih]

/-- an entry of the one list has one in its place in the other -/
theorem List.Forall₂.exists_getElem? {α β : Type} {R : α → β → Prop} {xs : List α} {ys : List β}
    (h : List.Forall₂ R xs ys) {i : Nat} {x : α} (hx : xs[i]? = some x) :
    ∃ y, ys[i]? = some y ∧ R x y := by
  induction h generalizing i with
  | nil => cases hx
  | cons hxy _ ih =>
    cases i with
    | zero =>
      cases hx
      exact ⟨_, rfl, hxy⟩
    | succ i => exact ih hx

namespace CilPatch

/-! ## labels of operands -/

namespace Operand

/-- the operand with other labels in the place of those it refers to -/
def renamed (f : Label → Label) : Operand → Operand
  | .label l => .label (f l)
  | .switch ls => .switch (ls.map f)
  | operand => operand

theorem labels_renamed (f : Label → Label) (operand : Operand) :
    (operand.renamed f).labels = operand.labels.map f := by
  cases operand <;> rfl

theorem renamed_renamed (f g : Label → Label) (operand : Operand) :
    (operand.renamed f).renamed g = operand.renamed fun l => g (f l) := by
  cases operand with
  | switch ls => exact congrArg switch List.map_map
  | _ => rfl

theorem renamed_id (operand : Operand) : operand.renamed id = operand := by
  cases operand with
  | switch ls => exact congrArg switch (List.map_id ls)
  | _ => rfl

/-- the operand apart from labels: of those it refers to only the number is left -/
def masked (operand : Operand) : Operand := operand.renamed fun _ => ⟨0⟩

theorem masked_renamed (f : Label → Label) (operand : Operand) :
    (operand.renamed f).masked = operand.masked :=
  renamed_renamed f _ operand

end Operand

/-- the instruction under new names of labels -/
def Instruction.renamed (f : Label → Label) (x : Instruction) : Instruction :=
  { x with operand := x.operand.renamed f, labels := x.labels.map f }

/-- `x'` is `x` under new names of labels, and carries at least the new names of those that `x`
carries, in any order -/
structure Instruction.RenamedBy (f : Label → Label) (x x' : Instruction) : Prop where
  opcode : x'.opcode = x.opcode
  operand : x'.operand = x.operand.renamed f
  labels : ∀ l ∈ x.labels, f l ∈ x'.labels

/-! ## matching bodies -/

namespace Body

/-- no protected regions, each label marks at most one instruction, and each reference leads to
one -/
structure Plain (b : Body) : Prop where
  regions : b.hasRegions = false
  unique : b.LabelsUnique
  resolved : b.Resolved

/-- instructions of two bodies with the same operation, the same operand apart from labels, and
references that lead to the same places -/
structure Corresponds (b b' : Body) (x x' : Instruction) : Prop where
  opcode : x.opcode = x'.opcode
  operand : x.operand.masked = x'.operand.masked
  targets : x.targets.map b.resolve = x'.targets.map b'.resolve

/-- bodies of the same length whose instructions correspond one by one -/
def Matches (b b' : Body) : Prop := List.Forall₂ (b.Corresponds b') b.code b'.code

variable {b b' : Body}

theorem plain_iff :
    b.Plain ↔ b.hasRegions = false ∧ b.labels.Nodup ∧
      ∀ x ∈ b.code, ∀ l ∈ x.targets, l ∈ b.labels := by
  constructor
  · rintro ⟨hr, hu, hres⟩
    refine ⟨hr, hu, fun x hx l hl => ?_⟩
    obtain ⟨i, hi⟩ := List.mem_iff_getElem?.mp hx
    exact mem_labels.mpr (hres i x l hi hl)
  · rintro ⟨hr, hu, hres⟩
    exact ⟨hr, hu, fun i x l hx hl => mem_labels.mp (hres x (List.mem_of_getElem? hx) l hl)⟩

instance : Decidable b.Plain := decidable_of_iff' _ plain_iff

instance : DecidableRel (b.Corresponds b') := fun x x' =>
  decidable_of_iff
    (x.opcode = x'.opcode ∧ x.operand.masked = x'.operand.masked ∧
      x.targets.map b.resolve = x'.targets.map b'.resolve)
    ⟨fun ⟨hop, hoperand, ht⟩ => ⟨hop, hoperand, ht⟩, fun ⟨hop, hoperand, ht⟩ => ⟨hop, hoperand, ht⟩⟩

instance : Decidable (b.Matches b') :=
  inferInstanceAs (Decidable (List.Forall₂ (b.Corresponds b') b.code b'.code))

theorem Indexed.lookup_eq_resolve {index : LabelIndex} (hix : b.Indexed index)
    (hu : b.LabelsUnique) (l : Label) : index.lookup l = b.resolve l :=
  Option.ext fun i => (hix.lookup l i).trans hu.resolve_eq_some_iff.symm

/-! ## renaming -/

/-- the body under new names of labels -/
def renamed (f : Label → Label) (b : Body) : Body := .ofCode (b.code.map (·.renamed f))

/-- the instructions of `b'` are those of `b` under new names of labels -/
def RenamedBy (f : Label → Label) (b b' : Body) : Prop :=
  List.Forall₂ (Instruction.RenamedBy f) b.code b'.code

theorem renamedBy_renamed (f : Label → Label) (b : Body) : b.RenamedBy f (b.renamed f) := by
  show List.Forall₂ _ b.code (b.code.map (·.renamed f))
  rw [List.forall₂_map_right_iff, List.forall₂_same]
  exact fun x _ => ⟨rfl, rfl, fun l hl => List.mem_map_of_mem hl⟩

/-- the instructions of `b'` are those of `b`, each with at least the labels that it carried, in any
order -/
def Relisted (b b' : Body) : Prop :=
  List.Forall₂ (fun x x' => x'.unlabeled = x.unlabeled ∧ x.labels ⊆ x'.labels) b.code b'.code

theorem Relisted.renamedBy (h : b.Relisted b') : b.RenamedBy id b' := by
  refine h.imp fun x x' ⟨hx, hl⟩ => ⟨congrArg (·.opcode) hx, ?_, hl⟩
  rw [Operand.renamed_id]
  exact congrArg (·.operand) hx

variable {f : Label → Label}

theorem RenamedBy.attached (h : b.RenamedBy f b') {l : Label} {i : Nat} (hl : b.Attached l i) :
    b'.Attached (f l) i := by
  obtain ⟨x, hx, hmem⟩ := hl
  obtain ⟨x', hx', hr⟩ := h.exists_getElem? hx
  exact ⟨x', hx', hr.labels l hmem⟩

theorem RenamedBy.resolved (h : b.RenamedBy f b') (hb : b.Resolved) : b'.Resolved := by
  intro i x' l' hx' hl'
  obtain ⟨x, hx, hr⟩ := h.flip.exists_getElem? hx'
  unfold Instruction.targets at hl'
  rw [hr.operand, Operand.labels_renamed] at hl'
  obtain ⟨l, hl, rfl⟩ := List.mem_map.mp hl'
  obtain ⟨j, hj⟩ := hb i x l hx hl
  exact ⟨j, h.attached hj⟩

/-- **References under new names lead where they led**, as long as no label is attached twice. -/
theorem RenamedBy.matches (h : b.RenamedBy f b') (hb : b.Plain) (hu' : b'.LabelsUnique) :
    b.Matches b' := by
  refine List.forall₂_of_length_eq_of_get h.length_eq fun i hi hi' => ?_
  obtain ⟨x', hx', hr⟩ := h.exists_getElem? (List.getElem?_eq_getElem hi)
  rw [List.getElem?_eq_getElem hi'] at hx'
  cases hx'
  refine ⟨hr.opcode.symm, ?_, ?_⟩
  · show b.code[i].operand.masked = b'.code[i].operand.masked
    rw [hr.operand, Operand.masked_renamed]
  · show b.code[i].targets.map b.resolve = b'.code[i].targets.map b'.resolve
    have htargets : b'.code[i].targets = b.code[i].targets.map f := by
      unfold Instruction.targets
      rw [hr.operand, Operand.labels_renamed]
    rw [htargets, List.map_map]
    refine List.map_congr_left fun l hl => ?_
    obtain ⟨j, hj⟩ := hb.resolved i _ l (List.getElem?_eq_getElem hi) hl
    exact (hb.unique.resolve_eq_some_iff.mpr hj).trans
      (hu'.resolve_eq_some_iff.mpr (h.attached hj)).symm

theorem labels_renamed (f : Label → Label) (b : Body) : (b.renamed f).labels = b.labels.map f := by
  show Instruction.allLabels (b.code.map (·.renamed f)) = (Instruction.allLabels b.code).map f
  unfold Instruction.allLabels
  rw [List.flatMap_map, List.map_flatMap]
  rfl

theorem Plain.renamed (hb : b.Plain) (hf : Function.Injective f) : (b.renamed f).Plain where
  regions := rfl
  unique := by
    unfold LabelsUnique
    rw [labels_renamed]
    exact hb.unique.map hf
  resolved := (renamedBy_renamed f b).resolved hb.resolved

/-! ## the outline -/

/-- the operations in order, and where their references lead -/
def outline (b : Body) : List (Opcode × List (Option Nat)) :=
  b.code.map fun x => (x.opcode, x.targets.map b.resolve)

theorem Matches.outline_eq (h : b.Matches b') : b.outline = b'.outline :=
  h.map_eq_map fun _ _ hx => Prod.ext hx.opcode hx.targets

theorem length_outline (b : Body) : b.outline.length = b.length := List.length_map _

theorem length_eq_of_outline (h : b.outline = b'.outline) : b.length = b'.length := by
  rw [← length_outline, h, length_outline]

/-- under one outline an instruction stands where another does that is alike -/
theorem instruction?_cases (h : b.outline = b'.outline) (i : Nat) :
    (b.instruction? i = none ∧ b'.instruction? i = none) ∨
      ∃ x x', b.instruction? i = some x ∧ b'.instruction? i = some x' ∧
        x.opcode = x'.opcode ∧ x.targets.map b.resolve = x'.targets.map b'.resolve := by
  have hi := congrArg (·[i]?) h
  unfold outline at hi
  simp only [List.getElem?_map] at hi
  unfold instruction?
  cases hx : b.code[i]? with
  | none =>
    rw [hx] at hi
    exact .inl ⟨rfl, Option.map_eq_none_iff.mp hi.symm⟩
  | some x =>
    rw [hx] at hi
    obtain ⟨x', hx', e⟩ := Option.map_eq_some_iff.mp hi.symm
    exact .inr ⟨x, x', rfl, hx', (congrArg Prod.fst e).symm, (congrArg Prod.snd e).symm⟩

theorem followsTerminal_eq_of_outline (h : b.outline = b'.outline) (i : Nat) :
    b.followsTerminal i = b'.followsTerminal i := by
  cases i with
  | zero => rfl
  | succ i =>
    rcases instruction?_cases h i with ⟨hx, hx'⟩ | ⟨x, x', hx, hx', hop, -⟩
    · simp only [followsTerminal, hx, hx']
    · simp only [followsTerminal, hx, hx', hop]

/-- the positions that are referred to, read off the outline -/
theorem targetPositions_eq {index : LabelIndex} (hlookup : ∀ l, index.lookup l = b.resolve l) :
    b.targetPositions index = b.outline.flatMap fun entry => entry.2.reduceOption := by
  have hfst : b.code.zipIdx.map Prod.fst = b.code := List.zipIdx_map_fst 0 b.code
  unfold targetPositions references outline
  rw [List.filterMap_flatMap, List.flatMap_map, ← hfst, List.flatMap_map, hfst]
  refine List.flatMap_congr fun entry _ => ?_
  simp only [List.filterMap_map, List.reduceOption, hlookup]
  rfl

variable {index index' : LabelIndex}

theorem leaders_eq_of_outline (h : b.outline = b'.outline)
    (hlookup : ∀ l, index.lookup l = b.resolve l) (hlookup' : ∀ l, index'.lookup l = b'.resolve l) :
    b.leaders index = b'.leaders index' := by
  unfold leaders
  rw [length_eq_of_outline h, targetPositions_eq hlookup, targetPositions_eq hlookup', h]
  refine List.filter_congr fun i _ => ?_
  unfold isLeader
  rw [followsTerminal_eq_of_outline h]

end Body

namespace FlowGraph

variable {b b' : Body} {index index' : LabelIndex}

/-- the number of the block at the place where a reference leads -/
def ownerOf (blockOf : List Nat) : Option Nat → Except Failure Nat
  | none => .error .outOfRange
  | some i =>
    match blockOf[i]? with
    | none => .error .outOfRange
    | some k => .ok k

theorem targetBlock_eq (index : LabelIndex) (blockOf : List Nat) (l : Label) :
    targetBlock index blockOf l = ownerOf blockOf (index.lookup l) := by
  unfold targetBlock ownerOf
  cases index.lookup l <;> rfl

theorem mapM_targetBlock (hlookup : ∀ l, index.lookup l = b.resolve l) (blockOf : List Nat)
    (ls : List Label) :
    ls.mapM (targetBlock index blockOf) = (ls.map b.resolve).mapM (ownerOf blockOf) := by
  induction ls with
  | nil => rfl
  | cons l ls ih => rw [List.mapM_cons, ih, targetBlock_eq, hlookup, List.map_cons, List.mapM_cons]

theorem fallsOff_eq_of_outline (h : b.outline = b'.outline) (g : FlowGraph) :
    g.fallsOff b = g.fallsOff b' := by
  have hlen : b.code.length = b'.code.length := Body.length_eq_of_outline h
  unfold fallsOff
  rw [List.getLast?_eq_getElem?, List.getLast?_eq_getElem?, ← hlen]
  rcases Body.instruction?_cases h (b.code.length - 1) with ⟨hx, hx'⟩ | ⟨x, x', hx, hx', hop, -⟩
  · unfold Body.instruction? at hx hx'
    rw [hx, hx']
  · unfold Body.instruction? at hx hx'
    simp only [hx, hx', hop]

section
variable (h : b.outline = b'.outline) (hlookup : ∀ l, index.lookup l = b.resolve l)
  (hlookup' : ∀ l, index'.lookup l = b'.resolve l)
include h hlookup hlookup'

theorem edgesOf_eq_of_outline (blockOf : List Nat) (count : Nat) (blk : Block) :
    edgesOf b index blockOf count blk = edgesOf b' index' blockOf count blk := by
  unfold edgesOf
  rcases Body.instruction?_cases h blk.last with ⟨hx, hx'⟩ | ⟨x, x', hx, hx', hop, htargets⟩
  · rw [hx, hx']
  · have honward : onward count blk.id x = onward count blk.id x' := by
      unfold onward
      rw [hop]
    have hjumps : jumps index blockOf x = jumps index' blockOf x' := by
      unfold jumps
      rw [hop, mapM_targetBlock hlookup, mapM_targetBlock hlookup', htargets]
    simp only [hx, hx', hjumps, honward]

theorem connect_eq_of_outline (blockOf : List Nat) (count : Nat) (g : Digraph Block EdgeKind)
    (blocks : List Block) :
    connect b index blockOf count g blocks = connect b' index' blockOf count g blocks := by
  induction blocks generalizing g with
  | nil => rfl
  | cons blk blocks ih =>
    unfold connect
    rw [edgesOf_eq_of_outline h hlookup hlookup']
    simp only [ih]

/-- **The graph is made of the outline**: neither the names of labels nor their lists go into it. -/
theorem ofIndexed_eq_of_outline : ofIndexed b index = ofIndexed b' index' := by
  unfold ofIndexed
  simp only [Body.leaders_eq_of_outline h hlookup hlookup', Body.length_eq_of_outline h,
    connect_eq_of_outline h hlookup hlookup', fallsOff_eq_of_outline h]

end

/-- a plain body is only refused for what its graph shows -/
theorem ofBody_of_plain (hb : b.Plain) :
    (b.code = [] ∧ ofBody b = .error (.illFormed (.fallsOffEnd 0))) ∨
      ∃ index : LabelIndex, (∀ l, index.lookup l = b.resolve l) ∧ 0 < b.length ∧
        ofBody b = ofIndexed b index := by
  rcases ofBody_cases b with hnil | ⟨fault, hfault, -⟩ | ⟨index, fault, hindex, hfault, -⟩ |
    ⟨index, hix, hpos, e⟩
  · exact .inl hnil
  · obtain ⟨l, first, second, -, htwice⟩ := Body.labelIndex_error hfault
    exact absurd htwice hb.unique.not_attachedTwice
  · obtain ⟨i, x, l, -, hx, hl, hnone⟩ := Body.checkTargets_error hfault
    obtain ⟨j, hj⟩ := hb.resolved i x l hx hl
    rw [(Body.labelIndex_ok hindex l j).mpr hj] at hnone
    cases hnone
  · exact .inr ⟨index, hix.lookup_eq_resolve hb.unique, hpos, e⟩

theorem ofBody_eq_of_matches (hb : b.Plain) (hb' : b'.Plain) (h : b.Matches b') :
    ofBody b = ofBody b' := by
  have houtline := h.outline_eq
  have hlen := Body.length_eq_of_outline houtline
  unfold Body.length at hlen
  rcases ofBody_of_plain hb with ⟨hnil, e⟩ | ⟨index, hlookup, hpos, e⟩
  · rcases ofBody_of_plain hb' with ⟨-, e'⟩ | ⟨index', -, hpos', -⟩
    · rw [e, e']
    · unfold Body.length at hpos'
      rw [← hlen, hnil] at hpos'
      cases hpos'
  · rcases ofBody_of_plain hb' with ⟨hnil', -⟩ | ⟨index', hlookup', -, e'⟩
    · unfold Body.length at hpos
      rw [hlen, hnil'] at hpos
      cases hpos
    · rw [e, e']
      exact ofIndexed_eq_of_outline houtline hlookup hlookup'

end FlowGraph

end CilPatch
