import CilPatch.Proofs.Flow.Matching

/-!
# Verification does not see labels

A label does nothing to the stack: an analysis of a body whose labels are masked takes the same
course as one of the body itself and ends the same way, but for the labels that a failure quotes
along with an instruction (`Analysis.profile_masked`).  Plain bodies that match have the same graph
and are the same when masked, and so they get the same verdict (`verdict_blind_to_labels`).
-/

namespace CilPatch

/-! ## without labels -/

/-- the instruction without its labels, and apart from those it refers to -/
def Instruction.masked (x : Instruction) : Instruction :=
  { opcode := x.opcode, operand := x.operand.masked }

/-- the instructions apart from labels -/
def Body.masked (b : Body) : Body := { code := b.code.map Instruction.masked }

/-- the fault apart from labels -/
def BodyFault.masked : BodyFault → BodyFault
  | danglingLabel offset x _ => danglingLabel offset x.masked ⟨0⟩
  | duplicateLabel _ first second => duplicateLabel ⟨0⟩ first second
  | stackUnderflow offset x required available => stackUnderflow offset x.masked required available
  | invalidOperand offset x => invalidOperand offset x.masked
  | fault => fault

/-- the failure apart from the labels of instructions that it quotes -/
def Failure.masked : Failure → Failure
  | illFormed fault => illFormed fault.masked
  | f => f

theorem Body.length_masked (b : Body) : b.masked.length = b.length := List.length_map _

theorem Body.Matches.masked_eq {b b' : Body} (h : b.Matches b') : b.masked = b'.masked := by
  have hcode : b.code.map Instruction.masked = b'.code.map Instruction.masked := by
    refine h.map_eq_map fun x x' hx => ?_
    unfold Instruction.masked
    rw [hx.opcode, hx.operand]
  unfold masked
  rw [hcode]

/-! ## transfers -/

namespace Instruction

theorem method?_masked (x : Instruction) : x.masked.method? = x.method? := by
  obtain ⟨opcode, operand, labels⟩ := x
  cases operand <;> rfl

theorem produced_masked (x : Instruction) : x.masked.produced = x.produced := by
  obtain ⟨opcode, operand, labels⟩ := x
  cases operand <;> rfl

/-- what an instruction asks of a stack does not hang on labels -/
theorem demand_masked (x : Instruction) : x.masked.demand = x.demand := by
  funext sig d
  unfold demand
  rw [method?_masked, produced_masked]
  rfl

theorem transfer_masked (x : Instruction) (sig : Option Signature) (i : Nat) (s : Stack) :
    x.masked.transfer sig i s = (x.transfer sig i s).mapError BodyFault.masked := by
  unfold transfer
  rw [demand_masked]
  split
  · rfl
  · rfl
  · split <;> rfl

end Instruction

theorem Block.instructions_masked (blk : Block) (b : Body) :
    blk.instructions b.masked = (blk.instructions b).map fun y => (y.1, y.2.masked) := by
  show blk.positions.zip ((b.code.map Instruction.masked).drop blk.start) = _
  rw [← List.map_drop, List.zip_map_right]
  rfl

/-! ## analyses -/

namespace Analysis

/-- the analysis of the masked body, in the same graph -/
def masked (a : Analysis) : Analysis := { a with body := a.body.masked }

variable (a : Analysis)

theorem runCode_masked (s : Stack) (l : List (Nat × Instruction)) :
    a.masked.runCode s (l.map fun y => (y.1, y.2.masked)) =
      (a.runCode s l).mapError BodyFault.masked := by
  induction l generalizing s with
  | nil => rfl
  | cons y l ih =>
    obtain ⟨i, x⟩ := y
    have hx : x.masked.transfer a.masked.signature i s =
        (x.transfer a.signature i s).mapError BodyFault.masked := x.transfer_masked _ i s
    rw [List.map_cons, runCode_cons, runCode_cons, hx]
    cases x.transfer a.signature i s with
    | error fault => rfl
    | ok t => exact ih t

theorem traceCode_masked (s : Stack) (l : List (Nat × Instruction)) :
    a.masked.traceCode s (l.map fun y => (y.1, y.2.masked)) =
      (a.traceCode s l).mapError BodyFault.masked := by
  induction l generalizing s with
  | nil => rfl
  | cons y l ih =>
    obtain ⟨i, x⟩ := y
    have hx : x.masked.transfer a.masked.signature i s =
        (x.transfer a.signature i s).mapError BodyFault.masked := x.transfer_masked _ i s
    simp only [List.map_cons, traceCode, hx]
    cases x.transfer a.signature i s with
    | error fault => rfl
    | ok t =>
      simp only [Except.mapError, ih t]
      cases a.traceCode t l <;> rfl

/-- where paths meet no failure quotes an instruction -/
theorem arrive_masked (p : Progress) (k : Nat) (s : Stack) :
    a.masked.arrive p k s = (a.arrive p k s).mapError Failure.masked := by
  show a.arrive p k s = _
  unfold arrive
  split
  · rfl
  · rfl
  · split <;> rfl

theorem arriveAll_masked (s : Stack) (p : Progress) (ks : List Nat) :
    a.masked.arriveAll s p ks = (a.arriveAll s p ks).mapError Failure.masked := by
  induction ks generalizing p with
  | nil => rfl
  | cons k ks ih =>
    rw [arriveAll, arrive_masked, arriveAll]
    cases a.arrive p k s with
    | error f => rfl
    | ok q => exact ih q

theorem visit_masked (r : Nat) (p : Progress) :
    a.masked.visit r p = (a.visit r p).mapError Failure.masked := by
  have hrun : ∀ s (blk : Block), a.masked.runCode s (blk.instructions a.masked.body) =
      (a.runCode s (blk.instructions a.body)).mapError BodyFault.masked := by
    intro s blk
    show a.masked.runCode s (blk.instructions a.body.masked) = _
    rw [Block.instructions_masked, runCode_masked]
  have horder : a.masked.order = a.order := rfl
  have hgraph : a.masked.graph = a.graph := rfl
  simp only [visit, horder, hgraph, hrun]
  cases a.order[r]? with
  | none => rfl
  | some k =>
    simp only
    cases a.graph.block? k with
    | none => rfl
    | some blk =>
      simp only
      rcases p.starts[k]? with _ | _ | s
      · rfl
      · rfl
      · simp only
        cases a.runCode s (blk.instructions a.body) with
        | error fault => rfl
        | ok t =>
          simp only [Except.mapError]
          cases a.graph.graph.successors? k with
          | none => rfl
          | some next => exact a.arriveAll_masked t p next

theorem run_masked (n : Nat) (p : Progress) :
    a.masked.run n p = (a.run n p).mapError Failure.masked := by
  induction n generalizing p with
  | zero => rfl
  | succ n ih =>
    rw [run, run]
    cases p.pending with
    | nil => rfl
    | cons r rest =>
      simp only [visit_masked]
      cases a.visit r { p with pending := rest, visits := p.visits + 1 } with
      | error f => rfl
      | ok q => exact ih q

theorem solve_masked : a.masked.solve = a.solve.mapError Failure.masked := by
  have hbudget : a.masked.budget = a.budget := by
    unfold budget masked
    rw [Body.length_masked]
  have hinitial : a.masked.initial = a.initial := rfl
  unfold solve
  rw [hbudget, hinitial, run_masked]

theorem traceBlock_masked (starts : Array (Option Stack)) (k : Nat) (blk : Block) :
    a.masked.traceBlock starts k blk = (a.traceBlock starts k blk).mapError Failure.masked := by
  have htrace : ∀ s, a.masked.traceCode s (blk.instructions a.masked.body) =
      (a.traceCode s (blk.instructions a.body)).mapError BodyFault.masked := by
    intro s
    show a.masked.traceCode s (blk.instructions a.body.masked) = _
    rw [Block.instructions_masked, traceCode_masked]
  unfold traceBlock
  simp only [htrace]
  rcases starts[k]? with _ | _ | s
  · rfl
  · rfl
  · simp only
    cases a.traceCode s (blk.instructions a.body) <;> rfl

theorem traceBlocks_masked (starts : Array (Option Stack)) (bs : List (Block × Nat)) :
    a.masked.traceBlocks starts bs = (a.traceBlocks starts bs).mapError Failure.masked := by
  induction bs with
  | nil => rfl
  | cons entry bs ih =>
    obtain ⟨blk, k⟩ := entry
    rw [traceBlocks, traceBlocks, traceBlock_masked, ih]
    cases a.traceBlock starts k blk with
    | error f => rfl
    | ok points => cases a.traceBlocks starts bs <;> rfl

/-- **An analysis takes the same course without labels.** -/
theorem profile_masked : a.masked.profile = a.profile.mapError Failure.masked := by
  unfold profile
  rw [solve_masked]
  cases a.solve with
  | error f => rfl
  | ok q =>
    have htrace : a.masked.traceBlocks q.starts a.masked.graph.blocks.zipIdx =
        (a.traceBlocks q.starts a.graph.blocks.zipIdx).mapError Failure.masked :=
      a.traceBlocks_masked q.starts _
    simp only [Except.mapError, htrace]
    cases a.traceBlocks q.starts a.graph.blocks.zipIdx <;> rfl

end Analysis

/-! ## verdicts -/

/-- a body was analyzed twice with the same profile, or refused twice, for the same failure apart
from the labels of an instruction that it quotes -/
def Verdict.Same (w w' : Except Failure Verdict) : Prop :=
  (∃ prof, w = .ok (.analyzed prof) ∧ w' = .ok (.analyzed prof)) ∨
    ∃ f f', w = .error f ∧ w' = .error f' ∧ f.masked = f'.masked

theorem Verdict.Same.symm {w w' : Except Failure Verdict} (h : Verdict.Same w w') :
    Verdict.Same w' w := by
  rcases h with ⟨prof, e, e'⟩ | ⟨f, f', e, e', hf⟩
  · exact .inl ⟨prof, e', e⟩
  · exact .inr ⟨f', f, e', e, hf.symm⟩

/-- plain bodies that match get the same verdict -/
theorem Verifier.verify_of_matches (v : Verifier) {b b' : Body} (hb : b.Plain) (hb' : b'.Plain)
    (h : b.Matches b') : Verdict.Same (v.verify b) (v.verify b') := by
  have hgraph := FlowGraph.ofBody_eq_of_matches hb hb' h
  cases hg : FlowGraph.ofBody b with
  | error f =>
    rw [v.verify_of_error hb.regions hg, v.verify_of_error hb'.regions (hgraph ▸ hg)]
    exact .inr ⟨f, f, rfl, rfl, rfl⟩
  | ok g =>
    rw [v.verify_of_ok hb.regions hg, v.verify_of_ok hb'.regions (hgraph ▸ hg)]
    have hmasked : (Analysis.start b g v.signature v.hierarchy).masked =
        (Analysis.start b' g v.signature v.hierarchy).masked := by
      unfold Analysis.masked Analysis.start
      rw [h.masked_eq]
    have hprofile := congrArg Analysis.profile hmasked
    rw [Analysis.profile_masked, Analysis.profile_masked] at hprofile
    cases hp : (Analysis.start b g v.signature v.hierarchy).profile with
    | error f =>
      cases hp' : (Analysis.start b' g v.signature v.hierarchy).profile with
      | error f' =>
        rw [hp, hp'] at hprofile
        exact .inr ⟨f, f', rfl, rfl, Except.error.inj hprofile⟩
      | ok prof' =>
        rw [hp, hp'] at hprofile
        cases hprofile
    | ok prof =>
      cases hp' : (Analysis.start b' g v.signature v.hierarchy).profile with
      | error f' =>
        rw [hp, hp'] at hprofile
        cases hprofile
      | ok prof' =>
        rw [hp, hp'] at hprofile
        exact .inl ⟨prof, rfl, by rw [Except.ok.inj hprofile]; rfl⟩

/-- **The verdict does not depend on labels.**  Plain bodies that match get the same verdict.  In
particular it stays the same when labels are renamed one to one; when names are joined, as several
labels of one instruction can be, and when they are split again; and when instructions list their
labels in another order or get others, to which nothing refers. -/
theorem verdict_blind_to_labels (v : Verifier) {b : Body} (hb : b.Plain) :
    (∀ b' : Body, b'.Plain → b.Matches b' → Verdict.Same (v.verify b) (v.verify b')) ∧
      (∀ f : Label → Label, Function.Injective f →
        Verdict.Same (v.verify b) (v.verify (b.renamed f))) ∧
      (∀ (f : Label → Label) (b' : Body), b'.Plain → b.RenamedBy f b' ∨ b'.RenamedBy f b →
        Verdict.Same (v.verify b) (v.verify b')) ∧
      ∀ b' : Body, b'.Plain → b.Relisted b' → Verdict.Same (v.verify b) (v.verify b') := by
  have joined : ∀ (f : Label → Label) (b' : Body), b'.Plain → b.RenamedBy f b' →
      Verdict.Same (v.verify b) (v.verify b') := fun f b' hb' h =>
    v.verify_of_matches hb hb' (h.matches hb hb'.unique)
  refine ⟨fun b' hb' h => v.verify_of_matches hb hb' h, fun f hf => ?_, fun f b' hb' h => ?_,
    fun b' hb' h => joined id b' hb' h.renamedBy⟩
  · exact joined f _ (hb.renamed hf) (Body.renamedBy_renamed f b)
  · rcases h with h | h
    · exact joined f b' hb' h
    · exact (v.verify_of_matches hb' hb (h.matches hb' hb.unique)).symm

/-- a loop that is entered again under two names -/
def twoNames : Body := .ofCode
  [.loadInt32 3,
   { opcode := .dup, labels := [⟨0⟩, ⟨1⟩] },
   { opcode := .brtrue, operand := .label ⟨0⟩ },
   { opcode := .dup },
   { opcode := .brfalse, operand := .label ⟨1⟩ },
   { opcode := .pop },
   { opcode := .ret }]

/-- the same loop with one name -/
def oneName : Body := .ofCode
  [.loadInt32 3,
   { opcode := .dup, labels := [⟨5⟩] },
   { opcode := .brtrue, operand := .label ⟨5⟩ },
   { opcode := .dup },
   { opcode := .brfalse, operand := .label ⟨5⟩ },
   { opcode := .pop },
   { opcode := .ret }]

theorem verdict_blind_to_labels_twoNames :
    twoNames.Plain ∧ oneName.Plain ∧ twoNames.Matches oneName ∧
      ∃ prof, ({} : Verifier).verify twoNames = .ok (.analyzed prof) ∧
        ({} : Verifier).verify oneName = .ok (.analyzed prof) := by
  have hb : twoNames.Plain := by decide
  have hb' : oneName.Plain := by decide
  have h : twoNames.Matches oneName := by decide
  have hok : (({} : Verifier).verify twoNames).isOk = true := by decide +kernel
  refine ⟨hb, hb', h, ?_⟩
  rcases (verdict_blind_to_labels {} hb).1 oneName hb' h with hsame | ⟨f, -, hf, -⟩
  · exact hsame
  · rw [hf] at hok
    cases hok

end CilPatch
