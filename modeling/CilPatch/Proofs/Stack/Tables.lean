import CilPatch.Proofs.Flow.Tables
import CilPatch.Proofs.Stack.Hierarchies
import CilPatch.Proofs.Stack.Turns

/-!
# Nothing is looked up in vain

A verification refuses a body for what is wrong with the body alone: `Failure.graph` and
`Failure.outOfRange`, which say that something was not found where it was looked up, do not occur.
Before the loop this is `Body.InTables`.  In the loop (`Analysis.InTables`) it comes down to two
facts: the places that are scheduled are those of blocks with a start, and the blocks behind a block
of the order are in the order too.  The loop over, every block with a start can be run once more.
-/

namespace CilPatch

namespace Analysis

variable {a : Analysis} {p : Progress}

/-- whatever the next turn and those for all that is scheduled look up is in the table it is looked
for in -/
structure InTables (a : Analysis) (p : Progress) : Prop where
  /-- each block has a start, or an empty place for one -/
  starts : p.starts.size = a.graph.blockCount
  /-- a place that is scheduled is that of a block, with its code and a start to run it from -/
  scheduled : ∀ r ∈ p.pending, ∃ k blk s, a.order[r]? = some k ∧ a.graph.block? k = some blk ∧
    blk.start < blk.stop ∧ blk.stop ≤ a.body.length ∧ p.Held k s
  /-- the blocks behind it have places, for their starts and in the order -/
  onward : ∀ r ∈ p.pending, ∀ k, a.order[r]? = some k → ∃ next,
    a.graph.graph.successors? k = some next ∧
      ∀ k' ∈ next, k' < a.graph.blockCount ∧ a.order[a.order.idxOf k']? = some k'
  /-- a turn that fails has found a fault of the body -/
  turn : ∀ f, a.turn? p = some (.error f) → ∃ fault, f = .illFormed fault

theorem Running.inTables (h : a.Running p) : a.InTables p where
  starts := h.valid.size
  scheduled := by
    intro r hr
    obtain ⟨k, s, hk, hs⟩ := h.waiting r hr
    obtain ⟨blk, hblk⟩ := FlowGraph.Refines.exists_block (h.valid.size ▸ hs.lt)
    obtain ⟨hlt, hle⟩ := h.proper.refines.bounds hblk
    exact ⟨k, blk, s, hk, hblk, hlt, hle, hs⟩
  onward := by
    intro r _ k hk
    have hg := h.proper.refines
    have horder : k ∈ a.graph.order := h.proper.ordered ▸ List.mem_of_getElem? hk
    obtain ⟨next, hnext, hlt⟩ := Digraph.successors?_isSome hg.sound (hg.lt_of_mem_order horder)
    refine ⟨next, hnext, fun k' hk' => ⟨hlt k' hk', List.getElem?_idxOf ?_⟩⟩
    rw [h.proper.ordered]
    exact hg.mem_order_of_adj horder ((Digraph.adj_iff_of_successors? hnext k').mpr hk')
  turn := by
    intro f hf
    obtain ⟨r, rest, k, hp, hk, hvisit, -⟩ := turn_seen h.proper h.valid hf
    have hr : r < a.order.length := (List.getElem?_eq_some_iff.mp hk).1
    obtain ⟨fault, hfault, -⟩ := visit_error h.proper (h.valid.pop hp (p.visits + 1)) hr hvisit
    exact ⟨fault, hfault⟩

end Analysis

/-- what a verification can end in -/
theorem verify_cases (v : Verifier) (b : Body) :
    (∃ prof, v.verify b = .ok (.analyzed prof)) ∨
      v.verify b = .ok (.notApplicable b.regions.length) ∨
      v.verify b = .error .notSupported ∨ ∃ fault, v.verify b = .error (.illFormed fault) := by
  cases hr : b.hasRegions with
  | true =>
    rw [v.verify_of_regions hr]
    cases v.regionRule with
    | skip => exact .inr (.inl rfl)
    | reject => exact .inr (.inr (.inl rfl))
  | false =>
    cases h : v.verify b with
    | error f =>
      obtain ⟨fault, rfl, -⟩ := refused_witnessed hr h
      exact .inr (.inr (.inr ⟨fault, rfl⟩))
    | ok verdict =>
      cases verdict with
      | analyzed prof => exact .inl ⟨prof, rfl⟩
      | notApplicable n =>
        unfold Verifier.verify at h
        rw [hr, if_neg Bool.false_ne_true] at h
        repeat' split at h
        all_goals cases h

/-- **A verification looks nothing up in vain.**  It finds the stacks of the body, passes over a
body with regions or refuses it, or names a fault of the body; nothing else.  The construction of
the graph stays in its tables once the labels have been checked, the loop does in each of its turns,
and when the loop is over, the stacks around the instructions are found. -/
theorem verify_stays_in_tables (v : Verifier) (b : Body) :
    ((∃ prof, v.verify b = .ok (.analyzed prof)) ∨
        v.verify b = .ok (.notApplicable b.regions.length) ∨
        v.verify b = .error .notSupported ∨ ∃ fault, v.verify b = .error (.illFormed fault)) ∧
      (∀ index, b.labelIndex = .ok index → b.checkTargets index = .ok () → b.isEmpty = false →
        b.InTables index) ∧
      ∀ g, FlowGraph.ofBody b = .ok g →
        g.graph.Fitting ∧ g.graph.Encloses g.entry ∧
          (g.entry ∈ g.order ∧ ∀ k ∈ g.order, k < g.blockCount) ∧
          (∀ p, (Analysis.start b g v.signature v.hierarchy).Leads
              (Analysis.start b g v.signature v.hierarchy).initial p →
            (Analysis.start b g v.signature v.hierarchy).InTables p) ∧
          ∀ p, (Analysis.start b g v.signature v.hierarchy).solve = .ok p →
            ∃ points, (Analysis.start b g v.signature v.hierarchy).traceBlocks p.starts
                g.blocks.zipIdx = .ok points ∧ points.length = b.length := by
  refine ⟨verify_cases v b, fun index hindex hcheck hne => ?_, fun g hg => ?_⟩
  · have hix : b.Indexed index :=
      ⟨Body.labelIndex_ok hindex, fun i x l hx hl => Body.checkTargets_ok hcheck hx hl⟩
    refine hix.inTables (List.length_pos_iff.mpr fun e => ?_)
    unfold Body.isEmpty at hne
    rw [e] at hne
    cases hne
  · have ha : (Analysis.start b g v.signature v.hierarchy).Proper := ⟨hg, rfl⟩
    have hrefines : g.Refines b := FlowGraph.ofBody_ok hg
    have hbuilt := FlowGraph.built_ofBody hg
    refine ⟨hbuilt.fitting, hbuilt.sound.encloses (hrefines.lt_of_mem_order
      hrefines.entry_mem_order), ⟨hrefines.entry_mem_order, fun k => hrefines.lt_of_mem_order⟩, ?_,
      fun p => Analysis.exists_points ha⟩
    exact fun p hp => (hp.running (Analysis.running_initial ha)).inTables

theorem verify_stays_in_tables_keptLoop :
    ({} : Verifier).verify keptLoop = .ok (.analyzed keptLoopProfile) ∧
      (∃ index, keptLoop.labelIndex = .ok index ∧ keptLoop.InTables index) ∧
      ∃ g p points, FlowGraph.ofBody keptLoop = .ok g ∧
        (Analysis.start keptLoop g none .empty).InTables
          (Analysis.start keptLoop g none .empty).initial ∧
        (Analysis.start keptLoop g none .empty).solve = .ok p ∧
        (Analysis.start keptLoop g none .empty).traceBlocks p.starts g.blocks.zipIdx = .ok points ∧
        points.length = 5 := by
  obtain ⟨-, hconstruct, hloop⟩ := verify_stays_in_tables {} keptLoop
  have h : ({} : Verifier).verify keptLoop = .ok (.analyzed keptLoopProfile) := by decide +kernel
  obtain ⟨g, p, hg, hp, -⟩ := Verifier.exists_solve h
  obtain ⟨-, -, -, hturns, hsolved⟩ := hloop g hg
  obtain ⟨points, hpoints, hlength⟩ := hsolved p hp
  refine ⟨h, ⟨[(⟨0⟩, 1)], by decide, hconstruct _ (by decide) (by decide) rfl⟩, g, p, points, hg,
    hturns _ .refl, hp, hpoints, hlength⟩

end CilPatch
