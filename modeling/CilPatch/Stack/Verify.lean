import CilPatch.Stack.Profile
import CilPatch.Stack.Solver

/-!
# Verification of a body

A body is verified by finding a stack for every point that control reaches.  Bodies with protected
regions are not modelled: as the verifier is told, they are passed over or refused.
-/

namespace CilPatch

open CilPatch.Text

/-- what to do with bodies that have protected regions -/
inductive RegionRule where
  | skip
  | reject
deriving DecidableEq

inductive Verdict where
  | analyzed (profile : Profile)
  /-- the body has this many protected regions -/
  | notApplicable (regions : Nat)
deriving DecidableEq

namespace Verdict

def profile? : Verdict → Option Profile
  | analyzed p => some p
  | notApplicable _ => none

/-- why a body was passed over -/
def reason (regions : Nat) : String :=
  "stream carries " ++ decimal regions ++ " protected region(s)"

end Verdict

namespace Analysis

/-- the stacks around each of a run of instructions -/
def traceCode (a : Analysis) (s : Stack) :
    List (Nat × Instruction) → Except BodyFault (List (Option Point))
  | [] => .ok []
  | (i, x) :: rest =>
    match x.transfer a.signature i s with
    | .error fault => .error fault
    | .ok t =>
      match traceCode a t rest with
      | .error fault => .error fault
      | .ok points => .ok (some ⟨s, t⟩ :: points)

/-- the stacks around each instruction of a block, none if control does not come there -/
def traceBlock (a : Analysis) (starts : Array (Option Stack)) (b : Nat) (block : Block) :
    Except Failure (List (Option Point)) :=
  match starts[b]? with
  | none => .error .outOfRange
  | some none => .ok (List.replicate block.size none)
  | some (some s) =>
    match a.traceCode s (block.instructions a.body) with
    | .error fault => .error (.illFormed fault)
    | .ok points => .ok points

/-- the stacks around each instruction of several blocks in a row -/
def traceBlocks (a : Analysis) (starts : Array (Option Stack)) :
    List (Block × Nat) → Except Failure (List (Option Point))
  | [] => .ok []
  | (block, b) :: rest =>
    match a.traceBlock starts b block with
    | .error f => .error f
    | .ok points =>
      match traceBlocks a starts rest with
      | .error f => .error f
      | .ok more => .ok (points ++ more)

def profile (a : Analysis) : Except Failure Profile :=
  match a.solve with
  | .error f => .error f
  | .ok p =>
    match a.traceBlocks p.starts a.graph.blocks.zipIdx with
    | .error f => .error f
    | .ok points => .ok ⟨points, a.graph.blockCount, p.visits⟩

end Analysis

/-- what bodies are verified against -/
structure Verifier where
  signature : Option Signature := none
  hierarchy : Hierarchy := .empty
  regionRule : RegionRule := .skip

def Verifier.verify (v : Verifier) (body : Body) : Except Failure Verdict :=
  if body.hasRegions then
    match v.regionRule with
    | .skip => .ok (.notApplicable body.regions.length)
    | .reject => .error .notSupported
  else
    match FlowGraph.ofBody body with
    | .error f => .error f
    | .ok graph =>
      match (Analysis.start body graph v.signature v.hierarchy).profile with
      | .error f => .error f
      | .ok profile => .ok (.analyzed profile)

end CilPatch
