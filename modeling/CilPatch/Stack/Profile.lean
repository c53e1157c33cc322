import CilPatch.Stack.Basic

/-!
# Stack profiles

The stacks before and after every instruction of a body, none where control does not come.
-/

namespace CilPatch

structure Point where
  before : Stack
  after : Stack
deriving DecidableEq

structure Profile where
  /-- one entry per instruction -/
  points : List (Option Point)
  blockCount : Nat
  /-- how many times a block was run to find the stacks -/
  visits : Nat
deriving DecidableEq

namespace Profile

def length (p : Profile) : Nat := p.points.length

def isEmpty (p : Profile) : Bool := p.points.isEmpty

def point? (p : Profile) (i : Nat) : Option Point := p.points[i]?.join

def entry? (p : Profile) (i : Nat) : Option Stack := (p.point? i).map (·.before)

def exit? (p : Profile) (i : Nat) : Option Stack := (p.point? i).map (·.after)

def depth? (p : Profile) (i : Nat) : Option Nat := (p.entry? i).map (·.depth)

def isReachable (p : Profile) (i : Nat) : Bool := (p.entry? i).isSome

/-- the height before every instruction and the height behind the last one -/
def boundaryDepths (p : Profile) : List (Option Nat) :=
  p.points.map (·.map (·.before.depth)) ++
    match p.points.getLast? with
    | none => []
    | some last => [last.map (·.after.depth)]

def maxDepth (p : Profile) : Nat :=
  p.points.foldl (fun n point =>
    match point with
    | none => n
    | some q => max n (max q.before.depth q.after.depth)) 0

end Profile

end CilPatch
