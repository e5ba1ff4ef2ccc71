import Placement.Cluster

/-!
One task for every node.

The tasks of a fan-out do not see each other: each runs on its own node, a failing one stops none of the
others, and what every node gave is kept beside what every other node failed with. Since no task looks at
another's node, the order in which they run shows nowhere; they run in the order of the nodes' names.
-/

namespace Placement

/-- What the nodes gave and how the others failed. -/
structure FanOut (α : Type) where
  results : Dict α := Dict.empty
  failures : List (NodeId × Fault) := []

namespace FanOut

variable {ν ρ α : Type}

/-- All results, or the aggregate of the failures if there are any. -/
def toExcept (f : FanOut α) : Except Fault (Dict α) :=
  match Fault.ofFailures f.failures with
  | some fault => .error fault
  | none => .ok f.results

def record (f : FanOut α) (node : NodeId) : Except Fault α → FanOut α
  | .ok a => { f with results := f.results.insert node a }
  | .error fault => { f with failures := f.failures ++ [(node, fault)] }

def collect (task : NodeId → Op ν ρ α) (f : FanOut α) : List NodeId → Op ν ρ (FanOut α)
  | [] => pure f
  | node :: rest => do
    let outcome ← Cluster.attempt (task node)
    collect task (f.record node outcome) rest

end FanOut

namespace Cluster

variable {ν ρ α : Type} [Store ν]

def onEveryNode (task : NodeId → Op ν ρ α) : Op ν ρ (FanOut α) := do
  FanOut.collect task {} (← inspect ids)

def counts : Op ν ρ (FanOut Nat) := onEveryNode fun node => ask node .count

def flushNode (thenClose : Bool) (node : NodeId) : Op ν ρ Unit := do
  ask node .flush
  if thenClose then ask node .close

def flushAll (thenClose : Bool) : Op ν ρ Unit := do
  let _ ← ((← onEveryNode (flushNode thenClose)).toExcept : Op ν ρ (Dict Unit))

def closeAll : Op ν ρ Unit := do
  let _ ← ((← onEveryNode fun node => ask node .close).toExcept : Op ν ρ (Dict Unit))

end Cluster

end Placement
