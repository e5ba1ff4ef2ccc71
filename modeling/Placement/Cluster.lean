import Placement.Registry
import Placement.Store

/-!
A cluster: data nodes under their names, perhaps a registry, and what was asked of them.

Operations on records are programs over a cluster. They reach the nodes by `ask`, the registry by
`consult` and chance by `draw`, and by nothing else, so the `trace` holds everything an operation did:
each call with its answer, in order. A failing step ends the operation unless it is made an `attempt`.
-/

namespace Placement

inductive Event
  | asked (node : NodeId) (call : Store.Call) (answer : Except Fault call.Answer)
  | consulted (call : Registry.Call) (answer : Except Fault call.Answer)

/-- What an observer of reads is told: where the record was found, if it was. -/
structure Sighting where
  node : Option NodeId
  key : String
  found : Bool
deriving DecidableEq, Repr

/-- Nodes in states `ν`, in ascending order of their names, and perhaps a registry in a state `ρ`. -/
structure Cluster (ν ρ : Type) where
  nodes : Dict ν
  registry : Option ρ := none
  /-- Numbers yet to be drawn; when they run out, zeros are drawn. -/
  draws : List Nat := []
  /-- What the observer of reads was told, if there is one. -/
  observer : Option (List Sighting) := none
  trace : List Event := []

/-- A program over a cluster; it may fail, and what it did until then stays done. -/
abbrev Op (ν ρ α : Type) := ExceptT Fault (StateM (Cluster ν ρ)) α

namespace Cluster

variable {ν ρ α : Type}

def ids (w : Cluster ν ρ) : List NodeId := w.nodes.keys

def run (op : Op ν ρ α) (w : Cluster ν ρ) : Except Fault α × Cluster ν ρ := StateT.run (ExceptT.run op) w

/-- Goes on after a failure, with the outcome in hand. -/
def attempt (op : Op ν ρ α) : Op ν ρ (Except Fault α) :=
  ExceptT.mk do
    let outcome ← op.run
    pure (.ok outcome)

def inspect (f : Cluster ν ρ → α) : Op ν ρ α := do
  return f (← get)

def ask [Store ν] (node : NodeId) (call : Store.Call) : Op ν ρ call.Answer :=
  ExceptT.mk fun w =>
    match w.nodes.get? node with
    | none => (.error (.unknownNode node), w)
    | some state =>
      let (answer, state') := Store.perform call state
      (answer, { w with nodes := w.nodes.insert node state', trace := w.trace ++ [.asked node call answer] })

def consult [Registry ρ] (call : Registry.Call) : Op ν ρ call.Answer :=
  ExceptT.mk fun w =>
    match w.registry with
    | none => (.error (.registryUnavailable .absent), w)
    | some state =>
      let (answer, state') := Registry.perform call state
      (answer, { w with registry := some state', trace := w.trace ++ [.consulted call answer] })

def hasRegistry : Op ν ρ Bool := inspect fun w => w.registry.isSome

def draw (bound : Nat) : Op ν ρ Nat :=
  ExceptT.mk fun w => (.ok (w.draws.headD 0 % bound), { w with draws := w.draws.tail })

def report (s : Sighting) : Op ν ρ Unit :=
  ExceptT.mk fun w => (.ok (), { w with observer := w.observer.map (· ++ [s]) })

/-- Fails with the aggregate of the failures, or gives the value if there are none. -/
def unlessFailed (failures : List (NodeId × Fault)) (value : α) : Op ν ρ α :=
  match Fault.ofFailures failures with
  | some fault => throw fault
  | none => pure value

end Cluster

end Placement
