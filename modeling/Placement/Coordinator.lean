import Placement.Deletion
import Placement.Insertion
import Placement.Scan
import Placement.Update

/-!
The coordinator: the operations as a client of the cluster sees them.

Each record operation ends in one of three statuses, and no fault gets past it. A read adds to what the
client already has only if it is `ok`; so does a scan. Deleting a record that no node holds is an `error`,
not `notFound`. Tables are names only: every record lives in one space of keys.
-/

namespace Placement

inductive Status
  | ok
  | error
  | notFound
deriving DecidableEq, Repr

namespace Status

def all : List Status := [ok, error, notFound]

def text : Status → String
  | ok => "OK"
  | error => "ERROR"
  | notFound => "NOT_FOUND"

end Status

/-- A cluster and the way nodes are chosen for new records. -/
structure Coordinator (ν ρ : Type) where
  cluster : Cluster ν ρ
  selection : Selection := .random

namespace Coordinator

variable {ν ρ α : Type}

def perform (op : Op ν ρ α) : StateM (Coordinator ν ρ) (Except Fault α) := fun c =>
  let (outcome, cluster) := Cluster.run op c.cluster
  (outcome, { c with cluster })

variable [Store ν] [Registry ρ]

def insert (key : String) (fields : Record) : StateM (Coordinator ν ρ) Status := do
  match ← perform (Cluster.insert (← get).selection key fields) with
  | .ok _ => return .ok
  | .error _ => return .error

def read (key : String) (names : Option (List String)) (into : Record) :
    StateM (Coordinator ν ρ) (Status × Record) := do
  match ← perform (Cluster.read key names) with
  | .ok (some found) => return (.ok, into.override found.record)
  | .ok none => return (.notFound, into)
  | .error _ => return (.error, into)

def update (key : String) (fields : Record) : StateM (Coordinator ν ρ) Status := do
  match ← perform (Cluster.update key fields) with
  | .ok (some _) => return .ok
  | .ok none => return .notFound
  | .error _ => return .error

def delete (key : String) : StateM (Coordinator ν ρ) Status := do
  match ← perform (Cluster.delete key) with
  | .ok (some _) => return .ok
  | .ok none => return .error
  | .error _ => return .error

def scan (start : String) (count : Nat) (names : Option (List String)) (into : List Record) :
    StateM (Coordinator ν ρ) (Status × List Record) := do
  match ← perform (Cluster.scan start count names) with
  | .ok records => return (.ok, into ++ records)
  | .error _ => return (.error, into)

def recordCounts : StateM (Coordinator ν ρ) (Except Fault (Dict Nat)) :=
  perform do (← Cluster.counts).toExcept

def flush (thenClose : Bool) : StateM (Coordinator ν ρ) (Except Fault Unit) :=
  perform (Cluster.flushAll thenClose)

def closeRegistry : Op ν ρ Unit := do
  if ← Cluster.hasRegistry then Cluster.consult .close

/-- Gives every node and the registry up. Both are tried; a fault of the nodes comes before one of the
registry. -/
def cleanup : StateM (Coordinator ν ρ) (Except Fault Unit) :=
  perform do
    let nodes ← Cluster.attempt Cluster.closeAll
    let registry ← Cluster.attempt closeRegistry
    nodes
    registry

end Coordinator

end Placement
