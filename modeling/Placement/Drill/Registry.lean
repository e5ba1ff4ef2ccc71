import Placement.Drill.Plan
import Placement.Registry.Ledger

/-!
A registry in memory with planned faults.

It can be down, decline every placement, and suggest one node whatever it is offered. A planned failure comes
first of all. A planned answer takes the place of a placement or a withdrawal, unless the registry is down.
-/

namespace Placement.Drill

structure Registry where
  ledger : Placement.Registry.Ledger := {}
  /-- Declines every placement. -/
  rejects : Bool := false
  down : Bool := false
  suggestion : Option NodeId := none
  plans : List (Plan Placement.Registry.Call) := []

namespace Registry

def serve (c : Placement.Registry.Call) (r : Registry) : Except Fault c.Answer × Registry :=
  match c, r.rejects, r.suggestion with
  | .place .., true, _ => (.ok false, r)
  | .suggest _, _, some node => (.ok node, r)
  | c, _, _ =>
    let (outcome, ledger) := Placement.Registry.Ledger.perform c r.ledger
    (outcome, { r with ledger })

def answerTo? : (c : Placement.Registry.Call) → Answer → Option c.Answer
  | .place .., .truth b => some b
  | .withdraw .., .truth b => some b
  | _, _ => none

def downFault : Fault := .registryUnavailable (.stated "registry is down")

/-- What a registry does when no plan fails the call, with the answer that is planned for it. -/
def answered (c : Placement.Registry.Call) (planned : Option c.Answer) (r : Registry) :
    Except Fault c.Answer × Registry :=
  if r.down then (.error downFault, r)
  else
    match planned with
    | some given => (.ok given, r)
    | none => r.serve c

def perform (c : Placement.Registry.Call) (r : Registry) : Except Fault c.Answer × Registry :=
  match due c r.plans with
  | (some (.fail fault), plans) => (.error fault, { r with plans })
  | (some (.answer a), plans) => { r with plans }.answered c (answerTo? c a)
  | (none, plans) => { r with plans }.answered c none

instance : Placement.Registry Registry := ⟨perform⟩

end Registry

end Placement.Drill
