import Placement.Cluster

/-!
Updating a record: its fields are put over those of the first node that holds it.

No node gets a record that it lacks. Once a holder is found, a fault of its write is the fault of the
update; failures before that count only if no node holds the record.
-/

namespace Placement.Cluster

variable {ν ρ : Type} [Store ν]

/-- Updates the record on the first of the nodes that holds it. -/
def updateFirst (key : String) (fields : Record) (failures : List (NodeId × Fault)) :
    List NodeId → Op ν ρ (Option NodeId)
  | [] => unlessFailed failures none
  | node :: rest => do
    match ← attempt (ask node (.holds key)) with
    | .ok true =>
      let _ ← ask node (.write key fields)
      return some node
    | .ok false => updateFirst key fields failures rest
    | .error fault => updateFirst key fields (failures ++ [(node, fault)]) rest

def update (key : String) (fields : Record) : Op ν ρ (Option NodeId) := do
  updateFirst key fields [] (← inspect ids)

end Placement.Cluster
