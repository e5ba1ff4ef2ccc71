import Placement.Cluster

/-!
Deleting a record: it goes, with its index entry, from the first node that held both, and then the
registry forgets its place.

A registry that knew no such place is no fault; one that fails is.
-/

namespace Placement.Cluster

variable {ν ρ : Type} [Store ν] [Registry ρ]

/-- Deletes from the first of the nodes that held both the record and its index entry. -/
def deleteFirst (key : String) (failures : List (NodeId × Fault)) : List NodeId → Op ν ρ (Option NodeId)
  | [] => unlessFailed failures none
  | node :: rest => do
    match ← attempt (ask node (.removeIndexed key)) with
    | .ok true => return some node
    | .ok false => deleteFirst key failures rest
    | .error fault => deleteFirst key (failures ++ [(node, fault)]) rest

def delete (key : String) : Op ν ρ (Option NodeId) := do
  match ← deleteFirst key [] (← inspect ids) with
  | none => return none
  | some node =>
    if ← hasRegistry then
      let _ ← consult (.withdraw node key)
    return some node

end Placement.Cluster
