import Placement.KeyHash
import Placement.Selection

/-!
Inserting a record: choose a node, write, have the registry confirm, index.

A write that is not confirmed is taken back, and so are both the confirmation and the write when indexing
fails; the fault that led there is the one reported, whatever the undoing meets. A node that reports
another number of new fields than were written had the record already, and nothing is taken back from it.
-/

namespace Placement.Cluster

variable {ν ρ : Type} [Store ν] [Registry ρ]

/-- Takes a written record back; a fault of the node is let pass. -/
def takeBack (node : NodeId) (key : String) : Op ν ρ Unit := do
  let _ ← attempt (ask node (.remove key))

def writeNew (node : NodeId) (key : String) (fields : Record) : Op ν ρ Unit := do
  let written ← ask node (.write key fields)
  if written ≠ fields.size then throw (.partialWrite node key written fields.size)

/-- Has the registry, if there is one, confirm that the key lives on the node; otherwise takes the write back. -/
def confirm (node : NodeId) (key : String) : Op ν ρ Unit := do
  if ← hasRegistry then
    match ← attempt (consult (.place node key)) with
    | .ok true => pure ()
    | .ok false =>
      takeBack node key
      throw (.placementRejected node key)
    | .error fault =>
      takeBack node key
      throw fault

/-- Gives the key its index entry; otherwise takes the confirmation and the write back. -/
def enter (node : NodeId) (key : String) : Op ν ρ Unit := do
  match ← attempt (ask node (.indexAdd (KeyHash.score key) key)) with
  | .ok () => pure ()
  | .error fault =>
    if ← hasRegistry then
      let _ ← attempt (consult (.withdraw node key))
    takeBack node key
    throw fault

def insert (how : Selection) (key : String) (fields : Record) : Op ν ρ NodeId := do
  if fields.isEmpty then throw (.emptyRecord key)
  let node ← choose how
  writeNew node key fields
  confirm node key
  enter node key
  return node

end Placement.Cluster
