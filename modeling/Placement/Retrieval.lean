import Placement.Cluster

/-!
Reading a record.

With a registry the record is read from the node it names and from no other, and the capacity taken by
asking is handed back whatever that read did. Without one the nodes are asked in order until one has
fields to give; failures on the way count only if none has.
-/

namespace Placement

/-- A record and the node it was found on. -/
structure Found where
  node : NodeId
  record : Record
deriving DecidableEq, Repr

def Found.of (node : NodeId) (record : Record) : Option Found :=
  if record.isEmpty then none else some ⟨node, record⟩

def Sighting.of (key : String) : Except Fault (Option Found) → Sighting
  | .ok (some found) => ⟨some found.node, key, true⟩
  | _ => ⟨none, key, false⟩

namespace Cluster

variable {ν ρ : Type} [Store ν] [Registry ρ]

def fetch (node : NodeId) (key : String) (names : Option (List String)) : Op ν ρ Record :=
  match Record.namesOf names with
  | some names => ask node (.fetchFields key names)
  | none => ask node (.fetch key)

/-- Reads from the place the registry names, and hands the capacity back. -/
def readLocated (key : String) (names : Option (List String)) : Op ν ρ (Option Found) := do
  match ← consult (.locate key) with
  | none => return none
  | some location =>
    let fetched ← attempt (if location.present then fetch location.node key names else pure Dict.empty)
    let released ← attempt (consult (.release location.node))
    let record ← fetched
    released
    return Found.of location.node record

/-- Reads from the first of the nodes that has fields to give. -/
def readFirst (key : String) (names : Option (List String)) (failures : List (NodeId × Fault)) :
    List NodeId → Op ν ρ (Option Found)
  | [] => unlessFailed failures none
  | node :: rest => do
    match ← attempt (fetch node key names) with
    | .ok record =>
      if record.isEmpty then readFirst key names failures rest else return some ⟨node, record⟩
    | .error fault => readFirst key names (failures ++ [(node, fault)]) rest

def readQuietly (key : String) (names : Option (List String)) : Op ν ρ (Option Found) := do
  if ← hasRegistry then readLocated key names else readFirst key names [] (← inspect ids)

def read (key : String) (names : Option (List String)) : Op ν ρ (Option Found) := do
  let outcome ← attempt (readQuietly key names)
  report (Sighting.of key outcome)
  outcome

end Cluster

end Placement
