import Placement.KeyHash
import Placement.Retrieval

/-!
Scanning: each node gives the keys of its index from the score of a start key upward, and every such key
is read like any other.

Records come node by node, and in the order of the index within a node. A node whose index or one of whose
reads fails ends its own part only; all nodes are visited, and then any failure is the failure of the scan.
-/

namespace Placement.Cluster

variable {ν ρ : Type} [Store ν] [Registry ρ]

structure Scanned where
  records : List Record := []
  failures : List (NodeId × Fault) := []

/-- Reads the keys of one node's index until a read fails. -/
def scanKeys (node : NodeId) (names : Option (List String)) (s : Scanned) : List String → Op ν ρ Scanned
  | [] => return s
  | key :: rest => do
    match ← attempt (read key names) with
    | .ok (some found) => scanKeys node names { s with records := s.records ++ [found.record] } rest
    | .ok none => scanKeys node names s rest
    | .error fault => return { s with failures := s.failures ++ [(node, fault)] }

def scanNodes (min : Score) (count : Nat) (names : Option (List String)) (s : Scanned) :
    List NodeId → Op ν ρ Scanned
  | [] => return s
  | node :: rest => do
    match ← attempt (ask node (.indexRange min count)) with
    | .ok keys => scanNodes min count names (← scanKeys node names s keys) rest
    | .error fault => scanNodes min count names { s with failures := s.failures ++ [(node, fault)] } rest

/-- The records of each node's first `count` index entries from the start key's score upward. -/
def scan (start : String) (count : Nat) (names : Option (List String)) : Op ν ρ (List Record) := do
  let s ← scanNodes (KeyHash.score start) count names {} (← inspect ids)
  unlessFailed s.failures s.records

end Placement.Cluster
