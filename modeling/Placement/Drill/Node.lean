import Placement.Drill.Plan
import Placement.Store.Memory

/-!
A data node in memory with planned faults.

A planned failure leaves the node as it is. A planned answer takes the place of the one the node gave, unless
the call failed or answers nothing.
-/

namespace Placement.Drill

structure Node where
  memory : Store.Memory := {}
  plans : List (Plan Store.Call) := []

namespace Node

def answerTo? : (c : Store.Call) → Answer → Option c.Answer
  | .write .., .count n => some n
  | .fetch .., .record fields => some (Dict.ofList fields)
  | .fetchFields .., .record fields => some (Dict.ofList fields)
  | .holds .., .truth b => some b
  | .indexRange .., .keys keys => some keys
  | .removeIndexed .., .truth b => some b
  | .count, .count n => some n
  | _, _ => none

def perform (c : Store.Call) (n : Node) : Except Fault c.Answer × Node :=
  match due c n.plans with
  | (some (.fail fault), plans) => (.error fault, { n with plans })
  | (some (.answer a), plans) =>
    let (outcome, memory) := Store.Memory.perform c n.memory
    (outcome.map fun given => (answerTo? c a).getD given, { memory, plans })
  | (none, plans) =>
    let (outcome, memory) := Store.Memory.perform c n.memory
    (outcome, { memory, plans })

instance : Store Node := ⟨perform⟩

/-- A node with these records, some of them without index entries, and further index entries. -/
def make (records bare : List (String × Record)) (index : List (String × Score)) (score : String → Score)
    (unreachable closed : Bool) : Node :=
  let held := (records ++ bare).foldl (fun (m : Store.Memory) (key, fields) => m.write key fields) {}
  let indexed := records.map (fun (key, _) => (key, score key)) ++ index
  { memory := { held with index := Dict.ofList indexed, unreachable, closed } }

end Node

end Placement.Drill
