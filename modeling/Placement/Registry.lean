import Placement.Fault

/-!
What a placement registry can be asked.

The registry is the authority on which node owns which key. A reader takes capacity with `locate` and
hands it back with `release`.
-/

namespace Placement

/-- Where the registry takes a key to be; it may know the owner of a record that is not there. -/
structure Location where
  node : NodeId
  present : Bool
deriving DecidableEq, Repr

namespace Registry

inductive Call
  /-- Records that the key lives on the node; the answer `false` declines. -/
  | place (node : NodeId) (key : String)
  /-- Forgets that the key lives on the node; answers whether that was known. -/
  | withdraw (node : NodeId) (key : String)
  /-- Where the key lives, if the registry has heard of it. -/
  | locate (key : String)
  /-- Hands back what a preceding `locate` took. -/
  | release (node : NodeId)
  /-- Which of the nodes should get the next record. -/
  | suggest (nodes : List NodeId)
  | close
deriving DecidableEq, Repr

@[reducible] def Call.Answer : Call → Type
  | place .. => Bool
  | withdraw .. => Bool
  | locate .. => Option Location
  | release .. => Unit
  | suggest .. => NodeId
  | close => Unit

end Registry

/-- States that answer the calls of a placement registry. -/
class Registry (ρ : Type) where
  perform : (c : Registry.Call) → ρ → Except Fault c.Answer × ρ

end Placement
