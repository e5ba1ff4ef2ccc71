import Placement.Config

/-!
The data nodes of a client, under their names.

A node joins under a name that is not blank and that no other node has.
-/

namespace Placement.Pool

variable {ν : Type}

def add (id : NodeId) (node : ν) (pool : Dict ν) : Except Fault (Dict ν) :=
  if Text.isBlank id then .error (.config .blankNodeId)
  else if pool.contains id then .error (.config (.duplicateNodeId id))
  else .ok (pool.insert id node)

def addAll (make : Config.NodeEntry → ν) (pool : Dict ν) : List Config.NodeEntry → Except Fault (Dict ν)
  | [] => .ok pool
  | entry :: rest => do addAll make (← add entry.id (make entry) pool) rest

/-- The default nodes of a configuration, each made from its entry; there has to be one. -/
def ofConfig (make : Config.NodeEntry → ν) (c : Config) : Except Fault (Dict ν) := do
  let pool ← addAll make Dict.empty c.defaultNodes
  if pool.isEmpty then .error (.config .noDataNodes) else return pool

end Placement.Pool
