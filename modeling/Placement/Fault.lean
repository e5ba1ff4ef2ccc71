/-!
Why an operation fails, and the wording of each cause.

A fault names its cause; `Fault.text` is the only place where a cause becomes words. The faults of
several nodes are joined in one aggregate, which is never empty, keeps the order in which they arose and
gives each node's name with its own fault. A cause from outside the library is `stated` in its own words.
-/

namespace Placement

abbrev NodeId := String

/-- What is wrong with a configuration. -/
inductive ConfigFault
  | blankNodeId
  | duplicateNodeId (id : NodeId)
  | blankHost (id : NodeId)
  | zeroPort (id : NodeId)
  | noDataNodes
  | blankRegistryHost
  | zeroRegistryPort
  | missingControlPort
  | missingBenchmarkPort
  /-- Nodes are to be chosen by a registry that the configuration does not have. -/
  | selectionWithoutRegistry
  | stated (words : String)
deriving DecidableEq, Repr

/-- What is wrong with a connection. -/
inductive LinkFault
  | nodeUnreachable
  | nodeClosed
  | closed (address : String)
  | refused (address : String) (detail : String)
  | registryClosed (address : String)
  | registryRefused (address : String) (detail : String)
  | blankRegistryHost
  | zeroRegistryPort
  | stated (words : String)
deriving DecidableEq, Repr

inductive ProtocolFault
  /-- A payload is too long to be sent. -/
  | payloadTooLong (length limit : Nat)
  /-- A received length prefix announces more than the limit. -/
  | announcedTooLong (length limit : Nat)
  | closedBeforeLength
  | closedInPayload (received announced : Nat)
  /-- A reply is no envelope of the expected kind. -/
  | malformedReply (detail : String)
  | stated (words : String)
deriving DecidableEq, Repr

/-- Why the registry did not serve a call. -/
inductive RegistryFault
  /-- The reply says that the command failed, perhaps with a reason. -/
  | refused (command : String) (reason : Option String)
  /-- No reply came; `cause` words the fault of the channel. -/
  | unanswered (command address cause : String)
  | absent
  | noSuggestion
  | stated (words : String)
deriving DecidableEq, Repr

inductive Wait
  | registryReply (address : String)
  | registryConnection (address : String)
  | nodeConnection (address : String)
  | nodeReply (command address : String)
  | stated (words : String)
deriving DecidableEq, Repr

inductive StreamFault
  /-- The stream ended where more was required. -/
  | unexpectedEnd (words : String)
  /-- A write took no byte. -/
  | nothingTaken
  | stated (words : String)
deriving DecidableEq, Repr

/-- A fault of the program itself. -/
inductive InternalFault
  /-- The task of one node in a fan-out died. -/
  | taskFailed (detail : String)
  | stated (words : String)
deriving DecidableEq, Repr

mutual

inductive Fault
  | config (cause : ConfigFault)
  | connection (cause : LinkFault)
  | protocol (cause : ProtocolFault)
  | registryUnavailable (cause : RegistryFault)
  | placementRejected (node : NodeId) (key : String)
  | partialWrite (node : NodeId) (key : String) (written expected : Nat)
  | emptyRecord (key : String)
  | noNodesAvailable
  | unknownNode (id : NodeId)
  | timeout (wait : Wait)
  | aggregate (causes : Causes)
  | internal (cause : InternalFault)
  /-- A reply of a node's server that is an error or of the wrong form. -/
  | redis (words : String)
  | stream (cause : StreamFault)
  | serialization (words : String)
deriving DecidableEq, Repr

/-- The faults of one or more nodes, in order. -/
inductive Causes
  | one (node : NodeId) (fault : Fault)
  | more (node : NodeId) (fault : Fault) (rest : Causes)
deriving DecidableEq, Repr

end

instance : Inhabited Fault := ⟨.noNodesAvailable⟩

namespace ConfigFault

def text : ConfigFault → String
  | blankNodeId => "node id cannot be empty"
  | duplicateNodeId id => s!"duplicate node id: {id}"
  | blankHost id => s!"host cannot be empty for node {id}"
  | zeroPort id => s!"invalid port 0 for node {id}"
  | noDataNodes => "data nodes are not specified"
  | blankRegistryHost => "registry host cannot be empty"
  | zeroRegistryPort => "registry ports must be non-zero"
  | missingControlPort => "registry control port is required"
  | missingBenchmarkPort => "registry benchmark port is required"
  | selectionWithoutRegistry => "registry selection requires a registry section"
  | stated words => words

end ConfigFault

namespace LinkFault

def text : LinkFault → String
  | nodeUnreachable => "memory node is unreachable"
  | nodeClosed => "memory node is closed"
  | closed address => s!"connection to {address} is closed"
  | refused address detail => s!"failed to connect to {address}: {detail}"
  | registryClosed address => s!"registry connection to {address} is closed"
  | registryRefused address detail => s!"failed to connect to registry at {address}: {detail}"
  | blankRegistryHost => "registry host can't be empty"
  | zeroRegistryPort => "invalid registry port: 0"
  | stated words => words

end LinkFault

namespace ProtocolFault

def text : ProtocolFault → String
  | payloadTooLong length limit => s!"frame of {length} bytes exceeds limit of {limit}"
  | announcedTooLong length limit => s!"advertised frame length {length} exceeds limit of {limit}"
  | closedBeforeLength => "stream closed before frame length"
  | closedInPayload received announced => s!"stream closed after {received} of {announced} payload bytes"
  | malformedReply detail => s!"malformed registry response: {detail}"
  | stated words => words

end ProtocolFault

namespace RegistryFault

def text : RegistryFault → String
  | refused command reason => s!"{command} failed: " ++ reason.getD "no error message"
  | unanswered command address cause => s!"{command} via {address}: {cause}"
  | absent => "registry selection without a registry"
  | noSuggestion => "suggest_node returned no node"
  | stated words => words

end RegistryFault

namespace Wait

def text : Wait → String
  | registryReply address => s!"registry request to {address}"
  | registryConnection address => s!"connect to registry at {address}"
  | nodeConnection address => s!"connect to {address}"
  | nodeReply command address => s!"{command} on {address}"
  | stated words => words

end Wait

namespace StreamFault

def text : StreamFault → String
  | unexpectedEnd words => words
  | nothingTaken => "failed to write whole buffer"
  | stated words => words

end StreamFault

namespace InternalFault

def text : InternalFault → String
  | taskFailed detail => s!"node task failed: {detail}"
  | stated words => words

end InternalFault

mutual

def Fault.text : Fault → String
  | .config cause => "Configuration error: " ++ cause.text
  | .connection cause => "Connection error: " ++ cause.text
  | .protocol cause => "Protocol error: " ++ cause.text
  | .registryUnavailable cause => "Registry unavailable: " ++ cause.text
  | .placementRejected node key => s!"Registry rejected placement of key {key} on node {node}"
  | .partialWrite node key written expected =>
    s!"Partial write of key {key} on node {node}: {written} of {expected} fields"
  | .emptyRecord key => s!"Record {key} has no fields"
  | .noNodesAvailable => "No nodes available for placement"
  | .unknownNode id => s!"Unknown node: {id}"
  | .timeout wait => "Timed out: " ++ wait.text
  | .aggregate causes => causes.text
  | .internal cause => "Internal error: " ++ cause.text
  | .redis words => "Redis error: " ++ words
  | .stream cause => "IO error: " ++ cause.text
  | .serialization words => "Serialization error: " ++ words

/-- Every cause after the name of its node, with a semicolon and a line break between them. -/
def Causes.text : Causes → String
  | .one node fault => "node " ++ node ++ ": " ++ fault.text
  | .more node fault rest => "node " ++ node ++ ": " ++ fault.text ++ ";\n" ++ rest.text

end

namespace Causes

def toList : Causes → List (NodeId × Fault)
  | one node fault => [(node, fault)]
  | more node fault rest => (node, fault) :: rest.toList

def ofList? : List (NodeId × Fault) → Option Causes
  | [] => none
  | [e] => some (one e.1 e.2)
  | e :: f :: rest => (ofList? (f :: rest)).map (more e.1 e.2)

def primary : Causes → NodeId × Fault
  | one node fault => (node, fault)
  | more node fault _ => (node, fault)

@[simp] theorem ofList?_toList : ∀ c : Causes, ofList? c.toList = some c
  | one _ _ => rfl
  | more _ _ (one _ _) => rfl
  | more _ _ (more n f r) => by simpa [toList, ofList?] using ofList?_toList (more n f r)

theorem ofList?_eq_none {l : List (NodeId × Fault)} : ofList? l = none ↔ l = [] := by
  induction l with
  | nil => simp [ofList?]
  | cons e rest ih =>
    cases rest with
    | nil => simp [ofList?]
    | cons f rest => simpa [ofList?] using ih

theorem toList_of_ofList? {l : List (NodeId × Fault)} {c : Causes} (h : ofList? l = some c) : c.toList = l := by
  induction l generalizing c with
  | nil => cases h
  | cons e rest ih =>
    cases rest with
    | nil => cases h; rfl
    | cons f rest =>
      obtain ⟨c', hc', rfl⟩ := Option.map_eq_some_iff.1 h
      simp [toList, ih hc']

end Causes

def Fault.ofFailures (failures : List (NodeId × Fault)) : Option Fault :=
  (Causes.ofList? failures).map .aggregate

theorem Fault.ofFailures_eq_none_iff {failures : List (NodeId × Fault)} :
    Fault.ofFailures failures = none ↔ failures = [] := by
  rw [Fault.ofFailures, Option.map_eq_none_iff, Causes.ofList?_eq_none]

theorem Fault.ofFailures_eq_some_iff {failures : List (NodeId × Fault)} {fault : Fault} :
    Fault.ofFailures failures = some fault ↔ ∃ causes, fault = .aggregate causes ∧ causes.toList = failures := by
  rw [Fault.ofFailures, Option.map_eq_some_iff]
  constructor
  · rintro ⟨causes, hcauses, rfl⟩
    exact ⟨causes, rfl, Causes.toList_of_ofList? hcauses⟩
  · rintro ⟨causes, rfl, rfl⟩
    exact ⟨causes, Causes.ofList?_toList causes, rfl⟩

end Placement
