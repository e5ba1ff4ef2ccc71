import Placement.Json.Fields
import Placement.Selection
import Placement.Text.Blank

/-!
Configurations of a client: its data nodes, perhaps a registry, and how nodes are chosen.

Nodes that are not default nodes are declared for others and take no part. `Config.validate` looks at the
nodes one by one and at the sections after them, and reports the first thing that is wrong.
-/

namespace Placement

open Json (Document)

namespace Config

structure NodeEntry where
  id : NodeId
  host : String
  port : UInt16 := 6379
  password : Option String := none
  isDefault : Bool := true
deriving DecidableEq, Repr

/-- Where the registry is: one port for placements, one for look-ups. -/
structure RegistrySection where
  host : String
  controlPort : UInt16
  benchmarkPort : UInt16
deriving DecidableEq, Repr

end Config

/-- A configuration; the timeout is in milliseconds. -/
structure Config where
  nodes : List Config.NodeEntry
  registry : Option Config.RegistrySection := none
  selection : Option Selection := none
  timeout : UInt64 := 2000
deriving DecidableEq, Repr

namespace Selection

def all : List Selection := [random, leastLoaded, registry]

def name : Selection → String
  | random => "random"
  | leastLoaded => "least_loaded"
  | registry => "registry"

def ofName? (name : String) : Option Selection := all.find? (·.name == name)

end Selection

namespace Config

def defaultNodes (c : Config) : List NodeEntry := c.nodes.filter (·.isDefault)

/-- How nodes are chosen: as set, otherwise by load if there is a registry and by chance if not. -/
def effectiveSelection (c : Config) : Selection :=
  match c.selection, c.registry with
  | some how, _ => how
  | none, some _ => .leastLoaded
  | none, none => .random

def effectiveTimeout (c : Config) : Nat := max c.timeout.toNat 1

/-! ## Validity -/

/-- What is wrong with the first faulty one of the nodes, none of which may be named like one seen before. -/
def nodesFault? (seen : List NodeId) : List NodeEntry → Option ConfigFault
  | [] => none
  | node :: rest =>
    if Text.isBlank node.id then some .blankNodeId
    else if seen.contains node.id then some (.duplicateNodeId node.id)
    else if Text.isBlank node.host then some (.blankHost node.id)
    else if node.port = 0 then some (.zeroPort node.id)
    else nodesFault? (node.id :: seen) rest

def registryFault? (c : Config) : Option ConfigFault :=
  match c.registry with
  | some r =>
    if Text.isBlank r.host then some .blankRegistryHost
    else if r.controlPort = 0 ∨ r.benchmarkPort = 0 then some .zeroRegistryPort
    else none
  | none => if c.selection = some .registry then some .selectionWithoutRegistry else none

/-- The first thing that is wrong with a configuration. -/
def fault? (c : Config) : Option ConfigFault :=
  match nodesFault? [] c.nodes with
  | some fault => some fault
  | none => if c.defaultNodes.isEmpty then some .noDataNodes else c.registryFault?

def validate (c : Config) : Except Fault Unit :=
  match c.fault? with
  | some fault => .error (.config fault)
  | none => .ok ()

/-! ## As JSON -/

def optionalText : Option String → Json
  | some t => .text t
  | none => .null

def NodeEntry.toJson (n : NodeEntry) : Json :=
  .object [("id", .text n.id), ("host", .text n.host), ("port", .int n.port.toNat),
    ("password", optionalText n.password), ("default", .bool n.isDefault)]

def RegistrySection.toJson (r : RegistrySection) : Json :=
  .object [("host", .text r.host), ("control_port", .int r.controlPort.toNat),
    ("benchmark_port", .int r.benchmarkPort.toNat)]

def toJson (c : Config) : Json :=
  .object [("nodes", .array (c.nodes.map NodeEntry.toJson)),
    ("registry", (c.registry.map RegistrySection.toJson).getD .null),
    ("selection", optionalText (c.selection.map Selection.name)), ("timeout_ms", .int c.timeout.toNat)]

def port? (d : Document) : Option UInt16 := (d.nat? Word.values16).map UInt16.ofNat

def NodeEntry.ofDocument? (d : Document) : Option NodeEntry := do
  let fields ← d.fields? ["id", "host", "port", "password", "default"] 2
  return {
    id := ← (← fields.get? "id").text?
    host := ← (← fields.get? "host").text?
    port := ← Document.defaulted? port? 6379 (fields.get? "port")
    password := ← Document.optional? Document.text? (fields.get? "password")
    isDefault := ← Document.defaulted? Document.bool? true (fields.get? "default") }

def RegistrySection.ofDocument? (d : Document) : Option RegistrySection := do
  let fields ← d.fields? ["host", "control_port", "benchmark_port"] 3
  return {
    host := ← (← fields.get? "host").text?
    controlPort := ← port? (← fields.get? "control_port")
    benchmarkPort := ← port? (← fields.get? "benchmark_port") }

/-- A way to choose by its name, which may also stand as the one member of an object, with null. -/
def selection? : Document → Option Selection
  | .text (some name) => Selection.ofName? name
  | .object [(some name, .null)] => Selection.ofName? name
  | _ => none

def timeout? (d : Document) : Option UInt64 := (d.nat? Word.values64).map UInt64.ofNat

def ofDocument? (d : Document) : Option Config := do
  let fields ← d.fields? ["nodes", "registry", "selection", "timeout_ms"] 1
  return {
    nodes := ← (← fields.get? "nodes").list? NodeEntry.ofDocument?
    registry := ← Document.optional? RegistrySection.ofDocument? (fields.get? "registry")
    selection := ← Document.optional? selection? (fields.get? "selection")
    timeout := ← Document.defaulted? timeout? 2000 (fields.get? "timeout_ms") }

def ofBytes? (bytes : ByteArray) : Option Config := do ofDocument? (← Document.ofBytes? bytes)

end Config

end Placement
