import Placement.Json.Fields
import Placement.Registry

/-!
The messages between a client and a placement registry.

A command goes out in an envelope with the version of the protocol, and its name and arguments beside it. A
reply says whether the command was served, with a result or a reason. Both are JSON texts, read without
regard to the order of members and to members of other names; a repeated member is an error.
-/

namespace Placement.Registry

open Json (Document)

inductive Command
  | place (node : NodeId) (key : String)
  | withdraw (node : NodeId) (key : String)
  | locate (key : String)
  | release (node : NodeId)
  | suggest (nodes : List NodeId)
deriving DecidableEq, Repr

namespace Command

def name : Command → String
  | place .. => "insert_tuple"
  | withdraw .. => "delete_tuple"
  | locate .. => "locate_tuple"
  | release .. => "release_capacity"
  | suggest .. => "suggest_node"

def arguments : Command → Json
  | place node key => .object [("node_id", .text node), ("tuple_id", .text key)]
  | withdraw node key => .object [("node_id", .text node), ("tuple_id", .text key)]
  | locate key => .object [("tuple_id", .text key)]
  | release node => .object [("node_id", .text node)]
  | suggest nodes => .object [("nodes", .ofTexts nodes)]

def ofParts? (name : String) (arguments : List (Option String × Document)) : Option Command :=
  match name with
  | "insert_tuple" => do
    let fields ← Document.members? ["node_id", "tuple_id"] arguments
    return place (← (← fields.get? "node_id").text?) (← (← fields.get? "tuple_id").text?)
  | "delete_tuple" => do
    let fields ← Document.members? ["node_id", "tuple_id"] arguments
    return withdraw (← (← fields.get? "node_id").text?) (← (← fields.get? "tuple_id").text?)
  | "locate_tuple" => do
    let fields ← Document.members? ["tuple_id"] arguments
    return locate (← (← fields.get? "tuple_id").text?)
  | "release_capacity" => do
    let fields ← Document.members? ["node_id"] arguments
    return release (← (← fields.get? "node_id").text?)
  | "suggest_node" => do
    let fields ← Document.members? ["nodes"] arguments
    return suggest (← (← fields.get? "nodes").list? Document.text?)
  | _ => none

end Command

/-- A command and the version of the protocol it is sent under. -/
structure Envelope where
  version : UInt32 := 1
  command : Command
deriving DecidableEq, Repr

namespace Envelope

/-- An envelope as a value: the version, the name and the arguments, in this order. -/
def toJson (e : Envelope) : Json :=
  .object [("version", .int e.version.toNat), ("op", .text e.command.name), ("args", e.command.arguments)]

def toBytes (e : Envelope) : ByteArray := e.toJson.toBytes

/-- The name of a command, which may also stand as the one member of an object, with nothing in it. -/
def name? : Document → Option String
  | .text name => name
  | .object [(some name, d)] => if d.isNothing then some name else none
  | _ => none

/-- Whether the members other than the version are values; inside the envelope one level is used up. -/
def restIsStrict (members : List (Option String × Document)) : Bool :=
  members.all fun (name, d) => name == some "version" || (Json.ofDocument? (Json.levels - 1) d).isSome

def ofDocument? : Document → Option Envelope
  | .object members => do
    let fields ← Document.members? ["version", "op", "args"] members
    let version ← (← fields.get? "version").nat? Word.values32
    let name ← name? (← fields.get? "op")
    match ← fields.get? "args" with
    | .object arguments =>
      let command ← Command.ofParts? name arguments
      if restIsStrict members then return { version := UInt32.ofNat version, command } else none
    | _ => none
  | _ => none

def ofBytes? (bytes : ByteArray) : Option Envelope := do ofDocument? (← Document.ofBytes? bytes)

end Envelope

structure Reply (α : Type) where
  success : Bool
  result : Option α := none
  reason : Option String := none
deriving DecidableEq, Repr

namespace Reply

variable {α : Type}

def ofDocument? (read : Document → Option α) (d : Document) : Option (Reply α) := do
  let fields ← d.fields? ["success", "result", "error"] 2
  return {
    success := ← (← fields.get? "success").bool?
    result := ← Document.optional? read (fields.get? "result")
    reason := ← Document.optional? Document.text? (fields.get? "error") }

def ofBytes (read : Document → Option α) (bytes : ByteArray) : Except Fault (Reply α) :=
  match Document.ofBytes? bytes >>= ofDocument? read with
  | some reply => .ok reply
  | none => .error (.protocol (.malformedReply "not a reply"))

/-- The result of a command that was served; otherwise the registry's reason. -/
def outcome (command : String) (r : Reply α) : Except Fault (Option α) :=
  if r.success then .ok r.result else .error (.registryUnavailable (.refused command r.reason))

end Reply

/-- The result of looking a key up: no node if the registry has not heard of the key. -/
structure Lookup where
  node : Option NodeId
  present : Bool := false
deriving DecidableEq, Repr

namespace Lookup

def ofDocument? (d : Document) : Option Lookup := do
  let fields ← d.fields? ["node_id", "exists"] 1
  return {
    node := ← Document.optional? Document.text? (fields.get? "node_id")
    present := ← Document.defaulted? Document.bool? false (fields.get? "exists") }

def location (l : Lookup) : Option Location := l.node.map fun node => ⟨node, l.present⟩

end Lookup

end Placement.Registry
