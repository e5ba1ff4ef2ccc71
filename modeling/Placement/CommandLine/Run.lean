import Placement.Client
import Placement.CommandLine

/-!
Running a command and the program around it.

A command on a record prints one line and fails only on the status `ERROR`. The program loads its
configuration, starts a coordinator, runs the command and gives everything up again.
-/

namespace Placement.CommandLine

variable {ν ρ : Type} [Store ν] [Registry ρ]

structure Result where
  succeeded : Bool
  printed : List Json

namespace Result

def ofStatus (status : Status) (members : List (String × Json)) : Result :=
  { succeeded := status ≠ .error, printed := [.object (members ++ [("status", .text status.text)])] }

end Result

/-- The names of a read; none at all stand for every field. -/
def filter (names : List String) : Option (List String) := if names.isEmpty then none else some names

def run : Command → StateM (Coordinator ν ρ) Result
  | .insert key fields => do
    return .ofStatus (← Coordinator.insert key (Dict.ofList fields)) [("key", .text key)]
  | .read key names => do
    let (status, record) ← Coordinator.read key (filter names) Dict.empty
    return .ofStatus status [("fields", .ofRecord record), ("key", .text key)]
  | .update key fields => do
    return .ofStatus (← Coordinator.update key (Dict.ofList fields)) [("key", .text key)]
  | .delete key => do return .ofStatus (← Coordinator.delete key) [("key", .text key)]
  | .scan start count names => do
    let (status, records) ← Coordinator.scan start count (filter names) []
    return .ofStatus status [("records", .array (records.map .ofRecord)), ("start_key", .text start)]
  | .flush thenClose => do
    match ← Coordinator.flush thenClose with
    | .ok () => return { succeeded := true, printed := [] }
    | .error _ => return { succeeded := false, printed := [] }
  | .stats => do
    match ← Coordinator.recordCounts with
    | .ok counts =>
      let counts := Json.ofDict (counts.map fun _ (n : Nat) => .int n)
      return { succeeded := true, printed := [.object [("record_counts", counts)]] }
    | .error _ => return { succeeded := false, printed := [] }

/-- Runs a command and gives everything up after it, whatever comes of that. -/
def runAndCleanUp (command : Command) : StateM (Coordinator ν ρ) Result := do
  let result ← run command
  let _ ← Coordinator.cleanup
  return result

structure Surroundings (σ : Type) where
  files : Config.Files
  environment : List (String × String)
  network : Network
  /-- The server a node is on. -/
  serve : Config.NodeEntry → σ
  /-- Numbers drawn by chance. -/
  draws : List Nat := []

structure Exit where
  code : Nat
  printed : List Json := []
  /-- Whether it only explained itself. -/
  explained : Bool := false

def prepare {σ : Type} (s : Surroundings σ) (invocation : Invocation) :
    Except Fault (Coordinator (Store.Redis.Node σ) Registry.Client) := do
  let config ← Config.load s.files s.environment invocation.config
  let coordinator ← Client.start s.network s.serve config
  return { coordinator with cluster.draws := s.draws }

def program {σ : Type} [Store.Redis.Server σ] (s : Surroundings σ) (words : List String) : Exit :=
  match parse words with
  | .error refusal => { code := refusal.exitCode, explained := true }
  | .ok invocation =>
    match prepare s invocation with
    | .error _ => { code := 1 }
    | .ok coordinator =>
      let (result, _) := (runAndCleanUp invocation.command).run coordinator
      { code := if result.succeeded then 0 else 1, printed := result.printed }

end Placement.CommandLine
