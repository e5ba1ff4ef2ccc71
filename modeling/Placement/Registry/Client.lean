import Placement.Channel
import Placement.Registry.Message

/-!
A client of a registry that is reached over two channels.

Placements, withdrawals and suggestions go over the control channel, look-ups and releases over the
benchmark channel; neither waits for the other or suffers from its faults. A reply that is no reply is a
fault of the protocol, and so is a broken frame. Every other fault of a channel means that the registry is
not available.
-/

namespace Placement.Registry

open Json (Document)

/-- The two channels to a registry. -/
structure Client where
  control : Channel
  benchmark : Channel

namespace Client

variable {α : Type}

def unanswered (command : Command) (address : String) : Fault → Fault
  | .protocol cause => .protocol cause
  | fault => .registryUnavailable (.unanswered command.name address fault.text)

def request (read : Document → Option α) (command : Command) (c : Channel) : Except Fault (Option α) × Channel :=
  match c.send (Envelope.toBytes { command }) with
  | (.error fault, c) => (.error (unanswered command c.address fault), c)
  | (.ok bytes, c) => (Reply.ofBytes read bytes >>= (·.outcome command.name), c)

def overControl (read : Document → Option α) (command : Command) (s : Client) : Except Fault (Option α) × Client :=
  let (outcome, control) := request read command s.control
  (outcome, { s with control })

def overBenchmark (read : Document → Option α) (command : Command) (s : Client) :
    Except Fault (Option α) × Client :=
  let (outcome, benchmark) := request read command s.benchmark
  (outcome, { s with benchmark })

def anyValue (d : Document) : Option Json := Json.ofDocument? (Json.levels - 1) d

def closeBoth (s : Client) : Except Fault Unit × Client :=
  let (first, control) := s.control.close
  let (second, benchmark) := s.benchmark.close
  (first.bind fun _ => second, { control, benchmark })

/-- Answers a call. A result that is missing confirms nothing, locates nothing and suggests nothing. -/
def perform : (c : Call) → Client → Except Fault c.Answer × Client
  | .place node key, s =>
    let (outcome, s) := overControl Document.bool? (.place node key) s
    (outcome.map (·.getD false), s)
  | .withdraw node key, s =>
    let (outcome, s) := overControl Document.bool? (.withdraw node key) s
    (outcome.map (·.getD false), s)
  | .locate key, s =>
    let (outcome, s) := overBenchmark Lookup.ofDocument? (.locate key) s
    (outcome.map (·.bind Lookup.location), s)
  | .release node, s =>
    let (outcome, s) := overBenchmark anyValue (.release node) s
    (outcome.map fun _ => (), s)
  | .suggest nodes, s =>
    let (outcome, s) := overControl Document.text? (.suggest nodes) s
    (outcome.bind fun
      | some node => .ok node
      | none => .error (.registryUnavailable .noSuggestion), s)
  | .close, s => s.closeBoth

instance : Registry Client := ⟨perform⟩

end Client

/-- Where the two channels of a registry are to be opened. -/
structure Endpoint where
  host : String
  controlPort : Option Nat := none
  benchmarkPort : Option Nat := none
deriving DecidableEq, Repr

namespace Endpoint

def port? : Option Nat → Option Nat
  | some (n + 1) => some (n + 1)
  | _ => none

/-- The host without white space around it and both ports, if none of them is missing. -/
def resolve (e : Endpoint) : Except Fault (String × Nat × Nat) :=
  let host := Text.trim e.host
  if host = "" then .error (.config .blankRegistryHost)
  else
    match port? e.controlPort, port? e.benchmarkPort with
    | none, _ => .error (.config .missingControlPort)
    | some _, none => .error (.config .missingBenchmarkPort)
    | some control, some benchmark => .ok (host, control, benchmark)

def connect (network : Network) (e : Endpoint) : Except Fault Client := do
  let (host, control, benchmark) ← e.resolve
  let control ← Channel.connect network host control
  let benchmark ← Channel.connect network host benchmark
  return { control, benchmark }

end Endpoint

end Placement.Registry
