import Placement.CommandLine.Help
import Placement.CommandLine.Run
import Placement.Store.Redis.Nowhere

/-!
The executable.

It reads the configuration file and the environment and hands them to `CommandLine.program`. It opens no
connections of its own: it is given a network in which every connection is refused, so it shows what the
program does when no node and no registry can be reached.
-/

namespace Placement

def readFile? (name : String) : IO (Option ByteArray) := do
  try
    return some (← IO.FS.readBinFile name)
  catch _ =>
    return none

def pair? (entry : String) : Option (String × String) :=
  (CommandLine.splitPair? entry.toList).map fun (name, value) => (String.ofList name, String.ofList value)

/-- The variables of the environment; an ill-formed byte counts as a replacement character. -/
def readEnvironment : IO (List (String × String)) := do
  let some bytes ← readFile? "/proc/self/environ" | return []
  let text := String.ofList ((Utf8.symbols bytes).map fun s => s.getD '\ufffd')
  return (text.splitOn "\x00").filterMap pair?

def drawn (count bound : Nat) : IO (List Nat) := (List.range count).mapM fun _ => IO.rand 0 (bound - 1)

def surroundings (config : String) : IO (CommandLine.Surroundings Store.Redis.Nowhere) := do
  let files ← (Config.candidates config).mapM fun name => do return (name, ← readFile? name)
  let portions ← drawn 600 1000
  return {
    files := fun name => (files.find? (·.1 == name)).bind (·.2)
    environment := ← readEnvironment
    network := fun _ _ => .refused "connection refused"
    serve := fun _ => { portions }
    draws := ← drawn 16 Word.values32 }

end Placement

open Placement in
def main (words : List String) : IO UInt32 := do
  let config := match CommandLine.parse words with
    | .ok invocation => invocation.config
    | .error _ => ""
  let exit := CommandLine.program (← surroundings config) words
  for line in exit.printed do
    IO.println line.render
  if exit.explained then
    if exit.code = 0 then IO.println CommandLine.helpText else IO.eprintln CommandLine.usage
  return UInt32.ofNat exit.code
