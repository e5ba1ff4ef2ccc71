import Placement.Config.File

/-!
The command line.

Options may stand before or after the command and its operands, each once on either side unless it is a
field. A value is attached to its option or is the next word; a word that starts with a hyphen is never taken
for a value, and after `--` every word is an operand. Words are taken one after another, and the first that
is wrong, or asks for help, decides.
-/

namespace Placement.CommandLine

inductive Command
  | insert (key : String) (fields : List (String × String))
  | read (key : String) (names : List String)
  | update (key : String) (fields : List (String × String))
  | delete (key : String)
  | scan (start : String) (count : Nat) (names : List String)
  | flush (thenClose : Bool)
  | stats
deriving DecidableEq, Repr

/-- A command with the configuration file and the table it is given for. -/
structure Invocation where
  config : String := "config.yaml"
  table : String := "usertable"
  command : Command
deriving DecidableEq, Repr

inductive Refusal
  | usage
  | help
deriving DecidableEq, Repr

namespace Refusal

def exitCode : Refusal → Nat
  | usage => 2
  | help => 0

end Refusal

/-! ## Fields -/

def splitPair? : List Char → Option (List Char × List Char)
  | [] => none
  | '=' :: rest => some ([], rest)
  | c :: rest => (splitPair? rest).map fun (name, value) => (c :: name, value)

def fieldPair? (raw : String) : Option (String × String) := do
  let (name, value) ← splitPair? raw.toList
  if name.isEmpty then none else return (String.ofList name, String.ofList value)

def badPair (raw : String) : String := s!"expected name=value, got '{raw}'"

/-! ## Words -/

inductive Verb
  | insert
  | read
  | update
  | delete
  | scan
  | flush
  | stats
  | help
deriving DecidableEq, Repr

namespace Verb

def all : List Verb := [insert, read, update, delete, scan, flush, stats, help]

def name : Verb → String
  | insert => "insert"
  | read => "read"
  | update => "update"
  | delete => "delete"
  | scan => "scan"
  | flush => "flush"
  | stats => "stats"
  | help => "help"

def ofName? (name : String) : Option Verb := all.find? (·.name == name)

def operands : Verb → Nat
  | insert | read | update | delete | scan => 1
  | flush | stats => 0
  | help => 1

end Verb

inductive Flag
  | config
  | table
  | field
  | count
  | close
  | help
deriving DecidableEq, Repr

namespace Flag

def long : Flag → String
  | config => "config"
  | table => "table"
  | field => "field"
  | count => "count"
  | close => "close"
  | help => "help"

def short? : Flag → Option Char
  | config => some 'c'
  | table => some 't'
  | field => some 'f'
  | count => some 'n'
  | close => none
  | help => some 'h'

def hasValue : Flag → Bool
  | close | help => false
  | _ => true

def known : Option Verb → List Flag
  | none => [config, table, help]
  | some .insert | some .read | some .update => [field, config, table, help]
  | some .scan => [count, field, config, table, help]
  | some .flush => [close, config, table, help]
  | some _ => [config, table, help]

end Flag

/-- What the words so far came to. -/
structure Reading where
  /-- The options before the command. -/
  earlier : List (Flag × String) := []
  verb : Option Verb := none
  /-- The options since the command, or since the start if there is none yet. -/
  options : List (Flag × String) := []
  operands : List String := []
  /-- An option whose value has to come next. -/
  pending : Option Flag := none
  /-- Whether all further words are operands. -/
  literal : Bool := false
deriving Repr

namespace Reading

def accepts (verb : Option Verb) (flag : Flag) (value : String) : Bool :=
  match flag, verb with
  | .count, _ => ((Numeral.written? value).filter (decide <| · ≤ Settings.greatest)).isSome
  | .field, some .insert | .field, some .update => (fieldPair? value).isSome
  | _, _ => true

/-- Takes an option with its value; only fields may be repeated. -/
def option (r : Reading) (flag : Flag) (value : String) : Except Refusal Reading :=
  if flag = .help then .error .help
  else if flag ≠ .field ∧ r.options.any (·.1 = flag) then .error .usage
  else if accepts r.verb flag value then .ok { r with options := r.options ++ [(flag, value)], pending := none }
  else .error .usage

def written (r : Reading) (flag : Flag) : Option String → Except Refusal Reading
  | some value => if flag.hasValue then r.option flag value else .error .usage
  | none => if flag.hasValue then .ok { r with pending := some flag } else r.option flag ""

def operand (r : Reading) (word : String) : Except Refusal Reading :=
  match r.verb with
  | none =>
    match Verb.ofName? word with
    | some verb =>
      if r.literal then .error .usage else .ok { r with earlier := r.options, options := [], verb := some verb }
    | none => .error .usage
  | some verb =>
    if r.operands.length < verb.operands then .ok { r with operands := r.operands ++ [word] } else .error .usage

def splitLong (cs : List Char) : String × Option String :=
  match splitPair? cs with
  | some (name, value) => (String.ofList name, some (String.ofList value))
  | none => (String.ofList cs, none)

/-- The value attached to a one-letter option; an equals sign before it is dropped. -/
def attached? : List Char → Option String
  | [] => none
  | '=' :: rest => some (String.ofList rest)
  | cs => some (String.ofList cs)

/-- Takes the characters after one hyphen: one-letter options, the last of them perhaps with its value. -/
def letters (r : Reading) : List Char → Except Refusal Reading
  | [] => .ok r
  | c :: rest =>
    match (Flag.known r.verb).find? (·.short? = some c) with
    | none => .error .usage
    | some flag =>
      if flag.hasValue then r.written flag (attached? rest)
      else
        match r.written flag none with
        | .error refusal => .error refusal
        | .ok r => letters r rest

def word (r : Reading) (w : String) : Except Refusal Reading :=
  if r.verb = some .help then
    match Verb.ofName? w with
    | some _ => r.operand w
    | none => .error .usage
  else if r.literal then r.operand w
  else
    match w.toList with
    | '-' :: '-' :: [] => if r.pending.isSome then .error .usage else .ok { r with literal := true }
    | '-' :: '-' :: cs =>
      if r.pending.isSome then .error .usage
      else
        let (name, value) := splitLong cs
        match (Flag.known r.verb).find? (·.long == name) with
        | some flag => r.written flag value
        | none => .error .usage
    | '-' :: c :: cs => if r.pending.isSome then .error .usage else r.letters (c :: cs)
    | _ =>
      match r.pending with
      | some flag => r.option flag w
      | none => r.operand w

def valueOf? (options : List (Flag × String)) (flag : Flag) : Option String :=
  (options.reverse.find? (·.1 = flag)).map (·.2)

def fields (r : Reading) : List String := (r.options.filter (·.1 = .field)).map (·.2)

def pairs (r : Reading) : Except Refusal (List (String × String)) :=
  match r.fields.mapM fieldPair? with
  | some (pair :: rest) => .ok (pair :: rest)
  | _ => .error .usage

def only (r : Reading) : Except Refusal String :=
  match r.operands with
  | [w] => .ok w
  | _ => .error .usage

def command (r : Reading) : Except Refusal Command :=
  match r.verb with
  | none => .error .usage
  | some .insert => do return .insert (← r.only) (← r.pairs)
  | some .read => do return .read (← r.only) r.fields
  | some .update => do return .update (← r.only) (← r.pairs)
  | some .delete => do return .delete (← r.only)
  | some .scan => do
    let count := ((valueOf? r.options .count).bind Numeral.written?).getD 10
    return .scan (← r.only) count r.fields
  | some .flush => .ok (.flush (r.options.any (·.1 = .close)))
  | some .stats => .ok .stats
  | some .help => .error .help

end Reading

/-- What the words after the program's name ask for. -/
def parse (words : List String) : Except Refusal Invocation := do
  let r ← words.foldlM Reading.word {}
  if r.pending.isSome then throw .usage
  let command ← r.command
  let given := r.earlier ++ r.options
  return {
    config := (Reading.valueOf? given .config).getD "config.yaml"
    table := (Reading.valueOf? given .table).getD "usertable"
    command }

end Placement.CommandLine
