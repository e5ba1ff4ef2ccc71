import Placement.Config
import Placement.Settings.Yaml

/-!
Configurations from files and environment variables.

The name of a file ends in its format; without a file of just that name, the formats are tried as further
endings. Variables whose names start with the prefix are put over the settings of the file. Scalars are read
leniently, and names of enumerations without regard to case; what comes out is validated.
-/

namespace Placement.Config

/-! ## From settings -/

def portSetting? : Json → Option UInt16 := fun v => (Settings.natBelow? Word.values16 v).map UInt16.ofNat

def NodeEntry.ofSettings? (v : Json) : Option NodeEntry := do
  let fields ← Settings.fields? ["id", "host", "port", "password", "default"] 2 v
  return {
    id := ← Settings.text? (← fields.get? "id")
    host := ← Settings.text? (← fields.get? "host")
    port := ← Settings.defaulted? portSetting? 6379 (fields.get? "port")
    password := ← Settings.optional? Settings.text? (fields.get? "password")
    isDefault := ← Settings.defaulted? Settings.bool? true (fields.get? "default") }

def RegistrySection.ofSettings? (v : Json) : Option RegistrySection := do
  let fields ← Settings.fields? ["host", "control_port", "benchmark_port"] 3 v
  return {
    host := ← Settings.text? (← fields.get? "host")
    controlPort := ← portSetting? (← fields.get? "control_port")
    benchmarkPort := ← portSetting? (← fields.get? "benchmark_port") }

/-- A way to choose by its name in any case, which may also be the name of the only member of an object. -/
def selectionSetting? : Json → Option Selection
  | .text name => Selection.ofName? (Text.lower name)
  | .object [(name, _)] => Selection.ofName? (Text.lower name)
  | _ => none

def nodesSetting? : Json → Option (List NodeEntry)
  | .array items => items.mapM NodeEntry.ofSettings?
  | _ => none

def ofSettings? (v : Json) : Option Config := do
  let fields ← Settings.fields? ["nodes", "registry", "selection", "timeout_ms"] 1 v
  return {
    nodes := ← nodesSetting? (← fields.get? "nodes")
    registry := ← Settings.optional? RegistrySection.ofSettings? (fields.get? "registry")
    selection := ← Settings.optional? selectionSetting? (fields.get? "selection")
    timeout := ← Settings.defaulted? (fun v => (Settings.nat? v).map UInt64.ofNat) 2000 (fields.get? "timeout_ms") }

/-! ## From files -/

abbrev Files := String → Option ByteArray

inductive Format
  | json
  | yaml
deriving DecidableEq, Repr

namespace Format

def endings : List (String × Format) := [("json", .json), ("yaml", .yaml), ("yml", .yaml)]

end Format

/-- The ending of a file name: what follows its last point, unless that is its first character. -/
def ending (name : String) : String :=
  let last := ((name.toList.reverse.takeWhile (· ≠ '/')).reverse)
  if last.dropWhile (· ≠ '.') = last then ""
  else if last.contains '.' then String.ofList (last.reverse.takeWhile (· ≠ '.')).reverse
  else ""

def candidates (name : String) : List String := name :: Format.endings.map fun (e, _) => s!"{name}.{e}"

/-- The file of the name, or of the name with one of the endings after it, with its format. -/
def find? (files : Files) (name : String) : Option (Format × ByteArray) :=
  match files name with
  | some bytes => ((Format.endings.find? (·.1 = ending name)).map (·.2, bytes))
  | none => Format.endings.findSome? fun (e, format) => (files s!"{name}.{e}").map (format, ·)

mutual

/-- Integers that do not fit sixty-four bits with a sign become binary64 numbers. -/
def narrow : Json → Json
  | .int i => if i < (Word.values63 : Int) then .int i else .float (Binary64.ofFloat (UInt64.ofNat i.toNat).toFloat)
  | .array items => .array (narrowItems items)
  | .object members => .object (narrowMembers members)
  | v => v

def narrowItems : List Json → List Json
  | [] => []
  | v :: rest => narrow v :: narrowItems rest

def narrowMembers : List (String × Json) → List (String × Json)
  | [] => []
  | (name, v) :: rest => (name, narrow v) :: narrowMembers rest

end

def settings? (format : Format) (text : String) : Option Json := do
  let v ← match format with
    | .json => (Json.ofBytes? text.toUTF8).map narrow
    | .yaml => Yaml.ofText? text
  match v with
  | .object members => return .object members
  | _ => none

/-! ## From variables -/

def namePrefix : List Char := "keyplace__".toList

def withPoints : List Char → List Char
  | '_' :: '_' :: rest => '.' :: withPoints rest
  | c :: rest => c :: withPoints rest
  | [] => []

def variablePath? (name : String) : Option String :=
  let cs := (Text.lower name).toList
  if namePrefix.isPrefixOf cs then some (String.ofList (withPoints (cs.drop namePrefix.length))) else none

def fromEnvironment (environment : List (String × String)) : List (String × Json) :=
  environment.filterMap fun (name, value) => (variablePath? name).map (·, .text value)

/-! ## Loading -/

def unusable (what : String) : Fault := .config (.stated what)

/-- The configuration of a file with the variables of an environment put over it. -/
def load (files : Files) (environment : List (String × String)) (name : String) : Except Fault Config := do
  let some (format, bytes) := find? files name | throw (unusable s!"no configuration file {name}")
  let some settings := (Utf8.decode? bytes).bind (settings? format) | throw (unusable s!"malformed settings in {name}")
  let own := Settings.assignAll (Settings.membersOf settings) (.object [])
  let merged := Settings.assignAll (fromEnvironment environment) own
  let some config := ofSettings? merged | throw (unusable s!"unfit settings in {name}")
  config.validate
  return config

end Placement.Config
