import Placement.Json
import Placement.Text.Lower

/-!
Settings that come from several places.

Settings are an object. Each place gives values under paths, such as `registry.host` or `nodes[0].id`, and a
later value is put over an earlier one: objects are merged member by member, anything else is replaced, and
what stands in the way of a path makes room for it. A name that is no path is a name all the same. Names are
taken in small letters wherever a value is put under them; what is inside of items of arrays is left alone.
-/

namespace Placement.Settings

inductive Step
  | member (name : String)
  /-- An item of an array; a negative number counts from its end. -/
  | item (index : Int)
deriving DecidableEq, Repr

/-! ## Paths -/

def isNameChar (c : Char) : Bool := c.isAlphanum || c = '_' || c = '-' || c = ' '

def greatestIndex : Nat := Word.values63 - 1

def index? (inside : List Char) : Option Int :=
  let isBlank (c : Char) : Bool := c = ' ' || c = '\t'
  let natural? (digits : List Char) : Option Nat :=
    if digits ≠ [] ∧ digits.all Numeral.isDigit ∧ Numeral.natural digits ≤ greatestIndex then
      some (Numeral.natural digits)
    else none
  match ((inside.dropWhile isBlank).reverse.dropWhile isBlank).reverse with
  | '-' :: digits => (natural? digits).map fun n => -(n : Int)
  | digits => (natural? digits).map fun n => (n : Int)

/-- The steps of a path after its first name; as many steps as there are characters are enough. -/
def stepsWithin : Nat → List Char → Option (List Step)
  | _, [] => some []
  | 0, _ :: _ => none
  | fuel + 1, '.' :: rest =>
    let name := rest.takeWhile isNameChar
    if name.isEmpty then none
    else (stepsWithin fuel (rest.dropWhile isNameChar)).map (.member (Text.lower (String.ofList name)) :: ·)
  | fuel + 1, '[' :: rest =>
    let inside := rest.takeWhile (· ≠ ']')
    match rest.dropWhile (· ≠ ']') with
    | ']' :: rest => do return .item (← index? inside) :: (← stepsWithin fuel rest)
    | _ => none
  | _ + 1, _ => none

/-- The steps of a text; one that is no path is a single name. Names are in small letters. -/
def path (text : String) : List Step :=
  let cs := text.toList
  let name := cs.takeWhile isNameChar
  let steps := if name.isEmpty then none else stepsWithin cs.length (cs.dropWhile isNameChar)
  match steps with
  | some steps => .member (Text.lower (String.ofList name)) :: steps
  | none => [.member (Text.lower text)]

/-! ## Putting values over others -/

def membersOf : Json → List (String × Json)
  | .object members => members
  | _ => []

def itemsOf : Json → List Json
  | .array items => items
  | _ => []

mutual

/-- The value put over what was there before. -/
def overlay (old : Option Json) : Json → Json
  | .object [] => old.getD (.object [])
  | .object (m :: rest) => .object (overlayMembers ((old.map membersOf).getD []) (m :: rest))
  | v => v

def overlayMembers (old : List (String × Json)) : List (String × Json) → List (String × Json)
  | [] => old
  | (name, v) :: rest =>
    let name := Text.lower name
    overlayMembers (Dict.place name (overlay (Dict.find name old) v) old) rest

end

/-- The position of an item in an array of so many; none before its start. -/
def position? (index : Int) (length : Nat) : Option Nat :=
  match index with
  | .ofNat i => some i
  | .negSucc i => if i < length then some (length - (i + 1)) else none

/-- Changes one item of an array, which is filled up with nulls if it is too short. -/
def changeItem (index : Int) (f : Json → Json) (items : List Json) : List Json :=
  match position? index items.length with
  | some i => (items ++ List.replicate (i + 1 - items.length) Json.null).modify i f
  | none => items

/-- Puts a value at a path. -/
def assign (value : Json) : List Step → Json → Json
  | [], old => overlay (some old) value
  | [.member name], old =>
    let members := membersOf old
    .object (Dict.place name (overlay (Dict.find name members) value) members)
  | [.item index], old => .array (changeItem index (fun _ => value) (itemsOf old))
  | .member name :: s :: rest, old =>
    let members := membersOf old
    .object (Dict.place name (assign value (s :: rest) ((Dict.find name members).getD .null)) members)
  | .item index :: s :: rest, old => .array (changeItem index (assign value (s :: rest)) (itemsOf old))

def assignAll (values : List (String × Json)) (settings : Json) : Json :=
  values.foldl (fun settings (text, value) => assign value (path text) settings) settings

/-! ## Scalars -/

def yesWords : List String := ["true", "on", "yes"]
def noWords : List String := ["false", "off", "no"]

def greatest : Nat := Word.values64 - 1

/-- The natural number nearest to a number, halves upward; nothing below zero, and not more than `greatest`. -/
def nearest (x : Binary64) : Nat :=
  let e := x.magnitude / Word.values52
  let m := x.magnitude % Word.values52 + Word.values52
  if x.isNaN ∨ x.negative ∨ e = 0 then 0
  else if 1139 ≤ e then greatest
  else min greatest (if 1075 ≤ e then m <<< (e - 1075) else ((2 * m) >>> (1075 - e) + 1) / 2)

/-- A natural number up to `greatest`: written, as a word for yes or no, or rounded. -/
def nat? : Json → Option Nat
  | .int i => if 0 ≤ i then some i.toNat else none
  | .float x => some (nearest x)
  | .bool b => some b.toNat
  | .text t =>
    let word := Text.lower t
    if yesWords.contains word then some 1
    else if noWords.contains word then some 0
    else (Numeral.written? t).filter (decide <| · ≤ greatest)
  | _ => none

def natBelow? (bound : Nat) (v : Json) : Option Nat := (nat? v).filter (decide <| · < bound)

def bool? : Json → Option Bool
  | .bool b => some b
  | .int i => some (i ≠ 0)
  | .float x => some (x.isNaN || x.magnitude ≠ 0)
  | .text t =>
    let word := Text.lower t
    if word = "1" ∨ yesWords.contains word then some true
    else if word = "0" ∨ noWords.contains word then some false
    else none
  | _ => none

/-- A text; numbers and truth values are taken in their written form. -/
def text? : Json → Option String
  | .text t => some t
  | .bool b => some (if b then "true" else "false")
  | .int i => some (Numeral.ofInt i).text
  | .float x => some (x.text Decimal.positional)
  | _ => none

/-- The fields of a structure, written as an object or as the array of at least `required` of them. -/
def fields? (names : List String) (required : Nat) : Json → Option (Dict Json)
  | .object members => some (Dict.ofList members)
  | .array items => if required ≤ items.length then some (Dict.ofList (names.zip items)) else none
  | _ => none

def optional? {α : Type} (read : Json → Option α) : Option Json → Option (Option α)
  | none => some none
  | some .null => some none
  | some v => (read v).map some

def defaulted? {α : Type} (read : Json → Option α) (value : α) : Option Json → Option α
  | none => some value
  | some v => read v

end Placement.Settings
