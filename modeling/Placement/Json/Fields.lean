import Placement.Json

/-!
Documents as structures.

A structure is written as an object, in which every known name stands at most once and other names are
passed over, or as the array of its fields in their order, in which only fields at the end may be missing.
The values of other names need not even be values: only the tree of the document is looked at.
-/

namespace Placement.Json.Document

/-- The members of an object that have known names; none if one of those is repeated or a name is no text. -/
def members? (known : List String) : List (Option String × Document) → Option (Dict Document)
  | [] => some Dict.empty
  | (name, d) :: rest => do
    let name ← name
    let fields ← members? known rest
    if known.contains name then
      if fields.contains name then none else return fields.insert name d
    else return fields

/-- The fields of a structure; written as an array it has at least `required` of them. -/
def fields? (known : List String) (required : Nat) : Document → Option (Dict Document)
  | .object members => members? known members
  | .array items =>
    if required ≤ items.length ∧ items.length ≤ known.length then some (Dict.ofList (known.zip items)) else none
  | _ => none

def bool? : Document → Option Bool
  | .bool b => some b
  | _ => none

def text? : Document → Option String
  | .text t => t
  | _ => none

def isNothing : Document → Bool
  | .null | .object [] => true
  | _ => false

/-- A natural number below the bound, written without fraction and exponent. -/
def nat? (bound : Nat) : Document → Option Nat
  | .number n =>
    match n.int? with
    | some (.ofNat m) => if m < bound then some m else none
    | _ => none
  | _ => none

def list? {α : Type} (read : Document → Option α) : Document → Option (List α)
  | .array items => items.mapM read
  | _ => none

def optional? {α : Type} (read : Document → Option α) : Option Document → Option (Option α)
  | none => some none
  | some .null => some none
  | some d => (read d).map some

def defaulted? {α : Type} (read : Document → Option α) (value : α) : Option Document → Option α
  | none => some value
  | some d => read d

end Placement.Json.Document
