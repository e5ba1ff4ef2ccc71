import Placement.Decimal.Shortest
import Placement.Dict
import Placement.Json.Document

/-!
JSON values.

A value is a document in which everything has a meaning: every text is one, every number has a value, and
arrays and objects are not nested too deeply. Of two members with one name the later counts, and members are
held in the order of their names. `Json.render` writes a value without white space.
-/

namespace Placement

inductive Json
  | null
  | bool (b : Bool)
  | int (i : Int)
  | float (x : Binary64)
  | text (t : String)
  | array (items : List Json)
  | object (members : List (String × Json))
deriving Repr, Inhabited

namespace Json

def ofNumber : Number → Json
  | .int i => .int i
  | .float x => .float x

mutual

/-- The value of a document in which arrays and objects are nested at most so many levels deep. -/
def ofDocument? (levels : Nat) : Document → Option Json
  | .null => some .null
  | .bool b => some (.bool b)
  | .number n => n.value?.map ofNumber
  | .text t => t.map .text
  | .array items => if levels = 0 then none else (ofItems? (levels - 1) items).map .array
  | .object members => if levels = 0 then none else (ofMembers? (levels - 1) members).map .object

def ofItems? (levels : Nat) : List Document → Option (List Json)
  | [] => some []
  | d :: rest => do return (← ofDocument? levels d) :: (← ofItems? levels rest)

/-- The members of an object in the order of their names, the last of each name. -/
def ofMembers? (levels : Nat) : List (Option String × Document) → Option (List (String × Json))
  | [] => some []
  | (name, d) :: rest => do
    let name ← name
    let value ← ofDocument? levels d
    let members ← ofMembers? levels rest
    return if (Dict.find name members).isSome then members else Dict.place name value members

end

def levels : Nat := 127

def ofBytes? (bytes : ByteArray) : Option Json := do ofDocument? levels (← Document.ofBytes? bytes)

/-! ## Written form -/

/-- The numeral of a binary64 number; infinities and NaNs have none. -/
def numeral? (x : Binary64) : Option Numeral := x.numeral? Decimal.scientific

mutual

def tokens : Json → List Token
  | .null => [.null]
  | .bool b => [.bool b]
  | .int i => [.number (.ofInt i)]
  | .float x =>
    match numeral? x with
    | some n => [.number n]
    | none => [.null]
  | .text t => [.text (some t)]
  | .array items => .openArray :: (itemTokens items ++ [.closeArray])
  | .object members => .openObject :: (memberTokens members ++ [.closeObject])

def itemTokens : List Json → List Token
  | [] => []
  | [v] => tokens v
  | v :: rest => tokens v ++ .comma :: itemTokens rest

def memberTokens : List (String × Json) → List Token
  | [] => []
  | [(name, v)] => .text (some name) :: .colon :: tokens v
  | (name, v) :: rest => .text (some name) :: .colon :: (tokens v ++ .comma :: memberTokens rest)

end

def render (v : Json) : String := String.ofList (v.tokens.flatMap Token.chars)

def toBytes (v : Json) : ByteArray := v.render.toUTF8

/-! ## Members and items -/

def get? (name : String) : Json → Option Json
  | object members => Dict.find name members
  | _ => none

def ofDict (d : Dict Json) : Json := .object d.toList

def ofRecord (r : Dict String) : Json := ofDict (r.map fun _ t => .text t)

def ofTexts (texts : List String) : Json := .array (texts.map .text)

end Json

end Placement
