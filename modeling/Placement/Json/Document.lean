import Placement.Json.Token

/-!
JSON text as a tree.

A document keeps everything the text says: members in their order and repeated names, the digits of
numbers, and texts that are none. What of it matters is for its reader to say. Documents are read by a
machine that takes one token at a time and keeps the arrays and objects it is inside of, so that no depth of
nesting is too much for it.
-/

namespace Placement.Json

open Utf8 (Symbol)

inductive Document
  | null
  | bool (b : Bool)
  | number (n : Numeral)
  /-- A text, or `none` for quotes that hold no text. -/
  | text (t : Option String)
  | array (items : List Document)
  | object (members : List (Option String × Document))
deriving Repr

namespace Document

/-- An array or object that is being read, with what it has so far, the latest first. -/
inductive Frame
  | array (items : List Document)
  /-- An object, with the name of the member whose value comes next. -/
  | object (members : List (Option String × Document)) (name : Option String)

inductive Turn
  | value
  /-- A value, or the end of an array that has none yet. -/
  | firstItem
  /-- A name, or the end of an object that has none yet. -/
  | firstName
  | name
  | colon
  /-- What follows a value. -/
  | after (d : Document)

/-- Where reading stands: the arrays and objects around it, the innermost first, and what comes next. -/
structure Reader where
  frames : List Frame := []
  turn : Turn := .value

def begin (frames : List Frame) : Token → Option Reader
  | .null => some ⟨frames, .after .null⟩
  | .bool b => some ⟨frames, .after (.bool b)⟩
  | .number n => some ⟨frames, .after (.number n)⟩
  | .text t => some ⟨frames, .after (.text t)⟩
  | .openArray => some ⟨frames, .firstItem⟩
  | .openObject => some ⟨frames, .firstName⟩
  | _ => none

def follow (d : Document) : List Frame → Token → Option Reader
  | .array items :: frames, .comma => some ⟨.array (d :: items) :: frames, .value⟩
  | .array items :: frames, .closeArray => some ⟨frames, .after (.array (d :: items).reverse)⟩
  | .object members name :: frames, .comma => some ⟨.object ((name, d) :: members) none :: frames, .name⟩
  | .object members name :: frames, .closeObject => some ⟨frames, .after (.object ((name, d) :: members).reverse)⟩
  | _, _ => none

def Reader.step (r : Reader) (t : Token) : Option Reader :=
  match r.turn, r.frames, t with
  | .value, frames, t => begin frames t
  | .firstItem, frames, .closeArray => some ⟨frames, .after (.array [])⟩
  | .firstItem, frames, t => begin (.array [] :: frames) t
  | .firstName, frames, .closeObject => some ⟨frames, .after (.object [])⟩
  | .firstName, frames, .text name => some ⟨.object [] name :: frames, .colon⟩
  | .name, .object members _ :: frames, .text name => some ⟨.object members name :: frames, .colon⟩
  | .colon, frames, .colon => some ⟨frames, .value⟩
  | .after d, frames, t => follow d frames t
  | _, _, _ => none

def ofTokens? (tokens : List Token) : Option Document :=
  match tokens.foldlM Reader.step {} with
  | some ⟨[], .after d⟩ => some d
  | _ => none

def ofBytes? (bytes : ByteArray) : Option Document := do ofTokens? (← Token.list? (Utf8.symbols bytes))

end Document

end Placement.Json
