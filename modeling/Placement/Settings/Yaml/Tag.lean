import Placement.Settings.Yaml.Cursor
import Placement.Settings.Yaml.Scalar

/-!
Tags, anchors and directives.

A tag is written after an exclamation mark, with a handle before its name or as a whole between angle brackets;
a directive says what a handle is short for. Characters of tags may be written as escaped bytes, of which
those of one character are read as the digits of a number.
-/

namespace Placement.Yaml

def isWordChar (c : Char) : Bool := c.isAlphanum || c = '_' || c = '-'

def isUriChar (c : Char) : Bool := isWordChar c || "#;/?:@&=+$,_.!~*'()[]%".toList.contains c

def isTagChar (c : Char) : Bool := isUriChar c && !isMark c && c ≠ '!'

def isAnchorChar (c : Char) : Bool := !isBlank c && !isBreak c && !isMark c && c ≠ '\ufeff'

namespace Tag

def byte? : List Char → Option Nat
  | '%' :: a :: b :: _ => do return (← Json.Token.hexDigit? a) * 16 + (← Json.Token.hexDigit? b)
  | _ => none

def width? (byte : Nat) : Option Nat :=
  if byte < 0x80 then some 1
  else if byte < 0xc0 then none
  else if byte < 0xe0 then some 2
  else if byte < 0xf0 then some 3
  else if byte < 0xf8 then some 4
  else none

def code? : Nat → Nat → List Char → Option Nat
  | 0, code, _ => some code
  | more + 1, code, rest => do
    let byte ← byte? rest
    if byte < 0x80 ∨ 0xc0 ≤ byte then none
    code? more (code * 256 + byte) (rest.drop 3)

/-- The escaped character at the front, and how many characters its escapes take. -/
def escaped? (rest : List Char) : Option (Char × Nat) := do
  let first ← byte? rest
  let width ← width? first
  let code ← code? (width - 1) first (rest.drop 3)
  if code.isValidChar then return (Char.ofNat code, 3 * width) else none

/-- The characters of the kind, those of escapes included, put in front of `text`, which has the last character
first. As many steps as there are characters are enough. -/
def uri? (kind : Char → Bool) : Nat → List Char → Cursor → Option (List Char × Cursor)
  | 0, text, c => some (text.reverse, c)
  | fuel + 1, text, c =>
    match c.rest with
    | '%' :: _ => do
      let (x, length) ← escaped? c.rest
      uri? kind fuel (x :: text) (c.skip length)
    | x :: _ => if kind x then uri? kind fuel (x :: text) (c.skip 1) else some (text.reverse, c)
    | [] => some (text.reverse, c)

def uriText? (kind : Char → Bool) (text : List Char) (c : Cursor) : Option (String × Cursor) :=
  (uri? kind (c.size + 1) text c).map fun (text, c) => (String.ofList text, c)

/-- A handle: an exclamation mark, a word, and perhaps another exclamation mark. -/
def handle? (c : Cursor) : Option (String × Cursor) :=
  match c.rest with
  | '!' :: _ =>
    let (name, c) := (c.skip 1).word isWordChar
    match c.rest with
    | '!' :: _ => some (String.ofList ('!' :: name ++ ['!']), c.skip 1)
    | _ => some (String.ofList ('!' :: name), c)
  | _ => none

def isNamed (handle : String) : Bool :=
  match handle.toList with
  | '!' :: rest => rest.getLast? = some '!'
  | _ => false

def read? (c : Cursor) : Option (Tag × Cursor) :=
  match c.rest with
  | '!' :: '<' :: _ => do
    let (suffix, c) ← uriText? isUriChar [] (c.skip 2)
    if c.rest.head? = some '>' then return (⟨"", suffix⟩, c.skip 1) else none
  | _ => do
    let (handle, c) ← handle? c
    if isNamed handle then
      let (suffix, c) ← uriText? isTagChar [] c
      if suffix = "" then none else return (⟨handle, suffix⟩, c)
    else
      let (suffix, c) ← uriText? isTagChar (handle.toList.drop 1).reverse c
      return (if suffix = "" then ⟨"", "!"⟩ else ⟨"!", suffix⟩, c)

def meaning? (c : Cursor) : Option (String × Cursor) :=
  match c.rest with
  | '!' :: _ => uriText? isUriChar ['!'] (c.skip 1)
  | x :: _ => if isTagChar x then uriText? isUriChar [] c else none
  | [] => none

end Tag

/-- A directive: the version of the language, or what a handle of tags is short for. -/
inductive Directive
  | version
  | handle (name meaning : String)
deriving DecidableEq, Repr

namespace Directive

def number? (c : Cursor) : Option Cursor :=
  let (digits, c) := c.word Char.isDigit
  if 0 < digits.length ∧ digits.length ≤ 9 then some c else none

def skipBlanks (c : Cursor) : Cursor := c.skipBlanks (c.rest.takeWhile isBlank).length

/-- What follows the name of a directive; those of other names mean nothing. -/
def value? (name : String) (c : Cursor) : Option (Directive × Cursor) :=
  match name with
  | "YAML" => do
    let c ← number? (skipBlanks c)
    if c.rest.head? ≠ some '.' then none
    return (.version, ← number? (c.skip 1))
  | "TAG" => do
    let (short, c) ← Tag.handle? (skipBlanks c)
    if short ≠ "!" ∧ !Tag.isNamed short then none
    let (meaning, c) ← Tag.meaning? (skipBlanks c)
    if endsWord c.rest then return (.handle short meaning, c) else none
  | _ => some (.handle "" "", c.skipLine)

def read? (c : Cursor) : Option (Directive × Cursor) := do
  let (name, c) := (c.skip 1).word isWordChar
  if name = [] || !endsWord c.rest then none
  let (directive, c) ← value? (String.ofList name) c
  let (_, c) ← c.gap? true
  if c.atLineEnd then return (directive, c.skipBreak) else none

end Directive

end Placement.Yaml
