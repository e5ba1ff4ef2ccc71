import Placement.Json.Numeral

/-!
The tokens of JSON text.

White space stands between tokens and nowhere else. A text in quotes may hold anything but raw control
characters; its escapes have to be well-formed, but only the use of the text decides whether it has to be
a text at all, so ill-formed bytes and unpaired surrogates are kept as an ill text.
-/

namespace Placement.Json

open Utf8 (Symbol)

inductive Token
  | openObject
  | closeObject
  | openArray
  | closeArray
  | comma
  | colon
  | null
  | bool (b : Bool)
  | number (n : Numeral)
  /-- A text in quotes; `none` if what the quotes hold is no text. -/
  | text (t : Option String)
deriving DecidableEq, Repr

namespace Token

/-- One step inside quotes: a character, a UTF-16 unit given by its number, or an ill-formed byte. -/
inductive Piece
  | char (c : Char)
  | unit (n : Nat)
  | illFormed
deriving DecidableEq, Repr

def hexDigit? (c : Char) : Option Nat :=
  if '0' ≤ c && c ≤ '9' then some (c.toNat - 48)
  else if 'a' ≤ c && c ≤ 'f' then some (c.toNat - 87)
  else if 'A' ≤ c && c ≤ 'F' then some (c.toNat - 55)
  else none

def hex? (a b c d : Char) : Option Nat := do
  return (((← hexDigit? a) * 16 + (← hexDigit? b)) * 16 + (← hexDigit? c)) * 16 + (← hexDigit? d)

def escaped? : Char → Option Char
  | '"' => some '"'
  | '\\' => some '\\'
  | '/' => some '/'
  | 'b' => some '\x08'
  | 'f' => some '\x0c'
  | 'n' => some '\n'
  | 'r' => some '\r'
  | 't' => some '\t'
  | _ => none

def pieces? : List Symbol → Option (List Piece × List Symbol)
  | [] => none
  | some '"' :: rest => some ([], rest)
  | some '\\' :: some 'u' :: some a :: some b :: some c :: some d :: rest => do
    let n ← hex? a b c d
    let (ps, rest) ← pieces? rest
    return (.unit n :: ps, rest)
  | some '\\' :: some e :: rest => do
    let c ← escaped? e
    let (ps, rest) ← pieces? rest
    return (.char c :: ps, rest)
  | some '\\' :: _ => none
  | some c :: rest =>
    if c.toNat < 0x20 then none
    else do
      let (ps, rest) ← pieces? rest
      return (.char c :: ps, rest)
  | none :: rest => do
    let (ps, rest) ← pieces? rest
    return (.illFormed :: ps, rest)

/-- The characters the pieces stand for: a high and a low surrogate unit together make one. -/
def assemble? : List Piece → Option (List Char)
  | [] => some []
  | .char c :: rest => (assemble? rest).map (c :: ·)
  | .unit h :: .unit l :: rest =>
    if 0xd800 ≤ h ∧ h < 0xdc00 then
      if 0xdc00 ≤ l ∧ l < 0xe000 then
        (assemble? rest).map (Char.ofNat (0x10000 + (h - 0xd800) * 0x400 + (l - 0xdc00)) :: ·)
      else none
    else if 0xdc00 ≤ h ∧ h < 0xe000 then none
    else (assemble? (.unit l :: rest)).map (Char.ofNat h :: ·)
  | .unit n :: rest =>
    if 0xd800 ≤ n ∧ n < 0xe000 then none else (assemble? rest).map (Char.ofNat n :: ·)
  | .illFormed :: _ => none

def isSpace (c : Char) : Bool := c = ' ' || c = '\n' || c = '\t' || c = '\r'

def after? : List Char → List Symbol → Option (List Symbol)
  | [], s => some s
  | c :: cs, some d :: s => if c = d then after? cs s else none
  | _ :: _, _ => none

def first? (c : Char) (s : List Symbol) : Option (Token × List Symbol) :=
  match c with
  | '\x7b' => some (.openObject, s)
  | '\x7d' => some (.closeObject, s)
  | '[' => some (.openArray, s)
  | ']' => some (.closeArray, s)
  | ',' => some (.comma, s)
  | ':' => some (.colon, s)
  | 'n' => (after? "ull".toList s).map fun rest => (.null, rest)
  | 't' => (after? "rue".toList s).map fun rest => (.bool true, rest)
  | 'f' => (after? "alse".toList s).map fun rest => (.bool false, rest)
  | '"' => (pieces? s).map fun (ps, rest) => (.text ((assemble? ps).map String.ofList), rest)
  | c => (Numeral.read? (some c :: s)).map fun (n, rest) => (.number n, rest)

/-- The tokens, one after another; every step goes on with fewer symbols than it was given, so as many
steps as there are symbols are enough. -/
def listWithin : Nat → List Symbol → Option (List Token)
  | _, [] => some []
  | 0, _ :: _ => none
  | _ + 1, none :: _ => none
  | fuel + 1, some c :: rest =>
    if isSpace c then listWithin fuel rest
    else
      match first? c rest with
      | none => none
      | some (t, rest) => (listWithin fuel rest).map (t :: ·)

/-- The tokens of the symbols, if they are nothing but tokens and white space. -/
def list? (s : List Symbol) : Option (List Token) := listWithin s.length s

/-! ## Written forms -/

def hexDigit (n : Nat) : Char := if n < 10 then Char.ofNat (48 + n) else Char.ofNat (87 + n)

/-- The character inside quotes: escaped if it is a quote, a backslash or a control character below 0x20. -/
def escape (c : Char) : List Char :=
  match c with
  | '"' => ['\\', '"']
  | '\\' => ['\\', '\\']
  | '\x08' => ['\\', 'b']
  | '\x0c' => ['\\', 'f']
  | '\n' => ['\\', 'n']
  | '\r' => ['\\', 'r']
  | '\t' => ['\\', 't']
  | c => if c.toNat < 0x20 then ['\\', 'u', '0', '0', hexDigit (c.toNat / 16), hexDigit (c.toNat % 16)] else [c]

/-- The characters of a token; an ill text is an unpaired surrogate. -/
def chars : Token → List Char
  | openObject => ['\x7b']
  | closeObject => ['\x7d']
  | openArray => ['[']
  | closeArray => [']']
  | comma => [',']
  | colon => [':']
  | null => "null".toList
  | bool true => "true".toList
  | bool false => "false".toList
  | number n => n.chars
  | text (some t) => '"' :: (t.toList.flatMap escape ++ ['"'])
  | text none => "\"\\ud800\"".toList

end Token

end Placement.Json
