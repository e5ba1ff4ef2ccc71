import Placement.Json.Token
import Placement.Settings.Yaml.Space

/-!
Texts in quotes.

In single quotes the quote itself is written twice, and nothing else is special. In double quotes there are
escapes; one before a line break makes it stand for nothing. Lines are folded.
-/

namespace Placement.Yaml.Quoted

inductive Quote
  | single
  | double
deriving DecidableEq, Repr

def Quote.char : Quote → Char
  | .single => '\''
  | .double => '"'

def escaped? : Char → Option Char
  | '0' => some '\x00'
  | 'a' => some '\x07'
  | 'v' => some '\x0b'
  | 'e' => some '\x1b'
  | ' ' => some ' '
  | '\t' => some '\t'
  | 'N' => some '\u0085'
  | '_' => some '\u00a0'
  | 'L' => some '\u2028'
  | 'P' => some '\u2029'
  | c => Json.Token.escaped? c

def codeLength? : Char → Option Nat
  | 'x' => some 2
  | 'u' => some 4
  | 'U' => some 8
  | _ => none

def code? (digits : List Char) : Option Nat :=
  digits.foldlM (fun n d => (Json.Token.hexDigit? d).map fun v => n * 16 + v) 0

def character? (n : Nat) : Option Char := if n.isValidChar then some (Char.ofNat n) else none

/-- The character of an escape whose letter is `letter`, with what follows that letter; and how many
characters the escape takes with the backslash. -/
def escape? (letter : Char) (rest : List Char) : Option (Char × Nat) :=
  match codeLength? letter with
  | some length => do
    let digits := rest.take length
    if digits.length < length then none
    return (← character? (← code? digits), length + 2)
  | none => (escaped? letter).map fun c => (c, 2)

/-- The characters up to the next white space or the closing quote, put in front of `text`, which has the last
character first; and whether they end in an escaped line break. As many steps as there are characters are
enough. -/
def word? (quote : Quote) : Nat → List Char → Cursor → Option (List Char × Bool × Cursor)
  | 0, text, c => some (text, false, c)
  | fuel + 1, text, c =>
    if endsWord c.rest then some (text, false, c)
    else
      match quote, c.rest with
      | .single, '\'' :: '\'' :: _ => word? quote fuel ('\'' :: text) (c.skip 2)
      | .single, '\'' :: _ => some (text, false, c)
      | .double, '"' :: _ => some (text, false, c)
      | .double, '\\' :: x :: rest =>
        if isBreak x then some (text, true, (c.skip 1).skipBreak)
        else do
          let (e, length) ← escape? x rest
          word? quote fuel (e :: text) (c.skip length)
      | .double, ['\\'] => none
      | _, x :: _ => word? quote fuel (x :: text) (c.skip 1)
      | _, [] => some (text, false, c)

/-- The text up to the closing quote, after what there is of it so far, the last character first. No line of it
may stand short of the indentation or look like the end of the document. -/
def text? (quote : Quote) (indent : Int) : Nat → List Char → Cursor → Option (List Char × Cursor)
  | 0, _, _ => none
  | fuel + 1, text, c => do
    if c.atDocumentMark || c.rest = [] || (c.column : Int) < indent then none
    let (text, isJoined, c) ← word? quote (c.size + 1) text c
    if c.rest.head? = some quote.char then return (text.reverse, c.skip 1)
    let (s, c) ← Space.read? false indent (c.size + 1) { isBroken := isJoined, isJoined } c
    text? quote indent fuel (s.folded ++ text) c

def read? (quote : Quote) (indent : Int) (c : Cursor) : Option (String × Cursor) :=
  (text? quote indent (c.size + 1) [] (c.skip 1)).map fun (text, c) => (String.ofList text, c)

end Placement.Yaml.Quoted
