import Placement.Settings.Yaml.Block
import Placement.Settings.Yaml.Quoted
import Placement.Settings.Yaml.Tag

/-!
The tokens of a document.

Outside of brackets the structure is in the columns: a list or a mapping starts where its first item or name
stands, and ends before the first line that stands further to the left. A name is recognized only by the colon
after it, so its start is noted, and the colon puts the tokens that were missing in front of it. A start is
forgotten on the next line, and a name that had to be one is at fault then.
-/

namespace Placement.Yaml

inductive Token
  | directive (d : Directive)
  | documentStart
  | documentEnd
  | listStart
  | mappingStart
  /-- The end of a list or a mapping outside of brackets. -/
  | blockEnd
  | openList
  | closeList
  | openMapping
  | closeMapping
  | item
  | comma
  | name
  | value
  | alias (name : String)
  | anchor (name : String)
  | tag (t : Tag)
  /-- A text, in quotes or as lines. -/
  | text (t : String)
  | plain (cs : List Char)
deriving DecidableEq, Repr

/-- Where a name may have started. -/
structure Start where
  isPossible : Bool := false
  /-- Whether nothing but a name can stand there. -/
  isRequired : Bool := false
  /-- The number of tokens before. -/
  tokens : Nat := 0
  cursor : Cursor := .ofList []

/-- An indentation that ends at a smaller one. -/
structure Indent where
  /-- The indentation outside. -/
  outer : Int
  /-- Whether a list or a mapping ends with it. -/
  isBlock : Bool

structure Lexer where
  cursor : Cursor
  /-- The tokens so far with their columns, the last one first. -/
  tokens : List (Token × Nat) := []
  /-- The number of tokens so far. -/
  count : Nat := 0
  /-- The starts of names, one for each level of brackets, the innermost first. -/
  starts : List Start := [{}]
  /-- Whether a name may start. -/
  mayName : Bool := true
  indent : Int := -1
  indents : List Indent := []
  /-- The number of brackets that are open. -/
  depth : Nat := 0
  /-- The place where a value may touch the colon before it. -/
  touching : Nat := 0
  /-- Whether a mapping in brackets has been opened last. -/
  isInMapping : Bool := false
  /-- For every list in brackets, whether an item is a mapping of one member without brackets of its own. -/
  implied : List Bool := []

namespace Lexer

def pushAt (column : Nat) (t : Token) (l : Lexer) : Lexer :=
  { l with tokens := (t, column) :: l.tokens, count := l.count + 1 }

def push (t : Token) (l : Lexer) : Lexer := l.pushAt l.cursor.column t

def insertAt (before : Nat) (t : Token) (l : Lexer) : Lexer :=
  let later := l.count - before
  { l with tokens := l.tokens.take later ++ (t, 0) :: l.tokens.drop later, count := l.count + 1 }

def setMayName (b : Bool) (l : Lexer) : Lexer := { l with mayName := b }

/-! ## Starts of names -/

def start (l : Lexer) : Start := l.starts.headD {}

def setStart (s : Start) (l : Lexer) : Lexer := { l with starts := s :: l.starts.tail }

def dropStart? (l : Lexer) : Option Lexer :=
  if l.start.isPossible && l.start.isRequired then none else some (l.setStart { l.start with isPossible := false })

def noteStart? (l : Lexer) : Option Lexer :=
  if !l.mayName then some l
  else do
    let isRequired := l.depth = 0 && l.indent = l.cursor.column && (l.indents.head?.map (·.isBlock)).getD false
    let l ← l.dropStart?
    return l.setStart { isPossible := true, isRequired, tokens := l.count, cursor := l.cursor }

def longestName : Nat := 1024

/-- Forgets a start on an earlier line or too far back, unless a name was required. In brackets names may go on. -/
def expire? (l : Lexer) : Option Lexer :=
  let before := l.start.cursor
  if l.depth = 0 ∧ (before.line < l.cursor.line ∨ before.index + longestName < l.cursor.index) then l.dropStart?
  else some l

/-! ## Indentation -/

def endIndents (column : Int) : List Indent → Lexer → Lexer
  | [], l => l
  | i :: rest, l =>
    if column < l.indent then
      let l := { l with indent := i.outer, indents := rest }
      endIndents column rest (if i.isBlock then l.push .blockEnd else l)
    else l

/-- Ends the indentations beyond the column; brackets have none. -/
def dedent (column : Int) (l : Lexer) : Lexer := if 0 < l.depth then l else endIndents column l.indents l

def endPlain (l : Lexer) : Lexer :=
  match l.indents with
  | i :: rest => if i.isBlock then l else { l with indent := i.outer, indents := rest }
  | [] => l

def endAllPlain (l : Lexer) : Lexer := l.indents.foldl (fun l _ => l.endPlain) l

/-- Starts a list or a mapping at the column, if it is further in, where there are so many tokens before. -/
def indentTo (column : Nat) (before : Nat) (t : Token) (l : Lexer) : Lexer :=
  if 0 < l.depth then l
  else
    let l := if l.indent ≤ column then l.endPlain else l
    if l.indent < column then
      { l with indent := column, indents := ⟨l.indent, true⟩ :: l.indents }.insertAt before t
    else l

def indentOne (l : Lexer) : Lexer :=
  match l.indents with
  | i :: _ =>
    if l.depth = 0 ∧ i.isBlock then { l with indent := l.indent + 1, indents := ⟨l.indent, false⟩ :: l.indents }
    else l
  | [] => l

/-! ## White space -/

/-- Past blanks, line breaks and comments; a tab short of the indentation is in place only on a line with
nothing else. As many steps as there are characters are enough. -/
def skipSpace? : Nat → Lexer → Option Lexer
  | 0, l => some l
  | fuel + 1, l =>
    let c := l.cursor
    match c.rest with
    | [] => some l
    | x :: _ =>
      if x = '\t' ∧ !l.indents.isEmpty ∧ c.isFresh ∧ (c.column : Int) < l.indent then
        match c.gap? true with
        | some (_, c) => if c.atLineEnd then skipSpace? fuel { l with cursor := c } else none
        | none => none
      else if isBlank x then skipSpace? fuel { l with cursor := c.skipBlanks 1 }
      else if isBreak x then skipSpace? fuel { l with cursor := c.skipBreak, mayName := l.mayName || l.depth = 0 }
      else if x = '#' then skipSpace? fuel { l with cursor := c.skipLine }
      else some l

/-- Past what separates a question mark from its name: spaces, line breaks and comments, at least one. -/
def skipAfterMark? (found : Bool) : Nat → Lexer → Option Lexer
  | 0, _ => none
  | fuel + 1, l =>
    let c := l.cursor
    match c.rest with
    | [] => if found then some l else none
    | x :: _ =>
      if x = ' ' then skipAfterMark? true fuel { l with cursor := c.skipBlanks 1 }
      else if isBreak x then
        skipAfterMark? true fuel { l with cursor := c.skipBreak, mayName := l.mayName || l.depth = 0 }
      else if x = '#' then skipAfterMark? found fuel { l with cursor := c.skipLine }
      else if found ∧ x ≠ '\t' then some l
      else none

/-- Past the rest of a line that may only hold blanks and a comment, or goes on after blanks. -/
def skipGap? (l : Lexer) : Option Lexer := (l.cursor.gap? true).map fun (_, c) => { l with cursor := c }

/-! ## Brackets -/

def deepest : Nat := 255

def openBracket? (t : Token) (l : Lexer) : Option Lexer := do
  let l := (← l.noteStart?).indentOne
  if l.depth = deepest then none
  let column := l.cursor.column
  let opensMapping := decide (t = .openMapping)
  let l := { l with
    starts := {} :: l.starts
    depth := l.depth + 1
    mayName := true
    cursor := l.cursor.skip 1
    isInMapping := l.isInMapping || opensMapping
    implied := if opensMapping then l.implied else false :: l.implied }
  return (← l.skipGap?).pushAt column t

def endImplied (l : Lexer) : Lexer :=
  match l.implied with
  | true :: rest => { l with isInMapping := false, implied := false :: rest }.push .closeMapping
  | _ => l

def closeBracket? (t : Token) (l : Lexer) : Option Lexer := do
  let l ← l.dropStart?
  let l := if 0 < l.depth then { l with depth := l.depth - 1, starts := l.starts.tail } else l
  let l := l.setMayName false
  let l := if t = .closeList then { l.endImplied with implied := l.implied.tail } else l
  let column := l.cursor.column
  let l ← { l with cursor := l.cursor.skip 1 }.skipGap?
  let l := if 0 < l.depth then { l with touching := l.cursor.index } else l
  return l.pushAt column t

def comma? (l : Lexer) : Option Lexer := do
  let l := ((← l.dropStart?).setMayName true).endImplied
  return (← { l with cursor := l.cursor.skip 1 }.skipGap?).push .comma

/-! ## Items, names and values -/

def item? (l : Lexer) : Option Lexer := do
  if 0 < l.depth || !l.mayName then none
  let isLost := match l.tokens with
    | (.anchor _, 0) :: _ => true
    | (.tag _, 0) :: _ => true
    | _ => false
  if isLost && l.cursor.column = 0 && -1 < l.indent then none
  let l := { l with cursor := l.cursor.skip 1 }.indentTo l.cursor.column l.count .listStart
  let (found, c) ← l.cursor.gap? true
  match c.rest with
  | '-' :: rest => if found.tabs && endsWord rest then none
  | _ => pure ()
  let l := { l with cursor := c }
  let indents := match c.rest with
    | x :: _ => isBreak x || isMark x
    | [] => false
  let l := if indents then l.indentOne else l
  return ((← l.dropStart?).setMayName true).push .item

def mark? (l : Lexer) : Option Lexer := do
  let column := l.cursor.column
  if l.depth = 0 && !l.mayName then none
  let l := if l.depth = 0 then l.indentTo column l.count .mappingStart else { l with isInMapping := true }
  let l := (← l.dropStart?).setMayName (l.depth = 0)
  let l ← skipAfterMark? false (l.cursor.size + 1) { l with cursor := l.cursor.skip 1 }
  return l.pushAt column .name

def colon? (l : Lexer) : Option Lexer := do
  let start := l.start
  let here := l.cursor
  let isImplied := l.implied ≠ [] && !l.isInMapping
  let l := if isImplied then { l with implied := true :: l.implied.tail } else l
  let c := l.cursor.skip 1
  let c ← match c.rest with
    | '\t' :: _ =>
      match c.gap? true with
      | some (found, c) =>
        if !found.spaces && ((c.rest.head?.map isWordChar).getD false) then none else some c
      | none => none
    | _ => some c
  let l := { l with cursor := c }
  if start.isPossible then
    if isImplied && start.cursor.line < here.line then none
    let l := l.insertAt start.tokens .name
    let l := if isImplied then l.insertAt start.tokens .openMapping else l
    let l := (l.indentTo start.cursor.column start.tokens .mappingStart).indentOne
    return ((l.setStart { l.start with isPossible := false }).setMayName false).push .value
  else
    let l := if isImplied then l.push .openMapping else l
    if l.depth = 0 && !l.mayName then none
    let l := if l.depth = 0 then l.indentTo here.column l.count .mappingStart else l
    return (l.indentOne.setMayName (l.depth = 0)).push .value

/-! ## Words -/

def anchor? (make : String → Token) (l : Lexer) : Option Lexer := do
  let l := (← l.noteStart?).setMayName false
  let column := l.cursor.column
  let (name, c) := (l.cursor.skip 1).word isAnchorChar
  if name = [] then none
  return { l with cursor := c }.pushAt column (make (String.ofList name))

def tag? (l : Lexer) : Option Lexer := do
  let l := (← l.noteStart?).setMayName false
  let column := l.cursor.column
  let (tag, c) ← Tag.read? l.cursor
  let mayEnd := endsWord c.rest || (0 < l.depth && ((c.rest.head?.map isMark).getD false))
  if !mayEnd then none
  return { l with cursor := c }.pushAt column (.tag tag)

def block? (isFolded : Bool) (l : Lexer) : Option Lexer := do
  let l := ((← l.noteStart?).setMayName true).endAllPlain
  let (text, c) ← Block.read? isFolded l.indent l.cursor
  return { l with cursor := c }.push (.text text)

def quoted? (quote : Quoted.Quote) (l : Lexer) : Option Lexer := do
  let l := (← l.noteStart?).setMayName false
  let line := l.cursor.line
  let (text, c) ← Quoted.read? quote l.indent l.cursor
  let (_, c) ← c.gap? true
  let mayFollow := match c.rest with
    | ':' :: _ => 0 < l.depth || line = c.line
    | x :: _ => isBreak x || (0 < l.depth && (x = ',' || x = '\x7d' || x = ']'))
    | [] => true
  if !mayFollow then none
  let l ← skipSpace? (c.size + 1) { l with cursor := c }
  return { l with touching := l.cursor.index }.push (.text text)

/-- Whether the character at the front can be part of a word without quotes. -/
def isPlainAt (inBrackets : Bool) : List Char → Bool
  | [] => false
  | ':' :: rest => !(endsWord rest || (inBrackets && ((rest.head?.map isMark).getD false)))
  | x :: _ => !(isBlank x || isBreak x || (inBrackets && isMark x))

/-- The length of the word without quotes at the front, after so many characters of it. -/
def plainLength (inBrackets : Bool) (count : Nat) : List Char → Nat
  | [] => count
  | x :: rest => if isPlainAt inBrackets (x :: rest) then plainLength inBrackets (count + 1) rest else count

/-- A text without quotes, after what there is of it so far, the last character first, and white space. As many
steps as there are characters are enough. -/
def plainText? (inBrackets : Bool) (indent : Int) :
    Nat → List Char → Space → Cursor → Option (List Char × Cursor)
  | 0, _, _, _ => none
  | fuel + 1, text, s, c => do
    let isLost := match c.rest with
      | '-' :: x :: _ => inBrackets && isMark x
      | _ => false
    if isLost then none
    let isOver := c.atDocumentMark || c.rest.head? = some '#'
    let length := if isOver then 0 else plainLength inBrackets 0 c.rest
    let text := if length = 0 then text else (c.rest.take length).reverse ++ (s.folded ++ text)
    let c := c.skip length
    if isOver || !(c.rest ≠ [] && endsWord c.rest) then return (text.reverse, c)
    let (s, c) ← Space.read? true indent (c.size + 1) {} c
    if !inBrackets ∧ (c.column : Int) < indent then return (text.reverse, c)
    plainText? inBrackets indent fuel text s c

def plain? (l : Lexer) : Option Lexer := do
  let l := ((← l.noteStart?).setMayName false).endAllPlain
  let indent := l.indent + 1
  let column := l.cursor.column
  if 0 < l.depth ∧ (column : Int) < indent then none
  let (text, c) ← plainText? (0 < l.depth) indent (l.cursor.size + 1) [] {} l.cursor
  if text = [] then none
  return { l with cursor := c, mayName := c.isFresh }.pushAt column (.plain text)

/-! ## Documents -/

def endAll? (l : Lexer) : Option Lexer := do return (← (l.dedent (-1)).dropStart?).setMayName false

def directive? (l : Lexer) : Option Lexer := do
  let l ← l.endAll?
  let (d, c) ← Directive.read? l.cursor
  return { l with cursor := c }.push (.directive d)

def document? (t : Token) (l : Lexer) : Option Lexer := do
  let l := (← l.endAll?).push t
  let l := { l with cursor := l.cursor.skip 3 }
  if t = .documentStart then return l
  let l ← l.skipGap?
  if l.cursor.atLineEnd then return l else none

def finish? (l : Lexer) : Option Lexer :=
  if l.starts.any fun s => s.isPossible && s.isRequired then none else some (l.dedent (-1))

def take? (x : Char) (rest : List Char) (l : Lexer) : Option Lexer :=
  let inBrackets := decide (0 < l.depth)
  let nextIsMark := (rest.head?.map isMark).getD false
  match x with
  | '[' => l.openBracket? .openList
  | '\x7b' => l.openBracket? .openMapping
  | ']' => l.closeBracket? .closeList
  | '\x7d' => l.closeBracket? .closeMapping
  | ',' => l.comma?
  | '-' => if endsWord rest then l.item? else l.plain?
  | '?' => if endsWord rest then l.mark? else l.plain?
  | ':' =>
    if endsWord rest || (inBrackets && (nextIsMark || l.cursor.index = l.touching)) then l.colon? else l.plain?
  | '*' => l.anchor? .alias
  | '&' => l.anchor? .anchor
  | '!' => l.tag?
  | '|' => if inBrackets then l.plain? else l.block? false
  | '>' => if inBrackets then l.plain? else l.block? true
  | '\'' => l.quoted? .single
  | '"' => l.quoted? .double
  | '%' => none
  | '@' => none
  | x => if x.toNat = 96 then none else l.plain?

/-- Takes the next token, with those that it puts in front of itself; none are left at the end of the text. -/
def step? (l : Lexer) : Option (Bool × Lexer) := do
  let l ← skipSpace? (l.cursor.size + 1) l
  let l := (← l.expire?).dedent l.cursor.column
  match l.cursor.rest with
  | [] => return (true, ← l.finish?)
  | x :: rest =>
    if l.cursor.column = 0 ∧ x = '%' then return (false, ← l.directive?)
    else if l.cursor.startsWith '-' then return (false, ← l.document? .documentStart)
    else if l.cursor.startsWith '.' then return (false, ← l.document? .documentEnd)
    else if (l.cursor.column : Int) < l.indent then none
    else return (false, ← l.take? x rest)

/-- Takes all tokens; every step takes at least one character, so as many steps as there are characters, and one
for the end, are enough. -/
def run? : Nat → Lexer → Option Lexer
  | 0, _ => none
  | fuel + 1, l =>
    match l.step? with
    | none => none
    | some (true, l) => some l
    | some (false, l) => run? fuel l

end Lexer

def Token.list? (text : String) : Option (List Token) :=
  let cs := text.toList.takeWhile (· ≠ '\x00')
  (Lexer.run? (cs.length + 1) { cursor := .ofList cs }).map fun l => (l.tokens.map (·.1)).reverse

end Placement.Yaml
