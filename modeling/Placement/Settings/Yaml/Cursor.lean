/-!
Places in the text of a document.

A `Cursor` knows what is left of the text and where it stands: the line, the column, and whether only blanks
stand before it on its line. Blanks are spaces and tabs; a line ends at a line feed, at a carriage return, or
at both together.
-/

namespace Placement.Yaml

def isBlank (c : Char) : Bool := c = ' ' || c = '\t'

def isBreak (c : Char) : Bool := c = '\n' || c = '\r'

def isMark (c : Char) : Bool := c = ',' || c = '[' || c = ']' || c = '\x7b' || c = '\x7d'

def endsWord : List Char → Bool
  | [] => true
  | c :: _ => isBlank c || isBreak c

structure Cursor where
  rest : List Char
  /-- The number of characters of the whole text; no walk through it takes more steps. -/
  size : Nat
  /-- The number of characters before. -/
  index : Nat := 0
  line : Nat := 0
  column : Nat := 0
  /-- Whether only blanks stand before on the line. -/
  isFresh : Bool := true
deriving DecidableEq, Repr

namespace Cursor

def ofList (cs : List Char) : Cursor := { rest := cs, size := cs.length }

def atLineEnd (c : Cursor) : Bool :=
  match c.rest with
  | [] => true
  | x :: _ => isBreak x

def skip (count : Nat) (c : Cursor) : Cursor :=
  { c with
    rest := c.rest.drop count
    index := c.index + count
    column := c.column + count
    isFresh := c.isFresh && count = 0 }

def skipBlanks (count : Nat) (c : Cursor) : Cursor := { c.skip count with isFresh := c.isFresh }

def skipBreak (c : Cursor) : Cursor :=
  let past (count : Nat) : Cursor :=
    { rest := c.rest.drop count, size := c.size, index := c.index + count, line := c.line + 1 }
  match c.rest with
  | '\r' :: '\n' :: _ => past 2
  | x :: _ => if isBreak x then past 1 else c
  | [] => c

/-- The characters up to the first that is not of the kind, and the place after them. -/
def word (kind : Char → Bool) (c : Cursor) : List Char × Cursor :=
  let cs := c.rest.takeWhile kind
  (cs, c.skip cs.length)

def skipLine (c : Cursor) : Cursor := (c.word fun x => !isBreak x).2

/-- What was found between a word and the next one on its line. -/
structure Gap where
  tabs : Bool
  spaces : Bool
deriving DecidableEq, Repr

/-- Past spaces, tabs if they count, and a comment, which needs a blank before it. -/
def gap? (withTabs : Bool) (c : Cursor) : Option (Gap × Cursor) :=
  let blanks := c.rest.takeWhile fun x => x = ' ' || (withTabs && x = '\t')
  let found : Gap := { tabs := blanks.contains '\t', spaces := blanks.contains ' ' }
  let c := c.skipBlanks blanks.length
  match c.rest with
  | '#' :: _ => if blanks = [] then none else some (found, c.skipLine)
  | _ => some (found, c)

def startsWith (mark : Char) (c : Cursor) : Bool :=
  match c.rest with
  | x :: y :: z :: rest => c.column = 0 && x = mark && y = mark && z = mark && endsWord rest
  | _ => false

def atDocumentMark (c : Cursor) : Bool := c.startsWith '-' || c.startsWith '.'

end Cursor

end Placement.Yaml
