import Placement.Settings.Yaml.Cursor

/-!
Texts written as indented lines.

A bar or an angle bracket announces the lines; after a bar every line break is kept, after an angle bracket
lines are folded unless they start with a blank. What comes next says which of the line breaks at the end are
kept, and how far the lines are indented; without that the first line that is not empty shows it.
-/

namespace Placement.Yaml.Block

/-- Which line breaks at the end of the text are kept. -/
inductive Chomping
  | one
  | none
  | all
deriving DecidableEq, Repr

def chomping? : Char → Option Chomping
  | '+' => some .all
  | '-' => some .none
  | _ => Option.none

/-- What the announcement says: which line breaks are kept, and how far the lines are indented if it does. -/
structure Header where
  chomping : Chomping := .one
  indentation : Option Nat := Option.none
deriving DecidableEq, Repr

/-- The header after the bar or the angle bracket; an indentation of zero is none. -/
def header? (c : Cursor) : Option (Header × Cursor) :=
  match c.rest with
  | x :: rest =>
    match chomping? x with
    | some chomping =>
      match rest with
      | d :: _ =>
        if d = '0' then Option.none
        else if d.isDigit then some ({ chomping, indentation := some (d.toNat - 48) }, c.skip 2)
        else some ({ chomping }, c.skip 1)
      | [] => some ({ chomping }, c.skip 1)
    | Option.none =>
      if x = '0' then Option.none
      else if x.isDigit then
        let indentation := some (x.toNat - 48)
        match rest.head?.bind chomping? with
        | some chomping => some ({ chomping, indentation }, c.skip 2)
        | Option.none => some ({ indentation }, c.skip 1)
      else some ({}, c)
  | [] => some ({}, c)

/-- Past empty lines to the first with something on it after at most `indent` spaces, and how many lines were
empty. As many steps as there are characters are enough. -/
def skipEmpty (indent : Nat) : Nat → Nat → Cursor → Nat × Cursor
  | 0, count, c => (count, c)
  | fuel + 1, count, c =>
    let c := c.skipBlanks ((c.rest.take (indent - c.column)).takeWhile (· = ' ')).length
    if c.rest ≠ [] ∧ c.atLineEnd then skipEmpty indent fuel (count + 1) c.skipBreak else (count, c)

/-- Past empty lines to the first with something else than spaces on it; how many lines were empty, and how many
spaces the longest of them had, this one included. -/
def findIndent : Nat → Nat → Nat → Cursor → Nat × Nat × Cursor
  | 0, count, widest, c => (count, widest, c)
  | fuel + 1, count, widest, c =>
    let c := c.skipBlanks (c.rest.takeWhile (· = ' ')).length
    let widest := max widest c.column
    if c.rest ≠ [] ∧ c.atLineEnd then findIndent fuel (count + 1) widest c.skipBreak else (count, widest, c)

/-- What has been read of the lines. -/
structure Lines where
  /-- The text, the last character first. -/
  text : List Char := []
  /-- Whether the last line has ended. -/
  isBroken : Bool := false
  /-- The empty lines since then. -/
  empty : Nat := 0
  /-- Whether the last line started with a blank. -/
  isIndented : Bool := false

/-- The text with what stands between its last line and one that starts with `first`. -/
def Lines.joined (isFolded : Bool) (first : Char) (l : Lines) : List Char :=
  let breaks := List.replicate l.empty '\n'
  if isFolded ∧ l.isBroken ∧ !l.isIndented ∧ !isBlank first then
    (if l.empty = 0 then [' '] else breaks) ++ l.text
  else breaks ++ (if l.isBroken then ['\n'] else []) ++ l.text

/-- The lines that are indented so far, after those read. As many steps as there are characters are enough. -/
def readLines (isFolded : Bool) (indent : Nat) : Nat → Lines → Cursor → Lines × Cursor
  | 0, l, c => (l, c)
  | fuel + 1, l, c =>
    match c.rest with
    | [] => (l, c)
    | x :: _ =>
      if c.column ≠ indent ∨ (indent = 0 ∧ c.startsWith '.') then (l, c)
      else
        let (line, c) := c.word fun y => !isBreak y
        let l : Lines := { text := line.reverse ++ l.joined isFolded x, isIndented := isBlank x }
        if c.rest = [] then (l, c)
        else
          let (empty, c) := skipEmpty indent (c.size + 1) 0 c.skipBreak
          readLines isFolded indent fuel { l with isBroken := true, empty } c

def Lines.chomped (chomping : Chomping) (isLast : Bool) (l : Lines) : List Char :=
  let one := if chomping = .none then [] else
    (if isLast then ['\n'] else []) ++ (if l.isBroken then ['\n'] else [])
  let all := if chomping = .all then List.replicate l.empty '\n' else []
  (all ++ one ++ l.text).reverse

/-- The text that a bar or an angle bracket announces here, in a block with the indentation `indent`. -/
def read? (isFolded : Bool) (indent : Int) (start : Cursor) : Option (String × Cursor) := do
  let (header, c) ← header? (start.skip 1)
  let (_, c) ← c.gap? true
  if !c.atLineEnd then Option.none
  let isBroken := c.rest ≠ []
  let c := c.skipBreak
  if c.rest.head? = some '\t' then Option.none
  let fuel := c.size + 1
  let (empty, indentation, c) :=
    match header.indentation with
    | some n =>
      let indentation := if 0 ≤ indent then (indent + n).toNat else n
      let (empty, c) := skipEmpty indentation fuel 0 c
      (empty, indentation, c)
    | Option.none =>
      let (empty, widest, c) := findIndent fuel 0 0 c
      (empty, max (max widest (indent + 1).toNat) (if 0 < indent then 1 else 0), c)
  if c.rest = [] then
    let breaks :=
      if header.chomping = .none ∨ c.line = start.line then 0
      else if header.chomping = .all ∧ empty ≠ 0 then empty
      else if isBroken then 1 else 0
    return (String.ofList (List.replicate breaks '\n'), c)
  if c.column < indentation ∧ indent < c.column then Option.none
  let (l, c) := readLines isFolded indentation (c.size + 1) { empty } c
  return (String.ofList (l.chomped header.chomping (c.rest = [] ∧ max indentation 1 ≤ c.column)), c)

end Placement.Yaml.Block
