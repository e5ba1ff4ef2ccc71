import Placement.Settings.Yaml.Cursor

/-!
White space inside of texts that run over lines.

Blanks between words of a line are kept. Where a line ends, the blanks around the end count for nothing: one
line break becomes a space, and of several all but the first are kept.
-/

namespace Placement.Yaml

structure Space where
  /-- The blanks, the last one first. -/
  blanks : List Char := []
  /-- Whether a line has ended. -/
  isBroken : Bool := false
  /-- The line breaks after the first. -/
  breaks : Nat := 0
  /-- Whether the first line break stands for nothing at all. -/
  isJoined : Bool := false
deriving DecidableEq, Repr

namespace Space

def folded (s : Space) : List Char :=
  if !s.isBroken then s.blanks
  else if s.breaks = 0 then if s.isJoined then [] else [' ']
  else List.replicate s.breaks '\n'

def addBreak (s : Space) : Space := if s.isBroken then { s with breaks := s.breaks + 1 } else { isBroken := true }

/-- The white space up to the next word, after what there is of it so far. A tab short of the indentation
`indent` is in place only on a line with nothing but blanks, if `lenient`, and nowhere otherwise. As many steps
as there are characters are enough. -/
def read? (lenient : Bool) (indent : Int) : Nat → Space → Cursor → Option (Space × Cursor)
  | 0, s, c => some (s, c)
  | fuel + 1, s, c =>
    match c.rest with
    | [] => some (s, c)
    | x :: _ =>
      if isBreak x then read? lenient indent fuel s.addBreak c.skipBreak
      else if !isBlank x then some (s, c)
      else if !s.isBroken then read? lenient indent fuel { s with blanks := x :: s.blanks } (c.skipBlanks 1)
      else if x = '\t' ∧ (c.column : Int) < indent then
        if lenient then
          match c.gap? true with
          | some (_, c) => if c.atLineEnd then read? lenient indent fuel s c else none
          | none => none
        else none
      else read? lenient indent fuel s (c.skipBlanks 1)

end Space

end Placement.Yaml
