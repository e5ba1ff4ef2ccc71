/-!
Written numbers, part by part.

A numeral keeps its digits as they are written, so nothing of it is lost before its use is known.
-/

namespace Placement

/-- The parts of a written number; the exponent has a sign of its own. -/
structure Numeral where
  negative : Bool := false
  whole : List Char
  fraction : Option (List Char) := none
  exponent : Option (Bool × List Char) := none
deriving DecidableEq, Repr

namespace Numeral

def isDigit (c : Char) : Bool := '0' ≤ c && c ≤ '9'

def digit (c : Char) : Nat := c.toNat - 48

def natural (digits : List Char) : Nat := digits.foldl (fun n c => 10 * n + digit c) 0

def written? (s : String) : Option Nat :=
  let digits := match s.toList with
    | '+' :: rest => rest
    | cs => cs
  if digits ≠ [] ∧ digits.all isDigit then some (natural digits) else none

def ofInt (i : Int) : Numeral := { negative := decide (i < 0), whole := Nat.toDigits 10 i.natAbs }

/-- The characters of a numeral: a sign only if it is negative, the point before the fraction, and the
letter `e` before the exponent. -/
def chars (n : Numeral) : List Char :=
  (if n.negative then ['-'] else []) ++ n.whole ++
    (match n.fraction with
      | some digits => '.' :: digits
      | none => []) ++
    (match n.exponent with
      | some (negative, digits) => 'e' :: ((if negative then ['-'] else []) ++ digits)
      | none => [])

def text (n : Numeral) : String := String.ofList n.chars

end Numeral

end Placement
