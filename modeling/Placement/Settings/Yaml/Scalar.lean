import Placement.Json

/-!
What words stand for.

A word without quotes is null, a truth value or a number if it looks like one, and a text otherwise. Integers
have sixty-four bits, may be hexadecimal or octal, and may have one more plus sign in front than other readers
of numbers allow. A tag says what a word has to be, and a word that is not that is null.
-/

namespace Placement.Yaml

/-- The digits in a base; none if there are no digits or another character. -/
def radix? (base : Nat) (digits : List Char) : Option Nat :=
  if digits = [] then none
  else digits.foldlM (fun n c => do
    let d ← Json.Token.hexDigit? c
    if d < base then return n * base + d else none) 0

def integer? (negative : Bool) (base : Nat) (digits : List Char) : Option Int := do
  let n ← radix? base digits
  if negative then if n ≤ Word.values63 then return -(n : Int) else none
  else if n < Word.values63 then return n else none

def signed? (base : Nat) : List Char → Option Int
  | '-' :: rest => integer? true base rest
  | '+' :: rest => integer? false base rest
  | cs => integer? false base cs

def exponent? : List Char → Option Int
  | '-' :: rest => (radix? 10 rest).map fun n => -(n : Int)
  | '+' :: rest => (radix? 10 rest).map Int.ofNat
  | cs => (radix? 10 cs).map Int.ofNat

/-- The number `digits` times ten to the power of `exponent`; of so many digits, so many zeros after the
greatest number are past all of them, and so many before the least. -/
def scaled (digits : Nat) (length : Nat) (exponent : Int) : Float :=
  if digits = 0 then 0.0
  else if 400 < exponent then 1.0 / 0.0
  else if exponent + length < -400 then 0.0
  else Float.ofScientific digits (decide (exponent < 0)) exponent.natAbs

/-- A decimal number with a fraction or an exponent or both; digits may be missing on one side of the point. -/
def decimal? (cs : List Char) : Option Float := do
  let whole := cs.takeWhile Numeral.isDigit
  let cs := cs.dropWhile Numeral.isDigit
  let (fraction, cs) := match cs with
    | '.' :: rest => (rest.takeWhile Numeral.isDigit, rest.dropWhile Numeral.isDigit)
    | cs => ([], cs)
  if whole = [] ∧ fraction = [] then none
  let exponent ← match cs with
    | [] => some 0
    | c :: rest => if c = 'e' ∨ c = 'E' then exponent? rest else none
  let digits := whole ++ fraction
  return scaled (Numeral.natural digits) digits.length (exponent - fraction.length)

def named? (word : String) : Option Float :=
  if word = "inf" ∨ word = "infinity" then some (1.0 / 0.0)
  else if word = "nan" then some (0.0 / 0.0)
  else none

def float? (cs : List Char) : Option Float :=
  let read (cs : List Char) := (decimal? cs).or (named? (String.ofList (cs.map Char.toLower)))
  match cs with
  | '-' :: rest => (read rest).map Float.neg
  | '+' :: rest => read rest
  | cs => read cs

def unreadable : List String :=
  [".inf", ".Inf", ".INF", "+.inf", "+.Inf", "+.INF", "-.inf", "-.Inf", "-.INF", ".nan", ".NAN"]

def wordInteger? (cs : List Char) : Option Int :=
  let marked := match cs with
    | '0' :: 'x' :: digits => signed? 16 digits
    | '0' :: 'o' :: digits => signed? 8 digits
    | '+' :: digits => signed? 10 digits
    | _ => none
  marked.or (signed? 10 cs)

/-- The number a word looks like; none for an unreadable one. -/
def number? (cs : List Char) : Option Json :=
  if unreadable.contains (String.ofList cs) then none
  else (float? cs).map fun x => .float (Binary64.ofFloat x)

def plain? (cs : List Char) : Option Json :=
  let text := String.ofList cs
  match wordInteger? cs with
  | some i => some (.int i)
  | none =>
    if cs = [] ∨ text = "~" ∨ text = "null" then some .null
    else if text = "true" then some (.bool true)
    else if text = "false" then some (.bool false)
    else if unreadable.contains text then none
    else some ((number? cs).getD (.text text))

/-- A tag: what it belongs to, and its name there. -/
structure Tag where
  handle : String
  suffix : String
deriving DecidableEq, Repr

def coreHandle : String := "tag:yaml.org,2002:"

def tagged? (tag : Option Tag) (cs : List Char) : Option Json :=
  match tag with
  | none => plain? cs
  | some tag =>
    let text := String.ofList cs
    if tag.handle ≠ coreHandle then some (.text text)
    else
      match tag.suffix with
      | "bool" => some (if text = "true" then .bool true else if text = "false" then .bool false else .null)
      | "int" => some (((signed? 10 cs).map Json.int).getD .null)
      | "float" => if unreadable.contains text then none else some ((number? cs).getD .null)
      | "null" => some .null
      | _ => some (.text text)

end Placement.Yaml
