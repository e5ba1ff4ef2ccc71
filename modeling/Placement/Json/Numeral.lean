import Placement.Binary64
import Placement.Decimal.Numeral
import Placement.Text.Utf8
import Placement.Word

/-!
Numbers as JSON writes them.

A numeral is an integer if it has no fraction and no exponent, is not -0, and fits sixty-four bits with or
without a sign; otherwise it is a binary64 number. That number takes up as many digits as sixty-four bits
hold, drops the others, and is then scaled by a power of ten with one rounding for each step; a numeral too
large for it has no value.
-/

namespace Placement

open Utf8 (Symbol)

/-- The number a numeral stands for. -/
inductive Number
  | int (i : Int)
  | float (x : Binary64)
deriving DecidableEq, Repr

namespace Numeral

def spanDigits : List Symbol → List Char × List Symbol
  | some c :: rest =>
    if isDigit c then
      let (digits, rest') := spanDigits rest
      (c :: digits, rest')
    else ([], some c :: rest)
  | rest => ([], rest)

def someDigits? (s : List Symbol) : Option (List Char × List Symbol) :=
  match spanDigits s with
  | ([], _) => none
  | r => some r

def fraction? : List Symbol → Option (Option (List Char) × List Symbol)
  | some '.' :: rest => do
    let (digits, rest') ← someDigits? rest
    return (some digits, rest')
  | rest => some (none, rest)

def exponent? : List Symbol → Option (Option (Bool × List Char) × List Symbol)
  | some c :: rest =>
    if c = 'e' ∨ c = 'E' then do
      let (negative, rest) := match rest with
        | some '-' :: rest => (true, rest)
        | some '+' :: rest => (false, rest)
        | rest => (false, rest)
      let (digits, rest') ← someDigits? rest
      return (some (negative, digits), rest')
    else some (none, some c :: rest)
  | rest => some (none, rest)

def unsigned? (s : List Symbol) : Option (Numeral × List Symbol) := do
  let (whole, s) ← someDigits? s
  if whole.head? = some '0' ∧ whole.length ≠ 1 then none
  else
    let (fraction, s) ← fraction? s
    let (exponent, s) ← exponent? s
    return ({ whole, fraction, exponent }, s)

def read? : List Symbol → Option (Numeral × List Symbol)
  | some '-' :: rest => (unsigned? rest).map fun (n, rest) => ({ n with negative := true }, rest)
  | rest => unsigned? rest

def int? (n : Numeral) : Option Int :=
  match n.fraction, n.exponent with
  | none, none =>
    let value := natural n.whole
    if n.negative then if value ≠ 0 ∧ value ≤ Word.values63 then some (-(value : Int)) else none
    else if value < Word.values64 then some value else none
  | _, _ => none

/-! ## The binary64 number of a numeral -/

/-- Takes digits into a significand while it fits sixty-four bits; with the number of digits taken. -/
def takeUp (significand : Nat) : List Char → Nat × Nat
  | [] => (significand, 0)
  | c :: rest =>
    if 10 * significand + digit c < Word.values64 then
      let (s, taken) := takeUp (10 * significand + digit c) rest
      (s, taken + 1)
    else (significand, 0)

def powerOfTen (n : Nat) : Float := Float.ofScientific 1 false n

def scale : Nat → Float → Int → Option Float
  | 0, x, _ => some x
  | fuel + 1, x, e =>
    if e.natAbs ≤ 308 then
      if 0 ≤ e then
        let y := x * powerOfTen e.natAbs
        if y.isInf then none else some y
      else some (x / powerOfTen e.natAbs)
    else if x == 0 then some x
    else if 0 ≤ e then none
    else scale fuel (x / powerOfTen 308) (e + 308)

def exponentValue (n : Numeral) : Int :=
  match n.exponent with
  | none => 0
  | some (negative, digits) =>
    let e : Int := (min (natural digits) Word.values32 : Nat)
    if negative then -e else e

/-- The binary64 number of a numeral, if it is not too large. -/
def float? (n : Numeral) : Option Float := do
  let (whole, taken) := takeUp 0 n.whole
  let dropped := n.whole.length - taken
  let (significand, decimals) := takeUp whole (n.fraction.getD [])
  let x ← scale 4 (UInt64.ofNat significand).toFloat (n.exponentValue + dropped - decimals)
  return if n.negative then -x else x

def value? (n : Numeral) : Option Number :=
  match n.int? with
  | some i => some (.int i)
  | none => n.float?.map fun x => .float (Binary64.ofFloat x)

end Numeral

end Placement
