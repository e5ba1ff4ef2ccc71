import Placement.Binary64
import Placement.Decimal.Numeral

/-!
The shortest decimal that reads back as a binary64 number.

A finite number is m · 2^q. The reals that round to it form an interval around it, with the ends counted
in iff m is even; the lower half is only half as wide where m is the least significand of its exponent.
For one digit, two digits and so on up to seventeen, the two decimals next to the number are tried; the
first that lies in the interval is the answer, and of two the nearer.
-/

namespace Placement

/-- The decimal `digits` · 10 ^ `exponent`. -/
structure Decimal where
  digits : Nat
  exponent : Int
deriving DecidableEq, Repr

namespace Decimal

def significand (magnitude : Nat) : Nat × Int :=
  let e : Nat := magnitude / Word.values52
  let f : Nat := magnitude % Word.values52
  if e = 0 then (f, -1074) else (f + Word.values52, (e : Int) - 1075)

/-- How far the interval reaches below the number, in quarters of its last place. -/
def reachBelow (magnitude : Nat) : Nat := if magnitude % Word.values52 = 0 ∧ Word.values52 < magnitude then 1 else 2

/-- `d` · 10^`k`, multiplied by what makes it and `ofBinary` with the same exponents whole numbers. -/
def ofDecimal (d : Nat) (k p : Int) : Nat := d * Nat.pow 10 k.toNat * Nat.pow 2 (-p).toNat

def ofBinary (b : Nat) (k p : Int) : Nat := b * Nat.pow 2 p.toNat * Nat.pow 10 (-k).toNat

def roundsTo (magnitude : Nat) (d : Nat) (k : Int) : Bool :=
  let (m, q) := significand magnitude
  let p := q - 2
  let x := ofDecimal d k p
  let low := ofBinary (4 * m - reachBelow magnitude) k p
  let high := ofBinary (4 * m + 2) k p
  if m % 2 = 0 then decide (low ≤ x ∧ x ≤ high) else decide (low < x ∧ x < high)

def quotient (magnitude : Nat) (k : Int) : Nat :=
  let (m, q) := significand magnitude
  ofBinary m k q / ofDecimal 1 k q

/-- The exponent e for which the magnitude is at least 10^(e-1) and less than 10^e. -/
def leading (magnitude : Nat) : Int :=
  let whole := quotient magnitude 0
  if whole ≠ 0 then (Nat.toDigits 10 whole).length
  else
    match (List.range 340).find? fun (j : Nat) => quotient magnitude (-(j : Int)) ≠ 0 with
    | some j => 1 - (j : Int)
    | none => 0

/-- Whether the lower of `d` and `d + 1`, both times 10^`k`, is at least as near to the magnitude. -/
def nearerBelow (magnitude : Nat) (d : Nat) (k : Int) : Bool :=
  let (m, q) := significand magnitude
  decide (2 * ofBinary m k q ≤ ofDecimal (2 * d + 1) k q)

/-- The decimal with the given last place that rounds to the magnitude, if one of the two next to it does. -/
def onGrid (magnitude : Nat) (k : Int) : Option Decimal :=
  let d := quotient magnitude k
  match roundsTo magnitude d k, roundsTo magnitude (d + 1) k with
  | true, true => some ⟨if nearerBelow magnitude d k then d else d + 1, k⟩
  | true, false => some ⟨d, k⟩
  | false, true => some ⟨d + 1, k⟩
  | false, false => none

def dropZeros : Nat → Decimal → Decimal
  | 0, d => d
  | fuel + 1, d =>
    if d.digits ≠ 0 ∧ d.digits % 10 = 0 then dropZeros fuel ⟨d.digits / 10, d.exponent + 1⟩ else d

/-- The shortest decimal that reads back as the finite magnitude. -/
def shortest (magnitude : Nat) : Decimal :=
  if magnitude = 0 then ⟨0, 0⟩
  else
    let e := leading magnitude
    match (List.range 17).findSome? fun (n : Nat) => onGrid magnitude (e - (n + 1)) with
    | some d => dropZeros 20 d
    | none => ⟨0, 0⟩

/-! ## Written forms -/

def positional (d : Decimal) : Numeral :=
  let digits := Nat.toDigits 10 d.digits
  let point : Int := digits.length + d.exponent
  if d.digits = 0 then { whole := ['0'] }
  else if 0 ≤ d.exponent then { whole := digits ++ List.replicate d.exponent.toNat '0' }
  else if 0 < point then { whole := digits.take point.toNat, fraction := some (digits.drop point.toNat) }
  else { whole := ['0'], fraction := some (List.replicate (-point).toNat '0' ++ digits) }

/-- With a point or an exponent: positional, and `.0` after a whole number, while the point stands from
four places before the first digit to sixteen places after it; with an exponent otherwise. -/
def scientific (d : Decimal) : Numeral :=
  let digits := Nat.toDigits 10 d.digits
  let point : Int := digits.length + d.exponent
  if d.digits = 0 ∨ (-5 < point ∧ point ≤ 16) then
    let n := positional d
    { n with fraction := some (n.fraction.getD ['0']) }
  else
    { whole := digits.take 1
      fraction := if digits.length = 1 then none else some (digits.drop 1)
      exponent := some (decide (point < 1), Nat.toDigits 10 (point - 1).natAbs) }

end Decimal

namespace Binary64

def numeral? (format : Decimal → Numeral) (x : Binary64) : Option Numeral :=
  if infiniteMagnitude ≤ x.magnitude then none
  else some { format (Decimal.shortest x.magnitude) with negative := x.negative }

def text (format : Decimal → Numeral) (x : Binary64) : String :=
  match x.numeral? format with
  | some n => n.text
  | none => if x.isNaN then "NaN" else if x.negative then "-inf" else "inf"

end Binary64

end Placement
