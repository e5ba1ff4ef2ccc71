import Placement.Word

/-!
Binary64 numbers.

A number is held as its 64 bits, so that its order needs no arithmetic: the low 63 bits of a number grow
with its absolute value. Two orders are used. `Binary64.atLeast` is the numeric one, in which the two
zeros are equal and a NaN compares with nothing; it is the threshold of a range. `Binary64.rank` is the
total one, in which -0 comes before 0 and a positive NaN last; it sorts a range.
-/

namespace Placement

/-- A binary64 number by its bits: sign, eleven bits of exponent, fifty-two of fraction. -/
structure Binary64 where
  bits : UInt64
deriving DecidableEq, Repr, Inhabited

namespace Binary64

def magnitude (s : Binary64) : Nat := s.bits.toNat % Word.values63

def negative (s : Binary64) : Bool := decide (Word.values63 ≤ s.bits.toNat)

def infiniteMagnitude : Nat := 2047 * Word.values52

def isNaN (s : Binary64) : Bool := decide (infiniteMagnitude < s.magnitude)

def zero : Binary64 := ⟨0⟩
def negativeZero : Binary64 := ⟨0x8000000000000000⟩
def infinity : Binary64 := ⟨0x7ff0000000000000⟩
def negativeInfinity : Binary64 := ⟨0xfff0000000000000⟩
def nan : Binary64 := ⟨0x7ff8000000000000⟩

/-- The place of a number on the line: both zeros at 0, larger numbers further right. -/
def place (s : Binary64) : Int := if s.negative then -(s.magnitude : Int) else s.magnitude

/-- The place in the total order: as `place`, with -0 just left of 0 and the NaNs outside the infinities. -/
def rank (s : Binary64) : Int := if s.negative then -(s.magnitude : Int) - 1 else s.magnitude

/-- Whether the number is numerically at least the threshold; a NaN on either side never is. -/
def atLeast (s threshold : Binary64) : Bool := !s.isNaN && !threshold.isNaN && decide (threshold.place ≤ s.place)

/-- The magnitude bits of a natural number: its leading bit is implied by the exponent, the next
fifty-two are the fraction, and what does not fit is dropped. -/
def magnitudeOf (n : Nat) : Nat :=
  if n = 0 then 0
  else
    let e := n.log2
    (e + 1022) * Word.values52 + (if e ≤ 52 then n <<< (52 - e) else n >>> (e - 52))

/-- The number of an integer; exact for all integers up to 2⁵³ in absolute value. -/
def ofInt (i : Int) : Binary64 :=
  if i < 0 then ⟨UInt64.ofNat (Word.values63 + magnitudeOf i.natAbs)⟩ else ⟨UInt64.ofNat (magnitudeOf i.natAbs)⟩

def toInt (s : Binary64) : Int :=
  let e := s.magnitude / Word.values52
  let m := s.magnitude % Word.values52 + Word.values52
  let n : Nat := if e = 0 then 0 else if 1075 ≤ e then m <<< (e - 1075) else m >>> (1075 - e)
  if s.negative then -(n : Int) else n

def ofFloat (x : Float) : Binary64 := ⟨x.toBits⟩

def toFloat (s : Binary64) : Float := Float.ofBits s.bits

theorem rank_injective {s t : Binary64} (h : s.rank = t.rank) : s = t := by
  obtain ⟨⟨⟨a, ha⟩⟩⟩ := s
  obtain ⟨⟨⟨b, hb⟩⟩⟩ := t
  have : a = b := by
    simp only [rank, negative, magnitude, Word.values63, UInt64.toNat, BitVec.toNat, decide_eq_true_eq] at h
    split at h <;> split at h <;> omega
  subst this
  rfl

end Binary64

end Placement
