import Mathlib.Order.Monotone.Basic
import Mathlib.Tactic.SplitIfs
import Placement.Binary64

/-!
Binary64 numbers by what they are worth.

Every finite number is a multiple of the smallest positive one, 2⁻¹⁰⁷⁴, so what it is worth is an integer (`units`); an
infinity is worth 2¹⁰²⁴, which is more than any finite number. Bits grow with what they are worth, and so both orders of
numbers, which look at bits only, are orders by worth.

- `worth_strictMono`: larger bits are worth more.
- `atLeast_iff`: the numeric order.
- `rank_lt_iff`: the total order.
- `isInteger_ofInt`: the number of an integer is worth that integer, up to fifty-three bits.
-/

namespace Placement.Binary64

/-- What bits without a sign are worth in units of 2⁻¹⁰⁷⁴: the fraction, behind a leading bit unless the exponent is 0,
shifted by the exponent. -/
def worth (magnitude : Nat) : Nat :=
  if magnitude / Word.values52 = 0 then magnitude
  else (Word.values52 + magnitude % Word.values52) <<< (magnitude / Word.values52 - 1)

theorem worth_zero : worth 0 = 0 := rfl

theorem worth_lt_succ (m : Nat) : worth m < worth (m + 1) := by
  have hsplit := Nat.div_add_mod m Word.values52
  have hmod : m % Word.values52 < Word.values52 := Nat.mod_lt _ (by decide)
  unfold worth
  by_cases hcarry : m % Word.values52 + 1 = Word.values52
  · -- the exponent goes up by one, and the fraction starts again
    obtain ⟨hdiv, hrest⟩ : (m + 1) / Word.values52 = m / Word.values52 + 1 ∧ (m + 1) % Word.values52 = 0 := by
      rw [Nat.div_mod_unique (by decide), Nat.mul_succ]
      omega
    rw [hdiv, hrest, if_neg (Nat.succ_ne_zero _), Nat.add_sub_cancel, Nat.add_zero]
    by_cases he : m / Word.values52 = 0
    · rw [if_pos he, he, Nat.shiftLeft_zero]
      exact Nat.lt_of_div_eq_zero (by decide) he
    · obtain ⟨e, hsucc⟩ := Nat.exists_eq_succ_of_ne_zero he
      rw [if_neg he, hsucc, Nat.succ_sub_one, Nat.shiftLeft_succ_inside, Nat.shiftLeft_eq, Nat.shiftLeft_eq]
      exact Nat.mul_lt_mul_of_pos_right (by omega) (Nat.two_pow_pos e)
  · obtain ⟨hdiv, hrest⟩ : (m + 1) / Word.values52 = m / Word.values52 ∧
        (m + 1) % Word.values52 = m % Word.values52 + 1 := by
      rw [Nat.div_mod_unique (by decide)]
      omega
    rw [hdiv, hrest, Nat.shiftLeft_eq, Nat.shiftLeft_eq]
    split
    · exact Nat.lt_succ_self m
    · exact Nat.mul_lt_mul_of_pos_right (by omega) (Nat.two_pow_pos _)

/-- Larger bits are worth more. -/
theorem worth_strictMono : StrictMono worth := strictMono_nat_of_lt_succ worth_lt_succ

def units (s : Binary64) : Int := if s.negative then -(worth s.magnitude : Int) else worth s.magnitude

theorem place_le_iff (s t : Binary64) : s.place ≤ t.place ↔ s.units ≤ t.units := by
  have hle : worth s.magnitude ≤ worth t.magnitude ↔ s.magnitude ≤ t.magnitude := worth_strictMono.le_iff_le
  have hge : worth t.magnitude ≤ worth s.magnitude ↔ t.magnitude ≤ s.magnitude := worth_strictMono.le_iff_le
  have hs : worth s.magnitude = 0 ↔ s.magnitude = 0 := worth_strictMono.injective.eq_iff' worth_zero
  have ht : worth t.magnitude = 0 ↔ t.magnitude = 0 := worth_strictMono.injective.eq_iff' worth_zero
  unfold place units
  split_ifs <;> omega

/-- The threshold of a range compares what numbers are worth, and no NaN meets it. -/
theorem atLeast_iff {s t : Binary64} :
    s.atLeast t = true ↔ s.isNaN = false ∧ t.isNaN = false ∧ t.units ≤ s.units := by
  simp [atLeast, place_le_iff, and_assoc]

def side (s : Binary64) : Int := if s.isNaN then if s.negative then -1 else 1 else 0

/-- The total order: first the NaNs with a sign, then the numbers, then the other NaNs; each of them by what the bits
are worth, and -0 before 0. -/
def TotalLt (s t : Binary64) : Prop :=
  s.side < t.side ∨ s.side = t.side ∧
    (s.units < t.units ∨ s.units = t.units ∧ s.negative = true ∧ t.negative = false)

theorem rank_lt_iff {s t : Binary64} : s.rank < t.rank ↔ TotalLt s t := by
  have hlt : worth s.magnitude < worth t.magnitude ↔ s.magnitude < t.magnitude := worth_strictMono.lt_iff_lt
  have hgt : worth t.magnitude < worth s.magnitude ↔ t.magnitude < s.magnitude := worth_strictMono.lt_iff_lt
  have hs : worth s.magnitude = 0 ↔ s.magnitude = 0 := worth_strictMono.injective.eq_iff' worth_zero
  have ht : worth t.magnitude = 0 ↔ t.magnitude = 0 := worth_strictMono.injective.eq_iff' worth_zero
  unfold rank TotalLt side units isNaN
  simp only [decide_eq_true_eq]
  cases s.negative <;> cases t.negative <;> simp only [if_true, Bool.false_eq_true, if_false] <;> split_ifs <;>
    simp <;> omega

/-! ## Integers -/

def unitsOfOne : Nat := 1 <<< 1074

theorem unitsOfOne_pos : 0 < unitsOfOne := by
  rw [unitsOfOne, Nat.one_shiftLeft]
  exact Nat.two_pow_pos 1074

/-- A natural number of up to fifty-three bits is shifted until its first bit is the leading one, and the others are the
fraction. -/
theorem magnitudeOf_eq {n : Nat} (hn : n ≠ 0) (h : n < 2 * Word.values52) :
    n.log2 ≤ 52 ∧ ∃ f < Word.values52,
      n <<< (52 - n.log2) = Word.values52 + f ∧ magnitudeOf n = (n.log2 + 1023) * Word.values52 + f := by
  have hbits : 2 * Word.values52 = 2 ^ 53 := by decide
  have he : n.log2 ≤ 52 := by
    have := (Nat.log2_lt hn).2 (hbits ▸ h)
    omega
  have hlow : 2 ^ 52 ≤ n <<< (52 - n.log2) := by
    calc 2 ^ 52 = 2 ^ n.log2 * 2 ^ (52 - n.log2) := by rw [← Nat.pow_add, Nat.add_sub_of_le he]
      _ ≤ n * 2 ^ (52 - n.log2) := Nat.mul_le_mul_right _ (Nat.log2_self_le hn)
      _ = n <<< (52 - n.log2) := (Nat.shiftLeft_eq ..).symm
  have hhigh : n <<< (52 - n.log2) < 2 ^ 53 := by
    calc n <<< (52 - n.log2) = n * 2 ^ (52 - n.log2) := Nat.shiftLeft_eq ..
      _ < 2 ^ (n.log2 + 1) * 2 ^ (52 - n.log2) := Nat.mul_lt_mul_of_pos_right Nat.lt_log2_self (Nat.two_pow_pos _)
      _ = 2 ^ 53 := by rw [← Nat.pow_add, Nat.add_right_comm, Nat.add_sub_of_le he]
  refine ⟨he, n <<< (52 - n.log2) - Word.values52, ?_⟩
  simp only [magnitudeOf, hn, he, if_true, if_false, Word.values52]
  omega

/-- Such a number is far below the infinities. -/
theorem magnitudeOf_lt {n : Nat} (h : n < 2 * Word.values52) : magnitudeOf n < 1076 * Word.values52 := by
  by_cases hn : n = 0
  · subst hn
    decide
  · obtain ⟨he, f, hf, -, heq⟩ := magnitudeOf_eq hn h
    simp only [Word.values52] at hf heq ⊢
    omega

theorem worth_magnitudeOf {n : Nat} (h : n < 2 * Word.values52) : worth (magnitudeOf n) = n * unitsOfOne := by
  by_cases hn : n = 0
  · subst hn
    exact worth_zero.trans (Nat.zero_mul _).symm
  · obtain ⟨he, f, hf, hshift, heq⟩ := magnitudeOf_eq hn h
    obtain ⟨hdiv, hmod⟩ : magnitudeOf n / Word.values52 = n.log2 + 1023 ∧ magnitudeOf n % Word.values52 = f := by
      rw [Nat.div_mod_unique (by decide), Nat.mul_comm]
      exact ⟨heq.symm ▸ Nat.add_comm .., hf⟩
    have hscale : ∀ k, n <<< k = n * 1 <<< k := fun k => by rw [Nat.shiftLeft_eq, Nat.one_shiftLeft]
    calc worth (magnitudeOf n) = (Word.values52 + f) <<< (n.log2 + 1022) := by
          rw [worth, hdiv, hmod, if_neg (Nat.succ_ne_zero _)]
          rfl
      _ = n <<< (52 - n.log2 + (n.log2 + 1022)) := by rw [← hshift, Nat.shiftLeft_add n]
      _ = n <<< 1074 := by rw [← Nat.add_assoc, Nat.sub_add_cancel he]
      _ = n * unitsOfOne := hscale 1074

/-- An integer has the magnitude of its absolute value. -/
theorem magnitude_ofInt {i : Int} (h : i.natAbs < 2 * Word.values52) : (ofInt i).magnitude = magnitudeOf i.natAbs := by
  have hlt := magnitudeOf_lt h
  unfold ofInt magnitude
  split
  all_goals
    simp only [UInt64.toNat_ofNat', Word.values52, Word.values63] at hlt ⊢
    omega

theorem negative_ofInt {i : Int} (h : i.natAbs < 2 * Word.values52) : (ofInt i).negative = decide (i < 0) := by
  have hlt := magnitudeOf_lt h
  unfold ofInt negative
  rw [decide_eq_decide]
  split
  all_goals
    simp only [UInt64.toNat_ofNat', Word.values52, Word.values63] at hlt ⊢
    omega

/-- The bits are those of a finite number that is worth the integer. -/
def IsInteger (s : Binary64) (i : Int) : Prop := s.magnitude < infiniteMagnitude ∧ s.units = i * unitsOfOne

/-- No integer of up to fifty-three bits is rounded. -/
theorem isInteger_ofInt {i : Int} (h : i.natAbs < 2 * Word.values52) : (ofInt i).IsInteger i := by
  constructor
  · have hlt := magnitudeOf_lt h
    rw [magnitude_ofInt h, infiniteMagnitude]
    simp only [Word.values52] at hlt ⊢
    omega
  · rw [units, negative_ofInt h, magnitude_ofInt h, worth_magnitudeOf h, Int.natCast_mul]
    simp only [decide_eq_true_eq]
    split
    · rw [Int.ofNat_natAbs_of_nonpos (by omega), Int.neg_mul, Int.neg_neg]
    · rw [Int.natAbs_of_nonneg (by omega)]

/-- Whether two numbers are equal, as numbers are compared: both zeros are one number, and no NaN equals anything. -/
def Equals (s t : Binary64) : Prop := s.isNaN = false ∧ t.isNaN = false ∧ s.units = t.units

theorem IsInteger.isNaN {s : Binary64} {i : Int} (h : s.IsInteger i) : s.isNaN = false :=
  decide_eq_false (Nat.lt_asymm h.1)

/-- Integers that are equal as numbers are one integer. -/
theorem IsInteger.equals_iff {s t : Binary64} {i j : Int} (hs : s.IsInteger i) (ht : t.IsInteger j) :
    s.Equals t ↔ i = j := by
  have hne : (unitsOfOne : Int) ≠ 0 := Int.natCast_ne_zero.2 (Nat.ne_of_gt unitsOfOne_pos)
  rw [Equals, hs.isNaN, ht.isNaN, hs.2, ht.2, Int.mul_eq_mul_right_iff hne]
  simp only [true_and]

theorem atLeast_self {s : Binary64} (h : s.isNaN = false) : s.atLeast s = true := by
  simp [atLeast, h]

end Placement.Binary64
