import Mathlib.Logic.ExistsUnique
import Mathlib.Tactic.ByContra
import Placement.KeyHash
import Placement.Proofs.Numbers

/-!
Which keys the index scores tell apart.

The factor of a step is odd, so the step can be undone: it keeps different hashes apart whatever byte is taken in, and
different bytes apart whatever hash they are taken into. Keys that end alike therefore have one hash exactly if what
comes before the ending has one, and a single byte that is changed, wherever it stands, is seen in the hash. From
there to the index nothing is lost: a hash is an integer of thirty-two bits, and every such integer is a number of its
own.

- `absorb_inj`, `absorb_byte_inj`: one step.
- `foldl_absorb_inj`: all the bytes of an ending.
- `Near.around`: keys that differ in one byte, taken apart at it.
- `near_keys_score_apart`: all of it, of scores.
-/

namespace Placement.KeyHash

variable {hash hash' : UInt32} {byte byte' : UInt8} {x y : String}

/-! ## Steps that can be undone -/

def cofactor : UInt32 := 0x359c449b

theorem factor_mul_cofactor : factor * cofactor = 1 := by decide

theorem mul_factor_inj : hash * factor = hash' * factor ↔ hash = hash' := by
  refine ⟨fun h => ?_, congrArg (· * factor)⟩
  have hback := congrArg (· * cofactor) h
  simpa only [UInt32.mul_assoc, factor_mul_cofactor, UInt32.mul_one] using hback

/-- A byte keeps the hashes apart that it is taken into. -/
theorem absorb_inj : absorb hash byte = absorb hash' byte ↔ hash = hash' :=
  mul_factor_inj.trans (UInt32.xor_left_inj _)

/-- A hash keeps the bytes apart that are taken into it. -/
theorem absorb_byte_inj : absorb hash byte = absorb hash byte' ↔ byte = byte' :=
  mul_factor_inj.trans ((UInt32.xor_right_inj _).trans UInt8.toUInt32_inj)

theorem foldl_absorb_inj (bytes : List UInt8) :
    bytes.foldl absorb hash = bytes.foldl absorb hash' ↔ hash = hash' := by
  induction bytes generalizing hash hash' with
  | nil => rfl
  | cons byte bytes ih => rw [List.foldl_cons, List.foldl_cons, ih, absorb_inj]

/-- An ending that bytes have in common does not matter. -/
theorem fnv1a_append_inj (front front' back : List UInt8) :
    fnv1a (front ++ back) = fnv1a (front' ++ back) ↔ fnv1a front = fnv1a front' := by
  rw [fnv1a_append, fnv1a_append, foldl_absorb_inj]

/-- Between the same bytes, the one that is changed decides. -/
theorem fnv1a_around_inj (front back : List UInt8) :
    fnv1a (front ++ byte :: back) = fnv1a (front ++ byte' :: back) ↔ byte = byte' := by
  rw [fnv1a_append, fnv1a_append, List.foldl_cons, List.foldl_cons, foldl_absorb_inj, absorb_byte_inj]

/-! ## Keys that differ in one byte -/

/-- The keys have as many bytes, and at exactly one position these differ. -/
structure Near (x y : String) : Prop where
  length : (Utf8.encode x).length = (Utf8.encode y).length
  position : ∃! i : Nat, (Utf8.encode x)[i]? ≠ (Utf8.encode y)[i]?

/-- Around the position the keys are one. -/
theorem Near.around (h : Near x y) : ∃ front byte byte' back, byte ≠ byte' ∧
    Utf8.encode x = front ++ byte :: back ∧ Utf8.encode y = front ++ byte' :: back := by
  obtain ⟨hlength, i, hdiffer, hunique⟩ := h
  have hx : i < (Utf8.encode x).length := by
    by_contra hge
    rw [List.getElem?_eq_none (by omega), List.getElem?_eq_none (by omega)] at hdiffer
    exact hdiffer rfl
  have hy : i < (Utf8.encode y).length := hlength ▸ hx
  have hsame : ∀ j, j ≠ i → (Utf8.encode x)[j]? = (Utf8.encode y)[j]? := fun j hj =>
    not_not.1 (mt (hunique j) hj)
  have hfront : (Utf8.encode x).take i = (Utf8.encode y).take i :=
    List.ext_getElem? fun j => by
      rw [List.getElem?_take, List.getElem?_take]
      split
      · exact hsame j (by omega)
      · rfl
  have hback : (Utf8.encode x).drop (i + 1) = (Utf8.encode y).drop (i + 1) :=
    List.ext_getElem? fun j => by
      rw [List.getElem?_drop, List.getElem?_drop]
      exact hsame _ (by omega)
  refine ⟨(Utf8.encode x).take i, (Utf8.encode x)[i], (Utf8.encode y)[i], (Utf8.encode x).drop (i + 1), ?_, ?_, ?_⟩
  · rwa [List.getElem?_eq_getElem hx, List.getElem?_eq_getElem hy, ne_eq, Option.some_inj] at hdiffer
  · rw [List.getElem_cons_drop, List.take_append_drop]
  · rw [hfront, hback, List.getElem_cons_drop, List.take_append_drop]

theorem near_of_around {front back : List UInt8} (hne : byte ≠ byte') (hx : Utf8.encode x = front ++ byte :: back)
    (hy : Utf8.encode y = front ++ byte' :: back) : Near x y := by
  refine ⟨by simp [hx, hy], front.length, by simpa [hx, hy] using hne, fun j hj => ?_⟩
  rw [hx, hy] at hj
  by_contra hother
  rcases Nat.lt_or_gt_of_ne hother with hlt | hgt
  · exact hj (by rw [List.getElem?_append_left hlt, List.getElem?_append_left hlt])
  · obtain ⟨k, rfl⟩ := Nat.exists_eq_add_of_lt hgt
    exact hj (by simp [List.getElem?_append_right, Nat.add_assoc])

/-! ## Scores -/

theorem natAbs_lt (key : String) : (indexScore key).natAbs < 2 * Word.values52 := by
  have hlow := Int32.le_toInt (fnv1a (Utf8.encode key)).toInt32
  have hhigh := Int32.toInt_lt (fnv1a (Utf8.encode key)).toInt32
  unfold indexScore Word.values52
  omega

theorem score_isInteger (key : String) : (score key).IsInteger (indexScore key) :=
  Binary64.isInteger_ofInt (natAbs_lt key)

/-- The score of a key is a number. -/
theorem atLeast_score (key : String) : (score key).atLeast (score key) = true :=
  Binary64.atLeast_self (score_isInteger key).isNaN

/-- Scores are equal where hashes are. -/
theorem score_equals_iff : (score x).Equals (score y) ↔ fnv1a (Utf8.encode x) = fnv1a (Utf8.encode y) := by
  have hsigned : ∀ h h' : UInt32, h.toInt32 = h'.toInt32 ↔ h = h' := fun h h' =>
    ⟨fun heq => by rw [← h.toUInt32_toInt32, heq, h'.toUInt32_toInt32], congrArg UInt32.toInt32⟩
  rw [(score_isInteger x).equals_iff (score_isInteger y), indexScore, indexScore, Int32.toInt_inj, hsigned]

/-- The score of a key is an integer of thirty-two bits. An ending that two keys have in common makes no difference to
whether they have one score, and keys that differ in a single byte, be it within a character, never have. -/
theorem near_keys_score_apart :
    (∀ key, ∃ i : Int, -2147483648 ≤ i ∧ i < 2147483648 ∧ (score key).IsInteger i) ∧
    (∀ x y s : String, (score (x ++ s)).Equals (score (y ++ s)) ↔ (score x).Equals (score y)) ∧
    ∀ x y : String, Near x y → ¬ (score x).Equals (score y) := by
  refine ⟨fun key => ?_, fun x y s => ?_, fun x y h => ?_⟩
  · exact ⟨indexScore key, Int32.le_toInt _, Int32.toInt_lt _, score_isInteger key⟩
  · rw [score_equals_iff, score_equals_iff, Utf8.encode_append, Utf8.encode_append, fnv1a_append_inj]
  · obtain ⟨front, byte, byte', back, hne, hx, hy⟩ := h.around
    rw [score_equals_iff, hx, hy, fnv1a_around_inj]
    exact hne

/-- Two accents on one letter are a byte apart, the second of two; they stay apart with more letters behind them. -/
theorem accents_score_apart :
    Near "é" "è" ∧ ¬ (score "é").Equals (score "è") ∧ ¬ (score "élan").Equals (score "èlan") := by
  have hnear : Near "é" "è" := by
    have hfirst : Utf8.encode "é" = [0xc3] ++ 0xa9 :: [] := by decide
    have hsecond : Utf8.encode "è" = [0xc3] ++ 0xa8 :: [] := by decide
    exact near_of_around (by decide) hfirst hsecond
  have hapart := near_keys_score_apart.2.2 "é" "è" hnear
  exact ⟨hnear, hapart, fun h => hapart ((near_keys_score_apart.2.1 "é" "è" "lan").1 h)⟩

end Placement.KeyHash
