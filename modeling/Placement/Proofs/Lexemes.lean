import Mathlib.Data.List.Chain
import Placement.Proofs.Layout
import Placement.Proofs.Quoted

/-!
Tokens, written one after another and read back.

What is written for a token spells it, and a row of tokens is laid out as they are written one after another, as long as
no number follows a number: nothing else that a token starts with goes on with a number. Numbers are integers here.

- `Utf8.symbols_toUTF8`: the symbols of a text's bytes are its characters.
- `Numeral.spells_ofInt`: what is written for an integer.
- `Token.laid_chars`: what is written for a row of tokens.
-/

namespace Placement

/-! ## Bytes -/

namespace Utf8

/-- Behind anything, the bytes of characters are read as these characters. -/
theorem symbolsFrom_append (before : ByteArray) (cs : List Char) :
    symbolsFrom (before ++ cs.utf8Encode) before.size = cs.map some := by
  induction cs generalizing before with
  | nil =>
    unfold symbolsFrom
    simp
  | cons c cs ih =>
    have hsplit : (c :: cs).utf8Encode = [c].utf8Encode ++ cs.utf8Encode := by
      rw [← List.utf8Encode_append]
      rfl
    have hsize : ([c].utf8Encode).size = c.utf8Size := by simp [List.utf8Encode_singleton]
    have hdecode : (before ++ (c :: cs).utf8Encode).utf8DecodeChar? before.size = some c := by
      rw [ByteArray.utf8DecodeChar?_eq_utf8DecodeChar?_extract,
        ByteArray.extract_append_eq_right rfl ByteArray.size_append]
      exact List.utf8DecodeChar?_utf8Encode_cons
    have hpos : before.size < (before ++ (c :: cs).utf8Encode).size := by
      have := c.utf8Size_pos
      rw [hsplit, ByteArray.size_append, ByteArray.size_append, hsize]
      omega
    have hrest := ih (before ++ [c].utf8Encode)
    rw [ByteArray.append_assoc, ← hsplit, ByteArray.size_append, hsize] at hrest
    rw [symbolsFrom, if_pos hpos, hdecode]
    dsimp only
    rw [hrest, List.map_cons]

theorem symbols_toUTF8 (s : String) : symbols s.toUTF8 = s.toList.map some := by
  have h := symbolsFrom_append ByteArray.empty s.toList
  rw [String.utf8Encode_toList, ByteArray.empty_append] at h
  exact h

end Utf8

open Utf8 (Symbol)

/-! ## Numbers -/

namespace Numeral

theorem isDigit_of_mem_toDigits {n : Nat} {c : Char} (h : c ∈ Nat.toDigits 10 n) : isDigit c = true := by
  have hc := Nat.isDigit_of_mem_toDigits (by decide) (by decide) h
  simp only [Char.isDigit, Bool.and_eq_true, decide_eq_true_eq] at hc
  simp only [isDigit, Bool.and_eq_true, decide_eq_true_eq]
  exact hc

/-- Only zero is written with a leading zero. -/
theorem head?_toDigits {n : Nat} (h : n ≠ 0) : (Nat.toDigits 10 n).head? ≠ some '0' := by
  induction n using Nat.strongRecOn with
  | ind n ih =>
    by_cases hn : n < 10
    · rw [Nat.toDigits_of_lt_base hn]
      have all : ∀ m < 10, m ≠ 0 → [Nat.digitChar m].head? ≠ some '0' := by decide
      exact all n hn h
    · rw [Nat.toDigits_of_base_le (by decide) (by omega)]
      have hhead := ih (n / 10) (by omega) (by omega)
      cases hd : Nat.toDigits 10 (n / 10) with
      | nil => exact absurd hd Nat.toDigits_ne_nil
      | cons c digits =>
        rw [hd] at hhead
        simpa using hhead

/-- What is written for an integer spells it. -/
theorem spells_ofInt (i : Int) : Spells (ofInt i) (ofInt i).chars := by
  have hdigits : Digits (Nat.toDigits 10 i.natAbs) := ⟨Nat.toDigits_ne_nil, fun c hc => isDigit_of_mem_toDigits hc⟩
  have hlead : ¬ ((Nat.toDigits 10 i.natAbs).head? = some '0' ∧ (Nat.toDigits 10 i.natAbs).length ≠ 1) := by
    rintro ⟨hhead, hlength⟩
    by_cases hn : i.natAbs = 0
    · rw [hn] at hlength
      exact hlength rfl
    · exact head?_toDigits hn hhead
  have hunsigned := SpellsUnsigned.parts hdigits hlead .absent .absent
  by_cases hi : i < 0
  · have hspells := Spells.negative hunsigned
    simpa [chars, ofInt, hi] using hspells
  · have hspells := Spells.unsigned hunsigned
    simpa [chars, ofInt, hi] using hspells

theorem natural_toDigits (n : Nat) : natural (Nat.toDigits 10 n) = n :=
  Nat.ofDigitChars_ten_toDigits

/-- A natural number of sixty-four bits is one again. -/
theorem int?_ofInt {n : Nat} (h : n < Word.values64) : (ofInt n).int? = some n := by
  have hsign : ¬ (n : Int) < 0 := by omega
  simp [int?, ofInt, hsign, natural_toDigits, h]

end Numeral

/-! ## Tokens -/

namespace Json.Token

def Exact : Token → Prop
  | number n => ∃ i, n = .ofInt i
  | _ => True

/-- Not both are numbers, which would run together. -/
def Apart (t t' : Token) : Prop := ¬ (t.isNumber = true ∧ t'.isNumber = true)

/-- What is written for a token spells it. -/
theorem spells_chars {t : Token} (ht : t.Exact) : Spells t (t.chars.map some) := by
  cases t with
  | number n =>
    obtain ⟨i, rfl⟩ := ht
    exact .number (Numeral.spells_ofInt i)
  | text t =>
    cases t with
    | none =>
      have hsurrogate : hex? 'd' '8' '0' '0' = some 0xd800 := rfl
      exact .text (.cons (.unit hsurrogate) .nil)
    | some t => exact text_spells t
  | _ => exact .fixed rfl

/-- Only a number goes on with what a number may go on with. -/
theorem stops_chars {t : Token} (h : t.isNumber = false) (rest : List Symbol) :
    Numeral.Stops ((chars t).map some ++ rest) := by
  intro c rest' hrest
  cases t with
  | number n => cases h
  | bool b => cases b <;> (cases hrest; decide)
  | text t => cases t <;> (cases hrest; decide)
  | _ => cases hrest; decide

/-- Tokens are laid out as they are written, if their numbers are integers and no two of them touch. -/
theorem laid_chars {tokens : List Token} (hexact : ∀ t ∈ tokens, t.Exact) (hapart : tokens.IsChain Apart) :
    Laid tokens ((tokens.flatMap chars).map some) := by
  induction tokens with
  | nil => exact .nil
  | cons t tokens ih =>
    rw [List.flatMap_cons, List.map_append]
    refine .token (spells_chars (hexact t List.mem_cons_self)) (fun ht => ?_)
      (ih (fun t' ht' => hexact t' (List.mem_cons_of_mem _ ht')) hapart.tail)
    -- behind a number is the end, or a token that is none
    cases tokens with
    | nil => nofun
    | cons t' tokens =>
      have hnext : t'.isNumber = false := by
        have := (List.isChain_cons_cons.mp hapart).1
        simpa [Apart, ht] using this
      rw [List.flatMap_cons, List.map_append]
      exact stops_chars hnext _

end Json.Token

end Placement
