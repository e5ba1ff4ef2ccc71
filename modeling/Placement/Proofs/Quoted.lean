import Placement.Proofs.Spelling

/-!
Texts in quotes, as they are written.

Every character is written as one piece, and the closing quote is not mistaken for one. So what is written for a text
spells that text.
-/

namespace Placement.Json.Token

open Utf8 (Symbol)

/-- The two digits of a control character. -/
theorem hex?_hexDigit {n : Nat} (h : n < 0x20) : hex? '0' '0' (hexDigit (n / 16)) (hexDigit (n % 16)) = some n := by
  have all : ∀ n < 0x20, hex? '0' '0' (hexDigit (n / 16)) (hexDigit (n % 16)) = some n := by decide
  exact all n h

/-- A unit that is no surrogate stands for itself, whatever follows it. -/
theorem assemble?_unit {n : Nat} (h : n < 0xd800) (ps : List Piece) :
    assemble? (.unit n :: ps) = (assemble? ps).map (Char.ofNat n :: ·) := by
  have hhigh : ¬ (0xd800 ≤ n ∧ n < 0xdc00) := by omega
  have hlow : ¬ (0xdc00 ≤ n ∧ n < 0xe000) := by omega
  have hany : ¬ (0xd800 ≤ n ∧ n < 0xe000) := by omega
  rcases ps with _ | ⟨_ | _ | _, rest⟩ <;> simp [assemble?, hhigh, hlow, hany]

/-- A character is written as one piece, which stands for that character. -/
theorem escape_spells (c : Char) :
    ∃ p, SpellsPiece p ((escape c).map some) ∧ ∀ ps, assemble? (p :: ps) = (assemble? ps).map (c :: ·) := by
  unfold escape
  split
  · exact ⟨_, .escaped (e := '"') rfl, fun _ => rfl⟩
  · exact ⟨_, .escaped (e := '\\') rfl, fun _ => rfl⟩
  · exact ⟨_, .escaped (e := 'b') rfl, fun _ => rfl⟩
  · exact ⟨_, .escaped (e := 'f') rfl, fun _ => rfl⟩
  · exact ⟨_, .escaped (e := 'n') rfl, fun _ => rfl⟩
  · exact ⟨_, .escaped (e := 'r') rfl, fun _ => rfl⟩
  · exact ⟨_, .escaped (e := 't') rfl, fun _ => rfl⟩
  · rename_i hquote hslash _ _ _ _ _
    split
    · rename_i hcontrol
      refine ⟨.unit c.toNat, .unit (hex?_hexDigit hcontrol), fun ps => ?_⟩
      rw [assemble?_unit (by omega), Char.ofNat_toNat]
    · rename_i hplain
      exact ⟨.char c, .plain hquote hslash hplain, fun _ => rfl⟩

theorem escapes_spell (cs : List Char) :
    ∃ ps, SpellsPieces ps ((cs.flatMap escape).map some) ∧ assemble? ps = some cs := by
  induction cs with
  | nil => exact ⟨[], .nil, rfl⟩
  | cons c cs ih =>
    obtain ⟨p, hspells, hstands⟩ := escape_spells c
    obtain ⟨ps, hps, hcs⟩ := ih
    refine ⟨p :: ps, ?_, by rw [hstands, hcs]; rfl⟩
    rw [List.flatMap_cons, List.map_append]
    exact .cons hspells hps

theorem chars_text (t : String) : chars (.text (some t)) = '"' :: (t.toList.flatMap escape ++ ['"']) := rfl

/-- What is written for a text spells it. -/
theorem text_spells (t : String) : Spells (.text (some t)) ((chars (.text (some t))).map some) := by
  obtain ⟨ps, hps, hcs⟩ := escapes_spell t.toList
  have hspells := Spells.text hps
  rw [hcs, Option.map_some, String.ofList_toList] at hspells
  rw [chars_text, List.map_cons, List.map_append]
  exact hspells

end Placement.Json.Token
