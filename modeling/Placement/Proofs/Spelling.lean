import Placement.Json.Token

/-!
The spelling of JSON: which symbols are a numeral, a text in quotes, a token.

One and the same token has many spellings: a character in quotes may be escaped or stand for itself, an exponent has a
small or a large letter and perhaps a plus sign. The relations here say what the symbols spell, and the readers take
any spelling and nothing else. A numeral is the only token without an end of its own; it is taken up to where nothing
goes on with it.

- `Numeral.read?_of_spells`, `Numeral.spells_of_read?`: numerals.
- `Json.Token.pieces?_eq_some_iff`: what quotes hold.
- `Json.Token.first?_of_spells`, `Json.Token.spells_of_first?`: tokens.
-/

namespace Placement

open Utf8 (Symbol)

/-! ## Numerals -/

namespace Numeral

def NoDigit (rest : List Symbol) : Prop := ∀ c rest', rest = some c :: rest' → isDigit c = false

/-- Nothing at the front goes on with a numeral. -/
def Stops (rest : List Symbol) : Prop :=
  ∀ c rest', rest = some c :: rest' → isDigit c = false ∧ c ≠ '.' ∧ c ≠ 'e' ∧ c ≠ 'E'

theorem Stops.noDigit {rest : List Symbol} (h : Stops rest) : NoDigit rest := fun c rest' he => (h c rest' he).1

structure Digits (cs : List Char) : Prop where
  some : cs ≠ []
  all : ∀ c ∈ cs, isDigit c = true

inductive SpellsFraction : Option (List Char) → List Char → Prop
  | absent : SpellsFraction none []
  | present {digits : List Char} : Digits digits → SpellsFraction (some digits) ('.' :: digits)

inductive SpellsSign : Bool → List Char → Prop
  | absent : SpellsSign false []
  | plus : SpellsSign false ['+']
  | minus : SpellsSign true ['-']

inductive SpellsExponent : Option (Bool × List Char) → List Char → Prop
  | absent : SpellsExponent none []
  | present {letter : Char} {negative : Bool} {sign digits : List Char} : letter = 'e' ∨ letter = 'E' →
      SpellsSign negative sign → Digits digits → SpellsExponent (some (negative, digits)) (letter :: (sign ++ digits))

/-- The characters are the numeral without its sign; no zero stands before other digits. -/
inductive SpellsUnsigned : Numeral → List Char → Prop
  | parts {whole f e : List Char} {fraction : Option (List Char)} {exponent : Option (Bool × List Char)} : Digits whole →
      ¬ (whole.head? = some '0' ∧ whole.length ≠ 1) → SpellsFraction fraction f → SpellsExponent exponent e →
      SpellsUnsigned { whole, fraction, exponent } (whole ++ (f ++ e))

inductive Spells : Numeral → List Char → Prop
  | unsigned {n : Numeral} {cs : List Char} : SpellsUnsigned n cs → Spells n cs
  | negative {n : Numeral} {cs : List Char} : SpellsUnsigned n cs → Spells { n with negative := true } ('-' :: cs)

variable {s rest : List Symbol} {n : Numeral} {cs digits : List Char}

theorem spanDigits_splits (s : List Symbol) :
    (∀ c ∈ (spanDigits s).1, isDigit c = true) ∧ NoDigit (spanDigits s).2 ∧
      s = (spanDigits s).1.map some ++ (spanDigits s).2 := by
  induction s with
  | nil => exact ⟨nofun, nofun, rfl⟩
  | cons x s ih =>
    rcases x with _ | c
    · exact ⟨nofun, nofun, rfl⟩
    · obtain ⟨hall, hstop, hs⟩ := ih
      rw [spanDigits]
      split
      · rename_i hc
        exact ⟨List.forall_mem_cons.mpr ⟨hc, hall⟩, hstop, congrArg (some c :: ·) hs⟩
      · rename_i hc
        refine ⟨nofun, fun c' rest' he => ?_, rfl⟩
        cases he
        simpa using hc

/-- Digits are taken up to where they stop. -/
theorem spanDigits_eq_iff :
    spanDigits s = (digits, rest) ↔ (∀ c ∈ digits, isDigit c = true) ∧ NoDigit rest ∧ s = digits.map some ++ rest := by
  constructor
  · intro h
    have hsplits := spanDigits_splits s
    rwa [h] at hsplits
  · rintro ⟨hall, hstop, rfl⟩
    induction digits with
    | nil =>
      rcases rest with _ | ⟨_ | c, rest⟩
      · rfl
      · rfl
      · simp [spanDigits, hstop c rest rfl]
    | cons c digits ih =>
      have hrest := ih fun c' hc' => hall c' (List.mem_cons_of_mem _ hc')
      simp [spanDigits, hall c List.mem_cons_self, hrest]

theorem someDigits?_eq_some_iff :
    someDigits? s = some (digits, rest) ↔ Digits digits ∧ NoDigit rest ∧ s = digits.map some ++ rest := by
  have hspan : spanDigits s = (digits, rest) ↔ _ := spanDigits_eq_iff
  unfold someDigits?
  split
  · rename_i rest' he
    simp only [reduceCtorEq, false_iff, not_and]
    rintro hd hstop hs
    have := he.symm.trans (hspan.mpr ⟨hd.all, hstop, hs⟩)
    exact hd.some (congrArg Prod.fst this).symm
  · rename_i hne
    rw [Option.some.injEq, hspan]
    refine ⟨fun h => ⟨⟨?_, h.1⟩, h.2⟩, fun h => ⟨h.1.all, h.2⟩⟩
    rintro rfl
    exact hne rest (hspan.mpr h)

/-- The fraction and the exponent of a numeral take what spells them, and stop where no digit follows. -/
theorem spells_of_fraction? {fraction : Option (List Char)} (hs : NoDigit s) (h : fraction? s = some (fraction, rest)) :
    NoDigit rest ∧ ∃ cs, SpellsFraction fraction cs ∧ s = cs.map some ++ rest := by
  unfold fraction? at h
  split at h
  · rename_i s'
    obtain ⟨⟨digits, rest'⟩, hdigits, hrest⟩ := Option.bind_eq_some_iff.mp h
    cases hrest
    obtain ⟨hd, hstop, rfl⟩ := someDigits?_eq_some_iff.mp hdigits
    exact ⟨hstop, _, .present hd, rfl⟩
  · cases h
    exact ⟨hs, _, .absent, rfl⟩

theorem spells_of_exponent? {exponent : Option (Bool × List Char)} (hs : NoDigit s)
    (h : exponent? s = some (exponent, rest)) :
    NoDigit rest ∧ ∃ cs, SpellsExponent exponent cs ∧ s = cs.map some ++ rest := by
  unfold exponent? at h
  split at h
  · rename_i c s'
    split at h
    · rename_i hletter
      obtain ⟨⟨digits, rest'⟩, hdigits, hrest⟩ := Option.bind_eq_some_iff.mp h
      cases hrest
      obtain ⟨hd, hstop, hs'⟩ := someDigits?_eq_some_iff.mp hdigits
      refine ⟨hstop, ?_⟩
      split at hs'
      · exact ⟨_, .present hletter .minus hd, congrArg (some c :: some '-' :: ·) hs'⟩
      · exact ⟨_, .present hletter .plus hd, congrArg (some c :: some '+' :: ·) hs'⟩
      · exact ⟨_, .present hletter .absent hd, congrArg (some c :: ·) hs'⟩
    · cases h
      exact ⟨hs, _, .absent, rfl⟩
  · cases h
    exact ⟨hs, _, .absent, rfl⟩

theorem spells_of_unsigned? (h : unsigned? s = some (n, rest)) :
    NoDigit rest ∧ ∃ cs, SpellsUnsigned n cs ∧ s = cs.map some ++ rest := by
  obtain ⟨⟨whole, s₁⟩, hwhole, h₁⟩ := Option.bind_eq_some_iff.mp h
  obtain ⟨hd, hstop₁, rfl⟩ := someDigits?_eq_some_iff.mp hwhole
  dsimp only at h₁
  split at h₁
  · cases h₁
  rename_i hzero
  obtain ⟨⟨fraction, s₂⟩, hfraction, h₂⟩ := Option.bind_eq_some_iff.mp h₁
  obtain ⟨hstop₂, f, hf, rfl⟩ := spells_of_fraction? hstop₁ hfraction
  obtain ⟨⟨exponent, s₃⟩, hexponent, h₃⟩ := Option.bind_eq_some_iff.mp h₂
  obtain ⟨hstop, e, he, rfl⟩ := spells_of_exponent? hstop₂ hexponent
  cases h₃
  exact ⟨hstop, _, .parts hd hzero hf he, by simp⟩

/-- What is taken for a numeral spells it, and no digit follows. -/
theorem spells_of_read? (h : read? s = some (n, rest)) : NoDigit rest ∧ ∃ cs, Spells n cs ∧ s = cs.map some ++ rest := by
  unfold read? at h
  split at h
  · obtain ⟨⟨n', rest'⟩, hread, he⟩ := Option.map_eq_some_iff.mp h
    cases he
    obtain ⟨hstop, cs, hcs, rfl⟩ := spells_of_unsigned? hread
    exact ⟨hstop, _, .negative hcs, rfl⟩
  · obtain ⟨hstop, cs, hcs, rfl⟩ := spells_of_unsigned? h
    exact ⟨hstop, _, .unsigned hcs, rfl⟩

/-- An exponent, or what comes instead of one, goes on with no digits and no fraction. -/
theorem SpellsExponent.front {exponent : Option (Bool × List Char)} (h : SpellsExponent exponent cs) (hrest : Stops rest) :
    ∀ c rest', cs.map some ++ rest = some c :: rest' → isDigit c = false ∧ c ≠ '.' := by
  intro c rest' he
  cases h with
  | absent => exact ⟨(hrest c rest' he).1, (hrest c rest' he).2.1⟩
  | present hletter _ _ =>
    cases he
    rcases hletter with rfl | rfl <;> decide

theorem SpellsFraction.front {fraction : Option (List Char)} (h : SpellsFraction fraction cs) (hrest : NoDigit rest) :
    NoDigit (cs.map some ++ rest) := by
  cases h with
  | absent => exact hrest
  | present _ =>
    intro c rest' he
    cases he
    rfl

theorem fraction?_of_spells {fraction : Option (List Char)} (h : SpellsFraction fraction cs)
    (hrest : ∀ c rest', rest = some c :: rest' → isDigit c = false ∧ c ≠ '.') :
    fraction? (cs.map some ++ rest) = some (fraction, rest) := by
  cases h with
  | absent =>
    show fraction? rest = _
    unfold fraction?
    split
    · exact absurd rfl (hrest _ _ rfl).2
    · rfl
  | present hd =>
    have hdigits := someDigits?_eq_some_iff.mpr ⟨hd, fun c rest' he => (hrest c rest' he).1, rfl⟩
    simp [fraction?, hdigits]

theorem exponent?_of_spells {exponent : Option (Bool × List Char)} (h : SpellsExponent exponent cs) (hrest : Stops rest) :
    exponent? (cs.map some ++ rest) = some (exponent, rest) := by
  cases h with
  | absent =>
    rcases rest with _ | ⟨_ | c, rest⟩
    · rfl
    · rfl
    · obtain ⟨-, -, hsmall, hlarge⟩ := hrest c rest rfl
      simp [exponent?, hsmall, hlarge]
  | @present letter negative sign digits hletter hsign hd =>
    have hdigits := someDigits?_eq_some_iff.mpr ⟨hd, hrest.noDigit, rfl⟩
    cases hsign with
    | absent =>
      -- a digit is no sign
      obtain ⟨c, digits, rfl⟩ := List.exists_cons_of_ne_nil hd.some
      have hc := hd.all c List.mem_cons_self
      have hplus : c ≠ '+' := by rintro rfl; cases hc
      have hminus : c ≠ '-' := by rintro rfl; cases hc
      simp only [List.map_cons, List.cons_append] at hdigits
      simp [exponent?, hletter, hplus, hminus, hdigits]
    | plus => simp [exponent?, hletter, hdigits]
    | minus => simp [exponent?, hletter, hdigits]

theorem unsigned?_of_spells (h : SpellsUnsigned n cs) (hrest : Stops rest) :
    unsigned? (cs.map some ++ rest) = some (n, rest) := by
  cases h with
  | @parts whole f e fraction exponent hd hzero hf he =>
    have hexponent := exponent?_of_spells he hrest
    have hfraction := fraction?_of_spells hf (he.front hrest)
    have hstop := hf.front fun c rest' h => (he.front hrest c rest' h).1
    have hwhole := someDigits?_eq_some_iff.mpr ⟨hd, hstop, rfl⟩
    simp only [List.map_append, List.append_assoc]
    unfold unsigned?
    simp [hwhole, hzero, hfraction, hexponent]

/-- A numeral starts with a sign or a digit. -/
theorem Spells.front (h : Spells n cs) : ∃ c cs', cs = c :: cs' ∧ (c = '-' ∨ isDigit c = true) := by
  cases h with
  | negative _ => exact ⟨'-', _, rfl, .inl rfl⟩
  | unsigned h =>
    cases h with
    | parts hd _ _ _ =>
      obtain ⟨c, whole, rfl⟩ := List.exists_cons_of_ne_nil hd.some
      exact ⟨c, _, rfl, .inr (hd.all c List.mem_cons_self)⟩

/-- A numeral is taken however it is spelled, if nothing follows that goes on with it. -/
theorem read?_of_spells (h : Spells n cs) (hrest : Stops rest) : read? (cs.map some ++ rest) = some (n, rest) := by
  cases h with
  | negative h => simp [read?, unsigned?_of_spells h hrest]
  | unsigned h =>
    have hread := unsigned?_of_spells h hrest
    unfold read?
    split
    · -- a numeral without its sign starts with a digit
      rename_i rest' he
      cases h with
      | parts hd _ _ _ =>
        obtain ⟨c, whole, rfl⟩ := List.exists_cons_of_ne_nil hd.some
        have hc := hd.all c List.mem_cons_self
        cases he
        cases hc
    · exact hread

end Numeral

/-! ## Texts in quotes -/

namespace Json.Token

variable {s rest : List Symbol} {ps : List Piece}

/-- The symbols of one piece: a character that may stand for itself, an escape, a unit by its number, or an ill-formed
byte. -/
inductive SpellsPiece : Piece → List Symbol → Prop
  | plain {c : Char} : c ≠ '"' → c ≠ '\\' → ¬ c.toNat < 0x20 → SpellsPiece (.char c) [some c]
  | escaped {e c : Char} : escaped? e = some c → SpellsPiece (.char c) [some '\\', some e]
  | unit {a b c d : Char} {n : Nat} : hex? a b c d = some n →
      SpellsPiece (.unit n) [some '\\', some 'u', some a, some b, some c, some d]
  | illFormed : SpellsPiece .illFormed [none]

inductive SpellsPieces : List Piece → List Symbol → Prop
  | nil : SpellsPieces [] []
  | cons {p : Piece} {front body : List Symbol} {ps : List Piece} : SpellsPiece p front → SpellsPieces ps body →
      SpellsPieces (p :: ps) (front ++ body)

/-- One piece is taken, however it is spelled. -/
theorem pieces?_piece {p : Piece} {front : List Symbol} (h : SpellsPiece p front) (s : List Symbol) :
    pieces? (front ++ s) = (pieces? s).map fun found => (p :: found.1, found.2) := by
  cases h with
  | @plain c hquote hslash hc =>
    show pieces? (some c :: s) = _
    rw [pieces?]
    · rw [if_neg hc]
      cases pieces? s <;> rfl
    all_goals simp [hquote, hslash]
  | @escaped e c he =>
    have hu : e ≠ 'u' := by rintro rfl; cases he
    show pieces? (some '\\' :: some e :: s) = _
    rw [pieces?]
    · rw [he]
      cases pieces? s <;> rfl
    · intro _ _ _ _ _ _ he
      exact absurd he hu
  | @unit a b c d n hn =>
    show pieces? (some '\\' :: some 'u' :: some a :: some b :: some c :: some d :: s) = _
    rw [pieces?, hn]
    cases pieces? s <;> rfl
  | illFormed =>
    show pieces? (none :: s) = _
    rw [pieces?]
    cases pieces? s <;> rfl

/-- A piece in front of what is spelled as it should be. -/
theorem spells_of_bind {p : Piece} {front : List Symbol} (hp : SpellsPiece p front)
    (ih : ∀ {ps rest}, pieces? s = some (ps, rest) → ∃ body, SpellsPieces ps body ∧ s = body ++ some '"' :: rest)
    (h : (do let (ps, rest) ← pieces? s; return (p :: ps, rest)) = some (ps, rest)) :
    ∃ body, SpellsPieces ps body ∧ front ++ s = body ++ some '"' :: rest := by
  obtain ⟨⟨ps', rest'⟩, hps, he⟩ := Option.bind_eq_some_iff.mp h
  cases he
  obtain ⟨body, hbody, rfl⟩ := ih hps
  exact ⟨front ++ body, .cons hp hbody, (List.append_assoc ..).symm⟩

/-- What quotes hold is taken up to the closing quote, however it is spelled. -/
theorem pieces?_eq_some_iff :
    pieces? s = some (ps, rest) ↔ ∃ body, SpellsPieces ps body ∧ s = body ++ some '"' :: rest := by
  constructor
  · intro h
    fun_induction pieces? s generalizing ps rest with
    | case1 => cases h
    | case2 rest' =>
      cases h
      exact ⟨[], .nil, rfl⟩
    | case3 a b c d s ih =>
      obtain ⟨n, hn, hrest⟩ := Option.bind_eq_some_iff.mp h
      exact spells_of_bind (.unit hn) ih hrest
    | case4 e s hu ih =>
      obtain ⟨c, hc, hrest⟩ := Option.bind_eq_some_iff.mp h
      exact spells_of_bind (.escaped hc) ih hrest
    | case5 => cases h
    | case6 => cases h
    | case7 c s hquote _ _ hslash hc ih => exact spells_of_bind (.plain hquote hslash hc) ih h
    | case8 s ih => exact spells_of_bind .illFormed ih h
  · rintro ⟨body, hbody, rfl⟩
    induction hbody with
    | nil => rw [List.nil_append, pieces?]
    | cons hp _ ih => rw [List.append_assoc, pieces?_piece hp, ih, Option.map_some]

/-! ## Tokens -/

theorem after?_eq_some_iff {cs : List Char} : after? cs s = some rest ↔ s = cs.map some ++ rest := by
  constructor
  · intro h
    fun_induction after? cs s with
    | case1 s => exact Option.some.inj h
    | case2 cs c s ih => exact congrArg (some c :: ·) (ih h)
    | case3 => cases h
    | case4 => cases h
  · rintro rfl
    induction cs with
    | nil => rfl
    | cons c cs ih => simpa [after?] using ih

def isNumber : Token → Bool
  | number _ => true
  | _ => false

def isFixed : Token → Bool
  | number _ | text _ => false
  | _ => true

inductive Spells : Token → List Symbol → Prop
  | fixed {t : Token} : t.isFixed = true → Spells t (t.chars.map some)
  | number {n : Numeral} {cs : List Char} : Numeral.Spells n cs → Spells (.number n) (cs.map some)
  | text {ps : List Piece} {body : List Symbol} : SpellsPieces ps body →
      Spells (.text ((assemble? ps).map String.ofList)) (some '"' :: (body ++ [some '"']))

/-- What starts like a number is no white space and is read as a number. -/
theorem first?_number {c : Char} (hc : c = '-' ∨ Numeral.isDigit c = true) (s : List Symbol) :
    isSpace c = false ∧ first? c s = (Numeral.read? (some c :: s)).map fun (n, rest) => (.number n, rest) := by
  have hne : ∀ d : Char, d ≠ '-' → Numeral.isDigit d = false → c ≠ d := by
    rintro d hsign hdigit rfl
    rcases hc with hc | hc
    · exact hsign hc
    · rw [hc] at hdigit
      cases hdigit
  constructor
  · simp [isSpace, hne ' ' (by decide) (by decide), hne '\n' (by decide) (by decide), hne '\t' (by decide) (by decide),
      hne '\r' (by decide) (by decide)]
  · unfold first?
    split
    all_goals first
      | rfl
      | exact absurd rfl (hne _ (by decide) (by decide))

/-- Every token has a first character that is no white space, and is taken with it. -/
theorem first?_of_spells {t : Token} {front : List Symbol} (h : Spells t front)
    (hrest : t.isNumber = true → Numeral.Stops rest) :
    ∃ c cs, front = some c :: cs ∧ isSpace c = false ∧ first? c (cs ++ rest) = some (t, rest) := by
  cases h with
  | fixed ht =>
    cases t with
    | number n => cases ht
    | text t => cases ht
    | bool b => cases b <;> exact ⟨_, _, rfl, rfl, rfl⟩
    | _ => exact ⟨_, _, rfl, rfl, rfl⟩
  | @number n cs hn =>
    have hread := Numeral.read?_of_spells hn (hrest rfl)
    obtain ⟨c, cs, rfl, hc⟩ := hn.front
    obtain ⟨hspace, hfirst⟩ := first?_number hc (cs.map some ++ rest)
    refine ⟨c, cs.map some, rfl, hspace, ?_⟩
    rw [hfirst, ← List.cons_append, ← List.map_cons, hread]
    rfl
  | @text ps body hbody =>
    refine ⟨'"', body ++ [some '"'], rfl, rfl, ?_⟩
    have hpieces : pieces? (body ++ [some '"'] ++ rest) = some (ps, rest) :=
      pieces?_eq_some_iff.mpr ⟨body, hbody, by simp⟩
    show (pieces? _).map _ = _
    rw [hpieces]
    rfl

/-- What is taken with a first character spells the token; behind a number comes no digit. -/
theorem spells_of_first? {c : Char} {t : Token} (h : first? c s = some (t, rest)) :
    ∃ cs, Spells t (some c :: cs) ∧ s = cs ++ rest ∧ (t.isNumber = true → Numeral.NoDigit rest) := by
  have word : ∀ {cs : List Char} {t' : Token}, t'.isFixed = true → t'.isNumber = false → t'.chars = c :: cs →
      ((after? cs s).map fun rest => (t', rest)) = some (t, rest) →
      ∃ cs, Spells t (some c :: cs) ∧ s = cs ++ rest ∧ (t.isNumber = true → Numeral.NoDigit rest) := by
    intro cs t' hfixed hnumber hchars h
    obtain ⟨rest', hafter, he⟩ := Option.map_eq_some_iff.mp h
    cases he
    have hspells := Spells.fixed hfixed
    rw [hchars] at hspells
    exact ⟨cs.map some, hspells, after?_eq_some_iff.mp hafter, fun ht => by rw [hnumber] at ht; cases ht⟩
  unfold first? at h
  split at h
  case h_7 => exact word rfl rfl rfl h
  case h_8 => exact word rfl rfl rfl h
  case h_9 => exact word rfl rfl rfl h
  case h_10 =>
    obtain ⟨⟨ps, rest'⟩, hpieces, he⟩ := Option.map_eq_some_iff.mp h
    cases he
    obtain ⟨body, hbody, rfl⟩ := pieces?_eq_some_iff.mp hpieces
    exact ⟨body ++ [some '"'], .text hbody, by simp, nofun⟩
  case h_11 =>
    obtain ⟨⟨n, rest'⟩, hread, he⟩ := Option.map_eq_some_iff.mp h
    cases he
    obtain ⟨hstop, cs, hcs, hs⟩ := Numeral.spells_of_read? hread
    obtain ⟨c', cs, rfl, -⟩ := hcs.front
    obtain ⟨hc, rfl⟩ := List.cons.inj hs
    obtain rfl := Option.some.inj hc
    exact ⟨cs.map some, .number hcs, rfl, fun _ => hstop⟩
  -- a single mark
  all_goals
    cases h
    exact ⟨[], .fixed rfl, rfl, nofun⟩

end Json.Token

end Placement
