import Placement.Proofs.Spelling

/-!
The layout of JSON: rows of tokens with white space around them.

Tokens are read one after another as they are laid out, in any spelling and with any white space before, between and
behind them. Only two numbers in a row need white space to be two. So what is laid out behind a row that does not end
in a number is read behind it.

- `list?_eq_some_iff`: the tokens of symbols are the ones they are laid out of.
- `laid_append_iff`: one row behind another.
-/

namespace Placement.Json.Token

open Utf8 (Symbol)

variable {s rest : List Symbol}

/-- The symbols are the tokens with white space around them. A number stops where its token does. -/
inductive Laid : List Token → List Symbol → Prop
  | nil : Laid [] []
  | space {c : Char} {ts : List Token} {s : List Symbol} : isSpace c = true → Laid ts s → Laid ts (some c :: s)
  | token {t : Token} {front : List Symbol} {ts : List Token} {s : List Symbol} : Spells t front →
      (t.isNumber = true → Numeral.Stops s) → Laid ts s → Laid (t :: ts) (front ++ s)

def Blank (s : List Symbol) : Prop := ∀ x ∈ s, ∃ c, x = some c ∧ isSpace c = true

theorem laid_nil_iff : Laid [] s ↔ Blank s := by
  constructor
  · intro h
    generalize hts : ([] : List Token) = ts at h
    induction h with
    | nil => nofun
    | space hspace _ ih => exact List.forall_mem_cons.mpr ⟨⟨_, rfl, hspace⟩, ih hts⟩
    | token => cases hts
  · intro h
    induction s with
    | nil => exact .nil
    | cons x s ih =>
      obtain ⟨c, rfl, hspace⟩ := h x List.mem_cons_self
      exact .space hspace (ih fun y hy => h y (List.mem_cons_of_mem _ hy))

theorem Laid.nil_of_nil {ts : List Token} (h : Laid ts []) : ts = [] := by
  generalize hs : ([] : List Symbol) = s at h
  cases h with
  | nil => rfl
  | space _ _ => cases hs
  | token ht hrest _ =>
    obtain ⟨c, cs, rfl, -⟩ := first?_of_spells ht hrest
    cases hs

/-- Where tokens go on behind a number, they do not go on with it. -/
theorem stops_of_listWithin {fuel : Nat} {ts : List Token} (h : listWithin fuel rest = some ts)
    (hdigit : Numeral.NoDigit rest) : Numeral.Stops rest := by
  rintro c rest' rfl
  refine ⟨hdigit c rest' rfl, ?_⟩
  have hnone : ∀ d, d = '.' ∨ d = 'e' ∨ d = 'E' → listWithin fuel (some d :: rest') = none := by
    rintro d (rfl | rfl | rfl) <;> cases fuel <;> rfl
  refine ⟨?_, ?_, ?_⟩ <;> rintro rfl <;> rw [hnone _ (by simp)] at h <;> cases h

theorem laid_of_listWithin {fuel : Nat} {ts : List Token} (h : listWithin fuel s = some ts) : Laid ts s := by
  fun_induction listWithin fuel s generalizing ts with
  | case1 => cases h; exact .nil
  | case2 => cases h
  | case3 => cases h
  | case4 fuel c s hspace ih => exact .space hspace (ih h)
  | case5 => cases h
  | case6 fuel c s hspace t s' hfirst ih =>
    obtain ⟨ts, hts, rfl⟩ := Option.map_eq_some_iff.mp h
    obtain ⟨cs, hspells, rfl, hstop⟩ := spells_of_first? hfirst
    exact .token hspells (fun ht => stops_of_listWithin hts (hstop ht)) (ih hts)

theorem listWithin_of_laid {ts : List Token} (h : Laid ts s) {fuel : Nat} (hfuel : s.length ≤ fuel) :
    listWithin fuel s = some ts := by
  induction h generalizing fuel with
  | nil => cases fuel <;> rfl
  | space hspace _ ih =>
    obtain ⟨fuel, rfl⟩ : ∃ n, fuel = n + 1 := ⟨fuel - 1, by simp at hfuel; omega⟩
    rw [listWithin, if_pos hspace, ih (by simpa using hfuel)]
  | @token t front ts s ht hrest _ ih =>
    obtain ⟨c, cs, rfl, hspace, hfirst⟩ := first?_of_spells ht hrest
    obtain ⟨fuel, rfl⟩ : ∃ n, fuel = n + 1 := ⟨fuel - 1, by simp at hfuel; omega⟩
    have hrow : s.length ≤ fuel := by simp at hfuel; omega
    have htokens := ih hrow
    simp [listWithin, hspace, hfirst, htokens]

/-- The tokens of symbols are the ones they are laid out of. -/
theorem list?_eq_some_iff {ts : List Token} : list? s = some ts ↔ Laid ts s :=
  ⟨laid_of_listWithin, fun h => listWithin_of_laid h (Nat.le_refl _)⟩

/-- What a number stops at it stops at with more behind it. -/
theorem Laid.stops {ts : List Token} {s' : List Symbol} (h : Laid ts s) (hrest : Numeral.Stops s)
    (hlast : ts = [] → Numeral.Stops s') : Numeral.Stops (s ++ s') := by
  rcases s with _ | ⟨x, s⟩
  · exact hlast h.nil_of_nil
  · intro c rest' he
    obtain ⟨rfl, -⟩ := List.cons.inj he
    exact hrest c s rfl

/-- White space may stand between two rows, unless it is needed to keep numbers apart. -/
theorem Laid.append {ts ts' : List Token} {s' : List Symbol} (h : Laid ts s)
    (hlast : ∀ t, ts.getLast? = some t → t.isNumber = true → Numeral.Stops s') (h' : Laid ts' s') :
    Laid (ts ++ ts') (s ++ s') := by
  induction h with
  | nil => exact h'
  | space hspace _ ih => exact .space hspace (ih hlast)
  | @token t front ts s ht hrest hs ih =>
    rw [List.cons_append, List.append_assoc]
    refine .token ht (fun hnumber => hs.stops (hrest hnumber) fun hnil => ?_) (ih fun t' ht' => hlast t' ?_)
    · exact hlast t (by rw [hnil]; rfl) hnumber
    · rw [List.getLast?_cons, ht', Option.getD_some]

theorem laid_space_iff {c : Char} (hspace : isSpace c = true) {ts : List Token} :
    Laid ts (some c :: s) ↔ Laid ts s := by
  refine ⟨fun h => ?_, .space hspace⟩
  generalize hs : some c :: s = s₁ at h
  cases h with
  | nil => cases hs
  | space _ h =>
    obtain ⟨-, rfl⟩ := List.cons.inj hs
    exact h
  | token ht hrest h =>
    obtain ⟨c', cs, rfl, hspace', -⟩ := first?_of_spells ht hrest
    cases hs
    rw [hspace] at hspace'
    cases hspace'

/-- A row that starts like a token starts with it. -/
theorem laid_token_iff {t : Token} {front : List Symbol} (ht : Spells t front)
    (hrest : t.isNumber = true → Numeral.Stops s) {us : List Token} :
    Laid us (front ++ s) ↔ ∃ ts, us = t :: ts ∧ Laid ts s := by
  constructor
  · intro h
    obtain ⟨c, cs, rfl, hspace, hfirst⟩ := first?_of_spells ht hrest
    generalize hs : some c :: cs ++ s = s₁ at h
    cases h with
    | nil => cases hs
    | space hspace' _ =>
      cases hs
      rw [hspace] at hspace'
      cases hspace'
    | token ht' hrest' h =>
      obtain ⟨c', cs', rfl, -, hfirst'⟩ := first?_of_spells ht' hrest'
      obtain ⟨hc, hcs⟩ := List.cons.inj hs
      obtain rfl := Option.some.inj hc
      have hsame : some (t, s) = some (_, _) := hfirst.symm.trans ((congrArg (first? c) hcs).trans hfirst')
      cases hsame
      exact ⟨_, rfl, h⟩
  · rintro ⟨ts, rfl, h⟩
    exact .token ht hrest h

/-- Where a row does not end in a number, the tokens of what is laid out behind it follow its own. -/
theorem laid_append_iff {ts us : List Token} {s' : List Symbol} (h : Laid ts s)
    (hlast : ∀ t, ts.getLast? = some t → t.isNumber = false) :
    Laid us (s ++ s') ↔ ∃ ts', us = ts ++ ts' ∧ Laid ts' s' := by
  constructor
  · intro h'
    induction h generalizing us with
    | nil => exact ⟨us, rfl, h'⟩
    | space hspace _ ih => exact ih hlast ((laid_space_iff hspace).mp h')
    | @token t front ts s ht hrest hs ih =>
      have hmore : t.isNumber = true → Numeral.Stops (s ++ s') := fun hnumber =>
        hs.stops (hrest hnumber) fun hnil => by rw [hlast t (by rw [hnil]; rfl)] at hnumber; cases hnumber
      rw [List.append_assoc] at h'
      obtain ⟨us, rfl, hus⟩ := (laid_token_iff ht hmore).mp h'
      obtain ⟨ts', rfl, hts'⟩ := ih (fun t' ht' => hlast t' (by rw [List.getLast?_cons, ht', Option.getD_some])) hus
      exact ⟨ts', rfl, hts'⟩
  · rintro ⟨ts', rfl, h'⟩
    exact h.append (fun t ht hnumber => by rw [hlast t ht] at hnumber; cases hnumber) h'

end Placement.Json.Token
