import Placement.Json.Document
import Placement.Proofs.Layout

/-!
The nesting of JSON: documents as rows of tokens, and back.

The machine that reads documents takes up the tokens of a document where a value may come and stands after the whole of
it, with the arrays and objects around it untouched. On its way it has taken what its state says and nothing else. So a
document has one row of tokens, and a row of tokens makes up one document at most.

- `Document.steps_tokens`: the machine reads the tokens of a document.
- `Document.Spent.step`: what it has taken after one more token.
- `Document.ofTokens?_eq_some_iff`, `Document.ofBytes?_eq_some_iff`: which tokens, and which bytes, are a document.
-/

namespace Placement.Json.Document

open Utf8 (Symbol)

mutual

def tokens : Document → List Token
  | .null => [.null]
  | .bool b => [.bool b]
  | .number n => [.number n]
  | .text t => [.text t]
  | .array items => .openArray :: (itemTokens items ++ [.closeArray])
  | .object members => .openObject :: (memberTokens members ++ [.closeObject])

def itemTokens : List Document → List Token
  | [] => []
  | [d] => tokens d
  | d :: rest => tokens d ++ .comma :: itemTokens rest

def memberTokens : List (Option String × Document) → List Token
  | [] => []
  | [(name, d)] => .text name :: .colon :: tokens d
  | (name, d) :: rest => .text name :: .colon :: (tokens d ++ .comma :: memberTokens rest)

end

/-! ## Reading tokens -/

/-- A document does not start like the end of an array. -/
theorem tokens_ne_closeArray (d : Document) : ∃ t rest, d.tokens = t :: rest ∧ t ≠ .closeArray := by
  cases d <;> simp [tokens]

theorem itemTokens_cons (d : Document) (items : List Document) :
    ∃ more, itemTokens (d :: items) = d.tokens ++ more := by
  cases items with
  | nil => exact ⟨[], by simp [itemTokens]⟩
  | cons d' items => exact ⟨.comma :: itemTokens (d' :: items), by simp [itemTokens]⟩

theorem memberTokens_cons (name : Option String) (d : Document) (members : List (Option String × Document)) :
    ∃ more, memberTokens ((name, d) :: members) = .text name :: more := by
  cases members with
  | nil => exact ⟨_, memberTokens.eq_2 ..⟩
  | cons member members =>
    exact ⟨.colon :: (d.tokens ++ .comma :: memberTokens (member :: members)), by simp [memberTokens]⟩

def steps (r : Reader) (tokens : List Token) : Option Reader := tokens.foldlM Reader.step r

/-- A token that is taken leaves the others to what it was taken to. -/
theorem steps_cons {r r' : Reader} {t : Token} (h : r.step t = some r') (rest : List Token) :
    steps r (t :: rest) = steps r' rest := by
  simp [steps, h]

/-- The first item of an array is read like any other value. -/
theorem steps_firstItem (d : Document) (frames : List Frame) (rest : List Token) :
    steps ⟨frames, .firstItem⟩ (d.tokens ++ rest) = steps ⟨.array [] :: frames, .value⟩ (d.tokens ++ rest) := by
  obtain ⟨t, tokens, htokens, hne⟩ := tokens_ne_closeArray d
  have hstep : Reader.step ⟨frames, .firstItem⟩ t = Reader.step ⟨.array [] :: frames, .value⟩ t := by
    cases t with
    | closeArray => exact absurd rfl hne
    | _ => rfl
  simp [htokens, steps, hstep]

mutual

/-- The tokens of a document take the machine past the document, whatever is around it. -/
theorem steps_tokens (d : Document) (frames : List Frame) (rest : List Token) :
    steps ⟨frames, .value⟩ (d.tokens ++ rest) = steps ⟨frames, .after d⟩ rest := by
  cases d with
  | array items =>
    rw [tokens, List.cons_append, List.append_assoc, steps_cons rfl]
    cases items with
    | nil => rfl
    | cons d items =>
      -- the machine still looks for the end of the array here, which no document starts with
      have hitems := steps_itemTokens d items [] frames rest
      obtain ⟨more, hmore⟩ := itemTokens_cons d items
      rw [hmore, List.append_assoc] at hitems ⊢
      exact (steps_firstItem ..).trans hitems
  | object members =>
    rw [tokens, List.cons_append, List.append_assoc, steps_cons rfl]
    cases members with
    | nil => rfl
    | cons member members =>
      obtain ⟨name, d⟩ := member
      have hmembers := steps_memberTokens name d members [] none frames rest
      obtain ⟨more, hmore⟩ := memberTokens_cons name d members
      rw [hmore] at hmembers ⊢
      exact hmembers
  | _ => rfl
termination_by sizeOf d

/-- The items that are left take the machine past the array they end. -/
theorem steps_itemTokens (d : Document) (items : List Document) (taken : List Document) (frames : List Frame)
    (rest : List Token) :
    steps ⟨.array taken :: frames, .value⟩ (itemTokens (d :: items) ++ (.closeArray :: rest)) =
      steps ⟨frames, .after (.array (taken.reverse ++ d :: items))⟩ rest := by
  cases items with
  | nil =>
    rw [itemTokens, steps_tokens, steps_cons rfl]
    simp
  | cons d' items =>
    rw [itemTokens, List.append_assoc, steps_tokens, List.cons_append, steps_cons rfl, steps_itemTokens]
    · simp
    · simp
termination_by sizeOf (d :: items)

/-- So do the members that are left with the object they end. -/
theorem steps_memberTokens (name : Option String) (d : Document) (members : List (Option String × Document))
    (taken : List (Option String × Document)) (last : Option String) (frames : List Frame) (rest : List Token) :
    steps ⟨.object taken last :: frames, .name⟩ (memberTokens ((name, d) :: members) ++ (.closeObject :: rest)) =
      steps ⟨frames, .after (.object (taken.reverse ++ (name, d) :: members))⟩ rest := by
  cases members with
  | nil =>
    rw [memberTokens, List.cons_append, List.cons_append, steps_cons rfl, steps_cons rfl, steps_tokens, steps_cons rfl]
    simp
  | cons member members =>
    obtain ⟨name', d'⟩ := member
    rw [memberTokens, List.cons_append, List.cons_append, steps_cons rfl, steps_cons rfl, List.append_assoc,
      steps_tokens, List.cons_append, steps_cons rfl, steps_memberTokens]
    · simp
    · simp
termination_by sizeOf ((name, d) :: members)

end

theorem ofTokens?_tokens (d : Document) : ofTokens? d.tokens = some d := by
  have hsteps := steps_tokens d [] []
  rw [List.append_nil] at hsteps
  have hread : d.tokens.foldlM Reader.step {} = some ⟨[], .after d⟩ := hsteps
  rw [ofTokens?, hread]

/-- Nothing may come behind a document. -/
theorem ofTokens?_tokens_append (d : Document) (t : Token) (rest : List Token) :
    ofTokens? (d.tokens ++ t :: rest) = none := by
  have hstep : Reader.step ⟨[], .after d⟩ t = none := rfl
  have hread : (d.tokens ++ t :: rest).foldlM Reader.step {} = none := by
    refine (steps_tokens d [] (t :: rest)).trans ?_
    simp [steps, hstep]
  rw [ofTokens?, hread]

/-! ## What was read -/

def itemSpent (d : Document) : List Token := d.tokens ++ [.comma]

def memberSpent (m : Option String × Document) : List Token := .text m.1 :: .colon :: itemSpent m.2

theorem itemTokens_concat (items : List Document) (d : Document) :
    itemTokens (items ++ [d]) = items.flatMap itemSpent ++ d.tokens := by
  induction items with
  | nil => simp [itemTokens]
  | cons d' items ih =>
    obtain ⟨d'', rest, hrest⟩ : ∃ d'' rest, items ++ [d] = d'' :: rest := by cases items <;> simp
    rw [List.cons_append, hrest, itemTokens, ← hrest, ih]
    · simp [itemSpent]
    · simp

theorem memberTokens_concat (members : List (Option String × Document)) (name : Option String) (d : Document) :
    memberTokens (members ++ [(name, d)]) = members.flatMap memberSpent ++ .text name :: .colon :: d.tokens := by
  induction members with
  | nil => simp [memberTokens]
  | cons m members ih =>
    obtain ⟨name', d'⟩ := m
    obtain ⟨m', rest, hrest⟩ : ∃ m' rest, members ++ [(name, d)] = m' :: rest := by cases members <;> simp
    rw [List.cons_append, hrest, memberTokens, ← hrest, ih]
    · simp [memberSpent, itemSpent]
    · simp

/-- The tokens that led into arrays and objects, up to where a value comes. -/
inductive Entered : List Frame → List Token → Prop
  | outside : Entered [] []
  | array {frames : List Frame} {ts : List Token} (items : List Document) : Entered frames ts →
      Entered (.array items :: frames) (ts ++ .openArray :: items.reverse.flatMap itemSpent)
  | object {frames : List Frame} {ts : List Token} (members : List (Option String × Document)) (name : Option String) :
      Entered frames ts → Entered (.object members name :: frames)
        (ts ++ .openObject :: (members.reverse.flatMap memberSpent ++ [.text name, .colon]))

inductive Spent : Reader → List Token → Prop
  | value {frames : List Frame} {ts : List Token} : Entered frames ts → Spent ⟨frames, .value⟩ ts
  | firstItem {frames : List Frame} {ts : List Token} : Entered frames ts →
      Spent ⟨frames, .firstItem⟩ (ts ++ [.openArray])
  | firstName {frames : List Frame} {ts : List Token} : Entered frames ts →
      Spent ⟨frames, .firstName⟩ (ts ++ [.openObject])
  | name {frames : List Frame} {ts : List Token} (members : List (Option String × Document)) (last : Option String) :
      Entered frames ts →
      Spent ⟨.object members last :: frames, .name⟩ (ts ++ .openObject :: members.reverse.flatMap memberSpent)
  | colon {frames : List Frame} {ts : List Token} (members : List (Option String × Document)) (name : Option String) :
      Entered frames ts → Spent ⟨.object members name :: frames, .colon⟩
        (ts ++ .openObject :: (members.reverse.flatMap memberSpent ++ [.text name]))
  | after {frames : List Frame} {ts : List Token} (d : Document) : Entered frames ts →
      Spent ⟨frames, .after d⟩ (ts ++ d.tokens)

variable {r r' : Reader} {frames : List Frame} {ts : List Token} {t : Token} {d d' : Document}

theorem Entered.begin (h : Entered frames ts) (hstep : Document.begin frames t = some r') : Spent r' (ts ++ [t]) := by
  cases t with
  | openArray => cases hstep; exact .firstItem h
  | openObject => cases hstep; exact .firstName h
  | null => cases hstep; exact .after .null h
  | bool b => cases hstep; exact .after (.bool b) h
  | number n => cases hstep; exact .after (.number n) h
  | text t => cases hstep; exact .after (.text t) h
  | _ => cases hstep

theorem Entered.follow (h : Entered frames ts) (hstep : Document.follow d frames t = some r') :
    Spent r' (ts ++ d.tokens ++ [t]) := by
  cases h with
  | outside => cases hstep
  | array items h =>
    cases t with
    | comma =>
      cases hstep
      simpa [itemSpent] using Spent.value (.array (d :: items) h)
    | closeArray =>
      cases hstep
      simpa [tokens, itemTokens_concat] using Spent.after (.array (d :: items).reverse) h
    | _ => cases hstep
  | object members name h =>
    cases t with
    | comma =>
      cases hstep
      simpa [memberSpent, itemSpent] using Spent.name ((name, d) :: members) none h
    | closeObject =>
      cases hstep
      simpa [tokens, memberTokens_concat] using Spent.after (.object ((name, d) :: members).reverse) h
    | _ => cases hstep

/-- A token that is taken is the next of those that were. -/
theorem Spent.step (h : Spent r ts) (hstep : r.step t = some r') : Spent r' (ts ++ [t]) := by
  cases h with
  | value h => exact h.begin hstep
  | @firstItem frames ts h =>
    by_cases ht : t = .closeArray
    · -- an array may be closed at once
      subst ht
      cases hstep
      simpa [tokens, itemTokens] using Spent.after (.array []) h
    · have hbegin : Document.begin (.array [] :: frames) t = some r' := by
        cases t with
        | closeArray => exact absurd rfl ht
        | _ => exact hstep
      exact (Entered.array [] h).begin hbegin
  | firstName h =>
    cases t with
    | closeObject =>
      cases hstep
      simpa [tokens, memberTokens] using Spent.after (.object []) h
    | text name =>
      cases hstep
      simpa using Spent.colon [] name h
    | _ => cases hstep
  | name members last h =>
    cases t with
    | text name =>
      cases hstep
      simpa using Spent.colon members name h
    | _ => cases hstep
  | colon members name h =>
    cases t with
    | colon =>
      cases hstep
      simpa using Spent.value (.object members name h)
    | _ => cases hstep
  | after d h => exact h.follow hstep

theorem Spent.steps {us : List Token} (h : Spent r ts) (hsteps : Document.steps r us = some r') :
    Spent r' (ts ++ us) := by
  induction us generalizing r ts with
  | nil =>
    cases hsteps
    rwa [List.append_nil]
  | cons t us ih =>
    rw [Document.steps, List.foldlM_cons] at hsteps
    obtain ⟨r₁, hstep, hrest⟩ := Option.bind_eq_some_iff.mp hsteps
    have h₁ := ih (h.step hstep) hrest
    rwa [List.append_assoc] at h₁

/-- The tokens that make up a document are its own. -/
theorem ofTokens?_eq_some_iff : ofTokens? ts = some d ↔ ts = d.tokens := by
  refine ⟨fun h => ?_, fun h => h ▸ ofTokens?_tokens d⟩
  unfold ofTokens? at h
  split at h
  · rename_i d' hread
    cases h
    have hspent := Spent.steps (.value .outside) hread
    cases hspent with
    | after d h =>
      cases h
      simp
  · cases h

/-- The bytes are the text of the document: its tokens in any spelling, with any white space around them. -/
def Written (d : Document) (bytes : ByteArray) : Prop := Token.Laid d.tokens (Utf8.symbols bytes)

/-- The document that is read from bytes is the one they are the text of. -/
theorem ofBytes?_eq_some_iff {bytes : ByteArray} : ofBytes? bytes = some d ↔ Written d bytes := by
  rw [ofBytes?, Option.bind_eq_bind, Option.bind_eq_some_iff]
  simp only [Token.list?_eq_some_iff, ofTokens?_eq_some_iff]
  exact ⟨fun ⟨ts, hlaid, hts⟩ => show Token.Laid _ _ from hts ▸ hlaid, fun h => ⟨_, h, rfl⟩⟩

theorem tokens_injective : Function.Injective tokens := fun d d' h =>
  Option.some.inj ((ofTokens?_tokens d).symm.trans ((congrArg ofTokens? h).trans (ofTokens?_tokens d')))

/-- A document that is no number does not end in one. -/
theorem isNumber_getLast?_tokens (hd : ∀ n, d ≠ .number n) (t : Token) (ht : d.tokens.getLast? = some t) :
    t.isNumber = false := by
  cases d with
  | number n => exact absurd rfl (hd n)
  | array items =>
    rw [tokens, ← List.cons_append, List.getLast?_concat] at ht
    cases ht
    rfl
  | object members =>
    rw [tokens, ← List.cons_append, List.getLast?_concat] at ht
    cases ht
    rfl
  | _ =>
    cases ht
    rfl

/-- Behind a document that is no number there may be white space, and nothing else. -/
theorem ofBytes?_behind {bytes bytes' : ByteArray} {more : List Symbol} (h : Written d bytes) (hd : ∀ n, d ≠ .number n)
    (hmore : Utf8.symbols bytes' = Utf8.symbols bytes ++ more) :
    ofBytes? bytes' = some d' ↔ d' = d ∧ Token.Blank more := by
  rw [ofBytes?_eq_some_iff, Written, hmore, Token.laid_append_iff h (isNumber_getLast?_tokens hd)]
  constructor
  · rintro ⟨ts, htokens, hlaid⟩
    cases ts with
    | nil =>
      rw [List.append_nil] at htokens
      exact ⟨tokens_injective htokens, Token.laid_nil_iff.mp hlaid⟩
    | cons t rest =>
      have hnone := ofTokens?_tokens_append d t rest
      rw [← htokens, ofTokens?_tokens] at hnone
      cases hnone
  · rintro ⟨rfl, hblank⟩
    exact ⟨[], (List.append_nil _).symm, Token.laid_nil_iff.mpr hblank⟩

theorem ofBytes?_eq_none_of_behind {bytes bytes' : ByteArray} {more : List Symbol} (h : Written d bytes)
    (hd : ∀ n, d ≠ .number n) (hmore : Utf8.symbols bytes' = Utf8.symbols bytes ++ more) (hblank : ¬ Token.Blank more) :
    ofBytes? bytes' = none :=
  Option.eq_none_iff_forall_ne_some.mpr fun _ h' => hblank ((ofBytes?_behind h hd hmore).mp h').2

end Placement.Json.Document
