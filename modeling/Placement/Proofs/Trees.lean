import Placement.Json
import Placement.Json.Fields
import Placement.Proofs.Lexemes
import Placement.Proofs.Nesting

/-!
Values, written as text and read back as documents.

The tokens of a value are those of the document that says what the value says, and no two of them run together. So the
text of a value is read back as that document.

- `Json.tokens_document`: the tokens of a value.
- `Json.Document.ofBytes?_toBytes`: a value is read back from its bytes.
-/

namespace Placement.Json

mutual

/-- The document that is written for a value. -/
def document : Json → Document
  | .null => .null
  | .bool b => .bool b
  | .int i => .number (.ofInt i)
  | .float x =>
    match numeral? x with
    | some n => .number n
    | none => .null
  | .text t => .text (some t)
  | .array items => .array (itemDocuments items)
  | .object members => .object (memberDocuments members)

def itemDocuments : List Json → List Document
  | [] => []
  | v :: rest => document v :: itemDocuments rest

def memberDocuments : List (String × Json) → List (Option String × Document)
  | [] => []
  | (name, v) :: rest => (some name, document v) :: memberDocuments rest

end

mutual

/-- The tokens of a value are those of its document. -/
theorem tokens_document (v : Json) : v.document.tokens = v.tokens := by
  cases v with
  | float x => cases h : numeral? x <;> simp [document, Document.tokens, tokens, h]
  | array items => rw [document, Document.tokens, tokens, itemTokens_itemDocuments]
  | object members => rw [document, Document.tokens, tokens, memberTokens_memberDocuments]
  | _ => rfl
termination_by sizeOf v

theorem itemTokens_itemDocuments (items : List Json) : Document.itemTokens (itemDocuments items) = itemTokens items := by
  cases items with
  | nil => rfl
  | cons v items =>
    have hrest := itemTokens_itemDocuments items
    cases items <;> simp_all [itemDocuments, Document.itemTokens, itemTokens, tokens_document v]
termination_by sizeOf items

theorem memberTokens_memberDocuments (members : List (String × Json)) :
    Document.memberTokens (memberDocuments members) = memberTokens members := by
  cases members with
  | nil => rfl
  | cons member members =>
    obtain ⟨name, v⟩ := member
    have hrest := memberTokens_memberDocuments members
    cases members <;> simp_all [memberDocuments, Document.memberTokens, memberTokens, tokens_document v]
termination_by sizeOf members

end

/-! ## No two numbers touch -/

/-- Around a token that is no number, tokens are as much apart as they are on either side of it. -/
theorem isChain_around (before : List Token) {after : List Token} {t : Token} (ht : t.isNumber = false)
    (hbefore : before.IsChain Token.Apart) (hafter : after.IsChain Token.Apart) :
    (before ++ t :: after).IsChain Token.Apart := by
  refine List.isChain_append.mpr ⟨hbefore, List.isChain_cons.mpr ⟨fun t' _ => ?_, hafter⟩, fun t' _ t'' ht'' => ?_⟩
  · simp [Token.Apart, ht]
  · obtain rfl : t = t'' := by simpa using ht''
    simp [Token.Apart, ht]

mutual

/-- Commas, colons, brackets and braces keep the numbers of a value apart. -/
theorem tokens_apart (v : Json) : v.tokens.IsChain Token.Apart := by
  cases v with
  | float x => cases h : numeral? x <;> simp [tokens, h]
  | array items =>
    have hend := isChain_around _ (t := .closeArray) rfl (itemTokens_apart items) .nil
    rw [tokens]
    exact isChain_around [] rfl .nil hend
  | object members =>
    have hend := isChain_around _ (t := .closeObject) rfl (memberTokens_apart members) .nil
    rw [tokens]
    exact isChain_around [] rfl .nil hend
  | _ => exact .singleton _
termination_by sizeOf v

theorem itemTokens_apart (items : List Json) : (itemTokens items).IsChain Token.Apart := by
  cases items with
  | nil => exact .nil
  | cons v items =>
    cases items with
    | nil =>
      rw [itemTokens]
      exact tokens_apart v
    | cons v' items =>
      rw [itemTokens]
      · exact isChain_around _ rfl (tokens_apart v) (itemTokens_apart (v' :: items))
      · simp
termination_by sizeOf items

theorem memberTokens_apart (members : List (String × Json)) : (memberTokens members).IsChain Token.Apart := by
  cases members with
  | nil => exact .nil
  | cons member members =>
    obtain ⟨name, v⟩ := member
    cases members with
    | nil =>
      rw [memberTokens]
      exact isChain_around [_] rfl (.singleton _) (tokens_apart v)
    | cons member' members =>
      have hrest := isChain_around _ (t := .comma) rfl (tokens_apart v) (memberTokens_apart (member' :: members))
      rw [memberTokens]
      · exact isChain_around [_] rfl (.singleton _) hrest
      · simp
termination_by sizeOf members

end

/-! ## Values without fractions -/

def Integral (v : Json) : Prop := ∀ t ∈ v.tokens, t.Exact

theorem integral_text (t : String) : (Json.text t).Integral := by
  simp [Integral, tokens, Token.Exact]

theorem integral_null : Json.null.Integral := by
  simp [Integral, tokens, Token.Exact]

theorem integral_bool (b : Bool) : (Json.bool b).Integral := by
  simp [Integral, tokens, Token.Exact]

theorem integral_int (i : Int) : (Json.int i).Integral := by
  simp [Integral, tokens, Token.Exact]

theorem exact_around (before : List Token) {after : List Token} {t : Token} (ht : t.isNumber = false)
    (hbefore : ∀ t' ∈ before, t'.Exact) (hafter : ∀ t' ∈ after, t'.Exact) :
    ∀ t' ∈ before ++ t :: after, t'.Exact := by
  intro t' ht'
  rcases List.mem_append.mp ht' with ht' | ht'
  · exact hbefore t' ht'
  rcases List.mem_cons.mp ht' with rfl | ht'
  · cases t' with
    | number n => cases ht
    | _ => trivial
  · exact hafter t' ht'

theorem exact_itemTokens {items : List Json} (h : ∀ v ∈ items, v.Integral) : ∀ t ∈ itemTokens items, t.Exact := by
  induction items with
  | nil => simp [itemTokens]
  | cons v items ih =>
    have hv := h v List.mem_cons_self
    have hrest := ih fun v' hv' => h v' (List.mem_cons_of_mem _ hv')
    cases items with
    | nil =>
      rw [itemTokens]
      exact hv
    | cons v' items =>
      rw [itemTokens]
      · exact exact_around _ rfl hv hrest
      · simp

theorem integral_array {items : List Json} (h : ∀ v ∈ items, v.Integral) : (Json.array items).Integral := by
  rw [Integral, tokens]
  exact exact_around [] rfl (by simp) (exact_around _ rfl (exact_itemTokens h) (by simp))

theorem exact_memberTokens {members : List (String × Json)} (h : ∀ m ∈ members, m.2.Integral) :
    ∀ t ∈ memberTokens members, t.Exact := by
  induction members with
  | nil => simp [memberTokens]
  | cons m members ih =>
    obtain ⟨name, v⟩ := m
    have hv : v.Integral := h (name, v) List.mem_cons_self
    have hrest := ih fun m' hm' => h m' (List.mem_cons_of_mem _ hm')
    cases members with
    | nil =>
      rw [memberTokens]
      exact exact_around [_] rfl (by simp [Token.Exact]) hv
    | cons m' members =>
      rw [memberTokens]
      · exact exact_around [_] rfl (by simp [Token.Exact]) (exact_around _ rfl hv hrest)
      · simp

theorem integral_object {members : List (String × Json)} (h : ∀ m ∈ members, m.2.Integral) :
    (Json.object members).Integral := by
  rw [Integral, tokens]
  exact exact_around [] rfl (by simp) (exact_around _ rfl (exact_memberTokens h) (by simp))

/-- The bytes of a value are the text of its document, if its numbers are integers. -/
theorem written_toBytes {v : Json} (h : v.Integral) : v.document.Written v.toBytes := by
  have hsymbols : Utf8.symbols v.toBytes = (v.tokens.flatMap Token.chars).map some := by
    rw [toBytes, Utf8.symbols_toUTF8, render, String.toList_ofList]
  rw [Document.Written, hsymbols, tokens_document]
  exact Token.laid_chars h (tokens_apart v)

/-- A value is read back from its bytes as the document that is written for it, if its numbers are integers. -/
theorem Document.ofBytes?_toBytes {v : Json} (h : v.Integral) : Document.ofBytes? v.toBytes = some v.document :=
  Document.ofBytes?_eq_some_iff.mpr (written_toBytes h)

/-- A natural number of sixty-four bits is read back where it is within bounds. -/
theorem Document.nat?_ofInt {n bound : Nat} (h : n < bound) (hbound : bound ≤ Word.values64) :
    (Document.number (.ofInt n)).nat? bound = some n := by
  simp [Document.nat?, Numeral.int?_ofInt (Nat.lt_of_lt_of_le h hbound), h]

end Placement.Json
