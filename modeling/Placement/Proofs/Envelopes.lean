import Placement.Proofs.Trees
import Placement.Registry.Message

/-!
Envelopes of commands, written and read back.

An envelope is an object of three members; the command in it is told by one of them, its name, and by another, its
arguments. All that an envelope holds is in its bytes, so no two envelopes have the same.

- `Registry.Envelope.reads_back`: the bytes of an envelope are read as that envelope, and as that of no other.
-/

namespace Placement.Registry

open Json (Document Token)

/-- Texts are read back from the array of them. -/
theorem list?_ofTexts (texts : List String) : (Json.ofTexts texts).document.list? Document.text? = some texts := by
  show (Json.itemDocuments (texts.map .text)).mapM Document.text? = some texts
  induction texts with
  | nil => rfl
  | cons t texts ih => simp [Json.itemDocuments, Json.document, Document.text?, ih]

/-- Texts are values, inside of anything that is not nested too deeply. -/
theorem ofDocument?_ofTexts (texts : List String) {levels : Nat} (h : levels ≠ 0) :
    (Json.ofDocument? levels (Json.ofTexts texts).document).isSome = true := by
  have hitems : (Json.ofItems? (levels - 1) (Json.itemDocuments (texts.map .text))).isSome = true := by
    induction texts with
    | nil => rfl
    | cons t texts ih =>
      obtain ⟨items, hitems⟩ := Option.isSome_iff_exists.mp ih
      simp [Json.itemDocuments, Json.document, Json.ofItems?, Json.ofDocument?, hitems]
  simp [Json.ofTexts, Json.document, Json.ofDocument?, h, hitems]

namespace Command

/-- A command is read back from its name and its arguments, which are values. -/
theorem ofParts?_arguments (c : Command) :
    ∃ arguments, c.arguments.document = .object arguments ∧ ofParts? c.name arguments = some c ∧
      (Json.ofDocument? (Json.levels - 1) (.object arguments)).isSome = true := by
  cases c with
  | suggest nodes =>
    refine ⟨_, rfl, ?_, ?_⟩
    · simp [ofParts?, name, Json.memberDocuments, Document.members?, list?_ofTexts]
    · have hdeep : 125 ≠ 0 := by decide
      obtain ⟨v, hv⟩ := Option.isSome_iff_exists.mp (ofDocument?_ofTexts nodes hdeep)
      simp [Json.memberDocuments, Json.ofDocument?, Json.levels, Json.ofMembers?, hv, Dict.find]
  | _ =>
    refine ⟨_, rfl, ?_, ?_⟩
    · simp [ofParts?, name, Json.memberDocuments, Json.document, Document.members?, Document.text?, Dict.get?_insert,
        Dict.contains_insert]
    · rfl

theorem integral_arguments (c : Command) : c.arguments.Integral := by
  have htexts : ∀ texts : List String, (Json.ofTexts texts).Integral := by
    intro texts
    refine Json.integral_array fun v hv => ?_
    obtain ⟨t, -, rfl⟩ := List.mem_map.mp hv
    exact Json.integral_text t
  cases c <;> refine Json.integral_object ?_ <;> simp [Json.integral_text, htexts]

end Command

namespace Envelope

def members (e : Envelope) : List (Option String × Document) :=
  [(some "version", .number (.ofInt e.version.toNat)), (some "op", .text (some e.command.name)),
    (some "args", e.command.arguments.document)]

/-- The members of an envelope are in its bytes. -/
theorem ofBytes?_members (e : Envelope) : Document.ofBytes? e.toBytes = some (.object e.members) := by
  have hintegral : e.toJson.Integral := by
    refine Json.integral_object ?_
    simp [Json.integral_int, Json.integral_text, e.command.integral_arguments]
  exact Document.ofBytes?_toBytes hintegral

/-- The members of an envelope tell the envelope. -/
theorem ofDocument?_members (e : Envelope) : ofDocument? (.object e.members) = some e := by
  obtain ⟨arguments, hdocument, hcommand, hvalue⟩ := e.command.ofParts?_arguments
  have hversion : e.version.toNat < Word.values32 := e.version.toNat_lt
  have hnumber := Document.nat?_ofInt hversion (by decide)
  have hstrict : restIsStrict e.members = true := by
    have hname : (Json.ofDocument? (Json.levels - 1) (.text (some e.command.name))).isSome = true := rfl
    simp only [restIsStrict, members, hdocument, List.all_cons, List.all_nil, hname, hvalue]
    rfl
  simp only [ofDocument?, hstrict]
  simp [members, Document.members?, hdocument, hcommand, hnumber, name?, Dict.get?_insert,
    Dict.contains_insert]

theorem ofBytes?_toBytes (e : Envelope) : ofBytes? e.toBytes = some e := by
  rw [ofBytes?, ofBytes?_members]
  exact ofDocument?_members e

/-- An envelope is read back from its bytes. The bytes hold one text under the name of the operation, which is the name
of the command that is read. No other envelope has these bytes. -/
theorem reads_back :
    (∀ e : Envelope, ∃ decoded, ofBytes? e.toBytes = some decoded ∧ decoded = e ∧
      ∃ members, Document.ofBytes? e.toBytes = some (.object members) ∧
        members.filter (·.1 == some "op") = [(some "op", .text (some decoded.command.name))]) ∧
    Function.Injective toBytes := by
  refine ⟨fun e => ⟨e, ofBytes?_toBytes e, rfl, e.members, ofBytes?_members e, rfl⟩, fun e e' h => ?_⟩
  have hsame : some e = some e' := by rw [← ofBytes?_toBytes e, h, ofBytes?_toBytes e']
  exact Option.some.inj hsame

end Envelope

end Placement.Registry
