import Placement.Config
import Placement.Proofs.Trees

/-!
Configurations as JSON, written and read back.

Everything of a configuration is written, what is left out of it as null, so that no default comes in when it is read. A
text that is read as a configuration has a normal form, the text that is written for what was read, and nothing that is
asked of a configuration depends on more than this form.

- `ofDocument?_toJson`: a configuration is read back from the document that is written for it.
- `ofBytes?_toJson`: and from the bytes.
- `normal_forms_suffice`: normal forms are their own, and say what their texts say.
-/

namespace Placement

open Json (Document)

/-- What may be null is read back, if what is written for a value is read back and is not null. -/
theorem Json.Document.optional?_getD {α : Type} {read : Document → Option α} {write : α → Json}
    (h : ∀ a, read (write a).document = some a ∧ (write a).document ≠ .null) (a : Option α) :
    Document.optional? read (some ((a.map write).getD .null).document) = some a := by
  cases a with
  | none => rfl
  | some a =>
    obtain ⟨hread, hnull⟩ := h a
    show Document.optional? read (some (write a).document) = some (some a)
    unfold Document.optional?
    split
    · rename_i he
      cases he
    · rename_i he
      exact absurd (Option.some.inj he) hnull
    · rename_i he
      rw [← Option.some.inj he, hread]
      rfl

namespace Config

/-! ## Parts of a configuration -/

theorem port?_toNat (port : UInt16) : port? (.number (.ofInt port.toNat)) = some port := by
  have hport : port.toNat < Word.values16 := port.toNat_lt
  rw [port?, Document.nat?_ofInt hport (by decide)]
  simp

theorem timeout?_toNat (timeout : UInt64) : timeout? (.number (.ofInt timeout.toNat)) = some timeout := by
  have htimeout : timeout.toNat < Word.values64 := timeout.toNat_lt
  rw [timeout?, Document.nat?_ofInt htimeout (Nat.le_refl _)]
  simp

theorem optional?_optionalText (t : Option String) :
    Document.optional? Document.text? (some (optionalText t).document) = some t := by
  cases t <;> rfl

theorem NodeEntry.ofDocument?_entry (n : NodeEntry) : ofDocument? n.toJson.document = some n := by
  simp [toJson, ofDocument?, Json.document, Json.memberDocuments, Document.fields?, Document.members?, Dict.get?_insert,
    Dict.contains_insert, Document.text?, Document.bool?, Document.defaulted?, port?_toNat, optional?_optionalText]

theorem RegistrySection.ofDocument?_section (r : RegistrySection) : ofDocument? r.toJson.document = some r := by
  simp [toJson, ofDocument?, Json.document, Json.memberDocuments, Document.fields?, Document.members?, Dict.get?_insert,
    Dict.contains_insert, Document.text?, port?_toNat]

theorem list?_entries (nodes : List NodeEntry) :
    (Document.array (Json.itemDocuments (nodes.map NodeEntry.toJson))).list? NodeEntry.ofDocument? = some nodes := by
  show (Json.itemDocuments (nodes.map NodeEntry.toJson)).mapM NodeEntry.ofDocument? = some nodes
  induction nodes with
  | nil => rfl
  | cons node rest ih => simp [Json.itemDocuments, NodeEntry.ofDocument?_entry, ih]

theorem optional?_selection (how : Option Selection) :
    Document.optional? selection? (some (optionalText (how.map Selection.name)).document) = some how := by
  rcases how with _ | _ | _ | _ <;> rfl

/-! ## The whole -/

/-- Whatever it is, a configuration is read back from the document that is written for it. -/
theorem ofDocument?_toJson (c : Config) : ofDocument? c.toJson.document = some c := by
  have registry := Document.optional?_getD (fun r => ⟨RegistrySection.ofDocument?_section r, nofun⟩) c.registry
  simp [toJson, ofDocument?, Json.document, Json.memberDocuments, Document.fields?, Document.members?, Dict.get?_insert,
    Dict.contains_insert, Document.defaulted?, list?_entries, registry, optional?_selection, timeout?_toNat]

theorem integral_optionalText (t : Option String) : (optionalText t).Integral := by
  cases t with
  | none => exact Json.integral_null
  | some t => exact Json.integral_text t

/-- A configuration has no numbers but integers. -/
theorem integral_toJson (c : Config) : c.toJson.Integral := by
  have entry : ∀ n : NodeEntry, n.toJson.Integral := fun n => by
    refine Json.integral_object ?_
    simp [Json.integral_text, Json.integral_int, Json.integral_bool, integral_optionalText]
  have nodes : (Json.array (c.nodes.map NodeEntry.toJson)).Integral := by
    refine Json.integral_array fun v hv => ?_
    obtain ⟨n, -, rfl⟩ := List.mem_map.mp hv
    exact entry n
  have registry : ((c.registry.map RegistrySection.toJson).getD .null).Integral := by
    cases c.registry with
    | none => exact Json.integral_null
    | some r =>
      refine Json.integral_object ?_
      simp [Json.integral_text, Json.integral_int]
  refine Json.integral_object ?_
  simp [Json.integral_int, nodes, registry, integral_optionalText]

theorem ofBytes?_toJson (c : Config) : ofBytes? c.toJson.toBytes = some c := by
  rw [ofBytes?, Document.ofBytes?_toBytes c.integral_toJson]
  exact c.ofDocument?_toJson

def normalForm? (bytes : ByteArray) : Option ByteArray := (ofBytes? bytes).map fun c => c.toJson.toBytes

/-- A normal form says what its text says. -/
theorem ofBytes?_normalForm {bytes form : ByteArray} (h : normalForm? bytes = some form) :
    ∃ c, ofBytes? bytes = some c ∧ ofBytes? form = some c := by
  obtain ⟨c, hc, rfl⟩ := Option.map_eq_some_iff.mp h
  exact ⟨c, hc, c.ofBytes?_toJson⟩

/-- A configuration is read back from its text. A text that is read has a normal form, which is its own normal form
and is read as the same configuration. Two texts with one normal form have the same default nodes, choose nodes in the
same way, wait as long, and are both valid or have the same fault. -/
theorem normal_forms_suffice :
    (∀ c : Config, ofBytes? c.toJson.toBytes = some c) ∧
      (∀ bytes c, ofBytes? bytes = some c → ∃ form, normalForm? bytes = some form ∧ normalForm? form = some form ∧
        ofBytes? form = some c) ∧
      ∀ bytes bytes' form, normalForm? bytes = some form → normalForm? bytes' = some form → ∃ c c',
        ofBytes? bytes = some c ∧ ofBytes? bytes' = some c' ∧ c.defaultNodes = c'.defaultNodes ∧
          c.effectiveSelection = c'.effectiveSelection ∧ c.effectiveTimeout = c'.effectiveTimeout ∧
          c.validate = c'.validate := by
  refine ⟨ofBytes?_toJson, fun bytes c hc => ?_, fun bytes bytes' form h h' => ?_⟩
  · refine ⟨c.toJson.toBytes, by rw [normalForm?, hc]; rfl, ?_, c.ofBytes?_toJson⟩
    rw [normalForm?, c.ofBytes?_toJson]
    rfl
  · obtain ⟨c, hc, hform⟩ := ofBytes?_normalForm h
    obtain ⟨c', hc', hform'⟩ := ofBytes?_normalForm h'
    obtain rfl : c = c' := Option.some.inj (hform.symm.trans hform')
    exact ⟨c, c, hc, hc', rfl, rfl, rfl, rfl⟩

def brief : Json := .object [("nodes", .array [.object [("host", .text "10.0.0.1"), ("id", .text "a")]])]

def detailed : Config := { nodes := [{ id := "a", host := "10.0.0.1" }] }

theorem defaults_are_normal :
    normalForm? brief.toBytes = some detailed.toJson.toBytes ∧
      normalForm? detailed.toJson.toBytes = some detailed.toJson.toBytes ∧
      ∃ c, ofBytes? brief.toBytes = some c ∧ c.effectiveTimeout = 2000 ∧ c.validate = .ok () := by
  have integral : brief.Integral := by
    simp [brief, Json.Integral, Json.tokens, Json.itemTokens, Json.memberTokens, Json.Token.Exact]
  have read : ofBytes? brief.toBytes = some detailed := by
    rw [ofBytes?, Document.ofBytes?_toBytes integral]
    rfl
  obtain ⟨written, reads, same⟩ := normal_forms_suffice
  obtain ⟨form, hform, hself, -⟩ := reads brief.toBytes detailed read
  obtain rfl : detailed.toJson.toBytes = form := by
    rw [normalForm?, read] at hform
    exact Option.some.inj hform
  obtain ⟨c, c', hc, hc', -, -, htimeout, hvalid⟩ := same _ _ _ hform hself
  obtain rfl : detailed = c' := Option.some.inj ((written detailed).symm.trans hc')
  exact ⟨hform, hself, c, hc, htimeout, hvalid⟩

end Config

end Placement
