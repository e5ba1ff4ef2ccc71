import Placement.Dict

/-!
Records: values under field names.

A reader may name the fields it wants. No names at all, whether the list is missing or empty, mean every
field; a named field that the record does not have is left out.
-/

namespace Placement

abbrev Record := Dict String

namespace Record

def namesOf (names : Option (List String)) : Option (List String) := names.filter (!·.isEmpty)

def select (r : Record) (names : Option (List String)) : Record :=
  match namesOf names with
  | some names => r.restrict names
  | none => r

/-- How many of the given fields the record does not have yet. -/
def created (old fields : Record) : Nat := (fields.keys.filter fun name => !old.contains name).length

/-- All fields are new exactly if the record has none of their names. -/
theorem created_eq_size_iff {old fields : Record} :
    created old fields = fields.size ↔ ∀ name, fields.contains name = true → old.contains name = false := by
  rw [created, ← Dict.length_keys, List.length_filter_eq_length_iff]
  simp [Dict.mem_keys]

theorem created_empty (fields : Record) : created Dict.empty fields = fields.size :=
  created_eq_size_iff.2 fun _ _ => rfl

/-- A record grows by the fields that are new. -/
theorem size_override (old fields : Record) : (Dict.override old fields).size = old.size + old.created fields := by
  have hcreated : old.created fields = (fields.entries.filter fun e => !old.contains e.1).length := by
    rw [created, Dict.keys, List.filter_map, List.length_map]
    rfl
  rw [hcreated]
  exact Dict.size_foldl_insert fields.ascending old

/-- New fields alone make up the whole record only if there was none before. -/
theorem override_eq_of_created {old fields : Record} (h : created old fields = fields.size) :
    Dict.override old fields = fields ↔ old = Dict.empty := by
  constructor
  · intro he
    refine Dict.ext_get? fun name => ?_
    rw [Dict.get?_empty, ← Dict.contains_eq_false]
    cases hf : fields.contains name with
    | true => exact created_eq_size_iff.1 h name hf
    | false =>
      have := congrArg (·.get? name) he
      simp only [Dict.get?_override, Dict.contains_eq_false.1 hf, Option.none_or] at this
      exact Dict.contains_eq_false.2 this
  · rintro rfl
    exact Dict.empty_override fields

theorem override_isEmpty_of_old {old : Record} (h : old.isEmpty = false) (fields : Record) :
    (Dict.override old fields).isEmpty = false := by
  obtain ⟨name, hn⟩ := Dict.isEmpty_eq_false.1 h
  obtain ⟨v, hv⟩ := Dict.contains_iff.1 hn
  refine Dict.isEmpty_eq_false.2 ⟨name, ?_⟩
  cases hf : fields.get? name with
  | none => exact Dict.contains_iff.2 ⟨v, by rw [Dict.get?_override, hf, hv]; rfl⟩
  | some v' => exact Dict.contains_iff.2 ⟨v', by rw [Dict.get?_override, hf]; rfl⟩

theorem override_isEmpty {old fields : Record} (h : fields.isEmpty = false) :
    (Dict.override old fields).isEmpty = false := by
  obtain ⟨name, hn⟩ := Dict.isEmpty_eq_false.1 h
  obtain ⟨v, hv⟩ := Dict.contains_iff.1 hn
  exact Dict.isEmpty_eq_false.2 ⟨name, Dict.contains_iff.2 ⟨v, by simp [Dict.get?_override, hv]⟩⟩

@[simp] theorem select_none (r : Record) : r.select none = r := rfl

@[simp] theorem select_empty (names : Option (List String)) : select Dict.empty names = Dict.empty := by
  unfold select
  split <;> rfl

end Record

end Placement
