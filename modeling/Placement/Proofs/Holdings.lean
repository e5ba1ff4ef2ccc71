import Placement.Proofs.Overwriting

/-!
What a node in memory holds, and what it says of it.

Calls and changes of the link lead from a new node to others. Nowhere on the way does a record come to be without
fields, so that a record is said to be there exactly where there is something to fetch; and nothing is touched by a
call that fails. The other answers are told apart from the records by what they say of each field and of each key.

- `Truthful`: the answers of a node fit its records, and one another.
- `Reached.truthful`: every node that calls lead to is so.
-/

namespace Placement.Store.Memory

/-- The answers of a node fit what it holds, and one another. -/
structure Truthful (m : Memory) : Prop where
  filled : ∀ key r, m.records.get? key = some r → ∃ name, r.contains name = true
  held : m.unreachable = false → m.closed = false → ∀ key, ∃ held r,
    perform (.holds key) m = (.ok held, m) ∧ perform (.fetch key) m = (.ok r, m) ∧
      (held = true ↔ ∃ name, r.contains name = true)
  /-- A write says by how many fields the record grows. -/
  written : ∀ key fields created m', perform (.write key fields) m = (.ok created, m') → ∃ old new,
    perform (.fetch key) m = (.ok old, m) ∧ perform (.fetch key) m' = (.ok new, m') ∧
      old.size + created = new.size ∧ ∀ name, new.get? name = (fields.get? name).or (old.get? name)
  /-- What some names are answered is the part of the record that they name, however often they do. -/
  named : ∀ key names part m', perform (.fetchFields key names) m = (.ok part, m') → m' = m ∧ ∃ r,
    perform (.fetch key) m = (.ok r, m) ∧ ∀ name, part.get? name = if name ∈ names then r.get? name else none
  counted : ∀ count m', perform .count m = (.ok count, m') → m' = m ∧ ∃ keys : List String,
    keys.Nodup ∧ (∀ key, key ∈ keys ↔ m.records.contains key = true) ∧
      ((∃ key, m.index.contains key = true) → count = keys.length + 1) ∧
      ((∀ key, m.index.contains key = false) → count = keys.length)
  failed : ∀ c fault m', perform c m = (.error fault, m') →
    m'.records = m.records ∧ m'.index = m.index ∧ m'.closed = m.closed

variable {m m' : Memory}

theorem obstacle_eq_none_iff : m.obstacle = none ↔ m.unreachable = false ∧ m.closed = false := by
  cases hu : m.unreachable <;> cases hc : m.closed <;> simp [obstacle, hu, hc]

/-- Whether a record is there is whether there is something to fetch. -/
theorem Filled.contains_iff (h : m.Filled) (key : String) :
    m.records.contains key = true ↔ ∃ name, (m.record key).contains name = true := by
  rw [← Dict.isEmpty_eq_false, h.record_isEmpty, Bool.not_eq_eq_eq_not, Bool.not_false]

/-- What is fetched behind a write is what was fetched before it, with the new fields over it. -/
theorem record_write (m : Memory) (key : String) (fields : Record) :
    (m.write key fields).record key = (m.record key).override fields := by
  rw [record, get?_write]
  cases hf : fields.isEmpty with
  | false => simp
  | true => simp [Dict.isEmpty_iff.1 hf, Dict.override_empty, record]

theorem perform_write {key : String} {fields : Record} {created : Nat}
    (h : perform (.write key fields) m = (.ok created, m')) :
    ∃ old new, perform (.fetch key) m = (.ok old, m) ∧ perform (.fetch key) m' = (.ok new, m') ∧
      old.size + created = new.size ∧ new = Dict.override old fields := by
  obtain ⟨hu, hcreated, hm'⟩ := perform_ok h
  have usable : m.obstacle = none := hu nofun
  have usable' : m'.obstacle = none := by
    rw [hm']
    exact (obstacle_write ..).trans usable
  refine ⟨m.record key, m'.record key, perform_of_usable usable _, perform_of_usable usable' _, ?_, ?_⟩
  · rw [hcreated, hm', serve, record_write, Record.size_override]
  · rw [hm', serve, record_write]

theorem perform_count {count : Nat} (h : perform .count m = (.ok count, m')) :
    m' = m ∧ ((∃ key, m.index.contains key = true) → count = m.records.keys.length + 1) ∧
      ((∀ key, m.index.contains key = false) → count = m.records.keys.length) := by
  obtain ⟨-, hcount, hm'⟩ := perform_ok h
  refine ⟨hm', fun hindex => ?_, fun hindex => ?_⟩
  · rw [hcount, serve, Memory.count, Dict.length_keys, Dict.isEmpty_eq_false.2 hindex]
    rfl
  · have hempty : m.index.isEmpty = true := by
      by_contra hne
      obtain ⟨key, hkey⟩ := Dict.isEmpty_eq_false.1 (Bool.eq_false_iff.2 hne)
      rw [hindex key] at hkey
      cases hkey
    rw [hcount, serve, Memory.count, Dict.length_keys, hempty]
    rfl

/-- On every node that calls lead to from a new one, whatever happens to the link in between, no record is without
fields and the answers fit the records. -/
theorem Reached.truthful (h : Reached m) : Truthful m where
  filled key r hr := Dict.isEmpty_eq_false.1 (h.filled key r hr)
  held reachable unclosed key := by
    have usable := obstacle_eq_none_iff.2 ⟨reachable, unclosed⟩
    exact ⟨_, _, perform_of_usable usable (.holds key), perform_of_usable usable (.fetch key), h.filled.contains_iff key⟩
  written key fields created m' hw := by
    obtain ⟨old, new, hold, hnew, hsize, rfl⟩ := perform_write hw
    exact ⟨old, _, hold, hnew, hsize, Dict.get?_override old fields⟩
  named key names part m' hn := by
    obtain ⟨hu, rfl, hm'⟩ := perform_ok hn
    exact ⟨hm', m.record key, perform_of_usable (hu nofun) _, Dict.get?_restrict _ names⟩
  counted count m' hc := by
    obtain ⟨hm', hsome, hnone⟩ := perform_count hc
    exact ⟨hm', m.records.keys, m.records.keys_nodup, fun _ => Dict.mem_keys, hsome, hnone⟩
  failed c fault m' hf := by
    rw [perform_error hf]
    exact ⟨rfl, rfl, rfl⟩

def revisited : Memory :=
  { (perform .count { (perform (.write "k" (Dict.ofList [("a", "1"), ("b", "2")])) {}).2 with unreachable := true }).2 with
    unreachable := false }

/-- A second write has one field of the first and one of its own, and the record grows by one. -/
theorem a_record_grows_by_one :
    Reached revisited ∧ ∃ m', perform (.write "k" (Dict.ofList [("a", "3"), ("c", "4")])) revisited = (.ok 1, m') ∧
      ∃ old new, perform (.fetch "k") revisited = (.ok old, revisited) ∧ perform (.fetch "k") m' = (.ok new, m') ∧
        old.size + 1 = new.size ∧ new.get? "a" = some "3" ∧ new.get? "b" = old.get? "b" := by
  have reached : Reached revisited := .linked false (.call .count (.linked true (.call (.write ..) .new)))
  obtain ⟨old, new, hold, hnew, hsize, hfields⟩ :=
    reached.truthful.written "k" (Dict.ofList [("a", "3"), ("c", "4")]) 1 _ rfl
  exact ⟨reached, _, rfl, old, new, hold, hnew, hsize, hfields "a", hfields "b"⟩

end Placement.Store.Memory
