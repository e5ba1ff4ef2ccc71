import Placement.Store

/-!
A data node in memory.

It can be made unreachable, and closed. An unreachable node fails every call; a closed one fails every
call but a further `close`. Nothing is changed by a call that fails.
-/

namespace Placement.Store

/-- The records and the index of a node in memory, and whether it can be used. -/
structure Memory where
  records : Dict Record := Dict.empty
  index : Dict Score := Dict.empty
  unreachable : Bool := false
  closed : Bool := false
deriving DecidableEq, Repr, Inhabited

namespace Memory

def obstacle (m : Memory) : Option LinkFault :=
  if m.unreachable then some .nodeUnreachable
  else if m.closed then some .nodeClosed
  else none

def record (m : Memory) (key : String) : Record := (m.records.get? key).getD Dict.empty

/-- Whether one index entry comes before another: by score in the total order, then by key. -/
def entryLe (a b : String × Score) : Bool :=
  decide (a.2.rank < b.2.rank) || (decide (a.2.rank = b.2.rank) && decide (a.1 ≤ b.1))

def ordered (m : Memory) : List (String × Score) := m.index.toList.mergeSort entryLe

/-- The first so many keys with a score of at least `min`, in the order of their entries. -/
def range (m : Memory) (min : Score) (count : Nat) : List String :=
  (((m.index.toList.filter fun e => e.2.atLeast min).mergeSort entryLe).take count).map (·.1)

/-- Puts the fields into the record of the key; without fields no record comes to be. -/
def write (m : Memory) (key : String) (fields : Record) : Memory :=
  if fields.isEmpty then m else { m with records := m.records.insert key ((m.record key).override fields) }

def count (m : Memory) : Nat := m.records.size + if m.index.isEmpty then 0 else 1

def serve : (c : Call) → Memory → c.Answer × Memory
  | .write key fields, m => ((m.record key).created fields, m.write key fields)
  | .fetch key, m => (m.record key, m)
  | .fetchFields key names, m => ((m.record key).restrict names, m)
  | .holds key, m => (m.records.contains key, m)
  | .remove key, m => ((), { m with records := m.records.erase key })
  | .indexAdd score key, m => ((), { m with index := m.index.insert key score })
  | .indexRange min count, m => (m.range min count, m)
  | .removeIndexed key, m =>
    (m.records.contains key && m.index.contains key,
      { m with records := m.records.erase key, index := m.index.erase key })
  | .count, m => (m.count, m)
  | .flush, m => ((), { m with records := Dict.empty, index := Dict.empty })
  | .close, m => ((), { m with closed := true })

def perform (c : Call) (m : Memory) : Except Fault c.Answer × Memory :=
  match c, m.obstacle with
  | .close, _ =>
    if m.unreachable then (.error (.connection .nodeUnreachable), m)
    else let (a, m') := serve .close m; (.ok a, m')
  | _, some cause => (.error (.connection cause), m)
  | c, none => let (a, m') := serve c m; (.ok a, m')

instance : Store Memory := ⟨perform⟩

theorem perform_of_usable {m : Memory} (h : m.obstacle = none) (c : Call) :
    perform c m = (.ok (serve c m).1, (serve c m).2) := by
  have hu : m.unreachable = false := by
    cases hm : m.unreachable with
    | false => rfl
    | true => simp [obstacle, hm] at h
  cases c <;> simp [perform, h, hu]

theorem perform_of_obstacle {m : Memory} {cause : LinkFault} (h : m.obstacle = some cause) {c : Call}
    (hc : c ≠ .close) : perform c m = (.error (.connection cause), m) := by
  cases c with
  | close => exact absurd rfl hc
  | _ => simp [perform, h]

/-- An answer is what a usable node serves, unless the call is to close it. -/
theorem perform_ok {c : Call} {m m' : Memory} {a : c.Answer} (h : perform c m = (.ok a, m')) :
    (c ≠ .close → m.obstacle = none) ∧ a = (serve c m).1 ∧ m' = (serve c m).2 := by
  cases ho : m.obstacle with
  | none =>
    rw [perform_of_usable ho, Prod.mk.injEq, Except.ok.injEq] at h
    exact ⟨fun _ => rfl, h.1.symm, h.2.symm⟩
  | some cause =>
    cases c with
    | close =>
      simp only [perform] at h
      split at h
      · cases h
      · cases h
        exact ⟨fun hc => absurd rfl hc, rfl, rfl⟩
    | _ => simp [perform, ho] at h

/-- A call that fails changes nothing. -/
theorem perform_error {c : Call} {m m' : Memory} {fault : Fault} (h : perform c m = (.error fault, m')) : m' = m := by
  cases ho : m.obstacle with
  | none =>
    rw [perform_of_usable ho] at h
    cases h
  | some cause =>
    cases c with
    | close =>
      simp only [perform] at h
      split at h
      · cases h
        rfl
      · cases h
    | _ =>
      simp only [perform, ho] at h
      cases h
      rfl

theorem record_of_get? {m : Memory} {key : String} {r : Record} (h : m.records.get? key = some r) :
    m.record key = r := by
  simp [record, h]

theorem record_of_absent {m : Memory} {key : String} (h : m.records.contains key = false) :
    m.record key = Dict.empty := by
  simp [record, Dict.contains_eq_false.1 h]

/-- Dropping what is not there changes nothing. -/
theorem serve_removeIndexed_of_absent {m : Memory} {key : String} (hr : m.records.contains key = false)
    (hi : m.index.contains key = false) : (serve (.removeIndexed key) m).2 = m := by
  rw [serve, Dict.erase_of_get? (Dict.contains_eq_false.1 hr), Dict.erase_of_get? (Dict.contains_eq_false.1 hi)]

/-- A write that has fields brings the record of its key, and no other. -/
theorem contains_write (m : Memory) (key key' : String) (fields : Record) :
    (m.write key fields).records.contains key' =
      (m.records.contains key' || (decide (key = key') && !fields.isEmpty)) := by
  unfold write
  split
  · rename_i he
    simp [he]
  · rename_i he
    rw [Dict.contains_insert, Bool.or_comm]
    simp [Bool.eq_false_iff.2 he]

theorem get?_write (m : Memory) (key key' : String) (fields : Record) :
    (m.write key fields).records.get? key' =
      if key = key' ∧ fields.isEmpty = false then some ((m.record key).override fields) else m.records.get? key' := by
  unfold write
  split
  · rename_i he
    simp [he]
  · rename_i he
    simp [Dict.get?_insert, Bool.eq_false_iff.2 he]

/-- A write over a record puts the fields over its own; without fields that changes nothing. -/
theorem get?_write_of_held {m : Memory} {key : String} {r : Record} (h : m.records.get? key = some r) (key' : String)
    (fields : Record) :
    (m.write key fields).records.get? key' =
      if key = key' then some (r.override fields) else m.records.get? key' := by
  rw [get?_write, record_of_get? h]
  by_cases hk : key = key'
  · subst hk
    cases hf : fields.isEmpty with
    | false => simp
    | true => simp [Dict.isEmpty_iff.1 hf, Dict.override_empty, h]
  · simp [hk]

/-- A write changes its record only. -/
theorem erase_write (m : Memory) (key : String) (fields : Record) :
    (m.write key fields).records.erase key = m.records.erase key := by
  unfold write
  split
  · rfl
  · exact Dict.erase_insert ..

theorem index_write (m : Memory) (key : String) (fields : Record) : (m.write key fields).index = m.index := by
  unfold write
  split <;> rfl

/-- Removing a record that was written as a new one brings back what there was before. -/
theorem remove_write {m : Memory} {key : String} (h : m.records.contains key = false) (fields : Record) :
    (serve (.remove key) (m.write key fields)).2 = m := by
  unfold write
  split
  · simp [serve, Dict.erase_of_get? (Dict.contains_eq_false.1 h)]
  · simp [serve, Dict.erase_insert, Dict.erase_of_get? (Dict.contains_eq_false.1 h)]

theorem obstacle_write (m : Memory) (key : String) (fields : Record) : (m.write key fields).obstacle = m.obstacle := by
  unfold write
  split <;> rfl

/-- Only closing a node changes whether it can be used. -/
theorem obstacle_serve {c : Call} (h : c ≠ .close) (m : Memory) : (serve c m).2.obstacle = m.obstacle := by
  cases c with
  | close => exact absurd rfl h
  | write key fields => exact obstacle_write m key fields
  | _ => rfl

/-- What cannot be used stays so. -/
theorem obstacle_serve_of_obstacle (c : Call) {m : Memory} (h : m.obstacle ≠ none) : (serve c m).2.obstacle ≠ none := by
  by_cases hc : c = .close
  · subst hc
    simp only [serve, obstacle, if_true]
    split <;> simp
  · rwa [obstacle_serve hc]

def Filled (m : Memory) : Prop := ∀ key r, m.records.get? key = some r → r.isEmpty = false

theorem Filled.record_isEmpty {m : Memory} (h : m.Filled) (key : String) :
    (m.record key).isEmpty = !m.records.contains key := by
  cases hr : m.records.get? key with
  | none => simp [record, Dict.contains, hr, Dict.isEmpty, Dict.empty]
  | some r => simp [record, Dict.contains, hr, h key r hr]

theorem Filled.erase {m : Memory} (h : m.Filled) (key key' : String) {r : Record}
    (hr : (m.records.erase key).get? key' = some r) : r.isEmpty = false := by
  rw [Dict.get?_erase] at hr
  split at hr
  · cases hr
  · exact h key' r hr

/-- No call brings a record without fields. -/
theorem Filled.serve {m : Memory} (h : m.Filled) (c : Call) : (serve c m).2.Filled := by
  intro key' r hr
  cases c with
  | write key fields =>
    simp only [Memory.serve, write] at hr
    split at hr
    · exact h key' r hr
    · rename_i he
      simp only [Dict.get?_insert] at hr
      split at hr
      · cases hr
        exact Record.override_isEmpty (Bool.eq_false_iff.2 he)
      · exact h key' r hr
  | remove key => exact h.erase key key' hr
  | removeIndexed key => exact h.erase key key' hr
  | flush => cases hr
  | _ => exact h key' r hr

end Memory

end Placement.Store
