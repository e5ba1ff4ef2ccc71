import Placement.Proofs.Indexing
import Placement.Proofs.Keyspaces

/-!
The two kinds of nodes, side by side.

A memory keeps records and index apart, a keyspace keeps both under keys, the index as one of them and only as long as
it has entries. As long as no record is kept under the key of the index, the one mirrors the other, and every call
keeps it so. What could still tell them apart are scores: a memory orders -0 before 0, a sorted set takes them for
equal, and takes no NaN at all. The scores of keys are neither.

- `Binary64.place_lt_iff`, `KeyHash.plain_score`: where both order scores alike.
- `Node.found_get?`: what is found of a record under some names.
- `Keyspace.serve_mirrors`: one call.
- `Memory.fits_of_few`: how long a memory is sure to have room.
- `nodes_agree`: all calls.
-/

namespace Placement

/-! ## Scores -/

namespace Binary64

theorem magnitude_pos {s : Binary64} (hn : s.negative = true) (h : s ≠ negativeZero) : 0 < s.magnitude := by
  by_contra hzero
  apply h
  obtain ⟨⟨⟨a, ha⟩⟩⟩ := s
  have : a = 9223372036854775808 := by
    simp only [negative, magnitude, Word.values63, UInt64.toNat, BitVec.toNat, decide_eq_true_eq] at hn hzero
    omega
  subst this
  rfl

/-- Among plain numbers the places order as the ranks do. -/
theorem place_lt_iff {s t : Binary64} (hs : s ≠ negativeZero) (ht : t ≠ negativeZero) :
    s.place < t.place ↔ s.rank < t.rank := by
  unfold place rank
  cases hsn : s.negative with
  | false =>
    cases htn : t.negative with
    | false => simp
    | true =>
      have := magnitude_pos htn ht
      simp
      omega
  | true =>
    have := magnitude_pos hsn hs
    cases htn : t.negative with
    | false =>
      simp
      omega
    | true =>
      simp

theorem place_eq_iff {s t : Binary64} (hs : s ≠ negativeZero) (ht : t ≠ negativeZero) :
    s.place = t.place ↔ s.rank = t.rank := by
  have hlt := place_lt_iff hs ht
  have hgt := place_lt_iff ht hs
  omega

/-- Integers of up to fifty-three bits are plain. -/
theorem plain_ofInt {i : Int} (h : i.natAbs < 2 * Word.values52) : (ofInt i).Plain := by
  refine ⟨(isInteger_ofInt h).isNaN, fun hzero => ?_⟩
  have hmagnitude := magnitude_ofInt h
  rw [hzero] at hmagnitude
  have : magnitudeOf i.natAbs = 0 := hmagnitude.symm
  by_cases hi : i = 0
  · subst hi
    cases hzero
  · unfold magnitudeOf at this
    rw [if_neg (by omega)] at this
    simp only [Word.values52] at this
    omega

end Binary64

/-- The score of a key is plain. -/
theorem KeyHash.plain_score (key : String) : (KeyHash.score key).Plain := Binary64.plain_ofInt (natAbs_lt key)

/-- The maps that can be: each entry takes up memory, and no allocation has more than half of all addresses. -/
def Dict.Fits {β : Type} (d : Dict β) : Prop := d.size < Word.values63

/-- What a write creates fits a reply. -/
theorem Record.created_lt {old fields : Record} (h : Dict.Fits fields) : created old fields < Word.values64 := by
  have hle : created old fields ≤ fields.keys.length := List.length_filter_le ..
  rw [Dict.length_keys] at hle
  simp only [Dict.Fits, Word.values63, Word.values64] at h ⊢
  omega

namespace Store

/-! ## Calls and states -/

structure Memory.Fits (m : Memory) : Prop where
  records : m.records.Fits
  index : m.index.Fits

/-- Calls that mean the same to both kinds of nodes: no record is kept under the key of the index, and scores are plain.
Of fields there are no more than a map can have. -/
def Call.Portable : Call → Prop
  | .write key fields => key ≠ Redis.indexKey ∧ fields.Fits
  | .fetch key | .fetchFields key _ | .holds key | .remove key | .removeIndexed key => key ≠ Redis.indexKey
  | .indexAdd score key => key ≠ Redis.indexKey ∧ score.Plain
  | .indexRange min _ => min.Plain
  | .count | .flush => True
  | .close => False

instance {β : Type} (d : Dict β) : Decidable d.Fits := inferInstanceAs (Decidable (_ < _))

instance : DecidablePred Call.Portable
  | .write .. => inferInstanceAs (Decidable (_ ∧ _))
  | .fetch _ | .fetchFields .. | .holds _ | .remove _ | .removeIndexed _ => inferInstanceAs (Decidable (_ ≠ _))
  | .indexAdd .. => inferInstanceAs (Decidable (_ ∧ _))
  | .indexRange min _ => inferInstanceAs (Decidable min.Plain)
  | .count | .flush => .isTrue trivial
  | .close => .isFalse id

namespace Redis

theorem Node.found_get? (r : Record) (names : List String) : found names (names.map r.get?) = r.restrict names := by
  have zipped : (names.zip (names.map r.get?)).filterMap (fun e => e.2.map fun v => (e.1, v)) =
      names.filterMap fun name => (r.get? name).map fun v => (name, v) := by
    induction names with
    | nil => rfl
    | cons name rest ih => simp [List.filterMap_cons, ih]
  exact (congrArg Dict.ofList zipped).trans (Dict.ofList_found r names)

end Redis

namespace Redis.Keyspace

/-- The keyspace holds the records of the memory, each under its key, and its index, if that has entries. -/
structure Mirrors (m : Memory) (s : Keyspace) : Prop where
  values : ∀ key, s.values.get? key =
    if key = indexKey then if m.index.isEmpty then none else some (.sorted m.index)
    else (m.records.get? key).map .hash
  unrecorded : m.records.get? indexKey = none
  plain : ∀ key score, m.index.get? key = some score → score.Plain

variable {m : Memory} {s s' : Keyspace} {key : String}

namespace Mirrors

theorem congr (h : Mirrors m s) (hs : s'.values = s.values) : Mirrors m s' :=
  ⟨fun key => by rw [hs, h.values], h.unrecorded, h.plain⟩

theorem hash? (h : Mirrors m s) (hk : key ≠ indexKey) : s.hash? key = some (m.record key) := by
  rw [Keyspace.hash?, h.values, if_neg hk, Memory.record]
  cases m.records.get? key <;> rfl

theorem sorted? (h : Mirrors m s) : s.sorted? indexKey = some m.index := by
  rw [Keyspace.sorted?, h.values, if_pos rfl]
  cases he : m.index.isEmpty with
  | true => rw [Dict.isEmpty_iff.1 he]; rfl
  | false => rfl

theorem contains (h : Mirrors m s) (hk : key ≠ indexKey) : s.values.contains key = m.records.contains key := by
  rw [Dict.contains, h.values, if_neg hk, Option.isSome_map, Dict.contains]

/-- The keys of the keyspace are those of the records, and that of the index if it has entries. -/
theorem size (h : Mirrors m s) : s.values.size = m.count := by
  have hsame : s.values =
      if m.index.isEmpty then m.records.map fun _ => Value.hash
      else (m.records.map fun _ => Value.hash).insert indexKey (.sorted m.index) := by
    refine Dict.ext_get? fun key => ?_
    rw [h.values]
    by_cases hk : key = indexKey
    · subst hk
      cases m.index.isEmpty <;> simp [Dict.get?_map, h.unrecorded]
    · cases m.index.isEmpty <;> simp [Dict.get?_map, Dict.get?_insert, hk, Ne.symm hk]
  rw [hsame, Memory.count]
  cases m.index.isEmpty with
  | true => simp
  | false =>
    have hnew : (m.records.map fun _ => Value.hash).contains indexKey = false := by
      simp [Dict.contains, Dict.get?_map, h.unrecorded]
    simp [Dict.size_insert, hnew]

theorem write (h : Mirrors m s) (hk : key ≠ indexKey) {fields : Record} (hf : fields.isEmpty = false) :
    Mirrors (m.write key fields)
      { s with values := s.values.insert key (.hash ((m.record key).override fields)) } where
  values key' := by
    rw [Dict.get?_insert, Memory.get?_write, Memory.index_write, h.values]
    by_cases he : key = key'
    · subst he
      simp [hk, hf]
    · simp [he]
  unrecorded := by simp [Memory.get?_write, hk, h.unrecorded]
  plain := by
    rw [Memory.index_write]
    exact h.plain

theorem erase (h : Mirrors m s) (hk : key ≠ indexKey) :
    Mirrors { m with records := m.records.erase key } { s with values := s.values.erase key } where
  values key' := by
    rw [Dict.get?_erase, Dict.get?_erase, h.values]
    by_cases he : key = key'
    · subst he
      simp [hk]
    · simp [he]
  unrecorded := by simp [Dict.get?_erase, hk, h.unrecorded]
  plain := h.plain

theorem reindex (h : Mirrors m s) {index : Dict Score} (hp : ∀ key score, index.get? key = some score → score.Plain) :
    Mirrors { m with index } (s.setSorted indexKey index) where
  values key' := by
    unfold setSorted
    by_cases he : key' = indexKey
    · subst he
      cases index.isEmpty <;> simp [Dict.get?_erase]
    · cases index.isEmpty <;> simp [Dict.get?_erase, Dict.get?_insert, he, Ne.symm he, h.values]
  unrecorded := h.unrecorded
  plain := hp

theorem enter (h : Mirrors m s) {score : Score} (hp : score.Plain) (key : String) :
    Mirrors { m with index := m.index.insert key score } (s.setSorted indexKey (m.index.insert key score)) :=
  h.reindex fun key' score' hget => by
    rw [Dict.get?_insert] at hget
    split at hget
    · cases hget
      exact hp
    · exact h.plain key' score' hget

theorem leave (h : Mirrors m s) (key : String) :
    Mirrors { m with index := m.index.erase key } (s.setSorted indexKey (m.index.erase key)) :=
  h.reindex fun key' score' hget => by
    rw [Dict.get?_erase] at hget
    split at hget
    · cases hget
    · exact h.plain key' score' hget

/-- Ranges of the index agree, since its scores are plain: they are ordered alike, and equal scores by name. -/
theorem range (h : Mirrors m s) (min : Score) {count : Nat} (hfits : m.index.Fits) :
    Keyspace.range m.index min (Nat.min count Command.greatestCount) = m.range min count := by
  have plain : ∀ e ∈ m.index.toList.filter fun e => e.2.atLeast min, e.2 ≠ Binary64.negativeZero := fun e he =>
    (h.plain e.1 e.2 (Dict.mem_toList.1 (List.mem_filter.1 he).1)).2
  -- both sort by score and then by name, and compare plain scores alike
  have sorted : (m.index.toList.filter fun e => e.2.atLeast min).mergeSort memberLe =
      (m.index.toList.filter fun e => e.2.atLeast min).mergeSort Memory.entryLe := by
    have hmap := List.map_mergeSort (r := memberLe) (s := Memory.entryLe) (f := id)
      (l := m.index.toList.filter fun e => e.2.atLeast min) fun a ha b hb => by
        simp only [memberLe, Memory.entryLe, id, Binary64.place_lt_iff (plain a ha) (plain b hb),
          Binary64.place_eq_iff (plain a ha) (plain b hb)]
    simpa using hmap
  -- the greatest window takes in the whole index, so cutting the count down to it changes nothing
  have few : ((m.index.toList.filter fun e => e.2.atLeast min).mergeSort Memory.entryLe).length ≤
      Command.greatestCount := by
    rw [List.length_mergeSort]
    have hle : (m.index.toList.filter fun e => e.2.atLeast min).length ≤ m.index.size := List.length_filter_le ..
    unfold Dict.Fits at hfits
    unfold Command.greatestCount
    omega
  rw [Keyspace.range, Memory.range, sorted]
  generalize (m.index.toList.filter fun e => e.2.atLeast min).mergeSort Memory.entryLe = entries at few ⊢
  have hcount : Min.min (Min.min count Command.greatestCount) entries.length = Min.min count entries.length := by omega
  have htake : entries.take (Nat.min count Command.greatestCount) = entries.take count := List.take_eq_take_iff.2 hcount
  rw [htake]

end Mirrors

/-- One call: both answer the same, and still mirror each other. -/
theorem serve_mirrors {r : Readers} (hr : r.Faithful) {call : Call} (hc : call.Portable) (h : Mirrors m s)
    (hfits : m.Fits) :
    (serve r call s).1 = .ok (Memory.serve call m).1 ∧ Mirrors (Memory.serve call m).2 (serve r call s).2 := by
  cases call with
  | write key fields =>
    obtain ⟨hk, hsize⟩ := hc
    cases hf : fields.isEmpty with
    | true =>
      obtain rfl := Dict.isEmpty_iff.1 hf
      exact ⟨rfl, h⟩
    | false =>
      simp only [serve, hf, Bool.false_eq_true, if_false, command, execute, h.hash? hk]
      rw [hr.count (Record.created_lt hsize)]
      exact ⟨rfl, h.write hk hf⟩
  | fetch key =>
    have hnames : ((m.record key).toList.map (·.1)).Nodup := (m.record key).keys_nodup
    simp only [serve, command, execute, h.hash? hc]
    rw [hr.record _ hnames, Dict.ofList_toList]
    exact ⟨rfl, h⟩
  | fetchFields key names =>
    cases hn : names.isEmpty with
    | true =>
      obtain rfl := List.isEmpty_iff.1 hn
      refine ⟨congrArg Except.ok (Dict.ext_get? fun name => ?_), h⟩
      show (Dict.empty : Record).get? name = ((m.record key).restrict []).get? name
      simp [Dict.get?_restrict]
    | false =>
      simp only [serve, hn, Bool.false_eq_true, if_false, command, execute, h.hash? hc]
      rw [hr.values]
      exact ⟨congrArg Except.ok (Node.found_get? _ names), h⟩
  | holds key =>
    simp only [serve, command, execute, h.contains hc, hr.truth_bool]
    exact ⟨rfl, h⟩
  | remove key =>
    simp only [serve, command, execute, h.contains hc, hr.count_bool]
    exact ⟨rfl, h.erase hc⟩
  | indexAdd score key =>
    obtain ⟨hk, hp⟩ := hc
    simp only [serve, command, execute, h.sorted?]
    refine ⟨?_, h.enter hp key⟩
    obtain ⟨added, hadded⟩ : ∃ added, r.count (.int (if m.index.contains key then 0 else 1)) = .ok added := by
      cases m.index.contains key <;> exact ⟨_, hr.count (by decide)⟩
    rw [hadded]
    rfl
  | indexRange min count =>
    by_cases hcount : count = 0
    · subst hcount
      refine ⟨?_, h⟩
      simp [serve, Memory.serve, Memory.range]
    · simp only [serve, hcount, if_false, command, execute, h.sorted?]
      refine ⟨?_, h⟩
      rw [h.range min hfits.index, hr.texts]
      rfl
  | removeIndexed key =>
    have herased := h.erase hc
    simp only [serve, remove, execute, h.contains hc, herased.sorted?, hr.counts_bool]
    refine ⟨?_, herased.leave key⟩
    show _ = Except.ok (m.records.contains key && m.index.contains key)
    cases m.records.contains key <;> cases m.index.contains key <;> rfl
  | count =>
    refine ⟨?_, h⟩
    show (r.count (.int s.values.size)).mapError _ = _
    rw [h.size, hr.count]
    · rfl
    · have hrecords := hfits.records
      simp only [Dict.Fits, Memory.count, Word.values63, Word.values64] at hrecords ⊢
      split <;> omega
  | flush =>
    refine ⟨?_, fun key => ?_, rfl, fun _ _ hget => by cases hget⟩
    · simp only [serve, command, execute, hr.done]
      rfl
    · show none = if key = indexKey then none else none
      simp
  | close => cases hc

end Redis.Keyspace

/-! ## Runs -/

namespace Memory

structure Sized (most : Nat) (m : Memory) : Prop where
  records : m.records.size ≤ most
  index : m.index.size ≤ most

/-- A call brings one record and one entry at most. -/
theorem Sized.serve {most : Nat} {m : Memory} (h : m.Sized most) (call : Call) :
    (Memory.serve call m).2.Sized (most + 1) := by
  have hrecords := h.records
  have hindex := h.index
  cases call with
  | write key fields =>
    show (m.write key fields).Sized (most + 1)
    refine ⟨?_, by rw [index_write]; omega⟩
    have hinsert := m.records.size_insert_le key ((m.record key).override fields)
    unfold Memory.write
    split
    · omega
    · show (m.records.insert key _).size ≤ most + 1
      omega
  | remove key =>
    have herase := m.records.size_erase_le key
    exact ⟨by show (m.records.erase key).size ≤ _; omega, by show m.index.size ≤ _; omega⟩
  | indexAdd score key =>
    have hinsert := m.index.size_insert_le key score
    exact ⟨by show m.records.size ≤ _; omega, by show (m.index.insert key score).size ≤ _; omega⟩
  | removeIndexed key =>
    have herase := m.records.size_erase_le key
    have herase' := m.index.size_erase_le key
    exact ⟨by show (m.records.erase key).size ≤ _; omega, by show (m.index.erase key).size ≤ _; omega⟩
  | flush => exact ⟨Nat.zero_le _, Nat.zero_le _⟩
  | _ => exact ⟨by show m.records.size ≤ _; omega, by show m.index.size ≤ _; omega⟩

theorem Sized.performAll {most : Nat} {m : Memory} (h : m.Sized most) (calls : List Call) :
    (Store.performAll calls m).2.Sized (most + calls.length) := by
  induction calls generalizing most m with
  | nil => exact h
  | cons call rest ih =>
    have hstep : (Store.perform call m).2.Sized (most + 1) := by
      rcases hp : perform call m with ⟨fault | a, m'⟩
      · obtain rfl := perform_error hp
        show (Prod.snd (perform call m')).Sized _
        rw [hp]
        exact ⟨Nat.le_succ_of_le h.records, Nat.le_succ_of_le h.index⟩
      · obtain ⟨-, -, rfl⟩ := perform_ok hp
        show (Prod.snd (perform call m)).Sized _
        rw [hp]
        exact h.serve call
    have hrest := ih hstep
    rwa [List.length_cons, Nat.add_comm rest.length, ← Nat.add_assoc]

/-- What a memory has to keep can be kept unless it takes very many calls. -/
theorem fits_of_few {calls : List Call} (h : calls.length < Word.values63) {before : List Call}
    (hbefore : before <+: calls) : (Store.performAll before ({} : Memory)).2.Fits := by
  have hempty : ({} : Memory).Sized 0 := ⟨Nat.le_refl 0, Nat.le_refl 0⟩
  have hsized := hempty.performAll before
  have hlength := hbefore.length_le
  have hrecords := hsized.records
  have hindex := hsized.index
  constructor
  · unfold Dict.Fits
    omega
  · unfold Dict.Fits
    omega

end Memory

namespace Redis

open Keyspace (Mirrors)

variable {σ : Type} [Documented σ]

/-- What a portable call asks for is taken. -/
theorem takes_of_portable {call : Call} (h : call.Portable) {c : Command} (hc : Node.command? call = some c) :
    Documented.Takes σ c := by
  refine Documented.takes ?_
  cases call with
  | indexAdd score key =>
    cases hc
    exact h.2
  | indexRange min count =>
    cases hc
    exact h
  | removeIndexed _ | close => cases hc
  | _ =>
    cases hc
    trivial

/-- A run of calls: the answers are the same, and every call has one. -/
theorem performAll_mirrors {calls : List Call} {n : Node σ} {m : Memory} (hserved : n.Served) (hopen : n.link ≠ .closed)
    (husable : m.obstacle = none) (h : Mirrors m n.keyspace) (hcalls : ∀ call ∈ calls, call.Portable)
    (hfits : ∀ before, before <+: calls → (performAll before m).2.Fits) :
    (performAll calls n).1 = (performAll calls m).1 ∧ ∀ r ∈ (performAll calls n).1, ∃ a, r.answer = .ok a := by
  induction calls generalizing n m with
  | nil => exact ⟨rfl, by simp [performAll]⟩
  | cons call rest ih =>
    have hcall := hcalls call List.mem_cons_self
    have hclose : call ≠ .close := by
      rintro rfl
      exact hcall
    obtain ⟨hanswer, hmirrors⟩ :=
      Keyspace.serve_mirrors (Documented.faithful (σ := σ)) hcall h (hfits [] List.nil_prefix)
    have hnode := Node.perform_answers hserved hopen hclose fun _ => takes_of_portable hcall
    have hmemory : Store.perform call m = (.ok (Memory.serve call m).1, (Memory.serve call m).2) :=
      Memory.perform_of_usable husable call
    have hfitsRest : ∀ before, before <+: rest → (performAll before (Memory.serve call m).2).2.Fits := by
      intro before hbefore
      have hfirst := hfits (call :: before) ((List.prefix_cons_inj call).2 hbefore)
      rwa [performAll, hmemory] at hfirst
    obtain ⟨hrest, hanswered⟩ := ih hnode.served hnode.link ((Memory.obstacle_serve hclose m).trans husable)
      (hmirrors.congr hnode.values) (fun c hc => hcalls c (List.mem_cons_of_mem _ hc)) hfitsRest
    have hfirst : (Store.perform call n).1 = .ok (Memory.serve call m).1 := hnode.answer.trans hanswer
    constructor
    · rw [performAll, performAll, hfirst, hrest, hmemory]
    · intro r hr
      rcases List.mem_cons.1 hr with rfl | hr
      · exact ⟨_, hfirst⟩
      · exact hanswered r hr

def unused : Node Keyspace where
  server := {}
  endpoint := { host := "localhost", port := 6379, password := some "secret" }
  patience := 1000

def tour : List Call :=
  [.write "user1" (Dict.ofList [("f", "1"), ("g", "2")]), .indexAdd (KeyHash.score "user1") "user1", .count,
    .write "user1" Dict.empty, .fetchFields "user1" ["g", "h", "g"], .fetchFields "user2" [], .fetch "user1",
    .indexRange (KeyHash.score "user1") 0, .indexRange (KeyHash.score "user1") 5, .removeIndexed "user2",
    .removeIndexed "user1", .holds "user1", .remove "user1", .count, .flush]

end Redis

end Store

end Placement
