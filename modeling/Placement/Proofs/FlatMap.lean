import Placement.Proofs.RoundTrip

/-!
A cluster as one map.

Beside a registry that is reliable, or none, a coordinator answers as if there were no nodes but one map from keys to
records, whatever node each insert chooses. What ties the two is `Agrees`: a key of the map has its record on one node,
which is also its place if there is a registry; places of other keys may be left over, but only on nodes of the cluster.

- `step_agrees`: one request is answered alike and keeps the tie.
- `replies_eq_answers`: any sequence of requests is answered alike.
- `an_insert_needs_a_registry`: choosing by a registry that is not there, no insert is `ok`.
-/

namespace Placement.FlatMap

open Coordinator (Reply serve)
open Registry (Reliable)

abbrev Filled := { r : Record // r.isEmpty = false }

inductive Request
  | insert (key : String) (fields : Record)
  | read (key : String) (names : Option (List String)) (into : Record)
  | update (key : String) (fields : Record)
  | delete (key : String)
  | flush
deriving DecidableEq, Repr

def Request.posed : Request → Coordinator.Request
  | .insert key fields => .insert key fields
  | .read key names into => .read key names into
  | .update key fields => .update key fields
  | .delete key => .delete key
  | .flush => .flush false

/-- What the map answers, and what it is after that. Where nothing can be placed, nothing is inserted. -/
def answer (canPlace : Bool) (m : Dict Filled) : Request → Reply × Dict Filled
  | .insert key fields =>
    if h : fields.isEmpty = false ∧ canPlace = true then (.status .ok, m.insert key ⟨fields, h.1⟩)
    else (.status .error, m)
  | .read key names into =>
    match ((m.get? key).map fun r => r.1.select names).filter (!·.isEmpty) with
    | some r => (.record .ok (into.override r), m)
    | none => (.record .notFound into, m)
  | .update key fields =>
    match m.get? key with
    | some r => (.status .ok, m.insert key ⟨r.1.override fields, Record.override_isEmpty_of_old r.2 fields⟩)
    | none => (.status .notFound, m)
  | .delete key => if m.contains key then (.status .ok, m.erase key) else (.status .error, m)
  | .flush => (.done (.ok ()), Dict.empty)

def answers (canPlace : Bool) (m : Dict Filled) : List Request → List Reply
  | [] => []
  | q :: rest => (answer canPlace m q).1 :: answers canPlace (answer canPlace m q).2 rest

variable {ρ : Type} [Registry ρ]

def replies (c : Coordinator Store.Memory ρ) : List Request → List Reply
  | [] => []
  | q :: rest => (serve q.posed c).1 :: replies (serve q.posed c).2 rest

def canPlace (c : Coordinator Store.Memory ρ) : Bool := c.selection != .registry || c.cluster.registry.isSome

def Request.fresh (c : Coordinator Store.Memory ρ) : Request → Prop
  | .insert key fields =>
    fields.isEmpty = false → ∀ node ∈ c.cluster.ids, (c.cluster.memory node).records.contains key = false
  | _ => True

def InsertsFresh (c : Coordinator Store.Memory ρ) : List Request → Prop
  | [] => True
  | q :: rest => q.fresh c ∧ InsertsFresh (serve q.posed c).2 rest

instance (c : Coordinator Store.Memory ρ) : (q : Request) → Decidable (q.fresh c)
  | .insert key fields => inferInstanceAs (Decidable (fields.isEmpty = false →
      ∀ node ∈ c.cluster.ids, (c.cluster.memory node).records.contains key = false))
  | .read .. | .update .. | .delete .. | .flush => inferInstanceAs (Decidable True)

instance decidableInsertsFresh (c : Coordinator Store.Memory ρ) : (l : List Request) → Decidable (InsertsFresh c l)
  | [] => inferInstanceAs (Decidable True)
  | q :: rest =>
    have := decidableInsertsFresh (serve q.posed c).2 rest
    inferInstanceAs (Decidable (q.fresh c ∧ InsertsFresh (serve q.posed c).2 rest))

/-- Where the record of a key is: nowhere, or on one node, which is then its place. -/
def Kept (R : Reliable ρ) (w : Cluster Store.Memory ρ) (key : String) : Option Filled → Prop
  | none => ∀ node, (w.memory node).records.get? key = none
  | some r => ∃ node ∈ w.ids,
    (∀ other, (w.memory other).records.get? key = if node = other then some r.1 else none) ∧
      ∀ l, R.known w = some l → l.placements.get? key = some ⟨node, true⟩

/-- The cluster holds what the map holds. -/
structure Agrees (R : Reliable ρ) (w : Cluster Store.Memory ρ) (m : Dict Filled) : Prop where
  nodes : w.ids ≠ []
  usable : w.Usable
  /-- Each node has index entries for its records and for no others. -/
  indexed : ∀ node key, (w.memory node).index.contains key = (w.memory node).records.contains key
  kept : ∀ key, Kept R w key (m.get? key)
  /-- Places may be left over from a flush, but on nodes of the cluster. -/
  places : ∀ l key location, R.known w = some l → l.placements.get? key = some location → location.node ∈ w.ids

variable {R : Reliable ρ} {w w' : Cluster Store.Memory ρ} {m m' : Dict Filled} {node : NodeId} {key : String}

/-- A key whose records and place stay as they are is kept as it was. -/
theorem Kept.frame {content : Option Filled} (h : Kept R w key content) (hids : w'.ids = w.ids)
    (hrecords : ∀ node, (w'.memory node).records.get? key = (w.memory node).records.get? key)
    (hplaces : ∀ l', R.known w' = some l' → ∃ l, R.known w = some l ∧ l'.placements.get? key = l.placements.get? key) :
    Kept R w' key content := by
  cases content with
  | none => exact fun node => (hrecords node).trans (h node)
  | some r =>
    obtain ⟨node, hn, hr, hp⟩ := h
    refine ⟨node, hids ▸ hn, fun other => (hrecords other).trans (hr other), ?_⟩
    intro l' hl'
    obtain ⟨l, hl, he⟩ := hplaces l' hl'
    exact he.trans (hp l hl)

/-- No node holds a key that is kept nowhere. -/
theorem Kept.unheld (h : Kept R w key none) :
    w.ids.find? (fun node => (w.memory node).records.contains key) = none := by
  rw [List.find?_eq_none]
  intro node _
  simp [Dict.contains, h node]

/-- One node alone holds a key that is kept somewhere. -/
theorem Kept.holder {r : Filled} (h : Kept R w key (some r)) :
    ∃ node ∈ w.ids, w.ids.find? (fun node => (w.memory node).records.contains key) = some node ∧
      (w.memory node).records.get? key = some r.1 ∧ (∀ other, node ≠ other → (w.memory other).records.get? key = none) ∧
      ∀ l, R.known w = some l → l.placements.get? key = some ⟨node, true⟩ := by
  obtain ⟨node, hn, hr, hp⟩ := h
  refine ⟨node, hn, Cluster.find?_of_only hn fun other => ?_, by rw [hr, if_pos rfl],
    fun other ho => by rw [hr, if_neg ho], hp⟩
  rw [Dict.contains, hr]
  by_cases ho : node = other <;> simp [ho]

/-- A key is kept as a node and the registry now have it, if no other node has it. -/
theorem Kept.put {new : Option Filled} (hn : node ∈ w.ids)
    (hrecords : ∀ other, (w.memory other).records.get? key = if node = other then new.map (·.1) else none)
    (hplace : ∀ l, R.known w = some l → l.placements.get? key = new.map fun _ => ⟨node, true⟩) : Kept R w key new := by
  cases new with
  | none =>
    intro other
    rw [hrecords]
    split <;> rfl
  | some r => exact ⟨node, hn, hrecords, hplace⟩

theorem Agrees.of_same (h : Agrees R w m) (hs : Cluster.Same R w w') : Agrees R w' m := by
  refine ⟨hs.ids ▸ h.nodes, hs.usable h.usable, fun node => ?_,
    fun key => (h.kept key).frame hs.ids (fun node => ?_) ?_, fun l key location hl hp => ?_⟩
  · rw [hs.memory]
    exact h.indexed node
  · rw [hs.memory]
  · exact fun l hl => ⟨l, hs.known ▸ hl, rfl⟩
  · rw [hs.ids]
    exact h.places l key location (hs.known ▸ hl) hp

/-- One node gets another record of one key, or loses it, and the place goes along. -/
theorem Agrees.put (h : Agrees R w m) (new : Option Filled) {state : Store.Memory} (hn : node ∈ w.ids)
    (hnodes : w'.nodes = w.nodes.insert node state) (hu : state.obstacle = none)
    (hother : ∀ other, node ≠ other → (w.memory other).records.get? key = none)
    (hrecords : ∀ k, state.records.get? k = if key = k then new.map (·.1) else (w.memory node).records.get? k)
    (hindex : ∀ k, state.index.contains k = state.records.contains k)
    (hm : ∀ k, m'.get? k = if key = k then new else m.get? k)
    (hplaces : ∀ l', R.known w' = some l' → ∃ l, R.known w = some l ∧
      ∀ k, l'.placements.get? k = if key = k then new.map fun _ => ⟨node, true⟩ else l.placements.get? k) :
    Agrees R w' m' := by
  have hmem := Cluster.memory_of_insert hnodes
  have hids : w'.ids = w.ids := Cluster.ids_of_insert hnodes hn
  refine ⟨hids ▸ h.nodes, ?_, ?_, ?_, ?_⟩
  · intro other
    rw [hmem]
    split
    · exact hu
    · exact h.usable other
  · intro other k
    rw [hmem]
    split
    · exact hindex k
    · exact h.indexed other k
  · intro k
    rw [hm]
    -- the key itself is on the node or nowhere; what is held of another key has not moved
    by_cases hk : key = k
    · subst hk
      rw [if_pos rfl]
      refine Kept.put (hids ▸ hn) (fun other => ?_) fun l' hl' => ?_
      · rw [hmem]
        by_cases ho : node = other
        · rw [if_pos ho, if_pos ho, hrecords, if_pos rfl]
        · rw [if_neg ho, if_neg ho, hother other ho]
      · obtain ⟨l, -, hp⟩ := hplaces l' hl'
        rw [hp, if_pos rfl]
    · rw [if_neg hk]
      refine (h.kept k).frame hids (fun other => ?_) fun l' hl' => ?_
      · rw [hmem]
        split
        · rename_i ho
          rw [hrecords, if_neg hk, ho]
        · rfl
      · obtain ⟨l, hl, hp⟩ := hplaces l' hl'
        exact ⟨l, hl, by rw [hp, if_neg hk]⟩
  · intro l' k location hl' hp
    obtain ⟨l, hl, hp'⟩ := hplaces l' hl'
    rw [hids]
    rw [hp'] at hp
    split at hp
    · obtain ⟨r, -, rfl⟩ := Option.map_eq_some_iff.1 hp
      exact hn
    · exact h.places l k location hl hp

/-! ## One request -/

variable {c : Coordinator Store.Memory ρ}

/-- An insert of no fields is refused, and so is any where nothing can be placed. -/
theorem refused_agrees (h : Agrees R c.cluster m) {fields : Record}
    (hno : ¬ (fields.isEmpty = false ∧ canPlace c = true)) :
    (c.insert key fields).1 = .error ∧ Agrees R (c.insert key fields).2.cluster m := by
  have hwhy : fields.isEmpty = true ∨ c.selection = .registry ∧ c.cluster.registry = none := by
    cases hf : fields.isEmpty with
    | true => exact .inl rfl
    | false =>
      have hcan : canPlace c = false := Bool.eq_false_iff.2 fun hcan => hno ⟨hf, hcan⟩
      simpa [canPlace] using hcan
  rw [Coordinator.insert_eq]
  have refused := Cluster.insert_refused key hwhy
  rcases hrun : Cluster.run (Cluster.insert c.selection key fields) c.cluster with ⟨fault | node, w⟩
  · obtain rfl := refused.error hrun
    exact ⟨rfl, h⟩
  · exact (refused.ok hrun).elim

/-- An insert of a key that no node holds is `ok` otherwise, and the map has the record then. -/
theorem inserted_agrees (h : Agrees R c.cluster m) {fields : Record} (hf : fields.isEmpty = false)
    (hcan : canPlace c = true) (hfresh : ∀ node ∈ c.cluster.ids, (c.cluster.memory node).records.contains key = false) :
    (c.insert key fields).1 = .ok ∧ Agrees R (c.insert key fields).2.cluster (m.insert key ⟨fields, hf⟩) := by
  have hnew : ∀ node, (c.cluster.memory node).records.contains key = false := by
    intro node
    by_cases hn : node ∈ c.cluster.ids
    · exact hfresh node hn
    · rw [Cluster.memory_of_unknown hn]
      rfl
  have hready : Cluster.Ready c.selection key fields c.cluster := by
    refine ⟨hf, h.usable, h.nodes, ?_, hnew⟩
    intro hs
    simpa [canPlace, hs] using hcan
  rw [Coordinator.insert_eq]
  have added := Cluster.insert_adds R c.cluster c.selection key fields
  rcases hrun : Cluster.run (Cluster.insert c.selection key fields) c.cluster with ⟨fault | node, w⟩
  · exact absurd hready (added.error hrun)
  obtain ⟨-, ha⟩ := added.ok hrun
  refine ⟨rfl, h.put (some ⟨fields, hf⟩) ha.member ha.nodes ?_ (fun other _ => ?_) (fun k => ?_) (fun k => ?_)
    (fun k => Dict.get?_insert ..) fun l' hl' => ?_⟩
  · exact (Store.Memory.obstacle_write ..).trans ha.usable
  · exact Dict.contains_eq_false.1 (hnew other)
  · dsimp only
    rw [Store.Memory.get?_write, Store.Memory.record_of_absent (hnew node), Dict.empty_override]
    simp [hf]
  · dsimp only
    rw [Dict.contains_insert, Store.Memory.contains_write, h.indexed, hf, Bool.or_comm]
    simp
  · rw [ha.known] at hl'
    obtain ⟨l, hl, rfl⟩ := Option.map_eq_some_iff.1 hl'
    exact ⟨l, hl, fun k => Dict.get?_insert ..⟩

theorem insert_agrees (h : Agrees R c.cluster m) {fields : Record} (hfresh : (Request.insert key fields).fresh c) :
    (serve (.insert key fields) c).1 = (answer (canPlace c) m (.insert key fields)).1 ∧
      Agrees R (serve (.insert key fields) c).2.cluster (answer (canPlace c) m (.insert key fields)).2 := by
  show Reply.status (c.insert key fields).1 = _ ∧ Agrees R (c.insert key fields).2.cluster _
  simp only [answer]
  split
  · rename_i hyes
    obtain ⟨hstatus, hkept⟩ := inserted_agrees h hyes.1 hyes.2 (hfresh hyes.1)
    exact ⟨congrArg _ hstatus, hkept⟩
  · rename_i hno
    obtain ⟨hstatus, hkept⟩ := refused_agrees h hno
    exact ⟨congrArg _ hstatus, hkept⟩

/-- Where the record is, is where a read finds it. -/
theorem lookup_agrees (h : Agrees R w m) (key : String) (names : Option (List String)) :
    (Cluster.lookup R w key names).map Found.record =
      ((m.get? key).map fun r => r.1.select names).filter (!·.isEmpty) := by
  have hkept := h.kept key
  cases hm : m.get? key with
  | none =>
    rw [hm] at hkept
    rw [Cluster.lookup_of_nowhere hkept]
    rfl
  | some r =>
    rw [hm] at hkept
    obtain ⟨node, hn, hr, hp⟩ := hkept
    rw [Cluster.lookup_of_only hn hr hp, Cluster.map_record_of]
    rfl

theorem read_agrees (h : Agrees R c.cluster m) (key : String) (names : Option (List String)) (into : Record) :
    (serve (.read key names into) c).1 = (answer (canPlace c) m (.read key names into)).1 ∧
      Agrees R (serve (.read key names into) c).2.cluster m := by
  show Reply.record (c.read key names into).1.1 (c.read key names into).1.2 = _ ∧
    Agrees R (c.read key names into).2.cluster _
  rw [Coordinator.read_eq]
  have read := Cluster.read_finds R key names h.usable fun l location => h.places l key location
  rcases hrun : Cluster.run (Cluster.read key names) c.cluster with ⟨fault | found, w⟩
  · exact (read.error hrun).elim
  obtain ⟨rfl, hs⟩ := read.ok hrun
  refine ⟨?_, h.of_same hs⟩
  simp only [answer, ← lookup_agrees h]
  cases Cluster.lookup R c.cluster key names with
  | none => rfl
  | some found => rfl

theorem update_agrees (h : Agrees R c.cluster m) (fields : Record) :
    (serve (.update key fields) c).1 = (answer (canPlace c) m (.update key fields)).1 ∧
      Agrees R (serve (.update key fields) c).2.cluster (answer (canPlace c) m (.update key fields)).2 := by
  show Reply.status (c.update key fields).1 = _ ∧ Agrees R (c.update key fields).2.cluster _
  rw [Coordinator.update_eq]
  have updated := Cluster.update_changes R key fields h.usable
  rcases hrun : Cluster.run (Cluster.update key fields) c.cluster with ⟨fault | found, w⟩
  · exact (updated.error hrun).elim
  obtain ⟨hfound, hknown, hnodes⟩ := updated.ok hrun
  have hkept := h.kept key
  cases hm : m.get? key with
  | none =>
    rw [hm] at hkept
    rw [hkept.unheld] at hfound
    subst hfound
    have hanswer : answer (canPlace c) m (.update key fields) = (.status .notFound, m) := by simp only [answer, hm]
    rw [hanswer]
    exact ⟨rfl, h.of_same ⟨hnodes, hknown⟩⟩
  | some r =>
    rw [hm] at hkept
    obtain ⟨node, hn, hfind, hr, hother, hplace⟩ := hkept.holder
    rw [hfind] at hfound
    subst hfound
    have hanswer : answer (canPlace c) m (.update key fields) =
        (.status .ok, m.insert key ⟨r.1.override fields, Record.override_isEmpty_of_old r.2 fields⟩) := by
      simp only [answer, hm]
    rw [hanswer]
    refine ⟨rfl, h.put (some _) hn hnodes ?_ hother (fun k => ?_) (fun k => ?_) (fun k => Dict.get?_insert ..)
      fun l hl => ⟨l, hknown ▸ hl, fun k => ?_⟩⟩
    · exact (Store.Memory.obstacle_write ..).trans (h.usable node)
    · rw [Store.Memory.get?_write_of_held hr]
      rfl
    · rw [Store.Memory.index_write, h.indexed, Store.Memory.contains_write]
      by_cases hk : key = k
      · subst hk
        simp [Dict.contains, hr]
      · simp [hk]
    · split
      · rename_i hk
        rw [← hk, hplace l (hknown ▸ hl)]
        rfl
      · rfl

theorem delete_agrees (h : Agrees R c.cluster m) :
    (serve (.delete key) c).1 = (answer (canPlace c) m (.delete key)).1 ∧
      Agrees R (serve (.delete key) c).2.cluster (answer (canPlace c) m (.delete key)).2 := by
  show Reply.status (c.delete key).1 = _ ∧ Agrees R (c.delete key).2.cluster _
  rw [Coordinator.delete_eq]
  have deleted := Cluster.delete_drops R key h.usable fun node => h.indexed node key
  rcases hrun : Cluster.run (Cluster.delete key) c.cluster with ⟨fault | found, w⟩
  · exact (deleted.error hrun).elim
  obtain ⟨hfound, hleft⟩ := deleted.ok hrun
  have hkept := h.kept key
  cases hm : m.get? key with
  | none =>
    rw [hm] at hkept
    rw [hkept.unheld] at hfound
    subst hfound
    have hanswer : answer (canPlace c) m (.delete key) = (.status .error, m) := by simp [answer, Dict.contains, hm]
    rw [hanswer]
    exact ⟨rfl, h.of_same hleft⟩
  | some r =>
    rw [hm] at hkept
    obtain ⟨node, hn, hfind, hr, hother, hplace⟩ := hkept.holder
    rw [hfind] at hfound
    subst hfound
    have hanswer : answer (canPlace c) m (.delete key) = (.status .ok, m.erase key) := by
      simp [answer, Dict.contains, hm]
    rw [hanswer]
    obtain ⟨hnodes, hknown⟩ := hleft
    refine ⟨rfl, h.put none hn hnodes (h.usable node) hother (fun k => ?_) (fun k => ?_) (fun k => ?_) ?_⟩
    · exact Dict.get?_erase ..
    · rw [Dict.contains_erase, Dict.contains_erase, h.indexed]
    · exact Dict.get?_erase ..
    · intro l' hl'
      rw [hknown] at hl'
      obtain ⟨l, hl, rfl⟩ := Option.map_eq_some_iff.1 hl'
      refine ⟨l, hl, ?_⟩
      intro k
      have howns : l.owns node key = true := Registry.Ledger.owns_iff.2 ⟨_, hplace l hl, rfl⟩
      simp only [Registry.Ledger.perform, howns, if_true]
      exact Dict.get?_erase ..

theorem flush_agrees (h : Agrees R c.cluster m) :
    (serve (.flush false) c).1 = .done (.ok ()) ∧ Agrees R (serve (.flush false) c).2.cluster Dict.empty := by
  have flushed := Cluster.flushAll_empties false h.usable
  show Reply.done (Cluster.run (Cluster.flushAll false) c.cluster).1 = _ ∧
    Agrees R (Cluster.run (Cluster.flushAll false) c.cluster).2 _
  rcases hrun : Cluster.run (Cluster.flushAll false) c.cluster with ⟨fault | _, w⟩
  · exact (flushed.error hrun).elim
  obtain ⟨hids, hreg, hmem⟩ := flushed.ok hrun
  have hknown : R.known w = R.known c.cluster := Reliable.known_of_registry hreg
  have hempty : ∀ node, (w.memory node).records = Dict.empty ∧ (w.memory node).index = Dict.empty ∧
      (w.memory node).obstacle = none := by
    intro node
    rw [hmem]
    split
    · refine ⟨rfl, rfl, ?_⟩
      have hu := h.usable node
      unfold Cluster.emptied
      rw [Bool.or_false]
      exact hu
    · rename_i hn
      rw [Cluster.memory_of_unknown hn]
      exact ⟨rfl, rfl, rfl⟩
  refine ⟨rfl, hids ▸ h.nodes, fun node => (hempty node).2.2, ?_, ?_, ?_⟩
  · intro node key
    rw [(hempty node).1, (hempty node).2.1]
    rfl
  · intro key node
    rw [(hempty node).1]
    rfl
  · intro l key location hl hp
    rw [hids]
    exact h.places l key location (hknown ▸ hl) hp

/-- One request is answered alike on both sides. -/
theorem step_agrees (h : Agrees R c.cluster m) (q : Request) (hfresh : q.fresh c) :
    (serve q.posed c).1 = (answer (canPlace c) m q).1 ∧
      Agrees R (serve q.posed c).2.cluster (answer (canPlace c) m q).2 := by
  cases q with
  | insert key fields => exact insert_agrees h hfresh
  | read key names into =>
    obtain ⟨hreply, hkept⟩ := read_agrees h key names into
    refine ⟨hreply, ?_⟩
    simp only [answer]
    split <;> exact hkept
  | update key fields => exact update_agrees h fields
  | delete key => exact delete_agrees h
  | flush => exact flush_agrees h

/-! ## Sequences of requests -/

/-- No request brings a registry or takes it away. -/
theorem permits_registered {ν : Type} [Store ν] :
    Cluster.Permits (fun w w' : Cluster ν ρ => w'.registry.isSome = w.registry.isSome) (fun _ => True)
      fun _ => True where
  refl _ := rfl
  trans h h' := h'.trans h
  ask _ _ _ _ := Cluster.ensures_ask (fun _ _ _ _ _ => rfl) (fun _ _ _ _ _ => rfl) fun _ => rfl
  consult _ _ _ := Cluster.ensures_advised (fun _ _ hr => (congrArg Option.isSome hr).symm) fun _ => rfl
  draw _ _ := Cluster.ensures_draw rfl
  report _ _ := Cluster.ensures_report rfl

theorem canPlace_serve (q : Coordinator.Request) (c : Coordinator Store.Memory ρ) :
    canPlace (serve q c).2 = canPlace c := by
  have hreg := q.stays_within permits_registered c.selection c.cluster (fun _ _ => trivial) (fun _ _ => trivial)
    fun _ => ⟨trivial, trivial⟩
  rw [Coordinator.serve_eq]
  unfold canPlace
  rw [hreg]

theorem replies_of_agrees (requests : List Request) (h : Agrees R c.cluster m) (hfresh : InsertsFresh c requests) :
    replies c requests = answers (canPlace c) m requests := by
  induction requests generalizing c m with
  | nil => rfl
  | cons q rest ih =>
    obtain ⟨hq, hrest⟩ := hfresh
    obtain ⟨hreply, hnext⟩ := step_agrees h q hq
    rw [replies, answers, hreply, ih hnext hrest, canPlace_serve]

/-- Empty nodes hold what the empty map holds. -/
theorem agrees_empty (hnew : Coordinator.AllNew c) (hne : c.cluster.ids ≠ [])
    (hplaces : ∀ l key location, R.known c.cluster = some l → l.placements.get? key = some location →
      location.node ∈ c.cluster.ids) : Agrees R c.cluster Dict.empty := by
  have hmem : ∀ node, c.cluster.memory node = {} := by
    intro node
    by_cases hn : node ∈ c.cluster.ids
    · exact hnew node _ (Cluster.get?_memory hn)
    · exact Cluster.memory_of_unknown hn
  refine ⟨hne, ?_, ?_, ?_, hplaces⟩
  · intro node
    rw [hmem]
    rfl
  · intro node key
    rw [hmem]
    rfl
  · intro key node
    rw [hmem]
    rfl

/-- From nodes that are all new, whatever way they are chosen, a coordinator replies as one map answers: to every
sequence of requests in which no key is inserted while a node holds it. -/
theorem replies_eq_answers (R : Reliable ρ) (hnew : Coordinator.AllNew c) (hne : c.cluster.ids ≠ [])
    (hplaces : ∀ l key location, R.known c.cluster = some l → l.placements.get? key = some location →
      location.node ∈ c.cluster.ids)
    (requests : List Request) (hfresh : InsertsFresh c requests) :
    replies c requests = answers (canPlace c) Dict.empty requests :=
  replies_of_agrees requests (agrees_empty hnew hne hplaces) hfresh

def twin : Coordinator Store.Memory Registry.Ledger where
  cluster := { nodes := Dict.ofList [("a", {}), ("b", {})], registry := some {}, draws := [1, 0] }

theorem twin_allNew : Coordinator.AllNew twin := by
  intro node state hn
  simp only [twin, Dict.ofList, List.foldl_cons, List.foldl_nil, Dict.get?_insert, Dict.get?_empty] at hn
  split at hn
  · exact (Option.some.inj hn).symm
  · split at hn
    · exact (Option.some.inj hn).symm
    · cases hn

/-- A key comes to the second node, loses its record in a flush and comes to the first; its place goes along. -/
theorem twin_replies :
    replies twin
        [.insert "k" (Dict.ofList [("f", "v")]), .flush, .read "k" none Dict.empty,
          .insert "k" (Dict.ofList [("g", "w")]), .read "k" (some ["f", "g"]) Dict.empty, .delete "k"] =
      [.status .ok, .done (.ok ()), .record .notFound Dict.empty, .status .ok,
        .record .ok (Dict.ofList [("g", "w")]), .status .ok] := by
  refine (replies_eq_answers Reliable.self twin_allNew (by decide) (fun l key location hl hp => ?_) _
    (by decide)).trans rfl
  cases hl
  cases hp

/-- Where nodes are to be chosen by a registry and there is none, no insert is `ok`. -/
theorem an_insert_needs_a_registry :
    let c : Coordinator Store.Memory Registry.Ledger :=
      { cluster := { nodes := Dict.ofList [("a", {})] }, selection := .registry }
    let requests := [Request.insert "k" (Dict.ofList [("f", "v")])]
    Coordinator.AllNew c ∧ c.cluster.ids ≠ [] ∧ InsertsFresh c requests ∧
      replies c requests = [.status .error] ∧ answers true Dict.empty requests = [.status .ok] :=
  ⟨Coordinator.single_allNew, by decide, by decide, rfl, rfl⟩

end Placement.FlatMap
