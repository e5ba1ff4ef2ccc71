import Placement.Proofs.Outcome

/-!
An update changes one record of one node, and reads see it.

The owner of a key is the first node that can be used and holds the record; an update asks the nodes whether they hold
it, a read what they have of it. On memories that calls lead to, no record is without fields, so that the two stop at
the same node.

- `updates_owner`: what an update does, and what it comes to.
- `reads_see_update`: what a read finds behind it.
-/

namespace Placement

/-! ## Memories -/

namespace Record

/-- What is asked for has fields if one of these is. -/
theorem select_isEmpty {r : Record} {names : Option (List String)} {name : String} (hr : r.contains name = true)
    (hn : ∀ l, namesOf names = some l → name ∈ l) : (r.select names).isEmpty = false := by
  unfold select
  split
  · rename_i l hl
    obtain ⟨v, hv⟩ := Dict.contains_iff.1 hr
    refine Dict.isEmpty_eq_false.2 ⟨name, Dict.contains_iff.2 ⟨v, ?_⟩⟩
    rw [Dict.get?_restrict, if_pos (by simpa using hn l hl), hv]
  · exact Dict.isEmpty_eq_false.2 ⟨name, hr⟩

end Record

namespace Store.Memory

/-- The memories that calls lead to from a new one, while the node can be made unreachable and reachable again. -/
inductive Reached : Memory → Prop
  | new : Reached {}
  | call {m : Memory} (c : Call) : Reached m → Reached (perform c m).2
  | linked {m : Memory} (unreachable : Bool) : Reached m → Reached { m with unreachable }

theorem Reached.filled {m : Memory} (h : Reached m) : m.Filled := by
  induction h with
  | new => exact fun key r hr => by cases hr
  | @call m c _ ih =>
    rcases hp : perform c m with ⟨fault | a, m'⟩
    · rwa [perform_error hp]
    · rw [(perform_ok hp).2.2]
      exact ih.serve c
  | linked _ _ ih => exact ih

/-- The fields were put over those of the record, and all else is as it was. -/
structure Merged (key : String) (fields : Record) (m m' : Memory) : Prop where
  record : ∃ old, m.records.get? key = some old ∧ m'.records.get? key = some (Dict.override old fields) ∧
    ∀ name, (Dict.override old fields).get? name = (fields.get? name).or (old.get? name)
  records : ∀ key', key' ≠ key → m'.records.get? key' = m.records.get? key'
  index : m'.index = m.index
  unreachable : m'.unreachable = m.unreachable
  closed : m'.closed = m.closed

variable {m m' : Memory} {key : String} {fields : Record}

theorem merged_write (h : m.records.contains key = true) (fields : Record) :
    Merged key fields m (m.write key fields) := by
  obtain ⟨old, hold⟩ := Dict.contains_iff.1 h
  have hget := get?_write_of_held hold
  refine ⟨⟨old, hold, by rw [hget, if_pos rfl], Dict.get?_override old fields⟩, fun key' hne => ?_,
    index_write .., ?_, ?_⟩
  · rw [hget, if_neg (Ne.symm hne)]
  all_goals
    unfold write
    split <;> rfl

namespace Merged

theorem contains (h : Merged key fields m m') (key' : String) :
    m'.records.contains key' = m.records.contains key' := by
  by_cases hk : key' = key
  · obtain ⟨old, hold, hnew, -⟩ := h.record
    rw [hk, Dict.contains, Dict.contains, hold, hnew]
    rfl
  · rw [Dict.contains, Dict.contains, h.records key' hk]

theorem obstacle (h : Merged key fields m m') : m'.obstacle = m.obstacle := by
  rw [Memory.obstacle, Memory.obstacle, h.unreachable, h.closed]

end Merged

end Store.Memory

namespace Cluster

open Store.Memory (Reached Merged)

variable {ρ : Type} {w w' : Cluster Store.Memory ρ} {node : NodeId} {key : String} {fields : Record}
  {outcome : Except Fault (Option NodeId)}

/-! ## What an update does -/

def owner (w : Cluster Store.Memory ρ) (key : String) : Option NodeId := w.ids.find? (w.owns key)

theorem owner_eq_none : w.owner key = none ↔
    ∀ node ∈ w.ids, (w.memory node).obstacle = none → (w.memory node).records.contains key = false := by
  simp [owner, owns]

theorem owner_mem (h : w.owner key = some node) : node ∈ w.ids := List.mem_of_find?_eq_some h

theorem obstacles_eq_nil : w.obstacles w.ids = [] ↔ ∀ node ∈ w.ids, (w.memory node).obstacle = none := by
  simp [obstacles]

/-- The fields are put over the record of the owner, and nothing else is changed. -/
structure ChangesOwner (key : String) (fields : Record) (w w' : Cluster Store.Memory ρ) : Prop where
  ids : w'.ids = w.ids
  registry : w'.registry = w.registry
  owner : ∀ node, w.owner key = some node → Merged key fields (w.memory node) (w'.memory node)
  others : ∀ node, w.owner key ≠ some node → w'.memory node = w.memory node

theorem changesOwner_of_intact (ho : w.owner key = none) (hs : Intact w w') : ChangesOwner key fields w w' where
  ids := hs.ids
  registry := hs.2
  owner node hnode := by
    rw [ho] at hnode
    cases hnode
  others node _ := by rw [hs.memory]

theorem changesOwner_of_write (ho : w.owner key = some node)
    (hnodes : w'.nodes = w.nodes.insert node ((w.memory node).write key fields)) (hreg : w'.registry = w.registry) :
    ChangesOwner key fields w w' where
  ids := ids_of_insert hnodes (owner_mem ho)
  registry := hreg
  owner other hother := by
    rw [ho] at hother
    cases hother
    rw [memory_of_insert hnodes, if_pos rfl]
    exact Store.Memory.merged_write (owns_iff.1 (List.find?_some ho)).2 fields
  others other hother := by
    have hne : node ≠ other := by
      rintro rfl
      exact hother ho
    rw [memory_of_insert hnodes, if_neg hne]

/-- No record comes to be on a node that had none. -/
theorem ChangesOwner.contains (h : ChangesOwner key fields w w') (node : NodeId) (key' : String) :
    (w'.memory node).records.contains key' = (w.memory node).records.contains key' := by
  by_cases ho : w.owner key = some node
  · exact (h.owner node ho).contains key'
  · rw [h.others node ho]

theorem ChangesOwner.obstacle (h : ChangesOwner key fields w w') (node : NodeId) :
    (w'.memory node).obstacle = (w.memory node).obstacle := by
  by_cases ho : w.owner key = some node
  · exact (h.owner node ho).obstacle
  · rw [h.others node ho]

structure UpdatesOwner (key : String) (fields : Record) (w : Cluster Store.Memory ρ)
    (outcome : Except Fault (Option NodeId)) (w' : Cluster Store.Memory ρ) : Prop extends
    ChangesOwner key fields w w' where
  ascending : w.ids.Pairwise (· < ·)
  /-- No record comes to be on a node that had none. -/
  held : ∀ node key', (w'.memory node).records.contains key' = (w.memory node).records.contains key'
  found : ∀ node, outcome = .ok (some node) ↔ w.owner key = some node
  absent : outcome = .ok none ↔
    ∀ node ∈ w.ids, (w.memory node).obstacle = none ∧ (w.memory node).records.contains key = false
  /-- What cannot be used is reported, all of it, if no other node holds the record. -/
  failed : (∃ fault, outcome = .error fault) ↔
    (∀ node ∈ w.ids, (w.memory node).obstacle = none → (w.memory node).records.contains key = false) ∧
      ∃ node ∈ w.ids, (w.memory node).obstacle ≠ none
  blamed : ∀ fault, outcome = .error fault →
    ∃ causes, fault = .aggregate causes ∧ causes.toList = w.obstacles w.ids

theorem absent_iff : w.owner key = none ∧ w.obstacles w.ids = [] ↔
    ∀ node ∈ w.ids, (w.memory node).obstacle = none ∧ (w.memory node).records.contains key = false := by
  rw [owner_eq_none, obstacles_eq_nil]
  exact ⟨fun h node hn => ⟨h.2 node hn, h.1 node hn (h.2 node hn)⟩,
    fun h => ⟨fun node hn _ => (h node hn).2, fun node hn => (h node hn).1⟩⟩

theorem failed_iff : w.owner key = none ∧ w.obstacles w.ids ≠ [] ↔
    (∀ node ∈ w.ids, (w.memory node).obstacle = none → (w.memory node).records.contains key = false) ∧
      ∃ node ∈ w.ids, (w.memory node).obstacle ≠ none := by
  rw [owner_eq_none, ne_eq, obstacles_eq_nil]
  simp

theorem Updates.updatesOwner (h : Updates key fields w [] w.ids outcome w') :
    UpdatesOwner key fields w outcome w' := by
  have changes : ChangesOwner key fields w w' := by
    cases h with
    | written ho hnodes hreg => exact changesOwner_of_write ho hnodes hreg
    | unheld ho hs => exact changesOwner_of_intact ho hs
  refine ⟨changes, w.nodes.keys_ascending, changes.contains, fun node => ?_, ?_, ?_, fun fault hfault => ?_⟩
  · cases h with
    | written ho => simp [owner, ho]
    | unheld ho => simp [owner, ho, Fault.outcome_eq_ok]
  · rw [← absent_iff]
    cases h with
    | written ho => simp [owner, ho]
    | unheld ho => simp [owner, ho, Fault.outcome_eq_ok]
  · rw [← failed_iff]
    cases h with
    | written ho => simp [owner, ho]
    | unheld ho => simp [owner, ho, Fault.outcome_fails]
  · cases h with
    | written => cases hfault
    | unheld => exact Fault.outcome_eq_error.1 hfault

/-! ## What a read finds behind it -/

theorem findSome?_of_find? {α β : Type} {l : List α} {p : α → Bool} {f : α → Option β} {a : α}
    (h : l.find? p = some a) (hf : ∀ b ∈ l, p b = false → f b = none) (ha : (f a).isSome = true) :
    l.findSome? f = f a := by
  induction l with
  | nil => cases h
  | cons b rest ih =>
    rw [List.findSome?_cons]
    cases hb : p b with
    | true =>
      rw [List.find?_cons_of_pos hb] at h
      cases h
      obtain ⟨c, hc⟩ := Option.isSome_iff_exists.1 ha
      rw [hc]
    | false =>
      rw [List.find?_cons_of_neg (by simp [hb])] at h
      rw [hf b List.mem_cons_self hb]
      exact ih h fun b' hb' => hf b' (List.mem_cons_of_mem _ hb')

def unregistered (w : Cluster Store.Memory ρ) : Cluster Store.Memory ρ := { w with registry := none }

variable [Registry ρ]

/-- Where all nodes can be used, a read without a registry finds the record of the owner as the update has left it. -/
theorem ChangesOwner.read_finds (h : ChangesOwner key fields w w') (hu : Usable w) (ho : w.owner key = some node)
    (hf : (w.memory node).Filled) {names : Option (List String)}
    (hn : Record.namesOf names = none ∨ ∃ l, names = some l ∧ ∃ name ∈ l, fields.contains name = true) :
    ∃ old w'', (w.memory node).records.get? key = some old ∧
      run (read key names) w'.unregistered =
        (.ok (some ⟨node, Record.select (Dict.override old fields) names⟩), w'') := by
  obtain ⟨old, hold, hnew, -⟩ := (h.owner node ho).record
  have hfields : (Record.select (Dict.override old fields) names).isEmpty = false := by
    rcases hn with hnone | ⟨l, rfl, name, hname, hnew⟩
    · rw [Record.select, hnone]
      exact Record.override_isEmpty_of_old (hf key old hold) fields
    · obtain ⟨v, hv⟩ := Dict.contains_iff.1 hnew
      have hname' : (Dict.override old fields).contains name = true :=
        Dict.contains_iff.2 ⟨v, by rw [Dict.get?_override, hv]; rfl⟩
      refine Record.select_isEmpty hname' fun l' hl' => ?_
      rwa [← Option.some.inj (Option.filter_eq_some_iff.1 hl').1]
  have hoffered : w'.offered key names node = some ⟨node, Record.select (Dict.override old fields) names⟩ := by
    rw [offered_eq_bind, hnew, Option.bind_some, Found.of, hfields]
    rfl
  have hfirst : w'.ids.findSome? (w'.offered key names) = w'.offered key names node := by
    refine findSome?_of_find? (p := w.owns key) (h.ids ▸ ho) (fun other _ hno => ?_) (by rw [hoffered]; rfl)
    -- an earlier node does not hold the record, as it can be used and is no owner
    have hunheld : (w'.memory other).records.contains key = false := by
      rw [h.contains]
      simpa [owns, hu other] using hno
    rw [offered_eq_bind, Dict.contains_eq_false.1 hunheld]
    rfl
  have hfound := read_finds_first (w := w'.unregistered) key names (fun other => (h.obstacle other).trans (hu other)) rfl
  rcases hrun : run (read key names) w'.unregistered with ⟨fault | found, w''⟩
  · exact (hfound.error hrun).elim
  · refine ⟨old, w'', hold, ?_⟩
    rw [(hfound.ok hrun).1]
    exact congrArg (fun found => (Except.ok found, w'')) (hfirst.trans hoffered)

/-- Whatever nodes cannot be used, an update puts the fields over the record of the owner and does nothing else. If
all can be used and there is an owner, a read of all fields, or of some among which one was given, finds the record
there. -/
theorem reads_see_update (key : String) (fields : Record) (w : Cluster Store.Memory ρ)
    (h : ∀ node ∈ w.ids, (w.memory node).Reached) :
    ∃ outcome w', run (update key fields) w = (outcome, w') ∧ UpdatesOwner key fields w outcome w' ∧
      ((∀ node ∈ w.ids, (w.memory node).obstacle = none) → ∀ node, outcome = .ok (some node) → ∀ names,
        (Record.namesOf names = none ∨ ∃ l, names = some l ∧ ∃ name ∈ l, fields.contains name = true) →
          ∃ old w'', (w.memory node).records.get? key = some old ∧
            run (read key names) w'.unregistered =
              (.ok (some ⟨node, Record.select (Dict.override old fields) names⟩), w'')) := by
  -- the loop of the update is described node by node; its owner is the node it comes to
  have updates : Updates key fields w [] w.ids (run (update key fields) w).1 (run (update key fields) w).2 :=
    Ensures.outcome (ensures_inspect_bind (updateFirst_updates key fields (fun _ hn => hn) []))
  have updated := updates.updatesOwner
  refine ⟨_, _, rfl, updated, fun hu node houtcome names hn => ?_⟩
  have ho := (updated.found node).1 houtcome
  exact updated.read_finds (usable_of_ids hu) ho (h node (owner_mem ho)).filled hn

/-- A node that has lost the record, and two that have different copies of it, the second with an index entry. -/
def copied : Cluster Store.Memory Registry.Ledger where
  nodes := Dict.ofList [
    ("a", (Store.Memory.perform (.remove "k") (Store.Memory.perform (.write "k" (Dict.ofList [("f", "0")])) {}).2).2),
    ("b", (Store.Memory.perform (.write "k" (Dict.ofList [("f", "1"), ("g", "2")])) {}).2),
    ("c", (Store.Memory.perform (.indexAdd .zero "k")
      (Store.Memory.perform (.write "k" (Dict.ofList [("f", "4")])) {}).2).2)]

theorem copied_reached : ∀ node ∈ copied.ids, (copied.memory node).Reached := by
  intro node hn
  have hnode : node = "a" ∨ node = "b" ∨ node = "c" := by
    simpa using (show node ∈ ["a", "b", "c"] from hn)
  rcases hnode with rfl | rfl | rfl
  · exact (Reached.new.call _).call _
  · exact Reached.new.call _
  · exact (Reached.new.call _).call _

/-- The first copy is updated and read, and the second is left as it was. -/
theorem a_copy_is_left_alone :
    ∃ w', run (update "k" (Dict.ofList [("f", "3")])) copied = (.ok (some "b"), w') ∧
      w'.memory "c" = copied.memory "c" ∧
      ∃ w'', run (read "k" (some ["h", "g", "f"])) w'.unregistered =
        (.ok (some ⟨"b", Dict.ofList [("f", "3"), ("g", "2")]⟩), w'') := by
  obtain ⟨outcome, w', hrun, hupdated, hread⟩ :=
    reads_see_update "k" (Dict.ofList [("f", "3")]) copied copied_reached
  have ho : copied.owner "k" = some "b" := by decide
  obtain rfl := (hupdated.found "b").2 ho
  obtain ⟨old, w'', hold, hfound⟩ :=
    hread (by decide) "b" rfl (some ["h", "g", "f"]) (.inr ⟨_, rfl, "f", by decide, by decide⟩)
  have hcopy : (copied.memory "b").records.get? "k" = some (Dict.ofList [("f", "1"), ("g", "2")]) := by decide
  obtain rfl := Option.some.inj (hold.symm.trans hcopy)
  exact ⟨w', hrun, hupdated.others "c" (by rw [ho]; decide), w'', hfound⟩

end Cluster

end Placement
