import Placement.Proofs.Outcome
import Placement.Proofs.Session

/-!
Reading right after inserting.

In every state that requests lead to from empty nodes no record is without fields, and the nodes are all open or all
closed (`Sound`). The only guard of an insert against a record that is already there is the number of fields the node
says are new, which other names than those of the insert get past; so what a read gives right after an insert is what
was inserted only under a condition on what was there.

- `insert_then_read`: what the read gives, and exactly when that is what was inserted.
- `a_second_insert_merges`: it may be more.
-/

namespace Placement.Cluster

open Registry (Reliable)

variable {ρ : Type} {w w' : Cluster Store.Memory ρ}

/-- No record is without fields, and either every node can be used or none. -/
structure Sound (w : Cluster Store.Memory ρ) : Prop where
  filled : ∀ node, (w.memory node).Filled
  together : Usable w ∨ ∀ node ∈ w.ids, (w.memory node).obstacle ≠ none

/-- A node that can be used answers for all. -/
theorem Sound.usable (h : Sound w) {node : NodeId} (hn : node ∈ w.ids) (hu : (w.memory node).obstacle = none) :
    Usable w :=
  h.together.resolve_right fun hall => hall node hn hu

/-- What an insert does not replace: with a registry nothing, since a read then asks one node only; without one, the
first record of the key on a node before the one with the new record. -/
def earlierCopy (w : Cluster Store.Memory ρ) (node : NodeId) (key : String) : Option Record :=
  if w.registry.isSome then none
  else (w.ids.takeWhile (· ≠ node)).findSome? fun other => (w.memory other).records.get? key

variable [Registry ρ]

/-! ## What requests keep -/

theorem filled_after (how : Selection) (q : Coordinator.Request) (h : ∀ node, (w.memory node).Filled) (node : NodeId) :
    ((q.after how w).memory node).Filled := by
  have hP := permits_nodewise (ρ := ρ) (P := fun _ => True) (T := fun m m' => m.Filled → m'.Filled) (fun _ h => h)
    (fun h h' hm => h' (h hm)) fun call _ m hm => hm.serve call
  have kept := q.stays_within hP how w (fun _ _ => trivial) (fun _ _ => trivial) fun _ => ⟨trivial, trivial⟩
  exact kept.2 node (h node)

/-- Requests that give no node up leave the nodes as usable as they are. -/
theorem obstacle_after (how : Selection) {q : Coordinator.Request} (hq : q.closes = false)
    (w : Cluster Store.Memory ρ) :
    (q.after how w).ids = w.ids ∧ ∀ node, ((q.after how w).memory node).obstacle = (w.memory node).obstacle := by
  have hP := permits_nodewise (ρ := ρ) (P := fun call => call ≠ .close) (T := fun m m' => m'.obstacle = m.obstacle)
    (fun _ => rfl) (fun h h' => h'.trans h) fun _ hc => Store.Memory.obstacle_serve hc
  exact q.stays_within hP how w (fun _ hc => hc) (fun _ _ => trivial) fun hc => by rw [hq] at hc; cases hc

/-- No request makes a node usable again. -/
theorem obstacle_stays (how : Selection) (q : Coordinator.Request) (w : Cluster Store.Memory ρ) :
    (q.after how w).ids = w.ids ∧
      ∀ node, (w.memory node).obstacle ≠ none → ((q.after how w).memory node).obstacle ≠ none := by
  have hP := permits_nodewise (ρ := ρ) (P := fun _ => True)
    (T := fun m m' => m.obstacle ≠ none → m'.obstacle ≠ none) (fun _ h => h) (fun h h' hm => h' (h hm))
    fun call _ m hm => Store.Memory.obstacle_serve_of_obstacle call hm
  exact q.stays_within hP how w (fun _ _ => trivial) (fun _ _ => trivial) fun _ => ⟨trivial, trivial⟩

/-- A node that has been closed cannot be used. -/
theorem obstacle_of_closed {m : Store.Memory} (h : m.closed = true) : m.obstacle ≠ none := by
  unfold Store.Memory.obstacle
  rw [h]
  split <;> simp

/-- Every node of the one is there in the other and cannot be used. -/
structure GivenUp (w w' : Cluster Store.Memory ρ) : Prop where
  ids : w'.ids = w.ids
  obstacle : ∀ node ∈ w.ids, (w'.memory node).obstacle ≠ none

/-- Requests that give nodes up give up all of them. -/
theorem closed_after (how : Selection) {q : Coordinator.Request} (hq : q.closes = true) (hu : Usable w) :
    GivenUp w (q.after how w) := by
  cases q with
  | flush thenClose =>
    obtain rfl : thenClose = true := hq
    have flushed : Ensures w (flushAll true) (fun _ w' => GivenUp w w') fun _ w' => GivenUp w w' := by
      refine (flushAll_empties true hu).mono (fun _ w' hw => ⟨hw.1, fun node hn => obstacle_of_closed ?_⟩)
        fun _ _ hf => hf.elim
      rw [hw.2.2, if_pos hn]
      exact Bool.or_true _
    exact flushed.left
  | cleanup =>
    have closed : Ensures w (attempt closeAll) (fun _ w' => GivenUp w w') fun _ w' => GivenUp w w' := by
      refine ((closeAll_closes hu).mono (fun _ w' hw => ⟨hw.1, fun node hn => obstacle_of_closed ?_⟩)
        fun _ _ hf => hf.elim).attempt
      rw [hw.2.2, if_pos hn]
    have hP := permits_nodewise (ρ := ρ) (P := fun _ => False) (T := Eq) (fun _ => rfl) Eq.trans fun _ hc => hc.elim
    have rest := fun nodes : Except Fault Unit =>
      hP.bind (Coordinator.closeRegistry_of_closed hP.toClosed trivial).attempt fun registry =>
        hP.bind (hP.lift nodes) fun _ => hP.lift registry
    have after : ∀ {w₁ w₂ : Cluster Store.Memory ρ}, GivenUp w w₁ →
        (w₂.ids = w₁.ids ∧ ∀ node, w₁.memory node = w₂.memory node) → GivenUp w w₂ := fun h h' =>
      ⟨h'.1.trans h.ids, fun node hn => h'.2 node ▸ h.obstacle node hn⟩
    refine Ensures.left (closed.bind fun nodes w₁ h₁ => ?_)
    exact (rest nodes w₁).mono (fun _ _ h₂ => after h₁ h₂) fun _ _ h₂ => after h₁ h₂
  | _ => cases hq

theorem Sound.after (h : Sound w) (how : Selection) (q : Coordinator.Request) : Sound (q.after how w) := by
  refine ⟨filled_after how q h.filled, ?_⟩
  rcases h.together with hu | hall
  · cases hq : q.closes with
    | false => exact .inl fun node => ((obstacle_after how hq w).2 node).trans (hu node)
    | true =>
      have hgiven := closed_after how hq hu
      exact .inr fun node hn => hgiven.obstacle node (hgiven.ids ▸ hn)
  · have hstays := obstacle_stays how q w
    exact .inr fun node hn => hstays.2 node (hall node (hstays.1 ▸ hn))

/-! ## What a read finds after an insert -/

variable {R : Reliable ρ} {node : NodeId} {key : String} {fields : Record}

theorem Added.ids (h : Added R node key fields w w') : w'.ids = w.ids := ids_of_insert h.nodes h.member

/-- The new record is put over what the node had. -/
theorem Added.record (h : Added R node key fields w w') (hf : fields.isEmpty = false) :
    (w'.memory node).record key = ((w.memory node).record key).override fields := by
  rw [memory_of_insert h.nodes, if_pos rfl]
  simp [Store.Memory.write, Store.Memory.record, hf]

theorem Added.elsewhere (h : Added R node key fields w w') {other : NodeId} (hne : node ≠ other) :
    w'.memory other = w.memory other := by
  rw [memory_of_insert h.nodes, if_neg hne]

theorem Added.usable_all (h : Added R node key fields w w') (hu : Usable w) : Usable w' := by
  intro other
  rw [memory_of_insert h.nodes]
  split
  · exact (Store.Memory.obstacle_write ..).trans h.usable
  · exact hu other

omit [Registry ρ] in
/-- A node offers its record of the key, if it has one. -/
theorem offered_of_filled (hf : (w.memory node).Filled) (key : String) :
    w.offered key none node = ((w.memory node).records.get? key).map (Found.mk node) := by
  rw [offered_eq_bind]
  cases hr : (w.memory node).records.get? key with
  | none => rfl
  | some r => simp [Found.of, hf key r hr]

/-- The node of an insert offers the new record over what it had. -/
theorem Added.offered (h : Added R node key fields w w') (hf : fields.isEmpty = false) :
    w'.offered key none node = some ⟨node, ((w.memory node).record key).override fields⟩ := by
  unfold Cluster.offered Found.of
  rw [Record.select_none, h.record hf, Record.override_isEmpty hf]
  rfl

/-- The place of the key is the node of the insert. -/
theorem Added.placed (h : Added R node key fields w w') (l : Registry.Ledger) (location : Location)
    (hl : R.known w' = some l) (hp : l.placements.get? key = some location) : location.node ∈ w'.ids := by
  rw [h.known] at hl
  obtain ⟨l₀, -, rfl⟩ := Option.map_eq_some_iff.1 hl
  simp only [Registry.Ledger.perform, Dict.get?_insert_self] at hp
  cases hp
  rw [h.ids]
  exact h.member

/-- The other nodes offer what they had. -/
theorem offers_elsewhere {others : List NodeId} (hne : ∀ other ∈ others, node ≠ other) (hs : Sound w)
    (h : Added R node key fields w w') :
    (others.findSome? (w'.offered key none)).map Found.record =
      others.findSome? fun other => (w.memory other).records.get? key := by
  induction others with
  | nil => rfl
  | cons other rest ih =>
    have hfilled : (w'.memory other).Filled := by
      rw [h.elsewhere (hne other List.mem_cons_self)]
      exact hs.filled other
    rw [List.findSome?_cons, List.findSome?_cons, offered_of_filled hfilled, h.elsewhere (hne other List.mem_cons_self)]
    cases (w.memory other).records.get? key with
    | none => exact ih fun other' ho => hne other' (List.mem_cons_of_mem _ ho)
    | some r => rfl

/-- A read after an insert finds the first record on the way to the new one, or the new one over what its node had. -/
theorem lookup_after_insert (hs : Sound w) (hf : fields.isEmpty = false) (h : Added R node key fields w w') :
    (lookup R w' key none).map Found.record =
      some ((earlierCopy w node key).getD (((w.memory node).record key).override fields)) := by
  unfold lookup earlierCopy
  rw [h.known]
  cases hreg : w.registry with
  | some state =>
    simp [Reliable.known, hreg, Registry.Ledger.perform, h.offered hf]
  | none =>
    obtain ⟨before, behind, hids, hnew⟩ := List.eq_append_cons_of_mem h.member
    have htake : w.ids.takeWhile (· ≠ node) = before := by
      have hother : ∀ other ∈ before, decide (other ≠ node) = true := fun other ho =>
        decide_eq_true fun he => hnew (he ▸ ho)
      rw [hids, List.takeWhile_append_of_pos hother, List.takeWhile_cons_of_neg (by simp), List.append_nil]
    have hbefore := offers_elsewhere (fun other ho he => hnew (by rwa [he])) hs h
    have hoffered : w'.ids.findSome? (w'.offered key none) = (before.findSome? (w'.offered key none)).or
        (some ⟨node, ((w.memory node).record key).override fields⟩) := by
      rw [h.ids, hids, List.findSome?_append, List.findSome?_cons, h.offered hf]
    simp only [Reliable.known, hreg, Option.map_none, Option.isSome_none, htake, ← hbefore, hoffered]
    cases before.findSome? (w'.offered key none) with
    | none => rfl
    | some found => rfl

end Placement.Cluster

namespace Placement.Coordinator

open Cluster (Sound earlierCopy)
open Registry (Reliable)

variable {ρ : Type} [Registry ρ] {c : Coordinator Store.Memory ρ}

def AllNew (c : Coordinator Store.Memory ρ) : Prop := ∀ node state, c.cluster.nodes.get? node = some state → state = {}

omit [Registry ρ] in
theorem AllNew.memory (h : AllNew c) (node : NodeId) : c.cluster.memory node = {} := by
  cases hn : c.cluster.nodes.get? node with
  | none => rw [Cluster.memory, hn]; rfl
  | some state => rw [Cluster.memory_of_get? hn, h node state hn]

theorem reached_sound (h : Reached AllNew (fun _ _ => False) c) : Sound c.cluster := by
  induction h with
  | @start c h =>
    refine ⟨fun node key r hr => ?_, .inl fun node => ?_⟩
    · rw [h.memory] at hr
      cases hr
    · rw [h.memory]
      rfl
  | serve q _ ih =>
    rw [serve_eq]
    exact ih.after _ q
  | move _ hm _ => exact hm.elim

/-- In every state that requests lead to from empty nodes an insert that is `ok` is followed by a read that is `ok`. The
read gives the first record of the key on the way to the new one, or else the new one put over what its node had. So it
gives exactly what was inserted if and only if the first record on the way is the same, or there is none on the way and
none on the node. -/
theorem insert_then_read (R : Reliable ρ) (h : Reached AllNew (fun _ _ => False) c) {key : String} {fields : Record}
    (hok : (insert key fields c).1 = .ok) :
    ∃ node ∈ c.cluster.ids, ∃ record,
      (Cluster.run (Cluster.insert c.selection key fields) c.cluster).1 = .ok node ∧
      (read key none Dict.empty (insert key fields c).2).1 = (.ok, record) ∧
      record = ((earlierCopy c.cluster node key).getD (((c.cluster.memory node).record key).override fields)) ∧
      (record = fields ↔
        match earlierCopy c.cluster node key with
        | some copy => copy = fields
        | none => (c.cluster.memory node).records.contains key = false) := by
  -- nodes that requests lead to from new ones can all be used or none can
  have hs := reached_sound h
  rw [insert_eq] at hok ⊢
  rcases hrun : Cluster.run (Cluster.insert c.selection key fields) c.cluster with ⟨_ | node, w⟩
  · rw [hrun] at hok
    cases hok
  obtain ⟨hf, ha⟩ := (Cluster.insert_adds R c.cluster c.selection key fields).ok hrun
  have found := Cluster.read_finds R key none (ha.usable_all (hs.usable ha.member ha.usable)) ha.placed
  rcases hread : Cluster.run (Cluster.read key none) w with ⟨fault | looked, w'⟩
  · exact (found.error hread).elim
  have hlooked := Cluster.lookup_after_insert hs hf ha
  rw [← (found.ok hread).1] at hlooked
  obtain ⟨seen, rfl, hseen⟩ := Option.map_eq_some_iff.1 hlooked
  refine ⟨node, ha.member, seen.record, rfl, ?_, hseen, ?_⟩
  · rw [read_eq]
    simp only [hread]
    exact congrArg _ (Dict.empty_override _)
  · rw [hseen]
    cases earlierCopy c.cluster node key with
    | some copy => rfl
    | none =>
      have hold := (hs.filled node).record_isEmpty key
      rw [Option.getD_none, Record.override_eq_of_created ha.created, ← Dict.isEmpty_iff, hold]
      simp

def single : Coordinator Store.Memory Registry.Ledger where
  cluster := { nodes := Dict.ofList [("a", {})] }

theorem single_allNew : AllNew single := by
  intro node state hn
  simp only [single, Dict.ofList, List.foldl_cons, List.foldl_nil, Dict.get?_insert, Dict.get?_empty] at hn
  split at hn
  · exact (Option.some.inj hn).symm
  · cases hn

theorem a_first_insert_is_read :
    ∃ record, (read "k" none Dict.empty (insert "k" (Dict.ofList [("f", "v")]) single).2).1 = (.ok, record) ∧
      record = Dict.ofList [("f", "v")] := by
  have hok : (insert "k" (Dict.ofList [("f", "v")]) single).1 = .ok := rfl
  obtain ⟨node, hmem, record, -, hread, -, hsame⟩ := insert_then_read Reliable.self (.start single_allNew) hok
  obtain rfl : node = "a" := List.mem_singleton.1 hmem
  exact ⟨record, hread, hsame.2 rfl⟩

/-- An insert of other fields under a key that has a record is `ok`, and the read after it gives the fields of both. -/
theorem a_second_insert_merges :
    let held := (serve (.insert "k" (Dict.ofList [("f0", "v0")])) single).2
    let fields := Dict.ofList [("f1", "v1")]
    Reached AllNew (fun _ _ => False) held ∧ (insert "k" fields held).1 = .ok ∧
      (read "k" none Dict.empty (insert "k" fields held).2).1 = (.ok, Dict.ofList [("f0", "v0"), ("f1", "v1")]) ∧
      (read "k" none Dict.empty (insert "k" fields held).2).1 ≠ (.ok, fields) :=
  ⟨.serve _ (.start single_allNew), rfl, rfl, by decide⟩

end Placement.Coordinator
