import Placement.Proofs.RoundTrip
import Placement.Proofs.Scores

/-!
The index of a node beside its records.

Records and index are kept apart on a node, and most calls change only one of them. Where no node fails and the registry
declines nothing, the operations always put the two together again: a node has index entries for the keys of its records
and for no others. A scan finds keys by the index only, so every record is found by the scans that start at its key.

- `after_indexed`: what one request keeps.
- `scan_finds`: what a scan comes to without a registry.
- `indexes_follow_records`: what all requests keep, and what scans find then.
-/

namespace Placement.Store

def Call.paired : Call → Bool
  | .write .. | .remove .. | .indexAdd .. => false
  | _ => true

theorem Call.paired_of_looks (call : Call) (h : call.looks = true) : call.paired = true := by
  cases call <;> first | rfl | cases h

namespace Memory

/-- The index has the score of every key that has a record, and no other entries. -/
def Indexed (m : Memory) : Prop :=
  ∀ key, m.index.get? key = if m.records.contains key then some (KeyHash.score key) else none

variable {m : Memory} {key : String}

theorem Indexed.serve_paired {call : Call} (hc : call.paired = true) (h : m.Indexed) : (serve call m).2.Indexed := by
  intro key'
  have hkey := h key'
  cases call with
  | removeIndexed key =>
    simp only [serve, Dict.get?_erase, Dict.contains_erase]
    by_cases he : key = key'
    · simp [he]
    · simp [he, hkey]
  | flush => rfl
  | write key fields => cases hc
  | remove key => cases hc
  | indexAdd score key => cases hc
  | _ => exact hkey

/-- Writing over a record leaves the index as right as it was. -/
theorem Indexed.write_held (h : m.Indexed) (hheld : m.records.contains key = true) (fields : Record) :
    (m.write key fields).Indexed := by
  intro key'
  rw [index_write, contains_write, h key']
  by_cases he : key = key'
  · subst he
    simp [hheld]
  · simp [he]

/-- Writing a record and then indexing its key does so too, whether there was such a record or not. -/
theorem Indexed.write_indexAdd (h : m.Indexed) {fields : Record} (hf : fields.isEmpty = false) :
    (serve (.indexAdd (KeyHash.score key) key) (m.write key fields)).2.Indexed := by
  intro key'
  simp only [serve, index_write, Dict.get?_insert, contains_write, hf]
  by_cases he : key = key'
  · simp [he]
  · simp [he, h key']

end Memory

end Placement.Store

namespace Placement.Cluster

variable {ρ : Type} {w w' : Cluster Store.Memory ρ} {node : NodeId} {key : String} {fields : Record}

/-- Every node has index entries for its records, and no others. -/
def Indexed (w : Cluster Store.Memory ρ) : Prop := ∀ node, (w.memory node).Indexed

theorem Overwritten.indexed (h : Overwritten key fields w w') (hi : Indexed w) : Indexed w' := by
  intro other
  rcases h with h | ⟨node, written, hheld, hserved⟩
  · rw [h.memory]
    exact hi other
  · rw [hserved.memory]
    split
    · exact (hi node).write_held hheld fields
    · exact hi other

variable [Registry ρ]

/-! ## Single steps -/

/-- There is no registry, or it confirms whatever placement it is asked for. -/
def Agreeable (w : Cluster Store.Memory ρ) : Prop :=
  w.registry = none ∨ ∀ node key (state : ρ), (Registry.perform (.place node key) state).1 = .ok true

/-- Whatever is asked for, no registry comes to be where there is none. -/
theorem permits_unregistered :
    Permits (fun w w' : Cluster Store.Memory ρ => w.registry = none → w'.registry = none) (fun _ => True)
      fun _ => True where
  refl _ h := h
  trans h h' hn := h' (h hn)
  ask _ _ _ _ := ensures_ask (fun _ _ _ _ _ h => h) (fun _ _ _ _ _ h => h) fun _ h => h
  consult _ _ _ := ensures_advised (fun _ _ hr h => by rw [hr] at h; cases h) fun _ h => h
  draw _ _ := ensures_draw fun h => h
  report _ _ := ensures_report fun h => h

theorem permits_paired :
    Permits (fun w w' : Cluster Store.Memory ρ => w'.ids = w.ids ∧
      ∀ node, (w.memory node).Indexed → (w'.memory node).Indexed) (fun call => call.paired = true) fun _ => True :=
  permits_nodewise (T := fun m m' => m.Indexed → m'.Indexed) (fun _ h => h) (fun h h' hm => h' (h hm))
    fun _ hc _ hm => hm.serve_paired hc

theorem confirm_agrees (h : Agreeable w) (node : NodeId) (key : String) :
    Ensures w (confirm node key) (fun _ w' => w'.nodes = w.nodes) fun _ _ => False := by
  refine ensures_hasRegistry_bind ?_
  cases hreg : w.registry with
  | none => exact ensures_pure rfl
  | some state =>
    have hyes := (h.resolve_left (by simp [hreg])) node key state
    have placed : Ensures w (consult (.place node key)) (fun confirmed w' => confirmed = true ∧ w'.nodes = w.nodes)
        fun _ _ => False := by
      rw [Ensures, run_consult hreg, hyes]
      exact ⟨rfl, rfl⟩
    refine placed.attempt_bind (fun confirmed w₁ h₁ => ?_) fun _ _ hf => hf.elim
    obtain ⟨rfl, hnodes⟩ := h₁
    exact ensures_pure hnodes

/-! ## Requests -/

/-- An insert that fails has changed nothing or has put its fields over an older record. -/
theorem insert_indexed (ha : Agreeable w) (hi : Indexed w) (how : Selection) (key : String) (fields : Record) :
    Ensures w (insert how key fields) (fun _ w' => Indexed w') fun _ w' => Indexed w' := by
  unfold insert
  split
  · exact ensures_throw hi
  rename_i he
  have chosen : Ensures w (choose how) (fun _ w' => Agreeable w' ∧ Indexed w') fun _ w' => Indexed w' := by
    have paired := permits_paired.choose rfl (fun _ => trivial) how w
    have unregistered := permits_unregistered.choose trivial (fun _ => trivial) how w
    refine (paired.and unregistered).mono (fun _ w₁ h₁ => ⟨?_, fun node => h₁.1.2 node (hi node)⟩)
      fun _ w₁ h₁ node => h₁.1.2 node (hi node)
    exact ha.imp_left h₁.2
  refine chosen.bind fun node w₁ h₁ => ?_
  obtain ⟨ha₁, hi₁⟩ := h₁
  -- a write that is refused has gone over a record, whose key is in the index
  refine (writeNew_writes_fields w₁ node key fields).andThen (fun _ _ h₂ => h₂.1.indexed hi₁) fun _ w₂ h₂ => ?_
  have ha₂ : Agreeable w₂ := ha₁.imp_left h₂.registry.trans
  refine (confirm_agrees ha₂ node key).andThen (fun _ _ hf => hf.elim) fun _ w₃ hnodes₃ => ?_
  have hn₃ : w₃.nodes.get? node = some ((w₁.memory node).write key fields) := by
    rw [hnodes₃, h₂.nodes, Dict.get?_insert_self]
    rfl
  have hu₃ : ((w₁.memory node).write key fields).obstacle = none := (Store.Memory.obstacle_write ..).trans h₂.usable
  refine (enter_indexes hn₃ hu₃).andThen (fun _ _ hf => hf.elim) fun _ w₄ h₄ => ensures_pure fun other => ?_
  rw [memory_of_insert h₄.1]
  split
  · exact (hi₁ node).write_indexAdd (Bool.eq_false_iff.2 he)
  · rename_i hne
    rw [memory_of_nodes hnodes₃, h₂.memory, if_neg hne]
    exact hi₁ other

theorem after_indexed (ha : Agreeable w) (hi : Indexed w) (how : Selection) (q : Coordinator.Request) :
    Indexed (q.after how w) := by
  have paired : ∀ {α : Type} {op : Op Store.Memory ρ α},
      Within (fun w w' => w'.ids = w.ids ∧ ∀ node, (w.memory node).Indexed → (w'.memory node).Indexed) op →
        Indexed (run op w).2 := by
    intro α op h node
    exact (h w).left.2 node (hi node)
  have looks := Store.Call.paired_of_looks
  have located := permits_paired.readLocated (ρ := ρ) looks (fun _ => trivial) fun _ => trivial
  cases q with
  | insert key fields => exact (insert_indexed ha hi how key fields).left
  | update key fields =>
    have written := updateFirst_writes key fields (fun node (hn : node ∈ w.ids) => hn) []
    exact Ensures.left (written.mono (fun _ _ h => h.indexed hi) fun _ _ h => h.indexed hi)
  | read key names into => exact paired (permits_paired.read looks located key names)
  | delete key => exact paired (permits_paired.delete key rfl fun _ => trivial)
  | scan start count names into => exact paired (permits_paired.scan looks located start count names)
  | recordCounts => exact paired (permits_paired.bind (permits_paired.counts rfl) fun _ => permits_paired.lift _)
  | flush thenClose => exact paired (permits_paired.flushAll rfl thenClose fun _ => rfl)
  | cleanup => exact paired (Coordinator.cleanup_of_closed permits_paired.toClosed rfl trivial)

end Placement.Cluster

namespace Placement

/-! ## Windows -/

/-- An entry is in every window that is as large as the index and starts at or below its score. -/
theorem Store.Memory.mem_range {m : Store.Memory} {key : String} {score min : Score} {count : Nat}
    (h : m.index.get? key = some score) (hmin : score.atLeast min = true) (hcount : m.index.size ≤ count) :
    key ∈ m.range min count := by
  have hall : ((m.index.toList.filter fun e => e.2.atLeast min).mergeSort entryLe).length ≤ count := by
    rw [List.length_mergeSort]
    exact Nat.le_trans (List.length_filter_le ..) hcount
  rw [range, List.take_of_length_le hall]
  have hmem : (key, score) ∈ m.index.toList.filter fun e => e.2.atLeast min :=
    List.mem_filter.2 ⟨Dict.mem_toList.2 h, hmin⟩
  exact List.mem_map.2 ⟨(key, score), List.mem_mergeSort.2 hmem, rfl⟩

/-! ## Runs -/

namespace Cluster

variable {ρ : Type} {w w' : Cluster Store.Memory ρ} {node : NodeId} {key : String}

/-- Without a registry, a scan from a key that a node holds gives the record that a read of the key gives, if it asks
for enough of every index. -/
theorem scan_finds_held [Registry ρ] (hu : Usable w) (hi : Indexed w) (hreg : w.registry = none)
    (hheld : (w.memory node).records.contains key = true) {count : Nat}
    (hcount : ∀ node ∈ w.ids, (w.memory node).index.size ≤ count) (names : Option (List String)) :
    Ensures w (scan key count names)
      (fun records _ => ∀ found, w.ids.findSome? (w.offered key names) = some found → found.record ∈ records)
      fun _ _ => False := by
  have hn := mem_ids_of_held hheld
  refine (scan_finds_first key count names hu hreg).mono (fun records _ h found hfound => ?_) fun _ _ hf => hf
  have hentry : (w.memory node).index.get? key = some (KeyHash.score key) := by rw [hi node key, if_pos hheld]
  have hkey := Store.Memory.mem_range hentry (KeyHash.atLeast_score key) (hcount node hn)
  rw [h.1]
  exact List.mem_flatMap.2 ⟨node, hn, List.mem_filterMap.2 ⟨key, hkey, by rw [hfound]; rfl⟩⟩

/-- A record that is held is offered. -/
theorem findSome?_offered (hf : (w.memory node).Filled) (hheld : (w.memory node).records.contains key = true) :
    (w.ids.findSome? (w.offered key none)).isSome = true := by
  rw [List.findSome?_isSome_iff]
  refine ⟨node, mem_ids_of_held hheld, ?_⟩
  obtain ⟨r, hr⟩ := Dict.contains_iff.1 hheld
  rw [offered_of_filled hf, hr]
  rfl

/-- Every node can be used; its records have fields, and index entries. What registry there is confirms. -/
structure InOrder [Registry ρ] (w : Cluster Store.Memory ρ) : Prop where
  agreeable : Agreeable w
  usable : Usable w
  filled : ∀ node, (w.memory node).Filled
  indexed : Indexed w

theorem InOrder.after [Registry ρ] (h : InOrder w) (how : Selection) {q : Coordinator.Request}
    (hq : q.closes = false) : InOrder (q.after how w) where
  agreeable := h.agreeable.imp_left <| q.stays_within permits_unregistered how w (fun _ _ => trivial)
    (fun _ _ => trivial) fun _ => ⟨trivial, trivial⟩
  usable node := ((obstacle_after how hq w).2 node).trans (h.usable node)
  filled := filled_after how q h.filled
  indexed := after_indexed h.agreeable h.indexed how q

end Cluster

namespace Coordinator

open Cluster (InOrder)

variable {ρ : Type} [Registry ρ] {c : Coordinator Store.Memory ρ}

theorem AllNew.inOrder (h : AllNew c) (ha : Cluster.Agreeable c.cluster) : InOrder c.cluster where
  agreeable := ha
  usable node := by rw [h.memory]; rfl
  filled node key r hr := by rw [h.memory] at hr; cases hr
  indexed node key := by rw [h.memory]; rfl

def alone (c : Coordinator Store.Memory ρ) : Coordinator Store.Memory ρ :=
  { c with cluster := { c.cluster with registry := none } }

/-- Requests that give no node up, made to nodes that are empty at first, where there is no registry or one that
confirms: every node has the score of each key that it holds in its index, and nothing else. Without the registry, a
scan from a key that a node holds is then `ok` if it asks for enough of every index, and has the record that a read of
the key gives; and there is such a record. -/
theorem indexes_follow_records (hnew : AllNew c)
    (hconfirms : c.cluster.registry = none ∨
      ∀ node key (state : ρ), (Registry.perform (.place node key) state).1 = .ok true)
    {requests : List Request} (hopen : ∀ q ∈ requests, q.closes = false) :
    let left := (serveAll requests c).2
    (∀ node state, left.cluster.nodes.get? node = some state → ∀ key,
      state.index.get? key = if state.records.contains key then some (KeyHash.score key) else none) ∧
    ∀ node state key, left.cluster.nodes.get? node = some state → state.records.contains key = true →
      ∀ count, (∀ other state', left.cluster.nodes.get? other = some state' → state'.index.size ≤ count) →
        (∃ record, (read key none Dict.empty left.alone).1 = (.ok, record)) ∧
        ∀ names into, ∃ records, (scan key count names into left.alone).1 = (.ok, into ++ records) ∧
          ∀ record, (read key names Dict.empty left.alone).1 = (.ok, record) → record ∈ records := by
  -- every request keeps the nodes in order, so only one cluster is looked at from here
  have horder : InOrder (serveAll requests c).2.cluster := by
    refine serveAll_keeps (I := fun c => InOrder c.cluster) (fun q c hq h => ?_) hopen (hnew.inOrder hconfirms)
    rw [serve_eq]
    exact h.after _ hq
  generalize (serveAll requests c).2 = left at horder
  refine ⟨fun node state hn key => ?_, fun node state key hn hheld count hcount => ?_⟩
  · rw [← Cluster.memory_of_get? hn]
    exact horder.indexed node key
  rw [← Cluster.memory_of_get? hn] at hheld
  have hcount' : ∀ other ∈ left.cluster.ids, (left.cluster.memory other).index.size ≤ count := fun other ho =>
    hcount other _ (Cluster.get?_memory ho)
  -- without the registry a read asks the nodes in turn, as a scan does for each key it lists
  have hreads := fun names => Cluster.read_finds_first (w := left.alone.cluster) key names horder.usable rfl
  refine ⟨?_, fun names into => ?_⟩
  · have hoffer := Cluster.findSome?_offered (w := left.alone.cluster) (horder.filled node) hheld
    obtain ⟨found, hfound⟩ := Option.isSome_iff_exists.1 hoffer
    rcases hrun : Cluster.run (Cluster.read key none) left.alone.cluster with ⟨fault | looked, w'⟩
    · exact ((hreads none).error hrun).elim
    · rw [read_eq, hrun, ((hreads none).ok hrun).1, hfound]
      exact ⟨_, rfl⟩
  · have hscan := Cluster.scan_finds_held (w := left.alone.cluster) horder.usable horder.indexed rfl hheld hcount'
      names
    rcases hrun : Cluster.run (Cluster.scan key count names) left.alone.cluster with ⟨fault | records, w'⟩
    · exact (hscan.error hrun).elim
    refine ⟨records, by rw [scan_eq, hrun], fun record hread => ?_⟩
    rw [read_eq] at hread
    rcases hrun' : Cluster.run (Cluster.read key names) left.alone.cluster with ⟨fault | looked, w''⟩
    · exact ((hreads names).error hrun').elim
    rw [hrun'] at hread
    cases looked with
    | none => cases hread
    | some found =>
      obtain rfl : found.record = record := (Dict.empty_override _).symm.trans (Prod.mk.inj hread).2
      exact hscan.ok hrun found ((hreads names).ok hrun').1.symm

/-- Two empty nodes and a registry that confirms; the first record goes to the one node, the next to the other. -/
def pair : Coordinator Store.Memory Registry.Ledger where
  cluster := { nodes := Dict.ofList [("a", {}), ("b", {})], registry := some {}, draws := [0, 1] }

theorem pair_allNew : AllNew pair := by
  intro node state hn
  simp only [pair, Dict.ofList, List.foldl_cons, List.foldl_nil, Dict.get?_insert, Dict.get?_empty] at hn
  repeat' split at hn
  all_goals first
    | exact (Option.some.inj hn).symm
    | cases hn

/-- A key that two nodes hold is in the index of both. -/
theorem a_second_copy_is_indexed :
    let fields := Dict.ofList [("f", "v")]
    let left := (serveAll [.insert "k" fields, .insert "k" fields] pair).2
    ∃ state, left.cluster.nodes.get? "b" = some state ∧ state.index.get? "k" = some (KeyHash.score "k") ∧
      ∃ record records, (read "k" none Dict.empty left.alone).1 = (.ok, record) ∧
        (scan "k" 1 none [] left.alone).1 = (.ok, [] ++ records) ∧ record ∈ records := by
  intro fields left
  have hopen : ∀ q ∈ [Request.insert "k" fields, .insert "k" fields], q.closes = false := by simp [Request.closes]
  obtain ⟨indexed, found⟩ := indexes_follow_records pair_allNew (.inr fun _ _ _ => rfl) hopen
  have hsmall : ∀ e ∈ left.cluster.nodes.toList, e.2.index.size ≤ 1 := by decide +kernel
  have hthere : (left.cluster.nodes.get? "b").isSome = true := by decide +kernel
  have hheld : (left.cluster.memory "b").records.contains "k" = true := by decide +kernel
  obtain ⟨state, hstate⟩ := Option.isSome_iff_exists.1 hthere
  rw [Cluster.memory_of_get? hstate] at hheld
  obtain ⟨⟨record, hread⟩, hscan⟩ := found "b" state "k" hstate hheld 1 fun _ _ h => hsmall _ (Dict.mem_toList.2 h)
  obtain ⟨records, hrecords, hmem⟩ := hscan none []
  exact ⟨state, hstate, by rw [indexed "b" state hstate, if_pos hheld], record, records, hread, hrecords,
    hmem record hread⟩

end Coordinator

end Placement
