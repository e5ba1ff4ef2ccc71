import Placement.Proofs.Session
import Placement.Proofs.Lapse

/-!
Custody: a node that holds a record of a key is the place of that key.

Nodes may fail any call but the one that takes a write back, and the registry may decline and fail as it likes,
as long as it gives no key a second place. What an operation keeps is `Accounted`. One step only breaks it, the
write of a new record; until the registry has confirmed the place or the write is taken back, that one record is
spared.

- `insert_accounted`, `update_accounted`, `delete_accounted`: what the operations that change records keep.
- `records_in_custody`: what every run keeps.
-/

namespace Placement.Cluster

variable {ν ρ : Type} [Store ν] [Registry ρ]

/-- Every record lives where the registry places its key, but for the one that is spared. -/
structure Accounted (B : Store.Backing ν Store.Call.takesBack) (G : Registry.Guarded ρ)
    (spare : Option (NodeId × String)) (w : Cluster ν ρ) : Prop where
  registered : w.registry.isSome = true
  owned : ∀ node key, (B.recordsOn w node).contains key = true →
    spare = some (node, key) ∨ G.owns w node key = true

variable {B : Store.Backing ν Store.Call.takesBack} {G : Registry.Guarded ρ} {spare : Option (NodeId × String)}
  {w : Cluster ν ρ} {node : NodeId} {key : String}

/-! ## Single calls -/

/-- A node may answer or fail as it likes, as long as every record it has then is accounted for. -/
theorem Accounted.answered {call : Store.Call} {state' : ν} (h : Accounted B G spare w)
    (hk : ∀ key, (B.memory state').records.contains key = true → spare = some (node, key) ∨ G.owns w node key = true)
    (answer : Except Fault call.Answer) : Accounted B G spare (w.answered node call answer state') := by
  refine ⟨h.registered, ?_⟩
  intro other key hc
  rw [B.recordsOn_answered] at hc
  split at hc
  · rename_i hn
    subst hn
    exact hk key hc
  · exact h.owned other key hc

/-- Only a write brings a record where there was none. -/
theorem contains_of_serve {call : Store.Call} (hw : ∀ key fields, call ≠ .write key fields) {m : Store.Memory}
    {key : String} (h : (Store.Memory.serve call m).2.records.contains key = true) : m.records.contains key = true := by
  cases call with
  | write key fields => exact absurd rfl (hw key fields)
  | remove k | removeIndexed k =>
    simp only [Store.Memory.serve, Dict.contains_erase, Bool.and_eq_true] at h
    exact h.2
  | flush => simp [Store.Memory.serve] at h
  | _ => exact h

theorem ne_write_of_looks {call : Store.Call} (h : call.looks = true) (key : String) (fields : Record) :
    call ≠ .write key fields := by
  rintro rfl
  cases h

theorem ask_accounted {call : Store.Call} (hw : ∀ key fields, call ≠ .write key fields) (h : Accounted B G spare w) :
    Ensures w (ask node call) (fun _ w' => Accounted B G spare w') fun _ w' => Accounted B G spare w' := by
  refine ensures_ask (fun state a state' hn hp => ?_) (fun state fault state' hn hp => ?_) fun _ => h
  · refine h.answered (fun key hc => h.owned node key ?_) _
    rw [(B.ok hp).2.2] at hc
    rw [B.recordsOn_of_get? hn]
    exact contains_of_serve hw hc
  · refine h.answered (fun key hc => h.owned node key ?_) _
    rw [B.error hp] at hc
    rwa [B.recordsOn_of_get? hn]

/-- The registry may answer or fail as it likes, as long as every record keeps its place. -/
theorem Accounted.advised {call : Registry.Call} {state state' : ρ} (h : Accounted B G spare w)
    (hr : w.registry = some state)
    (hk : ∀ node key, (B.recordsOn w node).contains key = true → spare ≠ some (node, key) →
      (G.ledger state).owns node key = true → (G.ledger state').owns node key = true)
    (answer : Except Fault call.Answer) : Accounted B G spare (w.advised call answer state') := by
  refine ⟨rfl, ?_⟩
  intro node key hc
  by_cases hs : spare = some (node, key)
  · exact .inl hs
  · have ho := (h.owned node key hc).resolve_left hs
    rw [G.owns_of_registry hr] at ho
    exact .inr (hk node key hc hs ho)

theorem consult_accounted {call : Registry.Call} (hw : ∀ node key, call ≠ .withdraw node key)
    (h : Accounted B G spare w) :
    Ensures w (consult call) (fun _ w' => Accounted B G spare w') fun _ w' => Accounted B G spare w' := by
  refine ensures_advised (fun state answer hr => ?_) fun _ => h
  exact h.advised hr (fun node key _ _ ho => G.perform_keeps hw state ho) answer

/-- All calls but writes and withdrawals. -/
theorem permits_accounted (B : Store.Backing ν Store.Call.takesBack) (G : Registry.Guarded ρ)
    (spare : Option (NodeId × String)) :
    Permits (fun w w' => Accounted B G spare w → Accounted B G spare w')
      (fun call => ∀ key fields, call ≠ .write key fields) fun call => ∀ node key, call ≠ .withdraw node key where
  refl _ h := h
  trans h h' ha := h' (h ha)
  ask node call hw w := by
    by_cases h : Accounted B G spare w
    · exact (ask_accounted hw h).mono (fun _ _ h' _ => h') fun _ _ h' _ => h'
    · exact (ensures_self w _).mono (fun _ _ _ h' => absurd h' h) fun _ _ _ h' => absurd h' h
  consult call hw w := by
    by_cases h : Accounted B G spare w
    · exact (consult_accounted hw h).mono (fun _ _ h' _ => h') fun _ _ h' _ => h'
    · exact (ensures_self w _).mono (fun _ _ _ h' => absurd h' h) fun _ _ _ h' => absurd h' h
  draw _ _ := ensures_draw fun h => ⟨h.registered, h.owned⟩
  report _ _ := ensures_report fun h => ⟨h.registered, h.owned⟩

/-- A program that makes no write and no withdrawal keeps what is accounted for. -/
theorem accounted_of_within {α : Type} {op : Op ν ρ α}
    (hop : Within (fun w w' => Accounted B G spare w → Accounted B G spare w') op) (h : Accounted B G spare w) :
    Ensures w op (fun _ w' => Accounted B G spare w') fun _ w' => Accounted B G spare w' :=
  (hop w).mono (fun _ _ h' => h' h) fun _ _ h' => h' h

/-! ## Taking one record in and out of account -/

theorem Accounted.spared (h : Accounted B G none w) (spare : Option (NodeId × String)) : Accounted B G spare w :=
  ⟨h.registered, fun node key hc => .inr ((h.owned node key hc).resolve_left (by simp))⟩

/-- A spared record whose place the registry has needs no sparing. -/
theorem Accounted.placed (h : Accounted B G (some (node, key)) w) (ho : G.owns w node key = true) :
    Accounted B G none w := by
  refine ⟨h.registered, ?_⟩
  intro other key' hc
  rcases h.owned other key' hc with he | ho'
  · cases he
    exact .inr ho
  · exact .inr ho'

/-- Nor does one that is not there. -/
theorem Accounted.gone (h : Accounted B G (some (node, key)) w) (hg : (B.recordsOn w node).contains key = false) :
    Accounted B G none w := by
  refine ⟨h.registered, ?_⟩
  intro other key' hc
  rcases h.owned other key' hc with he | ho
  · cases he
    rw [hg] at hc
    cases hc
  · exact .inr ho

theorem Accounted.owns (h : Accounted B G none w) (hc : (B.recordsOn w node).contains key = true) :
    G.owns w node key = true :=
  (h.owned node key hc).resolve_left (by simp)

/-- A write puts one record out of account at most. A node that says it has created another number of fields than
it was given had the record. -/
theorem write_accounted (fields : Record) (h : Accounted B G none w) :
    Ensures w (ask node (.write key fields))
      (fun written w' => Accounted B G (some (node, key)) w' ∧ B.Usable w' node ∧
        ((written ≠ fields.size ∨ (B.recordsOn w node).contains key = true) → G.owns w' node key = true))
      fun _ w' => Accounted B G none w' := by
  refine ensures_ask (fun state written state' hn hp => ?_) (fun state fault state' hn hp => ?_) fun _ => h
  · obtain ⟨hu, hw, hm⟩ := B.ok hp
    have hrec := B.recordsOn_of_get? hn
    refine ⟨(h.spared _).answered (fun key' hc => ?_) _, ⟨state', by simp [answered], ?_⟩, fun hor => ?_⟩
    · rw [hm, Store.Memory.serve, Store.Memory.contains_write, Bool.or_eq_true, Bool.and_eq_true] at hc
      rcases hc with hc | ⟨hk, -⟩
      · exact .inr (h.owns (by rwa [hrec]))
      · exact .inl (by rw [of_decide_eq_true hk])
    · rw [hm]
      exact (Store.Memory.obstacle_write ..).trans (hu (by simp))
    · have hheld : (B.recordsOn w node).contains key = true := by
        rcases hor with hne | hheld
        · cases hheld : (B.recordsOn w node).contains key with
          | true => rfl
          | false =>
            rw [hrec] at hheld
            rw [hw, Store.Memory.serve, Store.Memory.record_of_absent hheld, Record.created_empty] at hne
            exact absurd rfl hne
        · exact hheld
      exact h.owns hheld
  · refine h.answered (fun key' hc => .inr (h.owns ?_)) _
    rw [B.error hp] at hc
    rwa [B.recordsOn_of_get? hn]

/-- Of all a withdrawal does, only the loss of the place it names can put a record out of account. -/
theorem withdraw_accounted (h : Accounted B G none w) :
    Ensures w (consult (.withdraw node key))
      (fun _ w' => Accounted B G (some (node, key)) w' ∧ w'.nodes = w.nodes)
      fun _ w' => Accounted B G (some (node, key)) w' ∧ w'.nodes = w.nodes := by
  refine ensures_advised (fun state answer hr => ⟨?_, rfl⟩) fun _ => ⟨h.spared _, rfl⟩
  refine (h.spared _).advised hr (fun other key' _ hne ho => ?_) answer
  refine G.withdraw_keeps state ho fun hsame => hne ?_
  rw [hsame.1, hsame.2]

/-- A placement is confirmed only if the ledger has it; whatever comes of it, no record loses its place. -/
theorem place_accounted (h : Accounted B G spare w) :
    Ensures w (consult (.place node key))
      (fun confirmed w' => Accounted B G spare w' ∧ w'.nodes = w.nodes ∧ (confirmed = true → G.owns w' node key = true))
      fun _ w' => Accounted B G spare w' ∧ w'.nodes = w.nodes := by
  have kept : Ensures w (consult (.place node key)) (fun _ w' => Accounted B G spare w' ∧ w'.nodes = w.nodes)
      fun _ w' => Accounted B G spare w' ∧ w'.nodes = w.nodes := by
    refine ensures_advised (fun state answer hr => ⟨?_, rfl⟩) fun _ => ⟨h, rfl⟩
    exact h.advised hr (fun other key' _ _ ho => G.place_keeps state ho) answer
  exact (kept.and (G.place_owns node key w)).mono (fun _ _ hw => ⟨hw.1.1, hw.1.2, hw.2⟩) fun _ _ hw => hw.1

/-- What is taken back is gone: no usable node fails that call. -/
theorem takeBack_accounted {E : Fault → Cluster ν ρ → Prop} (h : Accounted B G (some (node, key)) w)
    (hu : B.Usable w node) : Ensures w (takeBack node key) (fun _ w' => Accounted B G none w') E := by
  obtain ⟨state, hn, hu⟩ := hu
  have removed : Ensures w (ask node (.remove key)) (fun _ w' => Accounted B G none w') fun _ _ => False := by
    refine ensures_ask (fun s a s' hs hp => ?_) (fun s fault s' hs hp => ?_) fun hs => ?_
    · have hm := (B.ok hp).2.2
      refine Accounted.gone (h.answered (fun key' hc => h.owned node key' ?_) _) ?_
      · rw [hm] at hc
        rw [B.recordsOn_of_get? hs]
        exact contains_of_serve (by simp) hc
      · rw [B.recordsOn_answered, if_pos rfl, hm]
        simp [Store.Memory.serve, Dict.contains_erase]
    · rw [hn] at hs
      cases hs
      exact B.spared_ok (by trivial) hu hp
    · rw [hn] at hs
      cases hs
  exact removed.attempt_bind (fun _ _ hw => ensures_pure hw) fun _ _ hf => hf.elim

/-- The end of an insert that fails after its write. -/
theorem undo_accounted (fault : Fault) (h : Accounted B G (some (node, key)) w) (hu : B.Usable w node) :
    Ensures w
      (do
        takeBack node key
        throw fault : Op ν ρ Unit)
      (fun _ w' => Accounted B G none w' ∧ B.Usable w' node) fun _ w' => Accounted B G none w' :=
  (takeBack_accounted h hu).bind fun _ _ hw => ensures_throw hw

/-! ## Operations -/

/-- Either the write is accounted for but for its place, or no new record is there. -/
theorem writeNew_accounted (fields : Record) (h : Accounted B G none w) :
    Ensures w (writeNew node key fields) (fun _ w' => Accounted B G (some (node, key)) w' ∧ B.Usable w' node)
      fun _ w' => Accounted B G none w' := by
  refine (write_accounted fields h).bind fun written w' hw => ?_
  obtain ⟨hs, hu, ho⟩ := hw
  split
  · rename_i hne
    exact ensures_throw (hs.placed (ho (.inl hne)))
  · exact ensures_pure ⟨hs, hu⟩

theorem confirm_accounted (h : Accounted B G (some (node, key)) w) (hu : B.Usable w node) :
    Ensures w (confirm node key) (fun _ w' => Accounted B G none w' ∧ B.Usable w' node)
      fun _ w' => Accounted B G none w' := by
  have usable : ∀ {w' : Cluster ν ρ}, w'.nodes = w.nodes → B.Usable w' node := fun hn => by
    obtain ⟨state, hs, hu⟩ := hu
    exact ⟨state, hn ▸ hs, hu⟩
  refine ensures_hasRegistry_bind ?_
  rw [h.registered]
  refine (place_accounted h).attempt_bind (fun confirmed w' hw => ?_) fun fault w' hw => ?_
  · obtain ⟨hs, hnodes, hplaced⟩ := hw
    cases confirmed with
    | false => exact undo_accounted _ hs (usable hnodes)
    | true => exact ensures_pure ⟨hs.placed (hplaced rfl), usable hnodes⟩
  · exact undo_accounted fault hw.1 (usable hw.2)

/-- When indexing fails, the place goes first and the record right after it. -/
theorem enter_accounted (h : Accounted B G none w) (hu : B.Usable w node) :
    Ensures w (enter node key) (fun _ w' => Accounted B G none w') fun _ w' => Accounted B G none w' := by
  have usable : Ensures w (ask node (.indexAdd (KeyHash.score key) key)) (fun _ _ => True)
      fun _ w' => B.Usable w' node := by
    refine ensures_ask (fun _ _ _ _ _ => trivial) (fun state fault state' hn hp => ?_) fun _ => hu
    exact B.usable_answered hu hn (fun ho => by rwa [B.error hp]) _
  refine ((ask_accounted (by simp) h).and usable).attempt_bind (fun _ _ hw => ensures_pure hw.1) fun fault w₁ h₁ => ?_
  obtain ⟨ha, state, hs, ho⟩ := h₁
  refine ensures_hasRegistry_bind ?_
  rw [ha.registered]
  refine (withdraw_accounted ha).attempt_bind (fun _ w₂ h₂ => ?_) fun _ w₂ h₂ => ?_
  · exact (undo_accounted fault h₂.1 ⟨state, h₂.2 ▸ hs, ho⟩).mono (fun _ _ hw => hw.1) fun _ _ hw => hw
  · exact (undo_accounted fault h₂.1 ⟨state, h₂.2 ▸ hs, ho⟩).mono (fun _ _ hw => hw.1) fun _ _ hw => hw

theorem insert_accounted (how : Selection) (key : String) (fields : Record) (h : Accounted B G none w) :
    Ensures w (insert how key fields) (fun _ w' => Accounted B G none w') fun _ w' => Accounted B G none w' := by
  have inserted : Ensures w
      (do
        let node ← choose how
        writeNew node key fields
        confirm node key
        enter node key
        return node)
      (fun _ w' => Accounted B G none w') fun _ w' => Accounted B G none w' := by
    have chosen := (permits_accounted B G none).choose (ne_write_of_looks rfl) (fun _ _ _ => by simp) how
    refine (accounted_of_within chosen h).bind fun node w₁ h₁ => ?_
    refine (writeNew_accounted fields h₁).bind fun _ w₂ h₂ => ?_
    refine (confirm_accounted h₂.1 h₂.2).bind fun _ w₃ h₃ => ?_
    exact (enter_accounted h₃.1 h₃.2).bind fun _ w₄ h₄ => ensures_pure h₄
  unfold insert
  split
  · exact ensures_throw h
  · exact inserted

theorem updateFirst_accounted (key : String) (fields : Record) (failures : List (NodeId × Fault))
    (nodes : List NodeId) (h : Accounted B G none w) :
    Ensures w (updateFirst key fields failures nodes) (fun _ w' => Accounted B G none w')
      fun _ w' => Accounted B G none w' := by
  induction nodes generalizing failures w with
  | nil => exact accounted_of_within ((permits_accounted B G none).unlessFailed failures Option.none) h
  | cons node rest ih =>
    -- a node that says it has the record has it, so writing to it moves no record
    have held : Ensures w (ask node (.holds key))
        (fun holds w' => holds = true → (B.recordsOn w' node).contains key = true) fun _ _ => True := by
      refine ensures_ask (fun state a state' hn hp ha => ?_) (fun _ _ _ _ _ => trivial) fun _ => trivial
      obtain ⟨-, hs, hm⟩ := B.ok hp
      rw [B.recordsOn_answered, if_pos rfl, hm]
      exact hs.symm.trans ha
    refine ((ask_accounted (by simp) h).and held).attempt_bind (fun holds w' hw => ?_) fun fault w' hw => ih _ hw.1
    obtain ⟨ha, hheld⟩ := hw
    cases holds with
    | false => exact ih _ ha
    | true =>
      refine (write_accounted fields ha).bind fun _ w'' hw => ensures_pure ?_
      exact hw.1.placed (hw.2.2 (.inr (hheld rfl)))

theorem update_accounted (key : String) (fields : Record) (h : Accounted B G none w) :
    Ensures w (update key fields : Op ν ρ (Option NodeId)) (fun _ w' => Accounted B G none w')
      fun _ w' => Accounted B G none w' :=
  updateFirst_accounted key fields [] w.ids h

omit [Registry ρ] in
/-- The node that a delete names has lost the record. -/
theorem deleteFirst_gone (B : Store.Backing ν Store.Call.takesBack) (w : Cluster ν ρ) (key : String)
    (failures : List (NodeId × Fault)) (nodes : List NodeId) :
    Ensures w (deleteFirst key failures nodes)
      (fun deleted w' => ∀ node, deleted = some node → (B.recordsOn w' node).contains key = false)
      fun _ _ => True := by
  induction nodes generalizing failures w with
  | nil =>
    unfold deleteFirst unlessFailed
    split
    · exact ensures_throw trivial
    · exact ensures_pure fun _ he => by cases he
  | cons node rest ih =>
    have dropped : Ensures w (ask node (.removeIndexed key))
        (fun _ w' => (B.recordsOn w' node).contains key = false) fun _ _ => True := by
      refine ensures_ask (fun state a state' hn hp => ?_) (fun _ _ _ _ _ => trivial) fun _ => trivial
      rw [B.recordsOn_answered, if_pos rfl, (B.ok hp).2.2]
      simp [Store.Memory.serve, Dict.contains_erase]
    refine dropped.attempt_bind (fun both w' hw => ?_) fun fault w' _ => ih w' _
    cases both with
    | false => exact ih w' _
    | true =>
      refine ensures_pure fun other he => ?_
      cases he
      exact hw

theorem delete_accounted (key : String) (h : Accounted B G none w) :
    Ensures w (delete key) (fun _ w' => Accounted B G none w') fun _ w' => Accounted B G none w' := by
  have walked := (permits_accounted B G none).deleteFirst key (by simp) [] w.ids
  have walked := (accounted_of_within walked h).and (deleteFirst_gone B w key [] w.ids)
  refine (walked.mono (fun _ _ hw => hw) fun _ _ hw => hw.1).bind fun deleted w₁ h₁ => ?_
  obtain ⟨ha, hgone⟩ := h₁
  cases deleted with
  | none => exact ensures_pure ha
  | some node =>
    refine ensures_hasRegistry_bind ?_
    rw [ha.registered]
    have withdrawn : Ensures w₁ (consult (.withdraw node key)) (fun _ w' => Accounted B G none w')
        fun _ w' => Accounted B G none w' := by
      have gone : ∀ {w' : Cluster ν ρ}, w'.nodes = w₁.nodes → (B.recordsOn w' node).contains key = false := fun hn => by
        unfold Store.Backing.recordsOn
        rw [hn]
        exact hgone node rfl
      exact (withdraw_accounted ha).mono (fun _ _ hw => hw.1.gone (gone hw.2)) fun _ _ hw => hw.1.gone (gone hw.2)
    exact withdrawn.bind fun _ _ hw => ensures_pure hw

end Placement.Cluster

namespace Placement.Coordinator

open Cluster (Accounted)

variable {ν ρ : Type} [Store ν] [Registry ρ] {B : Store.Backing ν Store.Call.takesBack} {G : Registry.Guarded ρ}

/-! ## Runs -/

/-- One request, whatever comes of it. -/
theorem after_accounted (how : Selection) (q : Request) {w : Cluster ν ρ} (h : Accounted B G none w) :
    Accounted B G none (q.after how w) := by
  have hP := Cluster.permits_accounted B G none
  have hl : ∀ call : Store.Call, call.looks = true → ∀ key fields, call ≠ .write key fields :=
    fun _ => Cluster.ne_write_of_looks
  have located := hP.readLocated hl (fun _ _ _ => by simp) fun _ _ _ => by simp
  cases q with
  | insert key fields => exact (Cluster.insert_accounted how key fields h).left
  | read key names into => exact (Cluster.accounted_of_within (hP.read hl located key names) h).left
  | update key fields => exact (Cluster.update_accounted key fields h).left
  | delete key => exact (Cluster.delete_accounted key h).left
  | scan start count names into => exact (Cluster.accounted_of_within (hP.scan hl located start count names) h).left
  | recordCounts =>
    have counted := hP.bind (hP.counts (hl _ rfl)) fun counted => hP.lift counted.toExcept
    exact (Cluster.accounted_of_within counted h).left
  | flush thenClose =>
    have flushed := hP.flushAll (by simp) thenClose (by simp)
    exact (Cluster.accounted_of_within flushed h).left
  | cleanup =>
    have closed := cleanup_of_closed hP.toClosed (by simp) (by simp)
    exact (Cluster.accounted_of_within closed h).left

structure Unused (B : Store.Backing ν Store.Call.takesBack) (c : Coordinator ν ρ) : Prop where
  registered : c.cluster.registry.isSome = true
  norecord : ∀ node, B.recordsOn c.cluster node = Dict.empty

/-- Nodes come within reach or get out of it, faults come and go; records and placements stay. -/
structure Drift (B : Store.Backing ν Store.Call.takesBack) (G : Registry.Guarded ρ) (c c' : Coordinator ν ρ) :
    Prop where
  registered : c'.cluster.registry.isSome = c.cluster.registry.isSome
  records : B.recordsOn c'.cluster = B.recordsOn c.cluster
  owns : G.owns c'.cluster = G.owns c.cluster

theorem reached_accounted {c : Coordinator ν ρ} (h : Reached (Unused B) (Drift B G) c) :
    Accounted B G none c.cluster := by
  induction h with
  | start h => exact ⟨h.registered, fun node key hc => by simp [h.norecord] at hc⟩
  | serve q _ ih =>
    rw [serve_eq]
    exact after_accounted _ q ih
  | move _ hm ih =>
    refine ⟨hm.registered.trans ih.registered, ?_⟩
    intro node key hc
    rw [hm.records] at hc
    rw [hm.owns]
    exact ih.owned node key hc

/-- Whatever fails and in whatever order, a node that holds a record of a key is where the registry has the key;
so no two nodes hold records of one key. -/
theorem records_in_custody {c : Coordinator ν ρ} (h : Reached (Unused B) (Drift B G) c) :
    (∀ node key, (B.recordsOn c.cluster node).contains key = true → G.owns c.cluster node key = true) ∧
      ∀ node node' key, (B.recordsOn c.cluster node).contains key = true →
        (B.recordsOn c.cluster node').contains key = true → node = node' := by
  have ha := reached_accounted h
  exact ⟨fun _ _ hc => ha.owns hc, fun _ _ _ hc hc' => G.owns_unique (ha.owns hc) (ha.owns hc')⟩

/-- The first node fails to index and the registry fails to withdraw; then the second node gets the key, and a
third insert is declined. -/
def lapsing : Coordinator Drill.LapsingNode Drill.LapsingRegistry where
  cluster :=
    { nodes := Dict.ofList [("a", { lapses := [false, true] }), ("b", {})]
      registry := some { lapses := [none, some .after] }
      draws := [0, 1, 0] }

def lapsed : Coordinator Drill.LapsingNode Drill.LapsingRegistry :=
  let insert (name : String) c := (serve (.insert "k" (Dict.ofList [(name, "v")])) c).2
  insert "g" (insert "f" (insert "f" lapsing))

theorem lapsed_in_custody :
    (Drill.LapsingNode.backing.recordsOn lapsed.cluster "b").contains "k" = true ∧
      Drill.LapsingRegistry.guards.owns lapsed.cluster "b" "k" = true := by
  have hstart : Unused Drill.LapsingNode.backing lapsing := by
    refine ⟨rfl, ?_⟩
    intro node
    by_cases ha : "a" = node <;> by_cases hb : "b" = node <;>
      simp [Store.Backing.recordsOn, lapsing, Dict.ofList, Dict.get?_insert, ha, hb, Drill.LapsingNode.backing]
  have hreached : Reached (Unused Drill.LapsingNode.backing)
      (Drift Drill.LapsingNode.backing Drill.LapsingRegistry.guards) lapsed :=
    .serve _ (.serve _ (.serve _ (.start hstart)))
  exact ⟨by decide, (records_in_custody hreached).1 "b" "k" (by decide)⟩

end Placement.Coordinator
