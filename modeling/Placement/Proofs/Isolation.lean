import Mathlib.Data.List.Basic
import Placement.Proofs.Views

/-!
Fan-outs: every node on its own.

A task of a fan-out asks its own node and nothing else (`Local`). So it comes to the same whatever other nodes there
are, and `alone` says what: the task run on a cluster that has no other node. A fan-out is `Complete` if every task
ran once and came to that, with each node's result or failure on record.

- `collect_alone`: any number of different nodes, one after another.
- `Complete.partition`, `Complete.ascending`: every node is on record once, and failures stand in ascending order.
- `fan_outs_complete`: counting, flushing and closing, and what is reported of their failures.
-/

namespace Placement

namespace FanOut

variable {α : Type}

def failureOf (node : NodeId) : Except Fault α → Option (NodeId × Fault)
  | .ok _ => none
  | .error fault => some (node, fault)

def recordAll (outcome : NodeId → Except Fault α) (f : FanOut α) (nodes : List NodeId) : FanOut α :=
  nodes.foldl (fun f node => f.record node (outcome node)) f

variable {outcome : NodeId → Except Fault α} {f : FanOut α} {nodes : List NodeId}

theorem failures_recordAll : (f.recordAll outcome nodes).failures =
    f.failures ++ nodes.filterMap fun node => failureOf node (outcome node) := by
  induction nodes generalizing f with
  | nil => simp [recordAll]
  | cons node rest ih =>
    have hrest : (f.recordAll outcome (node :: rest)).failures =
        (f.record node (outcome node)).failures ++ rest.filterMap fun node => failureOf node (outcome node) := ih
    rw [hrest]
    cases ho : outcome node with
    | ok a => simp [record, failureOf, ho]
    | error fault => simp [record, failureOf, ho]

theorem results_recordAll (node : NodeId) : (f.recordAll outcome nodes).results.get? node =
    if node ∈ nodes then (outcome node).toOption.or (f.results.get? node) else f.results.get? node := by
  induction nodes generalizing f with
  | nil => simp [recordAll]
  | cons first rest ih =>
    have hrest : (f.recordAll outcome (first :: rest)).results.get? node =
        if node ∈ rest then (outcome node).toOption.or ((f.record first (outcome first)).results.get? node)
        else (f.record first (outcome first)).results.get? node := ih
    rw [hrest]
    by_cases he : first = node
    · subst he
      cases outcome first <;> simp [record, Except.toOption]
    · have hother : (f.record first (outcome first)).results.get? node = f.results.get? node := by
        cases outcome first <;> simp [record, Dict.get?_insert, he]
      simp [hother, Ne.symm he]

end FanOut

namespace Cluster

variable {ν ρ α β : Type} {w w' : Cluster ν ρ} {node : NodeId}

/-! ## Tasks that need one node -/

def only (w : Cluster ν ρ) (node : NodeId) : Cluster ν ρ := { nodes := w.nodes.restrict [node] }

def alone (task : NodeId → Op ν ρ α) (w : Cluster ν ρ) (node : NodeId) : Except Fault α × Cluster ν ρ :=
  run (task node) (w.only node)

/-- Nothing but the state of its node decides what the program does, and it changes nothing else. -/
def Local (node : NodeId) (op : Op ν ρ α) : Prop :=
  ∃ act : ν → Except Fault α × ν × List Event, ∀ w state, w.nodes.get? node = some state →
    run op w = ((act state).1,
      { w with nodes := w.nodes.insert node (act state).2.1, trace := w.trace ++ (act state).2.2 })

theorem local_pure (node : NodeId) (a : α) : Local node (pure a : Op ν ρ α) := by
  refine ⟨fun state => (.ok a, state, []), ?_⟩
  intro w state hn
  show (Except.ok a, w) = _
  simp [Dict.insert_of_get? hn]

theorem local_ask [Store ν] (node : NodeId) (call : Store.Call) : Local node (ask node call : Op ν ρ call.Answer) := by
  refine ⟨fun state => ((Store.perform call state).1, (Store.perform call state).2,
    [.asked node call (Store.perform call state).1]), ?_⟩
  intro w state hn
  exact run_ask hn call

theorem Local.bind {op : Op ν ρ α} {f : α → Op ν ρ β} (h : Local node op) (hf : ∀ a, Local node (f a)) :
    Local node (op >>= f) := by
  obtain ⟨act, hact⟩ := h
  refine ⟨fun state => match act state with
    | (.ok a, state', events) =>
      (((hf a).choose state').1, ((hf a).choose state').2.1, events ++ ((hf a).choose state').2.2)
    | (.error fault, state', events) => (.error fault, state', events), ?_⟩
  intro w state hn
  rw [run_bind, hact w state hn]
  rcases hs : act state with ⟨fault | a, state', events⟩
  · simp only [hs]
  · simp only [hs]
    rw [(hf a).choose_spec _ state' (Dict.get?_insert_self ..)]
    simp [Dict.insert_insert]

theorem only_congr (h : w'.nodes.get? node = w.nodes.get? node) : w'.only node = w.only node := by
  have hsame : w'.nodes.restrict [node] = w.nodes.restrict [node] := by
    refine Dict.ext_get? fun other => ?_
    rw [Dict.get?_restrict, Dict.get?_restrict]
    by_cases ho : other = node
    · simp [ho, h]
    · simp [ho]
  rw [only, only, hsame]

/-- Beside other nodes a local task does what it does alone. -/
theorem Local.run_eq {task : NodeId → Op ν ρ α} (h : Local node (task node)) (hn : node ∈ w.ids) :
    ∃ state, (alone task w node).2.nodes.get? node = some state ∧
      run (task node) w = ((alone task w node).1,
        { w with nodes := w.nodes.insert node state, trace := w.trace ++ (alone task w node).2.trace }) := by
  obtain ⟨act, hact⟩ := h
  obtain ⟨state, hs⟩ := Dict.contains_iff.1 (Dict.mem_keys.1 hn)
  have honly : (w.only node).nodes.get? node = some state := by simp [only, Dict.get?_restrict, hs]
  refine ⟨(act state).2.1, ?_, ?_⟩
  · rw [alone, hact _ state honly]
    exact Dict.get?_insert_self ..
  · rw [alone, hact _ state honly, hact w state hs]
    rfl

/-! ## Many nodes -/

theorem run_attempt (op : Op ν ρ α) (w : Cluster ν ρ) : run (attempt op) w = (.ok (run op w).1, (run op w).2) := rfl

/-- Whatever nodes are listed, each is left as its task alone leaves it, and every task runs once. -/
theorem collect_alone {task : NodeId → Op ν ρ α} (h : ∀ node, Local node (task node)) (gathered : FanOut α)
    {listed : List NodeId} (hd : listed.Nodup) (hk : ∀ node ∈ listed, node ∈ w.ids) :
    ∃ nodes, run (FanOut.collect task gathered listed) w =
        (.ok (gathered.recordAll (fun node => (alone task w node).1) listed),
          { w with nodes, trace := w.trace ++ listed.flatMap fun node => (alone task w node).2.trace }) ∧
      nodes.keys = w.ids ∧
      ∀ node, nodes.get? node =
        if node ∈ listed then (alone task w node).2.nodes.get? node else w.nodes.get? node := by
  induction listed generalizing gathered w with
  | nil => exact ⟨w.nodes, by simp [FanOut.collect, FanOut.recordAll]; rfl, rfl, by simp⟩
  | cons node rest ih =>
    obtain ⟨hnew, hd⟩ := List.nodup_cons.1 hd
    have hn := hk node List.mem_cons_self
    obtain ⟨state, hstate, hrun⟩ := (h node).run_eq hn
    let w₁ : Cluster ν ρ :=
      { w with nodes := w.nodes.insert node state, trace := w.trace ++ (alone task w node).2.trace }
    have hids : w₁.ids = w.ids := Dict.keys_insert (Dict.mem_keys.1 hn) state
    -- the other nodes are as they were, and so is what their tasks come to alone
    have hother : ∀ other ∈ rest, alone task w₁ other = alone task w other := by
      intro other ho
      have hne : node ≠ other := fun he => hnew (by rwa [he])
      have hget : w₁.nodes.get? other = w.nodes.get? other := by simp [w₁, Dict.get?_insert, hne]
      rw [alone, alone, only_congr hget]
    -- the first task runs, then the others on what it leaves
    have hstep : run (FanOut.collect task gathered (node :: rest)) w =
        run (FanOut.collect task (gathered.record node (alone task w node).1) rest) w₁ := by
      show run (attempt (task node) >>= _) w = _
      rw [run_bind, run_attempt, hrun]
    obtain ⟨nodes, hrest, hkeys, hget⟩ := ih (w := w₁) (gathered.record node (alone task w node).1) hd
      fun other ho => hids ▸ hk other (List.mem_cons_of_mem _ ho)
    refine ⟨nodes, ?_, hkeys.trans hids, fun other => ?_⟩
    · have hrecord : (gathered.record node (alone task w node).1).recordAll (fun node => (alone task w₁ node).1) rest =
          gathered.recordAll (fun node => (alone task w node).1) (node :: rest) :=
        List.foldl_ext _ _ _ fun f other ho => congrArg (fun o => f.record other o.1) (hother other ho)
      have htrace : rest.flatMap (fun node => (alone task w₁ node).2.trace) =
          rest.flatMap fun node => (alone task w node).2.trace :=
        List.flatMap_congr fun other ho => by rw [hother other ho]
      rw [hstep, hrest, hrecord, htrace]
      simp [w₁]
    · rw [hget]
      by_cases he : node = other
      · subst he
        simp [hnew, hstate, w₁]
      · by_cases ho : other ∈ rest
        · simp [ho, hother other ho]
        · simp [ho, Ne.symm he, w₁, Dict.get?_insert, he]

/-- Every task ran once and came to what it comes to alone, and each node's result or failure is on record. -/
structure Complete (task : NodeId → Op ν ρ α) (w : Cluster ν ρ) (f : FanOut α) (w' : Cluster ν ρ) : Prop where
  ids : w'.ids = w.ids
  registry : w'.registry = w.registry
  states : ∀ node ∈ w.ids, w'.nodes.get? node = (alone task w node).2.nodes.get? node
  /-- The calls made are those of one run of each task. -/
  trace : w'.trace = w.trace ++ w.ids.flatMap fun node => (alone task w node).2.trace
  results : ∀ node, f.results.get? node = if node ∈ w.ids then (alone task w node).1.toOption else none
  failures : f.failures = w.ids.filterMap fun node => FanOut.failureOf node (alone task w node).1

theorem onEveryNode_complete {task : NodeId → Op ν ρ α} (h : ∀ node, Local node (task node)) (w : Cluster ν ρ) :
    ∃ f w', run (onEveryNode task) w = (.ok f, w') ∧ Complete task w f w' := by
  obtain ⟨nodes, hrun, hkeys, hget⟩ := collect_alone h {} w.nodes.keys_nodup fun node hn => hn
  refine ⟨_, _, hrun, hkeys, rfl, fun node hn => ?_, rfl, fun node => ?_, ?_⟩
  · exact (hget node).trans (if_pos hn)
  · rw [FanOut.results_recordAll, Dict.get?_empty, Option.or_none]
    rfl
  · rw [FanOut.failures_recordAll]
    rfl

namespace Complete

variable {task : NodeId → Op ν ρ α} {f : FanOut α}

theorem mem_failures (h : Complete task w f w') {fault : Fault} :
    (node, fault) ∈ f.failures ↔ node ∈ w.ids ∧ (alone task w node).1 = .error fault := by
  rw [h.failures, List.mem_filterMap]
  constructor
  · rintro ⟨other, ho, hf⟩
    cases hout : (alone task w other).1 with
    | ok a => simp [FanOut.failureOf, hout] at hf
    | error fault' =>
      simp only [FanOut.failureOf, hout, Option.some.injEq, Prod.mk.injEq] at hf
      obtain ⟨rfl, rfl⟩ := hf
      exact ⟨ho, hout⟩
  · rintro ⟨hn, hout⟩
    exact ⟨node, hn, by simp [FanOut.failureOf, hout]⟩

theorem mem_results (h : Complete task w f w') :
    node ∈ f.results.keys ↔ node ∈ w.ids ∧ ∃ a, (alone task w node).1 = .ok a := by
  rw [Dict.mem_keys, Dict.contains_iff]
  simp only [h.results]
  by_cases hn : node ∈ w.ids
  · cases (alone task w node).1 <;> simp [hn, Except.toOption]
  · simp [hn]

theorem mem_failed (h : Complete task w f w') :
    node ∈ f.failures.map (·.1) ↔ node ∈ w.ids ∧ ∃ fault, (alone task w node).1 = .error fault := by
  simp only [List.mem_map, Prod.exists, exists_and_right, exists_eq_right, h.mem_failures, exists_and_left]

/-- Failures stand in ascending order of their nodes, one for each node that failed. -/
theorem ascending (h : Complete task w f w') : (f.failures.map (·.1)).Pairwise (· < ·) := by
  have hsub : (f.failures.map (·.1)).Sublist w.ids := by
    rw [h.failures]
    generalize w.ids = ids
    induction ids with
    | nil => exact List.Sublist.refl _
    | cons node rest ih =>
      cases hout : (alone task w node).1 with
      | ok a => simpa [FanOut.failureOf, hout] using ih.cons node
      | error fault => simpa [FanOut.failureOf, hout] using ih
  exact w.nodes.keys_ascending.sublist hsub

/-- Every node is on record once, with a result or with a failure. -/
theorem partition (h : Complete task w f w') : (f.results.keys ++ f.failures.map (·.1)).Perm w.ids := by
  have hfailed : (f.failures.map (·.1)).Nodup := by
    refine h.ascending.imp fun {a b} (hlt : a < b) (he : a = b) => ?_
    subst he
    exact String.lt_irrefl a hlt
  have hapart : ∀ node ∈ f.results.keys, ∀ failed ∈ f.failures.map (·.1), node ≠ failed := by
    rintro node hr _ hf rfl
    obtain ⟨-, a, ha⟩ := h.mem_results.1 hr
    obtain ⟨-, fault, hfault⟩ := h.mem_failed.1 hf
    rw [ha] at hfault
    cases hfault
  refine (List.perm_ext_iff_of_nodup ?_ w.nodes.keys_nodup).2 fun node => ?_
  · exact List.nodup_append.2 ⟨f.results.keys_nodup, hfailed, hapart⟩
  · rw [List.mem_append, h.mem_results, h.mem_failed]
    cases (alone task w node).1 <;> simp [Cluster.ids]

end Complete

/-- What a fan-out reports: every node is on record once, failures in ascending order, and the outcome is the aggregate
of just these failures, or a success if there are none. -/
structure Reported (ids : List NodeId) (f : FanOut α) (outcome : Except Fault β) : Prop where
  partition : (f.results.keys ++ f.failures.map (·.1)).Perm ids
  ascending : (f.failures.map (·.1)).Pairwise (· < ·)
  ok_iff : (∃ b, outcome = .ok b) ↔ f.failures = []
  aggregate : ∀ fault, outcome = .error fault → ∃ causes, fault = .aggregate causes ∧ causes.toList = f.failures

theorem Complete.reported {task : NodeId → Op ν ρ α} {f : FanOut α} (h : Complete task w f w') (g : Dict α → β) :
    Reported w.ids f (f.toExcept.map g) := by
  have houtcome : f.toExcept = Fault.outcome f.failures f.results := rfl
  refine ⟨h.partition, h.ascending, ?_, fun fault hfault => ?_⟩
  · have hok : (∃ b, f.toExcept.map g = .ok b) ↔ ¬ ∃ fault, f.toExcept = .error fault := by
      cases f.toExcept <;> simp [Except.map]
    rw [hok, houtcome, Fault.outcome_fails, not_not]
  · rw [houtcome] at hfault
    cases ho : Fault.outcome f.failures f.results with
    | ok results =>
      rw [ho] at hfault
      cases hfault
    | error fault' =>
      rw [ho] at hfault
      cases hfault
      exact Fault.outcome_eq_error.1 ho

theorem run_lift (outcome : Except Fault α) (w : Cluster ν ρ) : run (liftM outcome) w = (outcome, w) := by
  cases outcome <;> rfl

/-- A fan-out of which only the failures count. -/
theorem run_toExcept {op : Op ν ρ (FanOut α)} {f : FanOut α} (h : run op w = (.ok f, w')) :
    run (do let _ ← ((← op).toExcept : Op ν ρ (Dict α))) w = (f.toExcept.map fun _ => (), w') := by
  show run (op >>= fun gathered => liftM gathered.toExcept >>= fun _ => pure ()) w = _
  rw [run_bind, h]
  dsimp only
  rw [run_bind, run_lift]
  cases f.toExcept <;> rfl

/-! ## Flushing -/

section Flushing

variable [Store ν] {spared : Store.Call → Prop}

theorem local_flushNode (thenClose : Bool) (node : NodeId) : Local node (flushNode thenClose node : Op ν ρ Unit) := by
  refine (local_ask node .flush).bind fun _ => ?_
  cases thenClose with
  | false => exact local_pure node ()
  | true => exact local_ask node .close

def emptied (thenClose : Bool) (m : Store.Memory) : Store.Memory :=
  { m with records := Dict.empty, index := Dict.empty, closed := m.closed || thenClose }

/-- What flushing makes of a node with a memory, as far as the node does not fail. -/
structure FlushLeaves (B : Store.Backing ν spared) (thenClose : Bool) (node : NodeId) (state state' : ν)
    (f : FanOut Unit) : Prop where
  /-- A node that fails to be emptied is left as it was, and named. -/
  unflushed : ∀ fault, (Store.perform .flush state).1 = .error fault →
    B.memory state' = B.memory state ∧ (node, fault) ∈ f.failures
  /-- A node that then fails to be closed is emptied, and named. -/
  unclosed : ∀ fault, (Store.perform .flush state).1 = .ok () → thenClose = true →
    (Store.perform .close (Store.perform .flush state).2).1 = .error fault →
      B.memory state' = emptied false (B.memory state) ∧ (node, fault) ∈ f.failures
  /-- Any other is emptied and, if wanted, closed. -/
  done : (Store.perform .flush state).1 = .ok () →
    (thenClose = true → (Store.perform .close (Store.perform .flush state).2).1 = .ok ()) →
      B.memory state' = emptied thenClose (B.memory state) ∧ node ∈ f.results.keys

/-- A node is left in one of three ways. -/
theorem flushNode_leaves (B : Store.Backing ν spared) (thenClose : Bool) {state : ν}
    (hn : w.nodes.get? node = some state) :
    Ensures w (flushNode thenClose node)
      (fun _ w' => ∃ state', w'.nodes.get? node = some state' ∧ (Store.perform .flush state).1 = .ok () ∧
        (thenClose = true → (Store.perform .close (Store.perform .flush state).2).1 = .ok ()) ∧
        B.memory state' = emptied thenClose (B.memory state))
      fun fault w' => ∃ state', w'.nodes.get? node = some state' ∧
        ((Store.perform .flush state).1 = .error fault ∧ B.memory state' = B.memory state ∨
          (Store.perform .flush state).1 = .ok () ∧ thenClose = true ∧
            (Store.perform .close (Store.perform .flush state).2).1 = .error fault ∧
            B.memory state' = emptied false (B.memory state)) := by
  rcases hflush : Store.perform .flush state with ⟨fault | _, flushed⟩
  · have hr : run (flushNode thenClose node) w = (.error fault, w.answered node .flush (.error fault) flushed) := by
      unfold flushNode
      rw [run_bind, run_ask hn, hflush]
    rw [Ensures, hr]
    exact ⟨flushed, Dict.get?_insert_self .., .inl ⟨rfl, B.error hflush⟩⟩
  · have hr : run (flushNode thenClose node) w =
        run (if thenClose then ask node .close else pure ()) (w.answered node .flush (.ok ()) flushed) := by
      unfold flushNode
      rw [run_bind, run_ask hn, hflush]
    have hm : B.memory flushed = emptied false (B.memory state) := by
      rw [(B.ok hflush).2.2, emptied, Bool.or_false]
      rfl
    have hn₁ : (w.answered node .flush (.ok ()) flushed).nodes.get? node = some flushed := Dict.get?_insert_self ..
    rw [Ensures, hr]
    cases thenClose with
    | false => exact ⟨flushed, hn₁, rfl, by simp, hm⟩
    | true =>
      rw [if_pos rfl, run_ask hn₁]
      rcases hclose : Store.perform .close flushed with ⟨fault | _, closed⟩
      · refine ⟨closed, Dict.get?_insert_self .., .inr ⟨rfl, rfl, rfl, ?_⟩⟩
        rw [B.error hclose, hm]
      · refine ⟨closed, Dict.get?_insert_self .., rfl, fun _ => rfl, ?_⟩
        rw [(B.ok hclose).2.2, hm, emptied, emptied, Bool.or_true]
        rfl

theorem Complete.flushLeaves {thenClose : Bool} {f : FanOut Unit} (h : Complete (flushNode thenClose) w f w')
    (B : Store.Backing ν spared) {state : ν} (hn : w.nodes.get? node = some state) :
    ∃ state', w'.nodes.get? node = some state' ∧ FlushLeaves B thenClose node state state' f := by
  have hmem : node ∈ w.ids := Dict.mem_keys.2 (Dict.contains_iff.2 ⟨state, hn⟩)
  have honly : (w.only node).nodes.get? node = some state := by simp [only, Dict.get?_restrict, hn]
  -- what the node comes to among the others is what it comes to alone
  have hleaves := flushNode_leaves B thenClose honly
  rcases halone : alone (flushNode thenClose) w node with ⟨fault | _, w₁⟩
  · obtain ⟨state', hstate, hwhy⟩ := hleaves.error halone
    have hnamed : (node, fault) ∈ f.failures := h.mem_failures.2 ⟨hmem, by rw [halone]⟩
    refine ⟨state', by rw [h.states node hmem, halone, hstate], ?_⟩
    rcases hwhy with ⟨hflush, hm⟩ | ⟨hflush, hthen, hclose, hm⟩
    · refine ⟨fun fault' hf => ?_, fun _ hf => ?_, fun hf => ?_⟩
      · rw [hflush] at hf
        cases hf
        exact ⟨hm, hnamed⟩
      · rw [hflush] at hf
        cases hf
      · rw [hflush] at hf
        cases hf
    · refine ⟨fun _ hf => ?_, fun fault' _ _ hf => ?_, fun _ hf => ?_⟩
      · rw [hflush] at hf
        cases hf
      · rw [hclose] at hf
        cases hf
        exact ⟨hm, hnamed⟩
      · rw [hclose] at hf
        cases hf hthen
  · obtain ⟨state', hstate, hflush, hclose, hm⟩ := hleaves.ok halone
    refine ⟨state', by rw [h.states node hmem, halone, hstate], ?_, ?_, ?_⟩
    · intro fault hf
      rw [hflush] at hf
      cases hf
    · intro fault _ hthen hf
      rw [hclose hthen] at hf
      cases hf
    · intro _ _
      exact ⟨hm, h.mem_results.2 ⟨hmem, (), by rw [halone]⟩⟩

end Flushing

/-- Counting, flushing and closing run on every node, each as if there were no other node, and all failures are
reported and nothing else. A node with a memory that is flushed is left as it was and named if it cannot be emptied,
emptied and named if it cannot then be closed, and emptied and closed otherwise. -/
theorem fan_outs_complete [Store ν] (w : Cluster ν ρ) (thenClose : Bool) :
    (∃ f w', run counts w = (.ok f, w') ∧ Complete (fun node => ask node .count) w f w' ∧
      Reported w.ids f f.toExcept) ∧
    (∃ f outcome w', run (flushAll thenClose) w = (outcome, w') ∧ Complete (flushNode thenClose) w f w' ∧
      Reported w.ids f outcome ∧
      ∀ (B : Store.Backing ν fun _ => False) node state, w.nodes.get? node = some state →
        ∃ state', w'.nodes.get? node = some state' ∧ FlushLeaves B thenClose node state state' f) ∧
    ∃ f outcome w', run closeAll w = (outcome, w') ∧ Complete (fun node => ask node .close) w f w' ∧
      Reported w.ids f outcome := by
  refine ⟨?_, ?_, ?_⟩
  · obtain ⟨f, w', hrun, hf⟩ := onEveryNode_complete (fun node => local_ask node .count) w
    refine ⟨f, w', hrun, hf, ?_⟩
    simpa [Except.map_id] using hf.reported id
  · obtain ⟨f, w', hrun, hf⟩ := onEveryNode_complete (local_flushNode thenClose) w
    exact ⟨f, _, w', run_toExcept hrun, hf, hf.reported _, fun B _ _ hn => hf.flushLeaves B hn⟩
  · obtain ⟨f, w', hrun, hf⟩ := onEveryNode_complete (fun node => local_ask node .close) w
    exact ⟨f, _, w', run_toExcept hrun, hf, hf.reported _⟩

end Cluster

end Placement
