import Placement.Proofs.Isolation

/-!
What the steps of an operation come to on memories that can be used, beside a registry that is reliable.
-/

namespace Placement.Cluster

open Registry (Reliable)

variable {ν ρ : Type}

def memory (w : Cluster Store.Memory ρ) (node : NodeId) : Store.Memory := (w.nodes.get? node).getD {}

def Usable (w : Cluster Store.Memory ρ) : Prop := ∀ node, (w.memory node).obstacle = none

variable {w w' w'' : Cluster Store.Memory ρ} {node : NodeId} {m : Store.Memory}

theorem get?_memory (h : node ∈ w.ids) : w.nodes.get? node = some (w.memory node) := by
  obtain ⟨m, hm⟩ := Dict.contains_iff.1 (Dict.mem_keys.1 h)
  rw [memory, hm]
  rfl

theorem memory_of_unknown (h : node ∉ w.ids) : w.memory node = {} := by
  have hn : w.nodes.get? node = none := by
    cases hn : w.nodes.get? node with
    | none => rfl
    | some m => exact absurd (Dict.mem_keys.2 (Dict.contains_iff.2 ⟨m, hn⟩)) h
  rw [memory, hn]
  rfl

theorem usable_of_ids (h : ∀ node ∈ w.ids, (w.memory node).obstacle = none) : Usable w := by
  intro node
  by_cases hn : node ∈ w.ids
  · exact h node hn
  · rw [memory_of_unknown hn]
    rfl

/-- Only nodes of the cluster hold records. -/
theorem mem_ids_of_held {key : String} (h : (w.memory node).records.contains key = true) : node ∈ w.ids := by
  by_contra hn
  rw [memory_of_unknown hn] at h
  cases h

theorem memory_of_get? (h : w.nodes.get? node = some m) : w.memory node = m := by
  rw [memory, h]
  rfl

theorem memory_of_nodes (h : w'.nodes = w.nodes) : w'.memory = w.memory := by
  funext node
  rw [memory, memory, h]

theorem memory_of_insert (h : w'.nodes = w.nodes.insert node m) (other : NodeId) :
    w'.memory other = if node = other then m else w.memory other := by
  rw [memory, h, Dict.get?_insert]
  split <;> rfl

theorem memory_answered {call : Store.Call} (answer : Except Fault call.Answer) (other : NodeId) :
    (w.answered node call answer m).memory other = if node = other then m else w.memory other :=
  memory_of_insert rfl other

/-- A node that is there is no new name. -/
theorem ids_of_insert (h : w'.nodes = w.nodes.insert node m) (hn : node ∈ w.ids) : w'.ids = w.ids := by
  rw [ids, h, Dict.keys_insert (Dict.mem_keys.1 hn), ids]

def Intact (w w' : Cluster Store.Memory ρ) : Prop := w'.nodes = w.nodes ∧ w'.registry = w.registry

namespace Intact

theorem refl (w : Cluster Store.Memory ρ) : Intact w w := ⟨rfl, rfl⟩

theorem trans (h : Intact w w') (h' : Intact w' w'') : Intact w w'' := ⟨h'.1.trans h.1, h'.2.trans h.2⟩

theorem memory (h : Intact w w') : w'.memory = w.memory := memory_of_nodes h.1

theorem ids (h : Intact w w') : w'.ids = w.ids := congrArg Dict.keys h.1

theorem usable (h : Intact w w') (hu : Usable w) : Usable w' := fun node => by
  rw [h.memory]
  exact hu node

end Intact

/-- The node has answered the call as its memory serves it, and nothing else has changed. -/
structure Served (node : NodeId) (call : Store.Call) (w : Cluster Store.Memory ρ) (answer : call.Answer)
    (w' : Cluster Store.Memory ρ) : Prop where
  member : node ∈ w.ids
  usable : (w.memory node).obstacle = none
  answer : answer = (Store.Memory.serve call (w.memory node)).1
  nodes : w'.nodes = w.nodes.insert node (Store.Memory.serve call (w.memory node)).2
  registry : w'.registry = w.registry

namespace Served

variable {call : Store.Call} {answer : call.Answer}

theorem memory (h : Served node call w answer w') (other : NodeId) :
    w'.memory other = if node = other then (Store.Memory.serve call (w.memory node)).2 else w.memory other :=
  memory_of_insert h.nodes other

theorem ids (h : Served node call w answer w') : w'.ids = w.ids := ids_of_insert h.nodes h.member

end Served

/-- A call is served, or it fails and nothing has changed; on a usable node it does not fail. -/
theorem ask_served {call : Store.Call} (hc : call ≠ .close) (w : Cluster Store.Memory ρ) (node : NodeId) :
    Ensures w (ask node call) (Served node call w)
      fun _ w' => Intact w w' ∧ (node ∈ w.ids → (w.memory node).obstacle ≠ none) := by
  refine ensures_ask (fun m a m' hn hp => ?_) (fun m fault m' hn hp => ⟨⟨?_, rfl⟩, fun _ hu => ?_⟩) fun hn => ?_
  · obtain ⟨hu, ha, hm⟩ := Store.Memory.perform_ok hp
    obtain rfl := memory_of_get? hn
    exact ⟨Dict.mem_keys.2 (Dict.contains_iff.2 ⟨_, hn⟩), hu hc, ha, by rw [hm]; rfl, rfl⟩
  · show w.nodes.insert node m' = w.nodes
    rw [Store.Memory.perform_error hp, Dict.insert_of_get? hn]
  · rw [memory_of_get? hn] at hu
    have hserved := Store.Memory.perform_of_usable hu call
    rw [show Store.Memory.perform _ _ = _ from hp] at hserved
    cases hserved
  · refine ⟨⟨rfl, rfl⟩, fun hmem => ?_⟩
    rw [get?_memory hmem] at hn
    cases hn

/-- A usable node answers what its memory serves. -/
theorem ask_serves (call : Store.Call) (hn : w.nodes.get? node = some m) (hu : m.obstacle = none) :
    Ensures w (ask node call)
      (fun a w' => a = (Store.Memory.serve call m).1 ∧ w'.nodes = w.nodes.insert node (Store.Memory.serve call m).2 ∧
        w'.registry = w.registry)
      fun _ _ => False := by
  have hp := Store.Memory.perform_of_usable hu call
  rw [Ensures, run_ask hn, show Store.perform call m = _ from hp]
  exact ⟨rfl, rfl, rfl⟩

/-- A node that cannot be used says why. -/
theorem ask_refused {call : Store.Call} (hc : call ≠ .close) (hn : w.nodes.get? node = some m) {cause : LinkFault}
    (ho : m.obstacle = some cause) :
    Ensures w (ask node call) (fun _ _ => False) fun fault w' => fault = .connection cause ∧ Intact w w' := by
  have hp := Store.Memory.perform_of_obstacle ho hc
  rw [Ensures, run_ask hn, show Store.perform call m = _ from hp]
  exact ⟨rfl, Dict.insert_of_get? hn, rfl⟩

/-! ## Fan-outs -/

/-- A task that needs its own node only, changes it by `g` and does not fail, changes every node by `g` and fails on
none. -/
theorem onEveryNode_serves {α : Type} {task : NodeId → Op Store.Memory ρ α} {g : Store.Memory → Store.Memory}
    (hl : ∀ node, Local node (task node))
    (h : ∀ w node m, w.nodes.get? node = some m → m.obstacle = none →
      Ensures w (task node) (fun _ w' => w'.nodes = w.nodes.insert node (g m) ∧ w'.registry = w.registry)
        fun _ _ => False)
    (hu : Usable w) :
    Ensures w (onEveryNode task)
      (fun f w' => f.failures = [] ∧ (∀ node ∈ w.ids, f.results.contains node = true) ∧ w'.ids = w.ids ∧
        w'.registry = w.registry ∧ ∀ node, w'.memory node = if node ∈ w.ids then g (w.memory node) else w.memory node)
      fun _ _ => False := by
  have halone : ∀ node ∈ w.ids, (∃ a, (alone task w node).1 = .ok a) ∧
      (alone task w node).2.nodes.get? node = some (g (w.memory node)) := by
    intro node hn
    have honly : (w.only node).nodes.get? node = some (w.memory node) := by
      simp [only, Dict.get?_restrict, get?_memory hn]
    have hserved := h _ node _ honly (hu node)
    rcases hr : alone task w node with ⟨fault | a, w₁⟩
    · exact (hserved.error hr).elim
    · refine ⟨⟨a, rfl⟩, ?_⟩
      rw [(hserved.ok hr).1, Dict.get?_insert_self]
  obtain ⟨f, w', hrun, hf⟩ := onEveryNode_complete hl w
  rw [Ensures, hrun]
  refine ⟨List.eq_nil_iff_forall_not_mem.2 fun e he => ?_, fun node hn => ?_, hf.ids, hf.registry, fun node => ?_⟩
  · obtain ⟨hn, hfault⟩ := hf.mem_failures.1 he
    obtain ⟨⟨a, ha⟩, -⟩ := halone e.1 hn
    rw [ha] at hfault
    cases hfault
  · exact Dict.mem_keys.1 (hf.mem_results.2 ⟨hn, (halone node hn).1⟩)
  · split
    · rename_i hn
      exact memory_of_get? ((hf.states node hn).trans (halone node hn).2)
    · rename_i hn
      rw [memory_of_unknown hn, memory_of_unknown (hf.ids ▸ hn)]

theorem askEveryNode_serves (call : Store.Call) (hu : Usable w) :
    Ensures w (onEveryNode fun node => ask node call)
      (fun f w' => f.failures = [] ∧ (∀ node ∈ w.ids, f.results.contains node = true) ∧ w'.ids = w.ids ∧
        w'.registry = w.registry ∧
        ∀ node, w'.memory node = if node ∈ w.ids then (Store.Memory.serve call (w.memory node)).2 else w.memory node)
      fun _ _ => False :=
  onEveryNode_serves (fun node => local_ask node call)
    (fun _ _ _ hn hm => (ask_serves call hn hm).mono (fun _ _ hw => hw.2) fun _ _ hf => hf) hu

theorem toExcept_of_failures {α : Type} {f : FanOut α} (h : f.failures = []) : f.toExcept = .ok f.results := by
  rw [FanOut.toExcept, h]
  rfl

theorem flushNode_serves (thenClose : Bool) (hn : w.nodes.get? node = some m) (hu : m.obstacle = none) :
    Ensures w (flushNode thenClose node)
      (fun _ w' => w'.nodes = w.nodes.insert node (emptied thenClose m) ∧ w'.registry = w.registry)
      fun _ _ => False := by
  refine (ask_serves .flush hn hu).bind fun _ w₁ h₁ => ?_
  obtain ⟨-, hnodes, hreg⟩ := h₁
  cases thenClose with
  | false =>
    refine ensures_pure ⟨?_, hreg⟩
    rw [hnodes, emptied, Bool.or_false]
    rfl
  | true =>
    have hn₁ : w₁.nodes.get? node = some (Store.Memory.serve .flush m).2 := by
      rw [hnodes, Dict.get?_insert_self]
    refine (ask_serves .close hn₁ hu).mono (fun _ w₂ h₂ => ⟨?_, h₂.2.2.trans hreg⟩) fun _ _ hf => hf
    rw [h₂.2.1, hnodes, Dict.insert_insert, emptied, Bool.or_true]
    rfl

/-- Flushing usable nodes empties all of them. -/
theorem flushAll_empties (thenClose : Bool) (hu : Usable w) :
    Ensures w (flushAll thenClose)
      (fun _ w' => w'.ids = w.ids ∧ w'.registry = w.registry ∧
        ∀ node, w'.memory node = if node ∈ w.ids then emptied thenClose (w.memory node) else w.memory node)
      fun _ _ => False := by
  have flushed := onEveryNode_serves (local_flushNode thenClose) (fun w node m => flushNode_serves thenClose) hu
  refine flushed.bind fun f w₁ h₁ => ?_
  rw [toExcept_of_failures h₁.1]
  exact ensures_pure h₁.2.2

/-- Closing usable nodes closes all of them. -/
theorem closeAll_closes (hu : Usable w) :
    Ensures w closeAll
      (fun _ w' => w'.ids = w.ids ∧ w'.registry = w.registry ∧
        ∀ node, w'.memory node = if node ∈ w.ids then { w.memory node with closed := true } else w.memory node)
      fun _ _ => False := by
  refine (askEveryNode_serves .close hu).bind fun f w₁ h₁ => ?_
  rw [toExcept_of_failures h₁.1]
  exact ensures_pure h₁.2.2

/-- Usable nodes all say their count, so one of them is the least loaded. -/
theorem leastLoaded_finds (hu : Usable w) (hne : w.ids ≠ []) :
    Ensures w leastLoaded (fun node _ => node ∈ w.ids) fun _ _ => False := by
  refine (askEveryNode_serves .count hu).bind fun f w₁ h₁ => ?_
  obtain ⟨-, hres, hids, -⟩ := h₁
  refine ensures_inspect_bind ?_
  rw [hids]
  have tallied : ∀ e ∈ w.ids.map fun id => (id, f.results.get? id), e.2.isSome = true := by
    intro e he
    obtain ⟨id, hid, rfl⟩ := List.mem_map.1 he
    exact hres id hid
  obtain ⟨node, hmem, hnode⟩ := Selection.leastLoadedOf_mem tallied (by simpa using hne)
  rw [hnode]
  refine ensures_pure ?_
  simpa using hmem

variable [Registry ρ]

structure Same (R : Reliable ρ) (w w' : Cluster Store.Memory ρ) : Prop where
  nodes : w'.nodes = w.nodes
  known : R.known w' = R.known w

variable {R : Reliable ρ}

theorem Same.refl (R : Reliable ρ) (w : Cluster Store.Memory ρ) : Same R w w := ⟨rfl, rfl⟩

theorem Same.trans (h : Same R w w') (h' : Same R w' w'') : Same R w w'' :=
  ⟨h'.nodes.trans h.nodes, h'.known.trans h.known⟩

theorem Intact.same (h : Intact w w') (R : Reliable ρ) : Same R w w' := ⟨h.1, Reliable.known_of_registry h.2⟩

theorem Same.memory (h : Same R w w') : w'.memory = w.memory := memory_of_nodes h.nodes

theorem Same.ids (h : Same R w w') : w'.ids = w.ids := congrArg Dict.keys h.nodes

theorem Same.usable (h : Same R w w') (hu : Usable w) : Usable w' := fun node => by
  rw [h.memory]
  exact hu node

/-! ## Single calls -/

theorem serve_of_looks {call : Store.Call} (h : call.looks = true) (m : Store.Memory) :
    (Store.Memory.serve call m).2 = m := by
  cases call <;> first | rfl | cases h

omit [Registry ρ] in
theorem ask_looks {call : Store.Call} (hc : call.looks = true) (hn : w.nodes.get? node = some m)
    (hu : m.obstacle = none) :
    Ensures w (ask node call) (fun a w' => a = (Store.Memory.serve call m).1 ∧ Intact w w') fun _ _ => False := by
  refine (ask_serves call hn hu).mono (fun a w' hw => ⟨hw.1, ?_, hw.2.2⟩) fun _ _ hf => hf
  rw [hw.2.1, serve_of_looks hc, Dict.insert_of_get? hn]

/-- A reliable registry answers what its ledger does. -/
theorem consult_answers (call : Registry.Call) {l : Registry.Ledger} (hl : R.known w = some l)
    (hs : ∀ nodes, call ≠ .suggest nodes) (hc : call ≠ .close) :
    Ensures w (consult call)
      (fun a w' => (Registry.Ledger.perform call l).1 = .ok a ∧ w'.nodes = w.nodes ∧
        R.known w' = some (Registry.Ledger.perform call l).2)
      fun _ _ => False := by
  obtain ⟨state, hr, rfl⟩ := Option.map_eq_some_iff.1 hl
  have ha := R.answers call state hs hc
  refine ensures_consult (fun s a s' hr' hp => ?_) (fun s fault s' hr' hp => ?_) fun hr' => ?_
  · rw [hr] at hr'
    cases hr'
    rw [hp] at ha
    rw [← ha]
    exact ⟨rfl, rfl, rfl⟩
  · rw [hr] at hr'
    cases hr'
    rw [hp] at ha
    exact Registry.Ledger.perform_ne_error hs _ fault (congrArg Prod.fst ha).symm
  · rw [hr] at hr'
    cases hr'

/-- What no call changes about a node's memory, no operation changes about any node's. -/
theorem permits_nodewise {T : Store.Memory → Store.Memory → Prop} {P : Store.Call → Prop} (refl : ∀ m, T m m)
    (trans : ∀ {m m' m''}, T m m' → T m' m'' → T m m'')
    (serve : ∀ call, P call → ∀ m, T m (Store.Memory.serve call m).2) :
    Permits (fun w w' : Cluster Store.Memory ρ => w'.ids = w.ids ∧ ∀ node, T (w.memory node) (w'.memory node)) P
      fun _ => True where
  refl w := ⟨rfl, fun node => refl _⟩
  trans h h' := ⟨h'.1.trans h.1, fun node => trans (h.2 node) (h'.2 node)⟩
  ask node call hc w := by
    have answered : ∀ {m m'} (answer : Except Fault call.Answer), w.nodes.get? node = some m → T m m' →
        (w.answered node call answer m').ids = w.ids ∧
          ∀ other, T (w.memory other) ((w.answered node call answer m').memory other) := by
      intro m m' answer hn hm
      refine ⟨ids_of_insert rfl (Dict.mem_keys.2 (Dict.contains_iff.2 ⟨m, hn⟩)), ?_⟩
      intro other
      rw [memory_answered]
      split
      · rename_i he
        rwa [← he, memory_of_get? hn]
      · exact refl _
    refine ensures_ask (fun m a m' hn hp => answered _ hn ?_) (fun m fault m' hn hp => answered _ hn ?_)
      fun _ => ⟨rfl, fun _ => refl _⟩
    · rw [(Store.Memory.perform_ok hp).2.2]
      exact serve call hc m
    · rw [Store.Memory.perform_error hp]
      exact refl m
  consult call _ w := ensures_advised (fun _ _ _ => ⟨rfl, fun _ => refl _⟩) fun _ => ⟨rfl, fun _ => refl _⟩
  draw _ _ := ensures_draw ⟨rfl, fun _ => refl _⟩
  report _ _ := ensures_report ⟨rfl, fun _ => refl _⟩

theorem permits_intact :
    Permits (Intact : Cluster Store.Memory ρ → Cluster Store.Memory ρ → Prop) (fun call => call.looks = true)
      fun _ => False where
  refl := Intact.refl
  trans := Intact.trans
  ask node call hc w := by
    refine ensures_ask (fun m a m' hn hp => ⟨?_, rfl⟩) (fun m fault m' hn hp => ⟨?_, rfl⟩) fun _ => ⟨rfl, rfl⟩
    · show w.nodes.insert node m' = w.nodes
      rw [(Store.Memory.perform_ok hp).2.2, serve_of_looks hc, Dict.insert_of_get? hn]
    · show w.nodes.insert node m' = w.nodes
      rw [Store.Memory.perform_error hp, Dict.insert_of_get? hn]
  consult _ hc := hc.elim
  draw _ _ := ensures_draw ⟨rfl, rfl⟩
  report _ _ := ensures_report ⟨rfl, rfl⟩

theorem permits_same (R : Reliable ρ) :
    Permits (Same R) (fun call => call.looks = true) fun call => call.looks = true where
  refl := Same.refl R
  trans := Same.trans
  ask node call hc w :=
    (permits_intact.ask node call hc w).mono (fun _ _ h => h.same R) fun _ _ h => h.same R
  consult call hc w := by
    have kept : ∀ state, R.ledger (Registry.perform call state).2 = R.ledger state := by
      intro state
      cases call with
      | suggest nodes => exact R.keeps nodes state
      | locate key => exact congrArg Prod.snd (R.answers (.locate key) state (by simp) (by simp))
      | release node => exact congrArg Prod.snd (R.answers (.release node) state (by simp) (by simp))
      | _ => cases hc
    refine ensures_advised (fun state answer hr => ⟨rfl, ?_⟩) fun _ => .refl R w
    simp only [Reliable.known, hr, Option.map_some, advised, kept]
  draw _ _ := ensures_draw ⟨rfl, rfl⟩
  report _ _ := ensures_report ⟨rfl, rfl⟩

/-! ## Choosing a node -/

theorem suggested_finds (R : Reliable ρ) (hr : w.registry.isSome = true) (hne : w.ids ≠ []) :
    Ensures w suggested (fun node _ => node ∈ w.ids) fun _ _ => False := by
  refine ensures_inspect_bind ?_
  have consulted : Ensures w (consult (.suggest w.ids)) (fun node w' => node ∈ w.ids ∧ w'.nodes = w.nodes)
      fun _ _ => False := by
    refine ensures_consult (fun s a s' hs hp => ⟨?_, rfl⟩) (fun s fault s' hs hp => ?_) fun hs => ?_
    · obtain ⟨node, hmem, hok⟩ := R.suggests w.ids s hne
      rw [hp] at hok
      cases hok
      exact hmem
    · obtain ⟨node, hmem, hok⟩ := R.suggests w.ids s hne
      rw [hp] at hok
      cases hok
    · rw [hs] at hr
      cases hr
  refine consulted.bind fun node w₁ h₁ => ensures_inspect_bind ?_
  obtain ⟨hmem, hnodes⟩ := h₁
  rw [hnodes, Dict.mem_keys.1 hmem]
  exact ensures_pure hmem

/-- Choosing by chance or by load asks no registry and finds one of the nodes, if there are any. -/
theorem choose_quietly {how : Selection} (hu : Usable w) (hne : w.ids ≠ []) (hq : how ≠ .registry) :
    Ensures w (choose how) (fun node w' => node ∈ w.ids ∧ Intact w w') fun _ _ => False := by
  refine ensures_inspect_bind ?_
  rw [if_neg (by simpa using hne)]
  cases how with
  | random =>
    refine Ensures.bind (Q := fun i w' => i < w.ids.length ∧ Intact w w') (ensures_draw ⟨?_, rfl, rfl⟩)
      fun i w₁ h₁ => ensures_pure ⟨?_, h₁.2⟩
    · exact Nat.mod_lt _ (List.length_pos_iff.2 hne)
    · rw [List.getD_eq_getElem?_getD, List.getElem?_eq_getElem h₁.1]
      exact List.getElem_mem h₁.1
  | leastLoaded =>
    exact ((leastLoaded_finds hu hne).and (permits_intact.leastLoaded rfl w)).mono (fun _ _ hw => hw)
      fun _ _ hw => hw.1
  | registry => exact absurd rfl hq

/-- Every way of choosing finds one of the nodes, if there are any; one that asks the registry needs one to ask. -/
theorem choose_finds (R : Reliable ρ) {how : Selection} (hu : Usable w) (hne : w.ids ≠ [])
    (hr : how = .registry → w.registry.isSome = true) :
    Ensures w (choose how) (fun node w' => node ∈ w.ids ∧ Same R w w') fun _ _ => False := by
  have found : Ensures w (choose how) (fun node _ => node ∈ w.ids) fun _ _ => False := by
    by_cases hq : how = .registry
    · subst hq
      refine ensures_inspect_bind ?_
      rw [if_neg (by simpa using hne)]
      exact suggested_finds R (hr rfl) hne
    · exact (choose_quietly hu hne hq).mono (fun _ _ hw => hw.1) fun _ _ hf => hf
  have kept := (permits_same R).choose rfl (fun _ => rfl) how w
  exact (found.and kept).mono (fun _ _ hw => hw) fun _ _ hw => hw.1

end Placement.Cluster
