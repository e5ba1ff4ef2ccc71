import Placement.Client
import Placement.Proofs.Provision
import Placement.Store.Redis.Keyspace

/-!
Configurations that are in order.

Three parts of a client look at a configuration, each by its own tests: the validation of the whole, the pool that the
nodes join, and the end of the registry that is resolved. What the first accepts neither of the others turns down, and a
client that was started so never lacks what an insert needs.

- `nodesFault?_eq_none`, `validate_iff`: what is accepted.
- `addAll_joins`, `ofConfig_valid`: the nodes of the pool.
- `start_valid`: the client that is started, or why it is not.
- `validation_suffices`: all of it, and the inserts of such a client.
-/

namespace Placement

namespace Config

/-! ## What is accepted -/

structure NodeEntry.Sound (node : NodeEntry) : Prop where
  id : Text.trim node.id ≠ ""
  host : Text.trim node.host ≠ ""
  port : node.port ≠ 0

structure RegistrySection.Sound (r : RegistrySection) : Prop where
  host : Text.trim r.host ≠ ""
  controlPort : r.controlPort ≠ 0
  benchmarkPort : r.benchmarkPort ≠ 0

/-- Nodes and registry say where they are, no two nodes have one name, some node takes part, and a registry that is to
choose is there. -/
structure Valid (c : Config) : Prop where
  nodes : ∀ node ∈ c.nodes, node.Sound
  distinct : (c.nodes.map (·.id)).Nodup
  takesPart : ∃ node ∈ c.nodes, node.isDefault = true
  registry : ∀ r, c.registry = some r → r.Sound
  chooses : c.registry = none → c.selection ≠ some .registry

/-- A walk over the nodes finds nothing wrong if each is sound and all names are new, to each other and to those seen.
-/
theorem nodesFault?_eq_none {seen : List NodeId} {nodes : List NodeEntry} :
    nodesFault? seen nodes = none ↔
      (∀ node ∈ nodes, node.Sound ∧ node.id ∉ seen) ∧ (nodes.map (·.id)).Nodup := by
  fun_induction nodesFault? seen nodes with
  | case1 seen => simp
  | case2 seen node rest hid =>
    refine ⟨by simp, fun h => ?_⟩
    exact absurd ((Text.isBlank_iff_trim _).1 hid) (h.1 node List.mem_cons_self).1.id
  | case3 seen node rest hid hseen =>
    refine ⟨by simp, fun h => ?_⟩
    exact absurd (List.contains_iff_mem.1 hseen) (h.1 node List.mem_cons_self).2
  | case4 seen node rest hid hseen hhost =>
    refine ⟨by simp, fun h => ?_⟩
    exact absurd ((Text.isBlank_iff_trim _).1 hhost) (h.1 node List.mem_cons_self).1.host
  | case5 seen node rest hid hseen hhost hport =>
    refine ⟨by simp, fun h => ?_⟩
    exact absurd hport (h.1 node List.mem_cons_self).1.port
  | case6 seen node rest hid hseen hhost hport ih =>
    -- past all four tests the node is sound and new, and the walk goes on with its name seen
    have sound : node.Sound :=
      ⟨fun h => hid ((Text.isBlank_iff_trim _).2 h), fun h => hhost ((Text.isBlank_iff_trim _).2 h), hport⟩
    have unseen : node.id ∉ seen := fun h => hseen (List.contains_iff_mem.2 h)
    rw [ih, List.map_cons, List.nodup_cons]
    constructor
    · rintro ⟨hrest, hnodup⟩
      refine ⟨fun other ho => ?_, fun hmem => ?_, hnodup⟩
      · rcases List.mem_cons.1 ho with rfl | ho
        · exact ⟨sound, unseen⟩
        · exact ⟨(hrest other ho).1, fun h => (hrest other ho).2 (List.mem_cons_of_mem _ h)⟩
      · obtain ⟨other, ho, he⟩ := List.mem_map.1 hmem
        exact (hrest other ho).2 (he ▸ List.mem_cons_self)
    · rintro ⟨hall, hnew, hnodup⟩
      refine ⟨fun other ho => ?_, hnodup⟩
      obtain ⟨hsound, hunseen⟩ := hall other (List.mem_cons_of_mem _ ho)
      refine ⟨hsound, fun h => ?_⟩
      rcases List.mem_cons.1 h with he | h
      · exact hnew (List.mem_map.2 ⟨other, ho, he⟩)
      · exact hunseen h

theorem registryFault?_eq_none {c : Config} :
    c.registryFault? = none ↔
      (∀ r, c.registry = some r → r.Sound) ∧ (c.registry = none → c.selection ≠ some .registry) := by
  unfold registryFault?
  cases hr : c.registry with
  | none => simp
  | some r =>
    have sound : r.Sound ↔ ¬ Text.isBlank r.host = true ∧ ¬ (r.controlPort = 0 ∨ r.benchmarkPort = 0) := by
      rw [Text.isBlank_iff_trim, not_or]
      exact ⟨fun h => ⟨h.host, h.controlPort, h.benchmarkPort⟩, fun h => ⟨h.1, h.2.1, h.2.2⟩⟩
    have there : (∀ r', some r = some r' → r'.Sound) ↔ r.Sound := by simp
    rw [there, sound]
    dsimp only
    split
    · simp [*]
    · split <;> simp [*]

theorem defaultNodes_isEmpty {c : Config} :
    c.defaultNodes.isEmpty = false ↔ ∃ node ∈ c.nodes, node.isDefault = true := by
  rw [defaultNodes, ← Bool.not_eq_true, List.isEmpty_iff, List.filter_eq_nil_iff]
  simp

/-- A configuration is accepted just if it is valid. -/
theorem validate_iff {c : Config} : c.validate = .ok () ↔ c.Valid := by
  have accepted : c.validate = .ok () ↔ c.fault? = none := by
    unfold validate
    cases c.fault? <;> simp
  rw [accepted]
  unfold fault?
  cases hn : nodesFault? [] c.nodes with
  | some fault =>
    refine ⟨by simp, fun h => ?_⟩
    have := nodesFault?_eq_none.2 ⟨fun node hnode => ⟨h.nodes node hnode, List.not_mem_nil⟩, h.distinct⟩
    rw [hn] at this
    cases this
  | none =>
    obtain ⟨hnodes, hdistinct⟩ := nodesFault?_eq_none.1 hn
    dsimp only
    cases he : c.defaultNodes.isEmpty with
    | true =>
      refine ⟨by simp, fun h => ?_⟩
      rw [defaultNodes_isEmpty.2 h.takesPart] at he
      cases he
    | false =>
      rw [if_neg (by simp), registryFault?_eq_none]
      exact ⟨fun h => ⟨fun node hnode => (hnodes node hnode).1, hdistinct, defaultNodes_isEmpty.1 he, h.1, h.2⟩,
        fun h => ⟨h.registry, h.chooses⟩⟩

/-- There are nodes to join the pool. -/
theorem Valid.names_ne_nil {c : Config} (h : c.Valid) : (c.defaultNodes.map (·.id)).mergeSort ≠ [] := by
  have hsome := defaultNodes_isEmpty.2 h.takesPart
  rw [Ne, ← List.length_eq_zero_iff, List.length_mergeSort, List.length_map, List.length_eq_zero_iff]
  exact List.isEmpty_eq_false_iff.1 hsome

end Config

namespace Pool

open Config (NodeEntry)

variable {ν : Type}

/-! ## Nodes that join -/

/-- Nodes whose names are no blanks, and new to the pool and to each other, all join it. -/
theorem addAll_joins (make : NodeEntry → ν) {pool : Dict ν} {entries : List NodeEntry}
    (hnew : ∀ e ∈ entries, Text.trim e.id ≠ "" ∧ pool.contains e.id = false)
    (hdistinct : (entries.map (·.id)).Nodup) :
    ∃ pool', addAll make pool entries = .ok pool' ∧ (∀ e ∈ entries, pool'.get? e.id = some (make e)) ∧
      ∀ id, id ∉ entries.map (·.id) → pool'.get? id = pool.get? id := by
  induction entries generalizing pool with
  | nil => exact ⟨pool, rfl, by simp, fun _ _ => rfl⟩
  | cons entry rest ih =>
    rw [List.map_cons, List.nodup_cons] at hdistinct
    obtain ⟨hunlike, hdistinct⟩ := hdistinct
    obtain ⟨hid, hfree⟩ := hnew entry List.mem_cons_self
    have joins : add entry.id (make entry) pool = .ok (pool.insert entry.id (make entry)) := by
      rw [add, if_neg fun h => hid ((Text.isBlank_iff_trim _).1 h), if_neg (by simp [hfree])]
    have hrest : ∀ e ∈ rest, Text.trim e.id ≠ "" ∧ (pool.insert entry.id (make entry)).contains e.id = false := by
      intro e he
      have hne : entry.id ≠ e.id := fun heq => hunlike (List.mem_map.2 ⟨e, he, heq.symm⟩)
      obtain ⟨heid, hefree⟩ := hnew e (List.mem_cons_of_mem _ he)
      exact ⟨heid, by rw [Dict.contains_insert]; simp [hne, hefree]⟩
    obtain ⟨pool', hadd, hjoined, hothers⟩ := ih hrest hdistinct
    refine ⟨pool', by rw [addAll, joins]; exact hadd, fun e he => ?_, fun id hmem => ?_⟩
    · rcases List.mem_cons.1 he with rfl | he
      · rw [hothers _ hunlike, Dict.get?_insert_self]
      · exact hjoined e he
    · rw [List.map_cons, List.mem_cons, not_or] at hmem
      rw [hothers id hmem.2, Dict.get?_insert, if_neg (Ne.symm hmem.1)]

/-- The default nodes of a valid configuration make a pool, in the ascending order of their names. -/
theorem ofConfig_valid {c : Config} (h : c.Valid) (make : NodeEntry → ν) :
    ∃ pool, ofConfig make c = .ok pool ∧ pool.keys = (c.defaultNodes.map (·.id)).mergeSort ∧
      ∀ entry ∈ c.defaultNodes, pool.get? entry.id = some (make entry) := by
  have part : c.defaultNodes.Sublist c.nodes := List.filter_sublist
  have hdistinct : (c.defaultNodes.map (·.id)).Nodup := h.distinct.sublist (part.map _)
  have hnew : ∀ e ∈ c.defaultNodes, Text.trim e.id ≠ "" ∧ (Dict.empty : Dict ν).contains e.id = false :=
    fun e he => ⟨(h.nodes e (part.subset he)).id, rfl⟩
  obtain ⟨pool, hadd, hjoined, hothers⟩ := addAll_joins make hnew hdistinct
  have hmem : ∀ id, id ∈ pool.keys ↔ id ∈ c.defaultNodes.map (·.id) := by
    intro id
    rw [Dict.mem_keys, Dict.contains]
    by_cases hid : id ∈ c.defaultNodes.map (·.id)
    · obtain ⟨entry, he, rfl⟩ := List.mem_map.1 hid
      simp [hjoined entry he, hid]
    · simp [hothers id hid, hid]
  have hkeys := Dict.keys_eq_mergeSort hdistinct hmem
  have hfilled : pool.isEmpty = false := by
    obtain ⟨id, hid⟩ := List.exists_mem_of_ne_nil _ h.names_ne_nil
    exact Dict.isEmpty_eq_false.2 ⟨id, Dict.mem_keys.1 (hkeys ▸ hid)⟩
  exact ⟨pool, by rw [ofConfig, hadd]; simp only [bind, Except.bind, hfilled]; rfl, hkeys, hjoined⟩

end Pool

/-! ## The registry's end -/

/-- A connection that does not come to be is refused or late. -/
theorem Channel.connect_fault {network : Network} {host : String} {port : Nat} {fault : Fault}
    (h : connect network host port = .error fault) :
    (∃ cause, fault = .connection cause) ∨ ∃ wait, fault = .timeout wait := by
  unfold connect at h
  split at h
  · cases h
    exact .inl ⟨_, rfl⟩
  split at h
  · cases h
    exact .inl ⟨_, rfl⟩
  dsimp only at h
  split at h
  · cases h
  · cases h
    exact .inl ⟨_, rfl⟩
  · cases h
    exact .inr ⟨_, rfl⟩

/-- Where a host and a port are given, it comes to be just if the network gives it. -/
theorem Channel.connect_isOk (network : Network) {host : String} {port : Nat} (hhost : Text.isBlank host = false)
    (hport : port ≠ 0) : (∃ channel, connect network host port = .ok channel) ↔
      ∃ stream, network host port = .connected stream := by
  unfold connect
  rw [hhost, if_neg (by simp), if_neg hport]
  cases network host port <;> simp

/-- The registry can be reached over both of its ports, if there is to be one. -/
def Config.ReachesRegistry (network : Network) (c : Config) : Prop :=
  c.registry = none ∨ ∃ r control benchmark, c.registry = some r ∧
    network (Text.trim r.host) r.controlPort.toNat = .connected control ∧
    network (Text.trim r.host) r.benchmarkPort.toNat = .connected benchmark

namespace Client

open Config (NodeEntry)

variable {r : Config.RegistrySection}

theorem toNat_ne_zero {port : UInt16} (h : port ≠ 0) : port.toNat ≠ 0 := fun h' => h (UInt16.toNat_inj.1 h')

theorem resolve_sound (h : r.Sound) :
    (registryEndpoint r).resolve = .ok (Text.trim r.host, r.controlPort.toNat, r.benchmarkPort.toNat) := by
  have given : ∀ {port : UInt16}, port ≠ 0 → Registry.Endpoint.port? (some port.toNat) = some port.toNat := by
    intro port hport
    obtain ⟨n, hn⟩ := Nat.exists_eq_succ_of_ne_zero (toNat_ne_zero hport)
    rw [hn]
    rfl
  simp only [registryEndpoint, Registry.Endpoint.resolve, if_neg h.host, given h.controlPort, given h.benchmarkPort]

/-- Both channels are opened, or one of them is refused or late. -/
theorem connect_sound (h : r.Sound) (network : Network) :
    ((∃ client, (registryEndpoint r).connect network = .ok client) ↔
      ∃ control benchmark, network (Text.trim r.host) r.controlPort.toNat = .connected control ∧
        network (Text.trim r.host) r.benchmarkPort.toNat = .connected benchmark) ∧
    ∀ fault, (registryEndpoint r).connect network = .error fault →
      (∃ cause, fault = .connection cause) ∨ ∃ wait, fault = .timeout wait := by
  have hhost : Text.isBlank (Text.trim r.host) = false := Bool.eq_false_iff.2 fun hblank =>
    h.host (Text.trim_of_isBlank hblank)
  have hcontrol := Channel.connect_isOk network hhost (toNat_ne_zero h.controlPort)
  have hbenchmark := Channel.connect_isOk network hhost (toNat_ne_zero h.benchmarkPort)
  simp only [Registry.Endpoint.connect, resolve_sound h, bind, Except.bind]
  cases hc : Channel.connect network (Text.trim r.host) r.controlPort.toNat with
  | error fault =>
    rw [hc] at hcontrol
    have unreached : ¬ ∃ stream, network (Text.trim r.host) r.controlPort.toNat = .connected stream := fun hs => by
      simpa using hcontrol.2 hs
    refine ⟨⟨by simp, fun ⟨control, _, hs, _⟩ => absurd ⟨control, hs⟩ unreached⟩, ?_⟩
    rintro _ ⟨⟩
    exact Channel.connect_fault hc
  | ok control =>
    rw [hc] at hcontrol
    obtain ⟨stream, hs⟩ := hcontrol.1 ⟨control, rfl⟩
    cases hb : Channel.connect network (Text.trim r.host) r.benchmarkPort.toNat with
    | error fault =>
      rw [hb] at hbenchmark
      have unreached : ¬ ∃ stream, network (Text.trim r.host) r.benchmarkPort.toNat = .connected stream := fun hs => by
        simpa using hbenchmark.2 hs
      refine ⟨⟨by simp, fun ⟨_, benchmark, _, hs⟩ => absurd ⟨benchmark, hs⟩ unreached⟩, ?_⟩
      rintro _ ⟨⟩
      exact Channel.connect_fault hb
    | ok benchmark =>
      rw [hb] at hbenchmark
      obtain ⟨stream', hs'⟩ := hbenchmark.1 ⟨benchmark, rfl⟩
      exact ⟨⟨fun _ => ⟨stream, stream', hs, hs'⟩, fun _ => ⟨_, rfl⟩⟩, by rintro _ ⟨⟩⟩

/-! ## Clients -/

variable {σ : Type}

/-- A client is started just if the registry can be reached, and has then all that the configuration speaks of. -/
theorem start_valid {c : Config} (h : c.Valid) (network : Network) (serve : NodeEntry → σ) :
    ((∃ coordinator, start network serve c = .ok coordinator) ↔ c.ReachesRegistry network) ∧
    (∀ fault, start network serve c = .error fault →
      (∃ cause, fault = .connection cause) ∨ ∃ wait, fault = .timeout wait) ∧
    ∀ coordinator, start network serve c = .ok coordinator →
      coordinator.selection = c.effectiveSelection ∧ coordinator.cluster.registry.isSome = c.registry.isSome ∧
        Pool.ofConfig (node serve c) c = .ok coordinator.cluster.nodes := by
  obtain ⟨nodes, hnodes, -⟩ := Pool.ofConfig_valid h (node serve c)
  have started : start network serve c =
      (c.registry.mapM fun r => (registryEndpoint r).connect network).map fun registry =>
        { cluster := { nodes, registry }, selection := c.effectiveSelection } := by
    show (do
      c.validate
      let nodes ← Pool.ofConfig (node serve c) c
      let registry ← c.registry.mapM fun r => (registryEndpoint r).connect network
      return (⟨{ nodes, registry }, c.effectiveSelection⟩ : Coordinator _ _)) = _
    rw [Config.validate_iff.2 h, hnodes]
    rfl
  rw [started, hnodes]
  unfold Config.ReachesRegistry
  cases hr : c.registry with
  | none => exact ⟨⟨fun _ => .inl rfl, fun _ => ⟨_, rfl⟩⟩, by rintro _ ⟨⟩, by rintro _ ⟨⟩; exact ⟨rfl, rfl, rfl⟩⟩
  | some r =>
    obtain ⟨hopens, hfault⟩ := connect_sound (h.registry r hr) network
    simp only [Option.mapM_some]
    cases hconnect : (registryEndpoint r).connect network with
    | error fault =>
      rw [hconnect] at hopens hfault
      refine ⟨⟨by rintro ⟨_, ⟨⟩⟩, ?_⟩, by rintro _ ⟨⟩; exact hfault fault rfl, by rintro _ ⟨⟩⟩
      rintro (hnone | ⟨_, control, benchmark, he, hreached⟩)
      · cases hnone
      · cases he
        obtain ⟨client, hclient⟩ := hopens.2 ⟨control, benchmark, hreached⟩
        cases hclient
    | ok client =>
      rw [hconnect] at hopens
      obtain ⟨control, benchmark, hreached⟩ := hopens.1 ⟨client, rfl⟩
      exact ⟨⟨fun _ => .inr ⟨r, control, benchmark, rfl, hreached⟩, fun _ => ⟨_, rfl⟩⟩, by rintro _ ⟨⟩,
        by rintro _ ⟨⟩; exact ⟨rfl, rfl, rfl⟩⟩

/-- An insert through nodes on servers and a registry's client does not fail for want of a node or of a registry, where
there is a node, and a registry if it chooses. -/
theorem insert_finds_something [Store.Redis.Server σ] {w : Cluster (Store.Redis.Node σ) Registry.Client}
    {how : Selection} (hne : w.ids ≠ []) (hr : how = .registry → w.registry.isSome = true) (key : String)
    (fields : Record) :
    Cluster.Ensures w (Cluster.insert how key fields) (fun _ _ => True) fun fault _ => ¬ fault.OfNothing := by
  refine Cluster.insert_provided (fun call n fault hf => ?_) (fun call s fault hc hf => ?_) hne hr key fields
  · exact Fault.not_ofNothing_of_ofServer (Store.Redis.Node.perform_ofServer call n fault hf)
  · obtain ⟨hof, hpresent⟩ := Registry.Client.perform_fault hc hf
    rintro (rfl | rfl)
    · cases hof
    · exact hpresent rfl

end Client

theorem Config.Valid.registry_isSome {c : Config} (h : c.Valid) (hr : c.effectiveSelection = .registry) :
    c.registry.isSome = true := by
  cases hregistry : c.registry with
  | some r => rfl
  | none =>
    cases hs : c.selection with
    | none => simp [effectiveSelection, hs, hregistry] at hr
    | some how =>
      simp only [effectiveSelection, hs] at hr
      subst hr
      exact absurd hs (h.chooses hregistry)

/-- Just the valid configurations are accepted. The default nodes of such a one make a pool, its registry section is
an end that can be resolved, and the registry chooses only if there is one. A client is started just if the registry
can be reached, or there is to be none; otherwise it is refused or late. It chooses as configured, has the nodes with
their ends and passwords, and whatever was asked of it, no insert fails because there is no node or no registry. -/
theorem validation_suffices (c : Config) :
    (c.validate = .ok () ↔ c.Valid) ∧
    (c.validate = .ok () →
      (∀ (ν : Type) (make : Config.NodeEntry → ν), ∃ pool, Pool.ofConfig make c = .ok pool ∧
        pool.keys = (c.defaultNodes.map (·.id)).mergeSort ∧
        ∀ entry ∈ c.defaultNodes, pool.get? entry.id = some (make entry)) ∧
      (∀ r, c.registry = some r → (Client.registryEndpoint r).resolve =
        .ok (Text.trim r.host, r.controlPort.toNat, r.benchmarkPort.toNat)) ∧
      (c.effectiveSelection = .registry → c.registry.isSome = true) ∧
      ∀ (σ : Type) [Store.Redis.Server σ] (network : Network) (serve : Config.NodeEntry → σ),
        let started := Client.start network serve c
        ((∃ coordinator, started = .ok coordinator) ↔ c.ReachesRegistry network) ∧
        (∀ fault, started = .error fault → (∃ cause, fault = .connection cause) ∨ ∃ wait, fault = .timeout wait) ∧
        ∀ coordinator, started = .ok coordinator →
          coordinator.selection = c.effectiveSelection ∧
          coordinator.cluster.registry.isSome = c.registry.isSome ∧
          coordinator.cluster.ids = (c.defaultNodes.map (·.id)).mergeSort ∧
          (∀ entry ∈ c.defaultNodes, ∃ node, coordinator.cluster.nodes.get? entry.id = some node ∧
            node.endpoint = { host := entry.host, port := entry.port.toNat, password := entry.password }) ∧
          ∀ requests, let left := (Coordinator.serveAll requests coordinator).2
            left.selection = c.effectiveSelection ∧
            (left.selection = .registry → left.cluster.registry.isSome = true) ∧
            ∀ key fields fault, (Cluster.run (Cluster.insert left.selection key fields) left.cluster).1 = .error fault →
              fault ≠ .noNodesAvailable ∧ fault ≠ .registryUnavailable .absent) := by
  refine ⟨Config.validate_iff, fun hvalid => ?_⟩
  have h := Config.validate_iff.1 hvalid
  refine ⟨fun _ make => Pool.ofConfig_valid h make, fun r hr => Client.resolve_sound (h.registry r hr),
    h.registry_isSome, fun σ _ network serve => ?_⟩
  obtain ⟨hstarts, hfault, hhas⟩ := Client.start_valid h network serve
  refine ⟨hstarts, hfault, fun coordinator hstarted => ?_⟩
  obtain ⟨hselection, hregistry, hpool⟩ := hhas coordinator hstarted
  obtain ⟨pool, hpool', hkeys, hjoined⟩ := Pool.ofConfig_valid h (Client.node serve c)
  obtain rfl : coordinator.cluster.nodes = pool := Except.ok.inj (hpool.symm.trans hpool')
  refine ⟨hselection, hregistry, hkeys, fun entry he => ⟨_, hjoined entry he, rfl⟩, fun requests => ?_⟩
  obtain ⟨hselection', hids, hregistry'⟩ := Coordinator.serveAll_members requests coordinator
  generalize (Coordinator.serveAll requests coordinator).2 = left at hselection' hids hregistry' ⊢
  have hr : left.selection = .registry → left.cluster.registry.isSome = true := by
    intro hchooses
    rw [hregistry', hregistry]
    exact h.registry_isSome (hselection.symm.trans (hselection'.symm.trans hchooses))
  have hne : left.cluster.ids ≠ [] := by
    rw [hids, show coordinator.cluster.ids = _ from hkeys]
    exact h.names_ne_nil
  refine ⟨hselection'.trans hselection, hr, fun key fields fault hfault => ?_⟩
  have found := Client.insert_finds_something hne hr key fields
  rcases hrun : Cluster.run (Cluster.insert left.selection key fields) left.cluster with ⟨fault' | node, w⟩
  · rw [hrun] at hfault
    obtain rfl : fault' = fault := Except.error.inj hfault
    exact not_or.1 (found.error hrun)
  · rw [hrun] at hfault
    cases hfault

def threeDeclared : Config where
  nodes :=
    [{ id := "b", host := "localhost" }, { id := "a", host := "localhost", password := some "secret" },
      { id := "c", host := "localhost", isDefault := false }]

def besideRegistry : Config :=
  { threeDeclared with
    registry := some { host := " localhost", controlPort := 7001, benchmarkPort := 7002 }
    selection := some .registry }

def hangingUp : Network := fun host port =>
  if host = "localhost" ∧ (port = 7001 ∨ port = 7002) then .connected {} else .refused "connection refused"

def someFields : Record := Dict.ofList [("f", "v")]

/-- A client of the nodes alone is started, and inserts a record on the first of the two. Beside the registry one is
started too; there an insert fails, but not for want of a registry. -/
theorem two_of_three_serve :
    let started := Client.start hangingUp fun _ => ({} : Store.Redis.Keyspace)
    (∃ coordinator, started threeDeclared = .ok coordinator ∧ coordinator.cluster.ids = ["a", "b"] ∧
      (∃ node, coordinator.cluster.nodes.get? "a" = some node ∧ node.endpoint.password = some "secret") ∧
      (Coordinator.insert "user1" someFields coordinator).1 = .ok) ∧
    ∃ coordinator fault, started besideRegistry = .ok coordinator ∧ coordinator.selection = .registry ∧
      (Cluster.run (Cluster.insert .registry "user1" someFields) coordinator.cluster).1 = .error fault ∧
      fault ≠ .registryUnavailable .absent := by
  intro started
  obtain ⟨-, -, -, starts⟩ := (validation_suffices threeDeclared).2 (by decide)
  obtain ⟨-, -, -, starts'⟩ := (validation_suffices besideRegistry).2 (by decide)
  obtain ⟨hstarts, -, hhas⟩ := starts Store.Redis.Keyspace hangingUp fun _ => {}
  obtain ⟨hstarts', -, hhas'⟩ := starts' Store.Redis.Keyspace hangingUp fun _ => {}
  obtain ⟨coordinator, hstarted⟩ := hstarts.2 (.inl rfl)
  obtain ⟨coordinator', hstarted'⟩ := hstarts'.2 (.inr ⟨_, {}, {}, rfl, rfl, rfl⟩)
  have ran : (started threeDeclared).toOption.map (fun c => (c.cluster.ids, (Coordinator.insert "user1" someFields c).1)) =
      some (["a", "b"], .ok) := by decide +kernel
  have failed : (started besideRegistry).toOption.map (fun c =>
      (Cluster.run (Cluster.insert .registry "user1" someFields) c.cluster).1.toOption) = some none := by decide +kernel
  obtain ⟨-, -, -, hnodes, -⟩ := hhas coordinator hstarted
  obtain ⟨hselection, -, -, -, hserves⟩ := hhas' coordinator' hstarted'
  rw [show started threeDeclared = _ from hstarted] at ran
  obtain ⟨hids, hinserted⟩ := Prod.mk.inj (Option.some.inj ran)
  rw [show started besideRegistry = _ from hstarted'] at failed
  refine ⟨⟨coordinator, hstarted, hids, ?_, hinserted⟩, ?_⟩
  · obtain ⟨node, hnode, hendpoint⟩ := hnodes { id := "a", host := "localhost", password := some "secret" } (by decide)
    exact ⟨node, hnode, congrArg (·.password) hendpoint⟩
  · obtain ⟨-, -, hfaults⟩ := hserves []
    have hfailed : (Cluster.run (Cluster.insert .registry "user1" someFields) coordinator'.cluster).1.toOption = none :=
      Option.some.inj failed
    cases hrun : (Cluster.run (Cluster.insert .registry "user1" someFields) coordinator'.cluster).1 with
    | ok node =>
      rw [hrun] at hfailed
      cases hfailed
    | error fault =>
      refine ⟨coordinator', fault, hstarted', hselection, hrun, (hfaults "user1" someFields fault ?_).2⟩
      rw [← hrun]
      exact congrArg (fun how => (Cluster.run (Cluster.insert how "user1" someFields) coordinator'.cluster).1) hselection

end Placement
