import Placement.Proofs.Isolation

/-!
Polling the nodes for their counts, and the one that leads.

Every node is asked once. What the nodes said and what they failed with comes back apart, and is put together again
under the nodes' names in their order, so the node that is chosen is the first one in that order with the smallest
count of all that are known.

- `leastLoadedOf_eq_some_iff`, `leastLoadedOf_eq_none_iff`: what is picked from a tally.
- `leastAt_iff_leads`: the first smallest entry of a tally in the order of the nodes.
- `run_choose_leastLoaded`: what the choice comes to, by what each node says.
- `the_leading_node_is_chosen`: which node is chosen, and when none is.
-/

namespace Placement

/-! ## Tallies -/

namespace Selection

variable {tally : List (NodeId × Option Nat)} {node : NodeId}

theorem leastLoadedOf_eq_some_iff : leastLoadedOf tally = some node ↔ ∃ i count, LeastAt tally i node count := by
  constructor
  · intro h
    rcases leastLoadedOf_cases tally with ⟨hnone, -⟩ | ⟨i, node', count, hsome, hleast⟩
    · rw [hnone] at h
      cases h
    · rw [hsome] at h
      cases h
      exact ⟨i, count, hleast⟩
  · rintro ⟨i, count, h⟩
    exact leastLoadedOf_of_leastAt h

theorem leastLoadedOf_eq_none_iff : leastLoadedOf tally = none ↔ ∀ e ∈ tally, e.2 = none := by
  constructor
  · intro h
    rcases leastLoadedOf_cases tally with ⟨-, hall⟩ | ⟨i, node, count, hsome, -⟩
    · exact hall
    · rw [hsome] at h
      cases h
  · intro hall
    rcases leastLoadedOf_cases tally with ⟨hnone, -⟩ | ⟨i, node, count, -, hleast⟩
    · exact hnone
    · cases hall _ (List.mem_of_getElem? hleast.entry)

end Selection

namespace Cluster

open Selection (LeastAt)

variable {ν ρ : Type} [Store ν] {w w' : Cluster ν ρ} {node : NodeId} {count : Nat}

/-! ## What nodes say -/

def said (w : Cluster ν ρ) (node : NodeId) : Except Fault Nat :=
  match w.nodes.get? node with
  | some state => (Store.perform .count state).1
  | none => .error (.unknownNode node)

/-- A node of the cluster with a known count, which is smaller than those of the nodes before it and not larger than
those of the nodes behind it, as far as these are known. -/
structure Leads (w : Cluster ν ρ) (node : NodeId) (count : Nat) : Prop where
  mem : node ∈ w.ids
  said : said w node = .ok count
  before : ∀ other ∈ w.ids, other < node → ∀ c, Cluster.said w other = .ok c → count < c
  behind : ∀ other ∈ w.ids, node < other → ∀ c, Cluster.said w other = .ok c → count ≤ c

def tally (w : Cluster ν ρ) : List (NodeId × Option Nat) := w.ids.map fun node => (node, (said w node).toOption)

theorem toOption_eq_some {answer : Except Fault Nat} : answer.toOption = some count ↔ answer = .ok count := by
  cases answer <;> simp [Except.toOption]

theorem tally_getElem? {i : Nat} :
    (tally w)[i]? = some (node, some count) ↔ w.ids[i]? = some node ∧ said w node = .ok count := by
  rw [tally, List.getElem?_map, Option.map_eq_some_iff]
  constructor
  · rintro ⟨other, ho, he⟩
    obtain ⟨rfl, hcount⟩ := Prod.mk.injEq .. ▸ he
    exact ⟨ho, toOption_eq_some.1 hcount⟩
  · rintro ⟨hn, hcount⟩
    exact ⟨node, hn, by rw [toOption_eq_some.2 hcount]⟩

theorem mem_tally : (node, some count) ∈ tally w ↔ node ∈ w.ids ∧ said w node = .ok count := by
  simp only [List.mem_iff_getElem?, tally_getElem?, exists_and_right]

omit [Store ν] in
/-- Positions are in the order of the nodes' names. -/
theorem ids_lt {i j : Nat} {other : NodeId} (hi : w.ids[i]? = some node) (hj : w.ids[j]? = some other) (h : i < j) :
    node < other := by
  obtain ⟨hi', rfl⟩ := List.getElem?_eq_some_iff.1 hi
  obtain ⟨hj', rfl⟩ := List.getElem?_eq_some_iff.1 hj
  exact List.pairwise_iff_getElem.1 w.nodes.keys_ascending i j hi' hj' h

/-- The first smallest entry of the tally is the node that leads. -/
theorem leastAt_iff_leads : (∃ i, LeastAt (tally w) i node count) ↔ Leads w node count := by
  constructor
  · rintro ⟨i, h⟩
    obtain ⟨hi, hsaid⟩ := tally_getElem?.1 h.entry
    refine ⟨List.mem_of_getElem? hi, hsaid, fun other ho hlt c hc => ?_, fun other ho _ c hc => ?_⟩
    · obtain ⟨j, hj⟩ := List.mem_iff_getElem?.1 ho
      rcases Nat.lt_trichotomy j i with hji | rfl | hij
      · exact h.first j hji other c (tally_getElem?.2 ⟨hj, hc⟩)
      · rw [Option.some.inj (hi.symm.trans hj)] at hlt
        exact absurd hlt (String.lt_irrefl other)
      · exact absurd hlt (String.lt_asymm (ids_lt hi hj hij))
    · exact h.least other c (mem_tally.2 ⟨ho, hc⟩)
  · intro h
    obtain ⟨i, hi⟩ := List.mem_iff_getElem?.1 h.mem
    refine ⟨i, tally_getElem?.2 ⟨hi, h.said⟩, fun other c hc => ?_, fun j hji other c hc => ?_⟩
    · obtain ⟨ho, hc⟩ := mem_tally.1 hc
      obtain ⟨j, hj⟩ := List.mem_iff_getElem?.1 ho
      rcases Nat.lt_trichotomy i j with hij | rfl | hji
      · exact h.behind other ho (ids_lt hi hj hij) c hc
      · rw [Option.some.inj (hj.symm.trans hi), h.said] at hc
        cases hc
        exact Nat.le_refl _
      · exact Nat.le_of_lt (h.before other ho (ids_lt hj hi hji) c hc)
    · obtain ⟨hj, hc⟩ := tally_getElem?.1 hc
      exact h.before other (List.mem_of_getElem? hj) (ids_lt hj hi hji) c hc

/-! ## The choice -/

theorem alone_count (hn : node ∈ w.ids) :
    (alone (fun node => ask node .count) w node).1 = said w node ∧
      (alone (fun node => ask node .count) w node).2.trace = [.asked node .count (said w node)] := by
  obtain ⟨state, hs⟩ := Dict.contains_iff.1 (Dict.mem_keys.1 hn)
  have honly : (w.only node).nodes.get? node = some state := by simp [only, Dict.get?_restrict, hs]
  have hsaid : said w node = (Store.perform .count state).1 := by rw [said, hs]
  rw [alone, run_ask honly, hsaid]
  exact ⟨rfl, rfl⟩

def silences (w : Cluster ν ρ) : List (NodeId × Fault) :=
  w.ids.filterMap fun node => FanOut.failureOf node (said w node)

/-- Every node is asked, and what is known of them is their tally. -/
theorem run_counts (w : Cluster ν ρ) :
    ∃ f w', run counts w = (.ok f, w') ∧ w'.ids = w.ids ∧
      w'.trace = w.trace ++ w.ids.map (fun node => .asked node .count (said w node)) ∧
      (w.ids.map fun node => (node, f.results.get? node)) = tally w ∧ f.failures = silences w := by
  obtain ⟨f, w', hrun, hf⟩ := onEveryNode_complete (fun node => local_ask node .count) w
  refine ⟨f, w', hrun, hf.ids, ?_, ?_, ?_⟩
  · rw [hf.trace, List.map_eq_flatMap]
    congr 1
    exact List.flatMap_congr fun node hn => (alone_count hn).2
  · refine List.map_congr_left fun node hn => ?_
    rw [hf.results, if_pos hn, (alone_count hn).1]
  · rw [hf.failures, silences]
    exact List.filterMap_congr fun node hn => by rw [(alone_count hn).1]

def chosen (w : Cluster ν ρ) : Except Fault NodeId :=
  match Selection.leastLoadedOf (tally w) with
  | some node => .ok node
  | none => .error ((Fault.ofFailures (silences w)).getD .noNodesAvailable)

theorem run_choose_leastLoaded [Registry ρ] (h : w.ids ≠ []) :
    ∃ w', run (choose .leastLoaded) w = (chosen w, w') ∧
      w'.trace = w.trace ++ w.ids.map fun node => .asked node .count (said w node) := by
  obtain ⟨f, w', hrun, hids, htrace, htally, hfailures⟩ := run_counts w
  refine ⟨w', ?_, htrace⟩
  have hpolled : run (choose .leastLoaded) w = run leastLoaded w := by
    show run (inspect ids >>= _) w = _
    rw [run_bind]
    show run (if w.ids.isEmpty then _ else _) w = _
    rw [if_neg (by simpa using h)]
  rw [hpolled, leastLoaded, run_bind, hrun]
  show run (match Selection.leastLoadedOf (w'.ids.map fun id => (id, f.results.get? id)) with
    | some node => pure node
    | none => throw ((Fault.ofFailures f.failures).getD .noNodesAvailable)) w' = _
  rw [hids, htally, hfailures, chosen]
  cases Selection.leastLoadedOf (tally w) <;> rfl

theorem chosen_eq_ok : chosen w = .ok node ↔ ∃ count, Leads w node count := by
  simp only [← leastAt_iff_leads]
  rw [exists_comm, ← Selection.leastLoadedOf_eq_some_iff, chosen]
  cases Selection.leastLoadedOf (tally w) <;> simp

/-- No node is chosen if no node says its count, and then all of them are named. -/
theorem chosen_eq_error {fault : Fault} (hne : w.ids ≠ []) :
    chosen w = .error fault ↔ (∀ node ∈ w.ids, ∃ cause, said w node = .error cause) ∧
      ∃ causes, fault = .aggregate causes ∧ causes.toList = silences w := by
  have hsilent : Selection.leastLoadedOf (tally w) = none ↔ ∀ node ∈ w.ids, ∃ cause, said w node = .error cause := by
    rw [Selection.leastLoadedOf_eq_none_iff, tally, List.forall_mem_map]
    refine forall₂_congr fun node _ => ?_
    cases said w node <;> simp [Except.toOption]
  rw [← hsilent, ← Fault.ofFailures_eq_some_iff, chosen]
  cases hleast : Selection.leastLoadedOf (tally w) with
  | some node => simp
  | none =>
    -- the nodes that failed are all there are, so there is an aggregate of them
    have hsome : Fault.ofFailures (silences w) ≠ none := by
      rw [ne_eq, Fault.ofFailures_eq_none_iff, silences, List.filterMap_eq_nil_iff]
      intro hnone
      obtain ⟨node, hn⟩ := List.exists_mem_of_ne_nil w.ids hne
      obtain ⟨cause, hcause⟩ := hsilent.1 hleast node hn
      have hfailed := hnone node hn
      rw [hcause] at hfailed
      cases hfailed
    cases hf : Fault.ofFailures (silences w) with
    | none => exact absurd hf hsome
    | some aggregate => simp

theorem silences_of_all (h : ∀ node ∈ w.ids, ∃ cause, said w node = .error cause) :
    (silences w).map (·.1) = w.ids ∧ ∀ e ∈ silences w, said w e.1 = .error e.2 := by
  refine ⟨?_, fun e he => ?_⟩
  · have hnames : (silences w).map (·.1) = w.ids.filterMap some := by
      rw [silences, List.map_filterMap]
      refine List.filterMap_congr fun node hn => ?_
      obtain ⟨cause, hcause⟩ := h node hn
      rw [hcause]
      rfl
    rw [hnames, List.filterMap_some]
  · obtain ⟨node, hn, hfailed⟩ := List.mem_filterMap.1 he
    obtain ⟨cause, hcause⟩ := h node hn
    rw [hcause] at hfailed
    cases hfailed
    exact hcause

/-- What the choice by load comes to: a node that leads, or the aggregate of what all nodes failed with. -/
structure ByLoad (w : Cluster ν ρ) (outcome : Except Fault NodeId) : Prop where
  ok_iff : ∀ node, outcome = .ok node ↔ ∃ count, Leads w node count
  error_iff : (∃ fault, outcome = .error fault) ↔ ∀ node ∈ w.ids, ∃ cause, said w node = .error cause
  aggregate : ∀ fault, outcome = .error fault → ∃ causes, fault = .aggregate causes ∧
    causes.toList.map (·.1) = w.ids ∧ ∀ e ∈ causes.toList, said w e.1 = .error e.2

/-- In a cluster that has nodes the choice by load asks every node once for its count. It comes to the node whose count
is smaller than all known counts of nodes before it, in the ascending order of the names, and not larger than any behind
it, and fails only if all nodes do, which are then named in their order. From any tally, in whatever order and with
whatever names, the first entry with the smallest known count is picked, and none only if no count is known. -/
theorem the_leading_node_is_chosen [Registry ρ] (w : Cluster ν ρ) (nodes : w.ids ≠ []) :
    w.ids.Pairwise (· < ·) ∧
    (∃ outcome w', run (choose .leastLoaded) w = (outcome, w') ∧
      w'.trace = w.trace ++ w.ids.map (fun node => .asked node .count (said w node)) ∧ ByLoad w outcome) ∧
    ∀ tally : List (NodeId × Option Nat),
      (∀ node, Selection.leastLoadedOf tally = some node ↔ ∃ i count, LeastAt tally i node count) ∧
        (Selection.leastLoadedOf tally = none ↔ ∀ e ∈ tally, e.2 = none) := by
  obtain ⟨w', hrun, htrace⟩ := run_choose_leastLoaded nodes
  refine ⟨w.nodes.keys_ascending, ⟨_, w', hrun, htrace, fun node => chosen_eq_ok, ?_, fun fault hfault => ?_⟩,
    fun tally => ⟨fun node => Selection.leastLoadedOf_eq_some_iff, Selection.leastLoadedOf_eq_none_iff⟩⟩
  · constructor
    · rintro ⟨fault, hfault⟩
      exact ((chosen_eq_error nodes).1 hfault).1
    · intro hall
      cases hc : chosen w with
      | error fault => exact ⟨fault, rfl⟩
      | ok node =>
        obtain ⟨count, hleads⟩ := chosen_eq_ok.1 hc
        obtain ⟨cause, hcause⟩ := hall node hleads.mem
        rw [hleads.said] at hcause
        cases hcause
  · obtain ⟨hall, causes, rfl, hcauses⟩ := (chosen_eq_error nodes).1 hfault
    obtain ⟨hnames, hfaults⟩ := silences_of_all hall
    exact ⟨causes, rfl, hcauses ▸ hnames, hcauses ▸ hfaults⟩

def uneven : Cluster Store.Memory Registry.Ledger where
  nodes := Dict.ofList [
    ("a", { unreachable := true }),
    ("b", { records := Dict.ofList [("x", Dict.ofList [("f", "1")]), ("y", Dict.ofList [("f", "2")])] }),
    ("c", { closed := true }),
    ("d", { records := Dict.ofList [("z", Dict.ofList [("f", "3")])], index := Dict.ofList [("z", .zero)] }),
    ("e", { records := Dict.ofList [("u", Dict.ofList [("f", "4")]), ("v", Dict.ofList [("f", "5")])]
            index := Dict.ofList [("u", .zero)] })]

/-- The second and the fourth count two, the index of the fourth included, and the second leads. -/
theorem the_second_of_five_leads : ∃ w', run (choose .leastLoaded) uneven = (.ok "b", w') := by
  obtain ⟨-, ⟨outcome, w', hrun, -, hload⟩, -⟩ := the_leading_node_is_chosen uneven (by decide)
  have before : ∀ other ∈ uneven.ids, other < "b" → ∀ c, said uneven other = .ok c → 2 < c := by
    intro other ho hlt c hc
    have only : ∀ other ∈ uneven.ids, other < "b" → other = "a" := by decide
    obtain rfl := only other ho hlt
    cases hc
  have behind : ∀ other ∈ uneven.ids, "b" < other → ∀ c, said uneven other = .ok c → 2 ≤ c := by
    intro other ho _ c hc
    have known : ∀ other ∈ uneven.ids, (said uneven other).toOption.all (2 ≤ ·) = true := by decide
    have hknown := known other ho
    rw [toOption_eq_some.2 hc] at hknown
    simpa using hknown
  have leads : Leads uneven "b" 2 := ⟨by decide, rfl, before, behind⟩
  exact ⟨w', by rw [hrun, (hload.ok_iff "b").2 ⟨2, leads⟩]⟩

end Cluster

end Placement
