import Placement.Drill.Node
import Placement.Proofs.Disclosure
import Placement.Proofs.Session
import Placement.Registry.Ledger

/-!
A scan visits every node, whatever fails, and gives nothing unless all went well.

A visit asks a node for the keys of its index and reads them in turn, up to the first read that fails; a node that
lists nothing is left at once. `ReadInTurn` and `VisitedInTurn` say of the runs of these reads and calls that each
began where the one before it ended.

- `scanKeys_inTurn`, `scanNodes_inTurn`: a scan is visits of all nodes in turn.
- `scan_visits_every_node`: what is reported of them, and what the client gets.
-/

namespace Placement

def Event.ranges : Event → Bool
  | .asked _ (.indexRange ..) _ => true
  | _ => false

@[simp] theorem Event.ranges_consulted (call : Registry.Call) (answer : Except Fault call.Answer) :
    (consulted call answer).ranges = false := rfl

@[simp] theorem Retrieval.ranges_fetched (key : String) (names : Option (List String)) (node : NodeId)
    (answer : Except Fault Record) : (fetched key names node answer).ranges = false := by
  unfold fetched
  split <;> rfl

namespace Scanning

abbrev Readings := List (String × Except Fault (Option Found))

def failed? (reading : String × Except Fault (Option Found)) : Option Fault := faultOf reading.2

def record? : String × Except Fault (Option Found) → Option Record
  | (_, .ok found) => found.map Found.record
  | (_, .error _) => none

/-- A visit of a node: what its index listed, and what the reads of these keys came to. -/
structure Visit where
  node : NodeId
  listed : Except Fault (List String)
  readings : Readings

namespace Visit

def fault? (v : Visit) : Option Fault := (faultOf v.listed).or (v.readings.findSome? failed?)

def records (v : Visit) : List Record := v.readings.filterMap record?

def cause? (v : Visit) : Option (NodeId × Fault) := v.fault?.map (v.node, ·)

def call (min : Score) (count : Nat) (v : Visit) : Event := .asked v.node (.indexRange min count) v.listed

/-- The listed keys are read in their order, up to the first read that fails. -/
structure Orderly (v : Visit) : Prop where
  listed : ∀ keys, v.listed = .ok keys → UpTo failed? keys v.readings
  unlisted : ∀ fault, v.listed = .error fault → v.readings = []

theorem fault?_isSome_iff (v : Visit) : v.fault?.isSome = true ↔
    (∃ fault, v.listed = .error fault) ∨ ∃ reading ∈ v.readings, ∃ fault, reading.2 = .error fault := by
  simp only [← isSome_faultOf_iff, fault?, Option.isSome_or, Bool.or_eq_true, List.findSome?_isSome_iff, failed?]

end Visit

/-- What a scan reports of its visits. -/
structure Findings (ids : List NodeId) (visits : List Visit) (outcome : Except Fault (List Record)) : Prop where
  /-- Every node is visited once, in ascending order. -/
  nodes : visits.map Visit.node = ids
  ascending : ids.Pairwise (· < ·)
  orderly : ∀ v ∈ visits, v.Orderly
  /-- The scan fails if a node has not listed its keys, or if a read has failed. -/
  fails : (∃ fault, outcome = .error fault) ↔
    ∃ v ∈ visits, (∃ fault, v.listed = .error fault) ∨ ∃ reading ∈ v.readings, ∃ fault, reading.2 = .error fault
  /-- Each node is blamed once, for its first failure. -/
  blamed : ∀ fault, outcome = .error fault → ∃ causes, fault = .aggregate causes ∧
    causes.toList = visits.filterMap Visit.cause? ∧ (causes.toList.map (·.1)).Pairwise (· < ·)
  found : ∀ records, outcome = .ok records → records = visits.flatMap Visit.records

def outcomeOf (visits : List Visit) : Except Fault (List Record) :=
  Fault.outcome (visits.filterMap Visit.cause?) (visits.flatMap Visit.records)

theorem outcomeOf_fails {visits : List Visit} :
    (∃ fault, outcomeOf visits = .error fault) ↔ ∃ v ∈ visits, v.fault?.isSome = true := by
  rw [outcomeOf, Fault.outcome_fails, ne_eq, List.filterMap_eq_nil_iff]
  simp [Visit.cause?, Option.isSome_iff_ne_none]

/-- The nodes that are blamed are some of those visited, in their order. -/
theorem causes_sublist (visits : List Visit) :
    ((visits.filterMap Visit.cause?).map (·.1)).Sublist (visits.map Visit.node) := by
  induction visits with
  | nil => exact List.Sublist.slnil
  | cons v rest ih =>
    cases hf : v.fault? with
    | none => simpa [Visit.cause?, hf, List.filterMap_cons] using ih.cons v.node
    | some fault => simpa [Visit.cause?, hf, List.filterMap_cons] using ih

theorem findings_of_orderly {ids : List NodeId} {visits : List Visit} (hnodes : visits.map Visit.node = ids)
    (hasc : ids.Pairwise (· < ·)) (horderly : ∀ v ∈ visits, v.Orderly) : Findings ids visits (outcomeOf visits) where
  nodes := hnodes
  ascending := hasc
  orderly := horderly
  fails := by simp only [outcomeOf_fails, Visit.fault?_isSome_iff]
  blamed fault hfault := by
    obtain ⟨causes, rfl, hcauses⟩ := Fault.outcome_eq_error.1 hfault
    refine ⟨causes, rfl, hcauses, ?_⟩
    rw [hcauses]
    exact hasc.sublist (hnodes ▸ causes_sublist visits)
  found records hrecords := (Fault.outcome_eq_ok.1 hrecords).2.symm

end Scanning

namespace Cluster

open Scanning

variable {ν ρ : Type} [Store ν] [Registry ρ] {names : Option (List String)} {min : Score} {count : Nat}
  {w w₁ w₂ w' : Cluster ν ρ}

/-- Keys were read one after another, from the first cluster to the last, and came to this. -/
inductive ReadInTurn (names : Option (List String)) : Cluster ν ρ → Readings → Cluster ν ρ → Prop
  | nil (w : Cluster ν ρ) : ReadInTurn names w [] w
  | cons {w w₁ w' : Cluster ν ρ} {key : String} {outcome : Except Fault (Option Found)} {readings : Readings} :
    run (read key names) w = (outcome, w₁) → ReadInTurn names w₁ readings w' →
      ReadInTurn names w ((key, outcome) :: readings) w'

/-- Nodes were visited one after another, from the first cluster to the last, and this is what came of it. -/
inductive VisitedInTurn (min : Score) (count : Nat) (names : Option (List String)) :
    Cluster ν ρ → List Visit → Cluster ν ρ → Prop
  | nil (w : Cluster ν ρ) : VisitedInTurn min count names w [] w
  | cons {w w₁ w₂ w' : Cluster ν ρ} {v : Visit} {visits : List Visit} :
    run (ask v.node (.indexRange min count)) w = (v.listed, w₁) → ReadInTurn names w₁ v.readings w₂ →
      VisitedInTurn min count names w₂ visits w' → VisitedInTurn min count names w (v :: visits) w'

/-! ## Which calls are made -/

/-- A read asks no node for the keys of its index. -/
theorem read_calls (key : String) (names : Option (List String)) (w : Cluster ν ρ) :
    ∃ events, Calls w events (run (read key names) w).2 ∧ ∀ e ∈ events, e.ranges = false := by
  suffices quiet : ∃ events, Calls w events (run (readQuietly key names) w).2 ∧ ∀ e ∈ events, e.ranges = false by
    obtain ⟨events, hc, hno⟩ := quiet
    rw [run_read]
    exact ⟨events, ⟨hc.trace, hc.ids, hc.registered⟩, hno⟩
  rw [run_readQuietly]
  split
  · rename_i hr
    obtain ⟨location, events, hc, hcourse⟩ := readLocated_takes key names hr
    refine ⟨_, hc, ?_⟩
    generalize (run (readLocated key names) w).1 = outcome at hcourse
    cases hcourse <;> simp
  · obtain ⟨answers, -, hc, -⟩ := readFirst_outcome key names w
    refine ⟨_, hc, fun e he => ?_⟩
    obtain ⟨a, -, rfl⟩ := List.mem_map.1 he
    exact Retrieval.ranges_fetched ..

theorem ReadInTurn.calls {readings : Readings} (h : ReadInTurn names w readings w') :
    ∃ events, Calls w events w' ∧ ∀ e ∈ events, e.ranges = false := by
  induction h with
  | nil w => exact ⟨[], .refl w, by simp⟩
  | @cons w w₁ w' key outcome readings hrun _ ih =>
    obtain ⟨events, hc, hno⟩ := read_calls key names w
    rw [hrun] at hc
    obtain ⟨events', hc', hno'⟩ := ih
    exact ⟨_, hc.trans hc', fun e he => (List.mem_append.1 he).elim (hno e) (hno' e)⟩

/-- Among the calls of visits, each visit has asked its node for the keys of its index, once. -/
theorem VisitedInTurn.calls {visits : List Visit} (h : VisitedInTurn min count names w visits w')
    (hn : ∀ v ∈ visits, v.node ∈ w.ids) :
    ∃ events, Calls w events w' ∧ events.filter Event.ranges = visits.map (Visit.call min count) := by
  induction h with
  | nil w => exact ⟨[], .refl w, rfl⟩
  | @cons w w₁ w₂ w' v visits hask hread _ ih =>
    have hcall : Calls w [v.call min count] w₁ := by
      have asked := Ensures.outcome (S := fun listed w' => Calls w [.asked v.node (.indexRange min count) listed] w')
        (ask_calls (hn v List.mem_cons_self) (.indexRange min count))
      rwa [hask] at asked
    obtain ⟨reads, hreads, hno⟩ := hread.calls
    have hids : w₂.ids = w.ids := hreads.ids.trans hcall.ids
    obtain ⟨events, hc, hranges⟩ := ih fun v' hv' => hids ▸ hn v' (List.mem_cons_of_mem _ hv')
    refine ⟨_, hcall.trans (hreads.trans hc), ?_⟩
    have hnone : reads.filter Event.ranges = [] := by
      rw [List.filter_eq_nil_iff]
      intro e he
      rw [hno e he]
      exact Bool.false_ne_true
    rw [List.filter_append, List.filter_append, hnone, hranges]
    rfl

/-! ## A scan is visits in turn -/

theorem scanKeys_inTurn (node : NodeId) (names : Option (List String)) (s : Scanned) (keys : List String)
    (w : Cluster ν ρ) :
    ∃ readings w', UpTo failed? keys readings ∧ ReadInTurn names w readings w' ∧
      run (scanKeys node names s keys) w = (.ok ⟨s.records ++ readings.filterMap record?,
        s.failures ++ ((readings.findSome? failed?).map (node, ·)).toList⟩, w') := by
  induction keys generalizing w s with
  | nil =>
    refine ⟨[], w, .done, .nil w, ?_⟩
    show (Except.ok s, w) = _
    simp
  | cons key rest ih =>
    have step : run (scanKeys node names s (key :: rest)) w = run (attempt (read key names) >>= _) w := rfl
    rw [step, run_bind, run_attempt]
    rcases hr : run (read key names) w with ⟨fault | _ | found, w₁⟩
    · refine ⟨[(key, .error fault)], w₁, .settled rfl, .cons hr (.nil w₁), ?_⟩
      show (Except.ok (⟨s.records, s.failures ++ [(node, fault)]⟩ : Scanned), w₁) = _
      simp [record?, failed?, List.filterMap_cons]
    · obtain ⟨readings, w', hup, hread, hrun⟩ := ih s w₁
      refine ⟨(key, .ok none) :: readings, w', hup.goesOn rfl, .cons hr hread, hrun.trans ?_⟩
      simp [record?, failed?, List.filterMap_cons, List.findSome?_cons]
    · obtain ⟨readings, w', hup, hread, hrun⟩ := ih { s with records := s.records ++ [found.record] } w₁
      refine ⟨(key, .ok (some found)) :: readings, w', hup.goesOn rfl, .cons hr hread, hrun.trans ?_⟩
      simp [record?, failed?, List.findSome?_cons]

theorem scanNodes_inTurn (min : Score) (count : Nat) (names : Option (List String)) (s : Scanned)
    (nodes : List NodeId) (w : Cluster ν ρ) :
    ∃ visits w', visits.map Visit.node = nodes ∧ (∀ v ∈ visits, v.Orderly) ∧
      VisitedInTurn min count names w visits w' ∧
      run (scanNodes min count names s nodes) w = (.ok ⟨s.records ++ visits.flatMap Visit.records,
        s.failures ++ visits.filterMap Visit.cause?⟩, w') := by
  induction nodes generalizing w s with
  | nil =>
    refine ⟨[], w, rfl, by simp, .nil w, ?_⟩
    show (Except.ok s, w) = _
    simp
  | cons node rest ih =>
    have step : run (scanNodes min count names s (node :: rest)) w =
        run (attempt (ask node (.indexRange min count)) >>= _) w := rfl
    rw [step, run_bind, run_attempt]
    rcases hr : run (ask node (.indexRange min count)) w with ⟨fault | keys, w₁⟩
    · obtain ⟨visits, w', hnodes, horderly, hvisits, hrun⟩ :=
        ih { s with failures := s.failures ++ [(node, fault)] } w₁
      have hfirst : Visit.Orderly ⟨node, .error fault, []⟩ := ⟨fun _ hl => (by cases hl), fun _ _ => rfl⟩
      refine ⟨⟨node, .error fault, []⟩ :: visits, w', by rw [List.map_cons, hnodes],
        List.forall_mem_cons.2 ⟨hfirst, horderly⟩, .cons hr (.nil w₁) hvisits, hrun.trans ?_⟩
      simp [Visit.records, Visit.cause?, Visit.fault?]
    · obtain ⟨readings, w₂, hup, hread, hkeys⟩ := scanKeys_inTurn node names s keys w₁
      obtain ⟨visits, w', hnodes, horderly, hvisits, hrun⟩ := ih
        ⟨s.records ++ readings.filterMap record?, s.failures ++ ((readings.findSome? failed?).map (node, ·)).toList⟩ w₂
      have hfirst : Visit.Orderly ⟨node, .ok keys, readings⟩ :=
        ⟨fun _ hl => Except.ok.inj hl ▸ hup, fun _ hl => (by cases hl)⟩
      refine ⟨⟨node, .ok keys, readings⟩ :: visits, w', by rw [List.map_cons, hnodes],
        List.forall_mem_cons.2 ⟨hfirst, horderly⟩, .cons hr hread hvisits, ?_⟩
      dsimp only
      rw [run_bind, hkeys]
      refine hrun.trans ?_
      cases hf : readings.findSome? failed? <;> simp [Visit.records, Visit.cause?, Visit.fault?, hf]

theorem scan_inTurn (start : String) (count : Nat) (names : Option (List String)) (w : Cluster ν ρ) :
    ∃ visits w', run (scan start count names) w = (outcomeOf visits, w') ∧
      VisitedInTurn (KeyHash.score start) count names w visits w' ∧ Findings w.ids visits (outcomeOf visits) := by
  obtain ⟨visits, w', hnodes, horderly, hvisits, hrun⟩ := scanNodes_inTurn (KeyHash.score start) count names {} w.ids w
  refine ⟨visits, w', ?_, hvisits, findings_of_orderly hnodes w.nodes.keys_ascending horderly⟩
  have step : run (scan start count names) w =
      run (scanNodes (KeyHash.score start) count names {} w.ids >>= fun s => unlessFailed s.failures s.records) w := rfl
  rw [step, run_bind, hrun]
  exact run_unlessFailed ..

end Cluster

namespace Coordinator

open Cluster Scanning

variable {ν ρ : Type} [Store ν] [Registry ρ]

/-- Whatever the nodes and the registry answer, a scan asks every node once for the keys of its index, in ascending
order, and reads these until a read fails. The client gets records only if nothing failed. -/
theorem scan_visits_every_node (start : String) (count : Nat) (names : Option (List String)) (into : List Record)
    (c : Coordinator ν ρ) :
    ∃ visits outcome w' events status given,
      Cluster.run (Cluster.scan start count names) c.cluster = (outcome, w') ∧
      VisitedInTurn (KeyHash.score start) count names c.cluster visits w' ∧
      w'.trace = c.cluster.trace ++ events ∧
      events.filter Event.ranges = visits.map (Visit.call (KeyHash.score start) count) ∧
      Findings c.cluster.ids visits outcome ∧
      scan start count names into c = ((status, given), { c with cluster := w' }) ∧
      (status = .ok ↔ ∃ records, outcome = .ok records) ∧
      (∀ records, outcome = .ok records → given = into ++ records) ∧
      (status ≠ .ok → given = into) := by
  obtain ⟨visits, w', hrun, hvisits, hfindings⟩ := scan_inTurn start count names c.cluster
  have hn : ∀ v ∈ visits, v.node ∈ c.cluster.ids := fun v hv => hfindings.nodes ▸ List.mem_map_of_mem hv
  obtain ⟨events, hcalls, hranges⟩ := hvisits.calls hn
  have hscan := scan_eq start count names into c
  rw [hrun] at hscan
  cases ho : outcomeOf visits with
  | error fault =>
    rw [ho] at hscan hrun hfindings
    exact ⟨visits, _, w', events, .error, into, hrun, hvisits, hcalls.trace, hranges, hfindings, hscan, by simp, by simp,
      fun _ => rfl⟩
  | ok records =>
    rw [ho] at hscan hrun hfindings
    exact ⟨visits, _, w', events, .ok, into ++ records, hrun, hvisits, hcalls.trace, hranges, hfindings, hscan, by simp,
      by simp, by simp⟩

/-- The first of three nodes cannot be reached, and the second does not give the second of the keys that it lists. -/
def ailing : Coordinator Drill.Node Registry.Ledger where
  cluster.nodes := Dict.ofList [("a", { memory.unreachable := true }),
    ("b", { memory.records := Dict.ofList [("s", Dict.ofList [("f", "1")])],
            plans := [{ meets := (· matches .indexRange ..), effect := .answer (.keys ["s", "t", "u"]) },
              { meets := (· == .fetch "t"), effect := .fail (.connection .nodeClosed) }] }),
    ("c", { memory.index := Dict.ofList [("v", KeyHash.score "v")] })]
  cluster.registry := some
    ⟨Dict.ofList [("s", ⟨"b", true⟩), ("t", ⟨"b", true⟩), ("u", ⟨"b", true⟩), ("v", ⟨"c", true⟩)]⟩

theorem a_scan_goes_on_past_failures :
    let old : Record := Dict.ofList [("f", "0")]
    ∃ visits w', VisitedInTurn (KeyHash.score "u") 3 none ailing.cluster visits w' ∧
      visits.map Visit.node = ["a", "b", "c"] ∧
      visits.filterMap Visit.cause? = [("a", .connection .nodeUnreachable), ("b", .connection .nodeClosed)] ∧
      (w'.trace.filterMap fun | .consulted (.locate key) _ => some key | _ => none) = ["s", "t", "v"] ∧
      scan "u" 3 none [old] ailing = ((.error, [old]), { ailing with cluster := w' }) := by
  intro old
  obtain ⟨visits, outcome, w', events, status, given, hrun, hvisits, -, -, hfindings, hscan, -, -, hgiven⟩ :=
    scan_visits_every_node "u" 3 none [old] ailing
  have hfault : faultOf (Cluster.run (Cluster.scan "u" 3 none) ailing.cluster).1 =
      some (.aggregate (.more "a" (.connection .nodeUnreachable) (.one "b" (.connection .nodeClosed)))) := by
    decide +kernel
  have hlocated : ((Cluster.run (Cluster.scan "u" 3 none) ailing.cluster).2.trace.filterMap fun
      | .consulted (.locate key) _ => some key
      | _ => none) = ["s", "t", "v"] := by decide +kernel
  have hstatus : (scan "u" 3 none [old] ailing).1.1 = .error := by decide +kernel
  rw [hrun] at hfault hlocated
  rw [hscan] at hstatus ⊢
  obtain rfl : status = .error := hstatus
  cases outcome with
  | ok records => cases hfault
  | error fault =>
    cases hfault
    obtain ⟨causes, he, hcauses, -⟩ := hfindings.blamed _ rfl
    cases he
    exact ⟨visits, w', hvisits, hfindings.nodes, hcauses.symm, hlocated, by rw [hgiven nofun]⟩

end Coordinator

end Placement
