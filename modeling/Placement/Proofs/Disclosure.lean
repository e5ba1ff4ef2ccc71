import Placement.Proofs.Calls
import Placement.Proofs.Isolation

/-!
A read hides no record behind a failure, and no failure behind an absence.

Without a registry the nodes are asked in turn up to the first that has fields to give, whatever those before it failed
with (`Walked`). With one, the key is looked up, at most the node that was named is asked, and its capacity is handed
back (`Course`, `Located`); then what went wrong first is what is reported.

- `readFirst_walks`, `readLocated_takes`: which calls are made.
- `read_discloses`: what a read answers, whatever its calls are answered.
-/

namespace Placement

namespace Event

def fault? : Event → Option Fault
  | .asked _ _ answer => faultOf answer
  | .consulted _ answer => faultOf answer

def asks : Event → Bool
  | .asked .. => true
  | .consulted .. => false

section
variable (call : Registry.Call) (answer : Except Fault call.Answer)

@[simp] theorem fault?_consulted : (consulted call answer).fault? = faultOf answer := rfl

@[simp] theorem asks_consulted : (consulted call answer).asks = false := rfl

end

end Event

namespace Retrieval

def fetched (key : String) (names : Option (List String)) (node : NodeId) (answer : Except Fault Record) : Event :=
  match Record.namesOf names with
  | some names => .asked node (.fetchFields key names) answer
  | none => .asked node (.fetch key) answer

section
variable {key : String} {names : Option (List String)} {node node' : NodeId} {answer answer' : Except Fault Record}

@[simp] theorem fetched_inj :
    fetched key names node answer = fetched key names node' answer' ↔ node = node' ∧ answer = answer' := by
  unfold fetched
  split <;> simp

@[simp] theorem fetched_ne_consulted {call : Registry.Call} {said : Except Fault call.Answer} :
    fetched key names node answer ≠ .consulted call said := by
  unfold fetched
  split <;> simp

@[simp] theorem consulted_ne_fetched {call : Registry.Call} {said : Except Fault call.Answer} :
    .consulted call said ≠ fetched key names node answer :=
  fetched_ne_consulted.symm

@[simp] theorem asks_fetched : (fetched key names node answer).asks = true := by
  unfold fetched
  split <;> rfl

@[simp] theorem fault?_fetched : (fetched key names node answer).fault? = faultOf answer := by
  unfold fetched
  split <;> rfl

theorem node_of_fetched {call : Store.Call} {said : Except Fault call.Answer}
    (h : .asked node' call said = fetched key names node answer) : node' = node := by
  unfold fetched at h
  split at h
  · exact (Event.asked.inj h).1
  · exact (Event.asked.inj h).1

end

/-! ## Asking the nodes in turn -/

abbrev Answers := List (NodeId × Except Fault Record)

/-- What a node has to give, if it answered and has fields. -/
def offer : NodeId × Except Fault Record → Option Found
  | (node, .ok record) => Found.of node record
  | (_, .error _) => none

def failures (answers : Answers) : List (NodeId × Fault) := answers.filterMap fun a => FanOut.failureOf a.1 a.2

theorem of_eq_some_iff {node : NodeId} {record : Record} {found : Found} :
    Found.of node record = some found ↔ found = ⟨node, record⟩ ∧ record.isEmpty = false := by
  unfold Found.of
  cases record.isEmpty <;> simp [eq_comm]

theorem of_eq_none_iff {node : NodeId} {record : Record} : Found.of node record = none ↔ record = Dict.empty := by
  rw [← Dict.isEmpty_iff]
  unfold Found.of
  cases record.isEmpty <;> simp

theorem offer_eq_some_iff {a : NodeId × Except Fault Record} {found : Found} :
    offer a = some found ↔ a = (found.node, .ok found.record) ∧ found.record.isEmpty = false := by
  obtain ⟨node, fault | record⟩ := a
  · simp [offer]
  · obtain ⟨node', record'⟩ := found
    simp only [offer, of_eq_some_iff, Found.mk.injEq, Prod.mk.injEq, Except.ok.injEq]
    constructor
    · rintro ⟨⟨rfl, rfl⟩, h⟩
      exact ⟨⟨rfl, rfl⟩, h⟩
    · rintro ⟨⟨rfl, rfl⟩, h⟩
      exact ⟨⟨rfl, rfl⟩, h⟩

/-- An answer that offers nothing and is no failure is a record without fields. -/
theorem offer_eq_none_iff {a : NodeId × Except Fault Record} :
    offer a = none ∧ FanOut.failureOf a.1 a.2 = none ↔ a.2 = .ok Dict.empty := by
  obtain ⟨node, fault | record⟩ := a
  · simp [FanOut.failureOf]
  · simp [offer, of_eq_none_iff, FanOut.failureOf]

structure Walked (ids : List NodeId) (answers : Answers) (outcome : Except Fault (Option Found)) : Prop where
  /-- They are asked in ascending order up to the first that has fields to give, and none behind it. -/
  ascending : (answers.map (·.1)).Pairwise (· < ·)
  upTo : UpTo offer ids answers
  /-- What it gives is found, whatever others failed with before. -/
  found : ∀ node record,
    outcome = .ok (some ⟨node, record⟩) ↔ (node, .ok record) ∈ answers ∧ record.isEmpty = false
  /-- Nothing is there only if every node has said so. -/
  absent : outcome = .ok none ↔ answers = ids.map fun node => (node, .ok Dict.empty)
  /-- Where no node has anything to give, all failures are reported, and nothing else ever is. -/
  failed : ∀ fault, outcome = .error fault ↔ (∀ a ∈ answers, offer a = none) ∧
    ∃ causes, fault = .aggregate causes ∧ causes.toList = failures answers

def outcomeOf (failed : List (NodeId × Fault)) (answers : Answers) : Except Fault (Option Found) :=
  match answers.findSome? offer with
  | some found => .ok (some found)
  | none => Fault.outcome (failed ++ failures answers) none

section
variable {failed : List (NodeId × Fault)} {answers : Answers}

/-- An answer that offers nothing is a failure behind those before it, or is as good as none. -/
theorem outcomeOf_cons {node : NodeId} {answer : Except Fault Record} (hno : offer (node, answer) = none) :
    outcomeOf failed ((node, answer) :: answers) =
      outcomeOf (failed ++ (FanOut.failureOf node answer).toList) answers := by
  have hfailed : failed ++ failures ((node, answer) :: answers) =
      failed ++ (FanOut.failureOf node answer).toList ++ failures answers := by
    cases answer <;> simp [failures, FanOut.failureOf]
  rw [outcomeOf, outcomeOf, List.findSome?_cons, hno, hfailed]

theorem outcomeOf_eq_found {found : Found} :
    outcomeOf failed answers = .ok (some found) ↔ answers.findSome? offer = some found := by
  unfold outcomeOf
  cases answers.findSome? offer <;> simp [Fault.outcome_eq_ok]

theorem outcomeOf_eq_nothing : outcomeOf [] answers = .ok none ↔ ∀ a ∈ answers, a.2 = .ok Dict.empty := by
  simp only [← offer_eq_none_iff, forall_and]
  rw [← List.findSome?_eq_none_iff, ← List.filterMap_eq_nil_iff, outcomeOf]
  cases answers.findSome? offer <;> simp [Fault.outcome_eq_ok, failures]

theorem outcomeOf_eq_error {fault : Fault} : outcomeOf [] answers = .error fault ↔
    (∀ a ∈ answers, offer a = none) ∧ ∃ causes, fault = .aggregate causes ∧ causes.toList = failures answers := by
  rw [← List.findSome?_eq_none_iff, outcomeOf]
  cases answers.findSome? offer <;> simp [Fault.outcome_eq_error]

end

theorem walked_of_upTo {ids : List NodeId} {answers : Answers} (h : UpTo offer ids answers)
    (hasc : ids.Pairwise (· < ·)) : Walked ids answers (outcomeOf [] answers) where
  ascending := hasc.sublist h.order.sublist
  upTo := h
  found node record := by
    rw [outcomeOf_eq_found, h.findSome?_eq_some_iff]
    simp only [offer_eq_some_iff]
    constructor
    · rintro ⟨a, ha, rfl, hfields⟩
      exact ⟨ha, hfields⟩
    · rintro ⟨ha, hfields⟩
      exact ⟨_, ha, rfl, hfields⟩
  absent := by
    rw [outcomeOf_eq_nothing]
    constructor
    · intro hempty
      have hall : answers.map (·.1) = ids := h.all fun a ha => (offer_eq_none_iff.2 (hempty a ha)).1
      rw [← hall, List.map_map]
      refine (List.map_id answers).symm.trans (List.map_congr_left fun a ha => ?_)
      exact Prod.ext rfl (hempty a ha)
    · rintro rfl a ha
      obtain ⟨node, -, rfl⟩ := List.mem_map.1 ha
      rfl
  failed _ := outcomeOf_eq_error

/-! ## Asking the place that the registry names -/

section
variable (ids : List NodeId) (key : String) (names : Option (List String))

/-- The calls of a read behind its look-up in the registry, and what it comes to. -/
inductive Course : Except Fault (Option Location) → List Event → Except Fault (Option Found) → Prop
  | unlocated (fault : Fault) : Course (.error fault) [] (.error fault)
  | unknown : Course (.ok none) [] (.ok none)
  | absent (node : NodeId) (released : Except Fault Unit) :
    Course (.ok (some ⟨node, false⟩)) [.consulted (.release node) released] (released.map fun _ => none)
  | astray {node : NodeId} (released : Except Fault Unit) : node ∉ ids →
    Course (.ok (some ⟨node, true⟩)) [.consulted (.release node) released] (.error (.unknownNode node))
  | unfetched {node : NodeId} (fault : Fault) (released : Except Fault Unit) : node ∈ ids →
    Course (.ok (some ⟨node, true⟩)) [fetched key names node (.error fault), .consulted (.release node) released]
      (.error fault)
  | fetched {node : NodeId} (record : Record) (released : Except Fault Unit) : node ∈ ids →
    Course (.ok (some ⟨node, true⟩)) [fetched key names node (.ok record), .consulted (.release node) released]
      (released.map fun _ => Found.of node record)

end

structure Located (ids : List NodeId) (key : String) (names : Option (List String))
    (location : Except Fault (Option Location)) (events : List Event) (outcome : Except Fault (Option Found)) : Prop where
  /-- The node that was named is asked at most once, and no other is; what else is called is its release. -/
  asked : ∀ node call answer, .asked node call answer ∈ events → location = .ok (some ⟨node, true⟩)
  once : events.countP Event.asks ≤ 1
  released : ∀ e ∈ events, e.asks = false →
    ∃ node present answer, location = .ok (some ⟨node, present⟩) ∧ e = .consulted (.release node) answer
  /-- A record is found if the named node gives it and its capacity is handed back. -/
  found : ∀ node record, outcome = .ok (some ⟨node, record⟩) ↔
    location = .ok (some ⟨node, true⟩) ∧ node ∈ ids ∧ fetched key names node (.ok record) ∈ events ∧
      record.isEmpty = false ∧ .consulted (.release node) (.ok ()) ∈ events
  /-- Nothing is there only if nothing failed. -/
  absent : outcome = .ok none ↔ (∀ e ∈ .consulted (.locate key) location :: events, e.fault? = none) ∧
    (location = .ok none ∨ (∃ node, location = .ok (some ⟨node, false⟩)) ∨
      ∃ node, fetched key names node (.ok Dict.empty) ∈ events)
  /-- A failed fetch is reported, whatever the release did. -/
  unfetched : ∀ node fault, fetched key names node (.error fault) ∈ events → outcome = .error fault
  astray : ∀ node, location = .ok (some ⟨node, true⟩) → node ∉ ids → outcome = .error (.unknownNode node)
  /-- What failed first is what is reported. -/
  failed : (∀ node, location = .ok (some ⟨node, true⟩) → node ∈ ids) → ∀ fault,
    outcome = .error fault ↔ (.consulted (.locate key) location :: events).findSome? Event.fault? = some fault

theorem Course.located {ids : List NodeId} {key : String} {names : Option (List String)}
    {location : Except Fault (Option Location)} {events : List Event} {outcome : Except Fault (Option Found)}
    (h : Course ids key names location events outcome) : Located ids key names location events outcome where
  asked node call answer hm := by
    -- a course asks one node at most, and only for the record
    cases h with
    | unlocated | unknown => cases hm
    | absent | astray => simp at hm
    | unfetched _ _ hn | fetched _ _ hn =>
      obtain rfl := node_of_fetched (by simpa using hm)
      rfl
  once := by
    cases h <;> simp
  released e he ha := by
    cases h with
    | unlocated | unknown => cases he
    | absent node released | astray released _ =>
      exact ⟨_, _, released, rfl, List.mem_singleton.1 he⟩
    | unfetched _ released _ | fetched _ released _ =>
      rcases List.mem_cons.1 he with rfl | he
      · simp at ha
      · exact ⟨_, _, released, rfl, List.mem_singleton.1 he⟩
  found node record := by
    cases h with
    | unlocated | unknown | astray | unfetched => simp
    | absent _ released => cases released <;> simp [Except.map]
    | fetched record' released hn =>
      cases released with
      | error fault => simp [Except.map]
      | ok =>
        simp only [Except.map, Except.ok.injEq, of_eq_some_iff, Found.mk.injEq]
        constructor
        · rintro ⟨⟨rfl, rfl⟩, hfields⟩
          exact ⟨rfl, hn, List.mem_cons_self, hfields, by simp⟩
        · rintro ⟨-, -, hm, hfields, -⟩
          simp at hm
          exact ⟨hm, hm.2 ▸ hfields⟩
  absent := by
    cases h with
    | unlocated | unknown | astray | unfetched => simp
    | absent _ released => cases released <;> simp [Except.map]
    | fetched record' released hn => cases released <;> simp [Except.map, of_eq_none_iff, @eq_comm _ Dict.empty]
  unfetched node fault hm := by
    cases h <;> simp_all
  astray node hl hn := by
    cases h <;> simp_all
  failed hids fault := by
    cases h with
    | unlocated | unknown | unfetched => simp [List.findSome?_cons]
    | absent _ released => cases released <;> simp [Except.map, List.findSome?_cons]
    | astray released hn => exact absurd (hids _ rfl) hn
    | fetched record' released hn => cases released <;> simp [Except.map, List.findSome?_cons]

end Retrieval

/-! ## What a read calls -/

namespace Cluster

open Retrieval

variable {ν ρ : Type} [Store ν] {w : Cluster ν ρ} {node : NodeId}

theorem fetch_calls (hn : node ∈ w.ids) (key : String) (names : Option (List String)) :
    Ensures w (fetch node key names) (fun record w' => Calls w [fetched key names node (.ok record)] w')
      fun fault w' => Calls w [fetched key names node (.error fault)] w' := by
  unfold fetch fetched
  cases Record.namesOf names with
  | none => exact ask_calls hn (.fetch key)
  | some names => exact ask_calls hn (.fetchFields key names)

/-- A node that is not there cannot be asked. -/
theorem fetch_unknown (hn : node ∉ w.ids) (key : String) (names : Option (List String)) :
    Ensures w (fetch node key names) (fun _ _ => False) fun fault w' => fault = .unknownNode node ∧ w' = w := by
  have unknown : ∀ call : Store.Call, Ensures w (ask node call) (fun _ _ => False)
      fun fault w' => fault = .unknownNode node ∧ w' = w := by
    intro call
    have there : ∀ state, w.nodes.get? node ≠ some state := fun state hs =>
      hn (Dict.mem_keys.2 (Dict.contains_iff.2 ⟨state, hs⟩))
    exact ensures_ask (fun state _ _ hs _ => there state hs) (fun state _ _ hs _ => absurd hs (there state))
      fun _ => ⟨rfl, rfl⟩
  unfold fetch
  cases Record.namesOf names with
  | none => exact unknown (.fetch key)
  | some names => exact unknown (.fetchFields key names)

/-- Nodes were asked up to the first that has fields to give, with these failures behind it, and this is what came of
it. -/
def Walks (key : String) (names : Option (List String)) (w : Cluster ν ρ) (failed : List (NodeId × Fault))
    (nodes : List NodeId) (outcome : Except Fault (Option Found)) (w' : Cluster ν ρ) : Prop :=
  ∃ answers, UpTo offer nodes answers ∧ Calls w (answers.map fun a => fetched key names a.1 a.2) w' ∧
    outcome = outcomeOf failed answers

omit [Store ν] in
/-- Behind a node that has nothing to give, the walk goes on. -/
theorem Walks.behind {key : String} {names : Option (List String)} {w₁ w' : Cluster ν ρ}
    {failed : List (NodeId × Fault)} {rest : List NodeId} {answer : Except Fault Record}
    {outcome : Except Fault (Option Found)} (hno : offer (node, answer) = none)
    (hc : Calls w [fetched key names node answer] w₁)
    (h : Walks key names w₁ (failed ++ (FanOut.failureOf node answer).toList) rest outcome w') :
    Walks key names w failed (node :: rest) outcome w' := by
  obtain ⟨answers, hup, hc', houtcome⟩ := h
  exact ⟨(node, answer) :: answers, hup.goesOn hno, hc.trans hc', houtcome.trans (outcomeOf_cons hno).symm⟩

/-- Whatever the nodes answer, they are asked up to the first that has fields to give. -/
theorem readFirst_walks (key : String) (names : Option (List String)) {nodes : List NodeId}
    (hn : ∀ node ∈ nodes, node ∈ w.ids) (failed : List (NodeId × Fault)) :
    Ensures w (readFirst key names failed nodes) (fun found => Walks key names w failed nodes (.ok found))
      fun fault => Walks key names w failed nodes (.error fault) := by
  induction nodes generalizing w failed with
  | nil =>
    refine ensures_unlessFailed ⟨[], .done, .refl w, ?_⟩
    simp [outcomeOf, failures]
  | cons node rest ih =>
    have goesOn : ∀ {answer : Except Fault Record} {w₁ : Cluster ν ρ}, offer (node, answer) = none →
        Calls w [fetched key names node answer] w₁ →
        Ensures w₁ (readFirst key names (failed ++ (FanOut.failureOf node answer).toList) rest)
          (fun found => Walks key names w failed (node :: rest) (.ok found))
          fun fault => Walks key names w failed (node :: rest) (.error fault) := by
      intro answer w₁ hno hc
      have rest := ih (fun other ho => hc.ids ▸ hn other (List.mem_cons_of_mem _ ho))
        (failed ++ (FanOut.failureOf node answer).toList)
      exact rest.mono (fun _ _ h => h.behind hno hc) fun _ _ h => h.behind hno hc
    refine (fetch_calls (hn node List.mem_cons_self) key names).attempt_bind (fun record w₁ h₁ => ?_)
      fun fault w₁ h₁ => goesOn rfl h₁
    dsimp only
    split
    · rename_i hempty
      have hno : offer (node, .ok record) = none := of_eq_none_iff.2 (Dict.isEmpty_iff.1 hempty)
      simpa [FanOut.failureOf] using goesOn hno h₁
    · rename_i hfields
      have hoffer : offer (node, .ok record) = some ⟨node, record⟩ :=
        of_eq_some_iff.2 ⟨rfl, Bool.eq_false_iff.2 hfields⟩
      refine ensures_pure ⟨[(node, .ok record)], .settled (by rw [hoffer]; rfl), h₁, ?_⟩
      rw [outcomeOf, List.findSome?_cons, hoffer]

/-- Without a registry the outcome of a read is that of its walk. -/
theorem readFirst_outcome (key : String) (names : Option (List String)) (w : Cluster ν ρ) :
    Walks key names w [] w.ids (run (readFirst key names [] w.ids) w).1 (run (readFirst key names [] w.ids) w).2 :=
  Ensures.outcome (readFirst_walks key names (fun _ hn => hn) [])

variable [Registry ρ]

omit [Store ν] in
/-- The capacity is handed back whatever the fetch came to, and a failure of the fetch comes before one of that. -/
theorem release_calls (hr : w.registry.isSome = true) (node : NodeId) (got : Except Fault Record) :
    Ensures w
      (do
        let released ← attempt (consult (.release node))
        let record ← got
        released
        return Found.of node record : Op ν ρ (Option Found))
      (fun found w' => ∃ released : Except Fault Unit, Calls w [.consulted (.release node) released] w' ∧
        (got.bind fun record => released.map fun _ => Found.of node record) = .ok found)
      fun fault w' => ∃ released : Except Fault Unit, Calls w [.consulted (.release node) released] w' ∧
        (got.bind fun record => released.map fun _ => Found.of node record) = .error fault := by
  have ends : ∀ {released : Except Fault Unit} {w₁ : Cluster ν ρ},
      Calls w [.consulted (.release node) released] w₁ →
      Ensures w₁
        (do
          let record ← got
          released
          return Found.of node record : Op ν ρ (Option Found))
        (fun found w' => ∃ released : Except Fault Unit, Calls w [.consulted (.release node) released] w' ∧
          (got.bind fun record => released.map fun _ => Found.of node record) = .ok found)
        fun fault w' => ∃ released : Except Fault Unit, Calls w [.consulted (.release node) released] w' ∧
          (got.bind fun record => released.map fun _ => Found.of node record) = .error fault := by
    intro released w₁ h₁
    rcases got with fault | record
    · exact ensures_throw ⟨released, h₁, rfl⟩
    · rcases released with fault | _
      · exact ensures_throw ⟨.error fault, h₁, rfl⟩
      · exact ensures_pure ⟨.ok (), h₁, rfl⟩
  exact (consult_calls hr (.release node)).attempt_bind (fun _ _ h₁ => ends h₁) fun _ _ h₁ => ends h₁

theorem readLocated_takes (key : String) (names : Option (List String)) (hr : w.registry.isSome = true) :
    ∃ location events, Calls w (.consulted (.locate key) location :: events) (run (readLocated key names) w).2 ∧
      Course w.ids key names location events (run (readLocated key names) w).1 := by
  refine Ensures.outcome (S := fun outcome w' => ∃ location events,
    Calls w (.consulted (.locate key) location :: events) w' ∧ Course w.ids key names location events outcome) ?_
  refine (consult_calls hr (.locate key)).andThen (fun fault w₁ h₁ => ⟨_, [], h₁, .unlocated fault⟩) ?_
  rintro (_ | ⟨node, present⟩) w₁ h₁
  · exact ensures_pure ⟨_, [], h₁, .unknown⟩
  have hr₁ : w₁.registry.isSome = true := h₁.registered.trans hr
  -- what the calls before the release come to is the course they are on
  have ends : ∀ {got : Except Fault Record} {before : List Event} {w₂ : Cluster ν ρ}, Calls w₁ before w₂ →
      (∀ released : Except Fault Unit,
        Course w.ids key names (.ok (some ⟨node, present⟩)) (before ++ [.consulted (.release node) released])
          (got.bind fun record => released.map fun _ => Found.of node record)) →
      Ensures w₂
        (do
          let released ← attempt (consult (.release node))
          let record ← got
          released
          return Found.of node record : Op ν ρ (Option Found))
        (fun found w' => ∃ location events, Calls w (.consulted (.locate key) location :: events) w' ∧
          Course w.ids key names location events (.ok found))
        fun fault w' => ∃ location events, Calls w (.consulted (.locate key) location :: events) w' ∧
          Course w.ids key names location events (.error fault) := by
    intro got before w₂ h₂ hcourse
    refine (release_calls (h₂.registered.trans hr₁) node got).mono ?_ ?_
    · rintro found w₃ ⟨released, h₃, hfound⟩
      exact ⟨_, _, h₁.trans (h₂.trans h₃), hfound ▸ hcourse released⟩
    · rintro fault w₃ ⟨released, h₃, hfault⟩
      exact ⟨_, _, h₁.trans (h₂.trans h₃), hfault ▸ hcourse released⟩
  cases present with
  | false =>
    refine Ensures.attempt_bind (Q := fun record w₂ => record = Dict.empty ∧ w₂ = w₁) (E := fun _ _ => False)
      (ensures_pure ⟨rfl, rfl⟩) ?_ fun _ _ hf => hf.elim
    rintro record w₂ ⟨rfl, rfl⟩
    exact ends (.refl w₂) fun released => .absent node released
  | true =>
    by_cases hn : node ∈ w.ids
    · refine (fetch_calls (h₁.ids ▸ hn) key names).attempt_bind (fun record w₂ h₂ => ?_) fun fault w₂ h₂ => ?_
      · exact ends h₂ fun released => .fetched record released hn
      · exact ends h₂ fun released => .unfetched fault released hn
    · refine (fetch_unknown (h₁.ids ▸ hn) key names).attempt_bind (fun _ _ hf => hf.elim) ?_
      rintro fault w₂ ⟨rfl, rfl⟩
      exact ends (.refl w₂) fun released => .astray released hn

/-- A read comes to what it comes to without an observer, and makes no other calls. -/
theorem run_read (key : String) (names : Option (List String)) (w : Cluster ν ρ) :
    run (read key names) w =
      ((run (readQuietly key names) w).1,
        { (run (readQuietly key names) w).2 with
          observer := (run (readQuietly key names) w).2.observer.map
            (· ++ [Sighting.of key (run (readQuietly key names) w).1]) }) := by
  rw [read, run_bind, run_attempt]
  rcases run (readQuietly key names) w with ⟨fault | found, w₁⟩ <;> rfl

theorem run_readQuietly (key : String) (names : Option (List String)) (w : Cluster ν ρ) :
    run (readQuietly key names) w =
      if w.registry.isSome then run (readLocated key names) w else run (readFirst key names [] w.ids) w := by
  show run (if w.registry.isSome = true then _ else _) w = _
  split <;> rfl

/-- Lists that name the same fields are read alike. -/
theorem read_congr {names names' : Option (List String)} (h : Record.namesOf names = Record.namesOf names')
    (key : String) : (read key names : Op ν ρ (Option Found)) = read key names' := by
  have fetches : ∀ node, (fetch node key names : Op ν ρ Record) = fetch node key names' := fun node => by
    unfold fetch
    rw [h]
  have walks : ∀ failed nodes,
      (readFirst key names failed nodes : Op ν ρ (Option Found)) = readFirst key names' failed nodes := by
    intro failed nodes
    induction nodes generalizing failed with
    | nil => rfl
    | cons node rest ih => simp only [readFirst, fetches, ih]
  simp only [read, readQuietly, readLocated, fetches, walks]

/-- Whatever the nodes and the registry answer, a read accounts for all of it. An empty list of names is as good as
none. -/
theorem read_discloses (key : String) (names : Option (List String)) (w : Cluster ν ρ) :
    (∃ outcome w', run (read key names) w = (outcome, w') ∧
      match w.registry with
      | none => ∃ answers, w'.trace = w.trace ++ answers.map (fun a => fetched key names a.1 a.2) ∧
        Walked w.ids answers outcome
      | some _ => ∃ location events, w'.trace = w.trace ++ .consulted (.locate key) location :: events ∧
        Located w.ids key names location events outcome) ∧
    run (read key (some [])) w = run (read key none) w := by
  have unnamed : Record.namesOf (some []) = Record.namesOf none := rfl
  refine ⟨⟨_, _, run_read key names w, ?_⟩, congrArg (run · w) (read_congr unnamed key)⟩
  rw [run_readQuietly]
  cases hr : w.registry with
  | none =>
    obtain ⟨answers, hup, hc, houtcome⟩ := readFirst_outcome key names w
    exact ⟨answers, hc.trace, houtcome ▸ walked_of_upTo hup w.nodes.keys_ascending⟩
  | some state =>
    obtain ⟨location, events, hc, hcourse⟩ := readLocated_takes key names (w := w) (by rw [hr]; rfl)
    exact ⟨location, events, hc.trace, hcourse.located⟩

end Cluster

end Placement
