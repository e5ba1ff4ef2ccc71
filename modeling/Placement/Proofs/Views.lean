import Placement.Proofs.Footprint
import Placement.Registry.Ledger
import Placement.Store.Memory

/-!
Nodes seen as memories, and registries seen as ledgers.

`Backing` is a kind of node that answers from a memory or fails without a trace; calls that it spares fail only
where the memory itself fails. `Guarded` is a kind of registry that never gives a key a second place: it may
decline or fail as it likes, and a call that fails may have been carried out. `Reliable` is one that answers as
a ledger does.

`performAll` puts calls to a node, or to a registry, one after another; `performAll_keeps` and `performAll_answers` are
the inductions on such a run.
-/

namespace Placement

namespace Store

/-- A call to a node, and what came of it. -/
structure Result where
  call : Call
  answer : Except Fault call.Answer

def performAll {ν : Type} [Store ν] : List Call → ν → List Result × ν
  | [], state => ([], state)
  | call :: rest, state =>
    (⟨call, (Store.perform call state).1⟩ :: (performAll rest (Store.perform call state).2).1,
      (performAll rest (Store.perform call state).2).2)

/-- What every call keeps lasts through a run. -/
theorem performAll_keeps {ν : Type} [Store ν] {P : ν → Prop}
    (step : ∀ call state, P state → P (Store.perform call state).2) {state : ν} (h : P state) (calls : List Call) :
    P (performAll calls state).2 := by
  induction calls generalizing state with
  | nil => exact h
  | cons call rest ih => exact ih (step call state h)

/-- What holds of every answer as long as something is kept holds of all answers of a run. -/
theorem performAll_answers {ν : Type} [Store ν] {P : ν → Prop} {Q : Result → Prop}
    (step : ∀ call state, P state → P (Store.perform call state).2)
    (answers : ∀ call state, P state → Q ⟨call, (Store.perform call state).1⟩) {state : ν} (h : P state)
    {calls : List Call} {r : Result} (hr : r ∈ (performAll calls state).1) : Q r := by
  induction calls generalizing state with
  | nil => cases hr
  | cons call rest ih =>
    rcases List.mem_cons.1 hr with rfl | hr
    · exact answers call state h
    · exact ih (step call state h) hr

theorem Memory.records_serve {call : Call} (h : call.sparesRecords = true) (m : Memory) :
    (serve call m).2.records = m.records := by
  cases call <;> first | rfl | cases h

/-- Nodes that answer from a memory, unless they fail and leave it alone; they never fail a spared call that the
memory answers. -/
structure Backing (ν : Type) [Store ν] (spared : Call → Prop) where
  memory : ν → Memory
  serves : ∀ call state,
    ((Store.perform call state).1, memory (Store.perform call state).2) = Memory.perform call (memory state) ∨
      ¬ spared call ∧ (∃ fault, (Store.perform call state).1 = .error fault) ∧
        memory (Store.perform call state).2 = memory state

namespace Backing

def self (spared : Call → Prop) : Backing Memory spared := ⟨id, fun _ _ => .inl rfl⟩

variable {ν ρ : Type} [Store ν] {spared : Call → Prop} (B : Backing ν spared)

/-- What a node answers is what its memory serves. -/
theorem ok {call : Call} {state state' : ν} {a : call.Answer} (h : Store.perform call state = (.ok a, state')) :
    (call ≠ .close → (B.memory state).obstacle = none) ∧ a = (Memory.serve call (B.memory state)).1 ∧
      B.memory state' = (Memory.serve call (B.memory state)).2 := by
  have hs := B.serves call state
  rw [h] at hs
  rcases hs with hs | ⟨-, ⟨fault, hf⟩, -⟩
  · exact Memory.perform_ok hs.symm
  · cases hf

/-- A call that fails leaves the memory as it was. -/
theorem error {call : Call} {state state' : ν} {fault : Fault} (h : Store.perform call state = (.error fault, state')) :
    B.memory state' = B.memory state := by
  have hs := B.serves call state
  rw [h] at hs
  rcases hs with hs | ⟨-, -, hm⟩
  · exact Memory.perform_error hs.symm
  · exact hm

/-- A spared call on a usable node does not fail. -/
theorem spared_ok {call : Call} {state state' : ν} {fault : Fault} (hc : spared call)
    (hu : (B.memory state).obstacle = none) : Store.perform call state ≠ (.error fault, state') := by
  intro h
  have hs := B.serves call state
  rw [h, Memory.perform_of_usable hu] at hs
  rcases hs with hs | ⟨hn, -, -⟩
  · cases hs
  · exact hn hc

def recordsOn (w : Cluster ν ρ) (node : NodeId) : Dict Record :=
  ((w.nodes.get? node).map fun state => (B.memory state).records).getD Dict.empty

def Usable (w : Cluster ν ρ) (node : NodeId) : Prop :=
  ∃ state, w.nodes.get? node = some state ∧ (B.memory state).obstacle = none

variable {w : Cluster ν ρ} {node : NodeId} {state state' : ν} {call : Call}

theorem recordsOn_of_get? (h : w.nodes.get? node = some state) : B.recordsOn w node = (B.memory state).records := by
  simp [recordsOn, h]

theorem recordsOn_answered (answer : Except Fault call.Answer) (other : NodeId) :
    B.recordsOn (w.answered node call answer state') other =
      if node = other then (B.memory state').records else B.recordsOn w other := by
  by_cases h : node = other <;> simp [recordsOn, Cluster.answered, Dict.get?_insert, h]

/-- An answer that leaves the node's records alone leaves all records alone. -/
theorem recordsOn_answered_of_eq (h : w.nodes.get? node = some state)
    (hm : (B.memory state').records = (B.memory state).records) (answer : Except Fault call.Answer) :
    B.recordsOn (w.answered node call answer state') = B.recordsOn w := by
  funext other
  rw [recordsOn_answered]
  split
  · rename_i hn
    rw [hm, ← hn, B.recordsOn_of_get? h]
  · rfl

theorem usable_answered {other : NodeId} (h : B.Usable w other) (hn : w.nodes.get? node = some state)
    (hm : (B.memory state).obstacle = none → (B.memory state').obstacle = none) (answer : Except Fault call.Answer) :
    B.Usable (w.answered node call answer state') other := by
  obtain ⟨s, hs, hu⟩ := h
  by_cases he : node = other
  · subst he
    rw [hn] at hs
    cases hs
    exact ⟨state', by simp [Cluster.answered], hm hu⟩
  · exact ⟨s, by simp [Cluster.answered, Dict.get?_insert, he, hs], hu⟩

end Backing

end Store

namespace Registry

/-- A call to a registry, and what came of it. -/
structure Result where
  call : Call
  answer : Except Fault call.Answer

def performAll {ρ : Type} [Registry ρ] : List Call → ρ → List Result × ρ
  | [], state => ([], state)
  | call :: rest, state =>
    (⟨call, (Registry.perform call state).1⟩ :: (performAll rest (Registry.perform call state).2).1,
      (performAll rest (Registry.perform call state).2).2)

/-- What every call keeps lasts through a run. -/
theorem performAll_keeps {ρ : Type} [Registry ρ] {P : ρ → Prop}
    (step : ∀ call state, P state → P (Registry.perform call state).2) {state : ρ} (h : P state) (calls : List Call) :
    P (performAll calls state).2 := by
  induction calls generalizing state with
  | nil => exact h
  | cons call rest ih => exact ih (step call state h)

/-- What holds of every answer as long as something is kept holds of all answers of a run. -/
theorem performAll_answers {ρ : Type} [Registry ρ] {P : ρ → Prop} {Q : Result → Prop}
    (step : ∀ call state, P state → P (Registry.perform call state).2)
    (answers : ∀ call state, P state → Q ⟨call, (Registry.perform call state).1⟩) {state : ρ} (h : P state)
    {calls : List Call} {r : Result} (hr : r ∈ (performAll calls state).1) : Q r := by
  induction calls generalizing state with
  | nil => cases hr
  | cons call rest ih =>
    rcases List.mem_cons.1 hr with rfl | hr
    · exact answers call state h
    · exact ih (step call state h) hr

/-- Registries that never give a key a second place. Short of that they may decline and fail as they like, and
what fails may have been carried out. -/
structure Guarded (ρ : Type) [Registry ρ] where
  ledger : ρ → Ledger
  /-- A placement is confirmed only if it was entered, and entered only if the key has no other place. -/
  place : ∀ node key state,
    (Registry.perform (.place node key) state).1 ≠ .ok true ∧
        ledger (Registry.perform (.place node key) state).2 = ledger state ∨
      (∀ other, (ledger state).owns other key = true → other = node) ∧
        ledger (Registry.perform (.place node key) state).2 = (Ledger.perform (.place node key) (ledger state)).2
  /-- A withdrawal takes away the place it names or nothing. -/
  withdraw : ∀ node key state,
    ledger (Registry.perform (.withdraw node key) state).2 = ledger state ∨
      ledger (Registry.perform (.withdraw node key) state).2 = (Ledger.perform (.withdraw node key) (ledger state)).2
  /-- No other call changes a place. -/
  rest : ∀ call state, call.looks = true ∨ call = .close → ledger (Registry.perform call state).2 = ledger state

namespace Guarded

variable {ν ρ : Type} [Registry ρ] (G : Guarded ρ)

def owns (w : Cluster ν ρ) (node : NodeId) (key : String) : Bool :=
  (w.registry.map fun state => (G.ledger state).owns node key).getD false

def Forthright : Prop :=
  ∀ node key state answer, (Registry.perform (.withdraw node key) state).1 = .ok answer →
    G.ledger (Registry.perform (.withdraw node key) state).2 = (Ledger.perform (.withdraw node key) (G.ledger state)).2

variable {w : Cluster ν ρ} {state state' : ρ} {call : Registry.Call}

theorem owns_of_registry (h : w.registry = some state) (node : NodeId) (key : String) :
    G.owns w node key = (G.ledger state).owns node key := by
  simp [owns, h]

theorem owns_unique {node node' : NodeId} {key : String} (h : G.owns w node key = true)
    (h' : G.owns w node' key = true) : node = node' := by
  cases hr : w.registry with
  | none => simp [owns, hr] at h
  | some state =>
    rw [G.owns_of_registry hr] at h h'
    exact Ledger.owns_unique h h'

/-- What is placed stays placed when another place is asked for. -/
theorem place_keeps {node other : NodeId} {key key' : String} (state : ρ)
    (h : (G.ledger state).owns other key' = true) :
    (G.ledger (Registry.perform (.place node key) state).2).owns other key' = true := by
  rcases G.place node key state with ⟨-, hl⟩ | ⟨hfree, hl⟩
  · rw [hl]
    exact h
  · rw [hl, Ledger.owns_place]
    split
    · rename_i hk
      subst hk
      simp [hfree other h]
    · exact h

/-- A confirmed placement is in the ledger. -/
theorem owns_of_confirmed {node : NodeId} {key : String} {state : ρ}
    (h : (Registry.perform (.place node key) state).1 = .ok true) :
    (G.ledger (Registry.perform (.place node key) state).2).owns node key = true := by
  rcases G.place node key state with ⟨hn, -⟩ | ⟨-, hl⟩
  · exact absurd h hn
  · rw [hl, Ledger.owns_place]
    simp

/-- So a key that is confirmed to be placed has its place from then on. -/
theorem place_owns (node : NodeId) (key : String) (w : Cluster ν ρ) :
    Cluster.Ensures w (Cluster.consult (.place node key))
      (fun confirmed w' => confirmed = true → G.owns w' node key = true) fun _ _ => True := by
  refine Cluster.ensures_consult (fun state a state' hr hp ha => ?_) (fun _ _ _ _ _ => trivial) fun _ => trivial
  subst ha
  have hplaced : (G.ledger (Registry.perform (.place node key) state).2).owns node key = true :=
    G.owns_of_confirmed (by rw [hp])
  rwa [hp] at hplaced

/-- Whatever else is asked takes no place away either. -/
theorem perform_keeps {call : Call} (hw : ∀ node key, call ≠ .withdraw node key) {node : NodeId} {key : String}
    (state : ρ) (h : (G.ledger state).owns node key = true) :
    (G.ledger (Registry.perform call state).2).owns node key = true := by
  cases call with
  | place node' key' => exact G.place_keeps state h
  | withdraw node' key' => exact absurd rfl (hw node' key')
  | _ => rwa [G.rest _ state (by simp [Call.looks])]

/-- A withdrawal leaves every other place. -/
theorem withdraw_keeps {node other : NodeId} {key key' : String} (state : ρ)
    (h : (G.ledger state).owns other key' = true) (hne : ¬ (other = node ∧ key' = key)) :
    (G.ledger (Registry.perform (.withdraw node key) state).2).owns other key' = true := by
  rcases G.withdraw node key state with hl | hl
  · rw [hl]
    exact h
  · rw [hl, Ledger.owns_withdraw, h]
    have : (decide (key = key') && decide (node = other)) = false := by
      simp only [Bool.and_eq_false_iff, decide_eq_false_iff_not]
      by_cases hk : key = key'
      · exact .inr fun hn => hne ⟨hn.symm, hk.symm⟩
      · exact .inl hk
    simp [this]

end Guarded

/-- Registries that answer as a ledger does, and suggest any of the nodes they are offered. What they do once they are
closed is left open. -/
structure Reliable (ρ : Type) [Registry ρ] where
  ledger : ρ → Ledger
  answers : ∀ call state, (∀ nodes, call ≠ .suggest nodes) → call ≠ .close →
    ((Registry.perform call state).1, ledger (Registry.perform call state).2) = Ledger.perform call (ledger state)
  suggests : ∀ nodes (state : ρ), nodes ≠ [] → ∃ node ∈ nodes, (Registry.perform (.suggest nodes) state).1 = .ok node
  keeps : ∀ nodes (state : ρ), ledger (Registry.perform (.suggest nodes) state).2 = ledger state

namespace Reliable

def self : Reliable Ledger where
  ledger := id
  answers _ _ _ _ := rfl
  suggests nodes l h := by
    cases nodes with
    | nil => exact absurd rfl h
    | cons node rest => exact ⟨node, by simp, rfl⟩
  keeps nodes l := by cases nodes <;> rfl

def known {ν ρ : Type} [Registry ρ] (R : Reliable ρ) (w : Cluster ν ρ) : Option Ledger := w.registry.map R.ledger

variable {ν ρ : Type} [Registry ρ] {R : Reliable ρ} {w w' : Cluster ν ρ}

theorem known_of_none (h : w.registry = none) : R.known w = none := by
  simp [known, h]

theorem known_of_some {state : ρ} (h : w.registry = some state) : R.known w = some (R.ledger state) := by
  simp [known, h]

theorem known_of_registry (h : w'.registry = w.registry) : R.known w' = R.known w := by
  rw [known, known, h]

end Reliable

end Registry

end Placement
