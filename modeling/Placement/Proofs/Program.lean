import Placement.Cluster

/-!
Programs over a cluster, one step after another.

`Ensures w op Q E` says what a program comes to from the cluster `w`: a value and a cluster of which `Q`
holds, or a fault and a cluster of which `E` holds. The rules below take a program apart; a step that reaches
out is opened by `ensures_ask` or `ensures_consult` and by nothing else. `Fault.outcome` is how a program ends that
gives a value unless nodes have failed.

`Closed K P P'` are the kinds `K` of programs that every program made of calls in `P` and `P'` is of. `Within R op`
says only that `R` relates the cluster before the program to the one after it, however it ends. `Permits R P P'` are
the relations that no call in `P` or `P'` leaves; a program that makes no other call stays within them.
-/

namespace Placement

namespace Fault

variable {α : Type} {failures : List (NodeId × Fault)} {value : α}

def outcome (failures : List (NodeId × Fault)) (value : α) : Except Fault α :=
  match ofFailures failures with
  | some fault => .error fault
  | none => .ok value

theorem outcome_eq_ok {a : α} : outcome failures value = .ok a ↔ failures = [] ∧ value = a := by
  rw [← ofFailures_eq_none_iff, outcome]
  cases ofFailures failures <;> simp

theorem outcome_eq_error {fault : Fault} :
    outcome failures value = .error fault ↔ ∃ causes, fault = .aggregate causes ∧ causes.toList = failures := by
  rw [← ofFailures_eq_some_iff, outcome]
  cases ofFailures failures <;> simp

theorem outcome_fails : (∃ fault, outcome failures value = .error fault) ↔ failures ≠ [] := by
  rw [ne_eq, ← ofFailures_eq_none_iff, outcome]
  cases ofFailures failures <;> simp

end Fault

namespace Cluster

variable {ν ρ α β : Type} {w : Cluster ν ρ}

/-! ## What a program ensures -/

/-- What holds of the value, or of the fault, and of the cluster left. -/
def Ensures (w : Cluster ν ρ) (op : Op ν ρ α) (Q : α → Cluster ν ρ → Prop) (E : Fault → Cluster ν ρ → Prop) : Prop :=
  match run op w with
  | (.ok a, w') => Q a w'
  | (.error fault, w') => E fault w'

variable {op : Op ν ρ α} {f : α → Op ν ρ β} {Q Q' : α → Cluster ν ρ → Prop} {S : β → Cluster ν ρ → Prop}
  {E E' : Fault → Cluster ν ρ → Prop}

theorem Ensures.ok (h : Ensures w op Q E) {a : α} {w' : Cluster ν ρ} (hr : run op w = (.ok a, w')) : Q a w' := by
  rwa [Ensures, hr] at h

theorem Ensures.error (h : Ensures w op Q E) {fault : Fault} {w' : Cluster ν ρ}
    (hr : run op w = (.error fault, w')) : E fault w' := by
  rwa [Ensures, hr] at h

/-- A program ensures at least its own outcome. -/
theorem ensures_self (w : Cluster ν ρ) (op : Op ν ρ α) :
    Ensures w op (fun a w' => run op w = (.ok a, w')) fun fault w' => run op w = (.error fault, w') := by
  unfold Ensures
  split <;> assumption

theorem Ensures.mono (h : Ensures w op Q E) (hQ : ∀ a w', Q a w' → Q' a w')
    (hE : ∀ fault w', E fault w' → E' fault w') : Ensures w op Q' E' := by
  unfold Ensures at h ⊢
  split
  · rename_i a w' hr
    rw [hr] at h
    exact hQ a w' h
  · rename_i fault w' hr
    rw [hr] at h
    exact hE fault w' h

theorem Ensures.and (h : Ensures w op Q E) (h' : Ensures w op Q' E') :
    Ensures w op (fun a w' => Q a w' ∧ Q' a w') fun fault w' => E fault w' ∧ E' fault w' := by
  unfold Ensures at h h' ⊢
  split
  · rename_i a w' hr
    rw [hr] at h h'
    exact ⟨h, h'⟩
  · rename_i fault w' hr
    rw [hr] at h h'
    exact ⟨h, h'⟩

/-- What holds however the program ends holds of the cluster it leaves. -/
theorem Ensures.left {P : Cluster ν ρ → Prop} (h : Ensures w op (fun _ => P) fun _ => P) : P (run op w).2 := by
  unfold Ensures at h
  rcases hr : run op w with ⟨fault | a, w'⟩ <;> rw [hr] at h <;> exact h

theorem ensures_pure {a : α} (h : Q a w) : Ensures w (pure a) Q E := h

theorem ensures_throw {fault : Fault} (h : E fault w) : Ensures w (throw fault : Op ν ρ α) Q E := h

theorem run_bind (op : Op ν ρ α) (f : α → Op ν ρ β) (w : Cluster ν ρ) :
    run (op >>= f) w = match run op w with
      | (.ok a, w') => run (f a) w'
      | (.error fault, w') => (.error fault, w') := by
  show StateT.run (ExceptT.run (op >>= f)) w = _
  simp only [ExceptT.run_bind, StateT.run_bind, run]
  rcases StateT.run (ExceptT.run op) w with ⟨_ | a, w'⟩ <;> rfl

theorem Ensures.bind (h : Ensures w op Q E) (hf : ∀ a w', Q a w' → Ensures w' (f a) S E) :
    Ensures w (op >>= f) S E := by
  unfold Ensures at h ⊢
  rw [run_bind]
  rcases hr : run op w with ⟨fault | a, w'⟩
  · rw [hr] at h
    exact h
  · rw [hr] at h
    exact hf a w' h

/-- A step whose own faults ensure something else than those of the whole. -/
theorem Ensures.andThen (h : Ensures w op Q E) (hE : ∀ fault w', E fault w' → E' fault w')
    (hf : ∀ a w', Q a w' → Ensures w' (f a) S E') : Ensures w (op >>= f) S E' :=
  (h.mono (fun _ _ hQ => hQ) hE).bind hf

theorem Ensures.outcome {S : Except Fault α → Cluster ν ρ → Prop}
    (h : Ensures w op (fun a => S (.ok a)) fun fault => S (.error fault)) : S (run op w).1 (run op w).2 := by
  unfold Ensures at h
  rcases hr : run op w with ⟨fault | a, w'⟩
  · rw [hr] at h
    exact h
  · rw [hr] at h
    exact h

theorem Ensures.attempt {S : Except Fault α → Cluster ν ρ → Prop}
    (h : Ensures w op (fun a => S (.ok a)) fun fault => S (.error fault)) : Ensures w (attempt op) S E :=
  h.outcome

/-- After an attempt the program goes on in either case. -/
theorem Ensures.attempt_bind {f : Except Fault α → Op ν ρ β} (h : Ensures w op Q E)
    (ok : ∀ a w', Q a w' → Ensures w' (f (.ok a)) S E')
    (error : ∀ fault w', E fault w' → Ensures w' (f (.error fault)) S E') :
    Ensures w (Cluster.attempt op >>= f) S E' := by
  have attempted : Ensures w (Cluster.attempt op) (fun outcome w' => Ensures w' (f outcome) S E') E' :=
    (h.mono ok error).attempt
  exact attempted.bind fun _ _ hf => hf

/-- An outcome in hand is a program that has it and does nothing. -/
theorem ensures_lift {outcome : Except Fault α} (ok : ∀ a, outcome = .ok a → Q a w)
    (error : ∀ fault, outcome = .error fault → E fault w) : Ensures w (liftM outcome : Op ν ρ α) Q E := by
  cases outcome with
  | ok a => exact ok a rfl
  | error fault => exact error fault rfl

theorem run_unlessFailed (failures : List (NodeId × Fault)) (value : α) (w : Cluster ν ρ) :
    run (unlessFailed failures value) w = (Fault.outcome failures value, w) := by
  unfold unlessFailed Fault.outcome
  cases Fault.ofFailures failures <;> rfl

theorem ensures_unlessFailed {S : Except Fault α → Cluster ν ρ → Prop} {failures : List (NodeId × Fault)} {value : α}
    (h : S (Fault.outcome failures value) w) :
    Ensures w (unlessFailed failures value) (fun a => S (.ok a)) fun fault => S (.error fault) := by
  rw [Ensures, run_unlessFailed]
  cases ho : Fault.outcome failures value <;> rwa [ho] at h

theorem ensures_inspect {g : Cluster ν ρ → α} (h : Q (g w) w) : Ensures w (inspect g) Q E := h

theorem ensures_inspect_bind {g : Cluster ν ρ → α} (h : Ensures w (f (g w)) S E) : Ensures w (inspect g >>= f) S E := h

theorem ensures_hasRegistry_bind {f : Bool → Op ν ρ β} (h : Ensures w (f w.registry.isSome) S E) :
    Ensures w (hasRegistry >>= f) S E := h

theorem ensures_draw {bound : Nat} {Q : Nat → Cluster ν ρ → Prop}
    (h : Q (w.draws.headD 0 % bound) { w with draws := w.draws.tail }) : Ensures w (draw bound) Q E := h

theorem ensures_report {s : Sighting} {Q : Unit → Cluster ν ρ → Prop}
    (h : Q () { w with observer := w.observer.map (· ++ [s]) }) : Ensures w (report s) Q E := h

def answered (w : Cluster ν ρ) (node : NodeId) (call : Store.Call) (answer : Except Fault call.Answer) (state : ν) :
    Cluster ν ρ :=
  { w with nodes := w.nodes.insert node state, trace := w.trace ++ [.asked node call answer] }

def advised (w : Cluster ν ρ) (call : Registry.Call) (answer : Except Fault call.Answer) (state : ρ) : Cluster ν ρ :=
  { w with registry := some state, trace := w.trace ++ [.consulted call answer] }

theorem run_ask [Store ν] {node : NodeId} {state : ν} (h : w.nodes.get? node = some state) (call : Store.Call) :
    run (ask node call) w =
      ((Store.perform call state).1,
        w.answered node call (Store.perform call state).1 (Store.perform call state).2) := by
  show ask node call w = _
  simp only [ask, ExceptT.mk, h, answered]

theorem run_consult [Registry ρ] {state : ρ} (h : w.registry = some state) (call : Registry.Call) :
    run (consult call) w =
      ((Registry.perform call state).1,
        w.advised call (Registry.perform call state).1 (Registry.perform call state).2) := by
  show consult call w = _
  simp only [consult, ExceptT.mk, h, advised]

theorem ensures_ask [Store ν] {node : NodeId} {call : Store.Call} {Q : call.Answer → Cluster ν ρ → Prop}
    (ok : ∀ state a state', w.nodes.get? node = some state → Store.perform call state = (.ok a, state') →
      Q a (w.answered node call (.ok a) state'))
    (error : ∀ state fault state', w.nodes.get? node = some state → Store.perform call state = (.error fault, state') →
      E fault (w.answered node call (.error fault) state'))
    (unknown : w.nodes.get? node = none → E (.unknownNode node) w) : Ensures w (ask node call) Q E := by
  cases h : w.nodes.get? node with
  | none =>
    have hr : run (ask node call) w = (.error (.unknownNode node), w) := by
      show ask node call w = _
      simp only [ask, ExceptT.mk, h]
    rw [Ensures, hr]
    exact unknown h
  | some state =>
    rw [Ensures, run_ask h]
    rcases hp : Store.perform call state with ⟨fault | a, state'⟩
    · exact error state fault state' h hp
    · exact ok state a state' h hp

theorem ensures_consult [Registry ρ] {call : Registry.Call} {Q : call.Answer → Cluster ν ρ → Prop}
    (ok : ∀ state a state', w.registry = some state → Registry.perform call state = (.ok a, state') →
      Q a (w.advised call (.ok a) state'))
    (error : ∀ state fault state', w.registry = some state → Registry.perform call state = (.error fault, state') →
      E fault (w.advised call (.error fault) state'))
    (absent : w.registry = none → E (.registryUnavailable .absent) w) : Ensures w (consult call) Q E := by
  cases h : w.registry with
  | none =>
    have hr : run (consult call) w = (.error (.registryUnavailable .absent), w) := by
      show consult call w = _
      simp only [consult, ExceptT.mk, h]
    rw [Ensures, hr]
    exact absent h
  | some state =>
    rw [Ensures, run_consult h]
    rcases hp : Registry.perform call state with ⟨fault | a, state'⟩
    · exact error state fault state' h hp
    · exact ok state a state' h hp

/-- What holds whether the registry answers or fails: its state after the call is the same in either case. -/
theorem ensures_advised [Registry ρ] {call : Registry.Call} {P : Cluster ν ρ → Prop}
    (advised : ∀ state answer, w.registry = some state →
      P (w.advised call answer (Registry.perform call state).2))
    (absent : w.registry = none → P w) : Ensures w (consult call) (fun _ => P) fun _ => P := by
  refine ensures_consult (fun state a state' hr hp => ?_) (fun state fault state' hr hp => ?_) absent
  · have h := advised state (.ok a) hr
    rwa [hp] at h
  · have h := advised state (.error fault) hr
    rwa [hp] at h

/-! ## What a program stays within -/

/-- Whatever the program comes to, the relation holds between the cluster before it and the one after it. -/
def Within (R : Cluster ν ρ → Cluster ν ρ → Prop) (op : Op ν ρ α) : Prop :=
  ∀ w, Ensures w op (fun _ w' => R w w') fun _ w' => R w w'

theorem Within.attempt {R : Cluster ν ρ → Cluster ν ρ → Prop} (h : Within R op) : Within R (attempt op) :=
  fun w => (h w).attempt

/-- Kinds of programs that a program is of if its steps are, and that calls in `P` and `P'` are of. -/
structure Closed [Store ν] [Registry ρ] (K : ∀ {α : Type}, Op ν ρ α → Prop) (P : Store.Call → Prop)
    (P' : Registry.Call → Prop) : Prop where
  pure : ∀ {α : Type} (a : α), K (pure a)
  throw : ∀ {α : Type} (fault : Fault), K (throw fault : Op ν ρ α)
  bind : ∀ {α β : Type} {op : Op ν ρ α} {f : α → Op ν ρ β}, K op → (∀ a, K (f a)) → K (op >>= f)
  attempt : ∀ {α : Type} {op : Op ν ρ α}, K op → K (attempt op)
  ids : K (inspect ids)
  hasRegistry : K hasRegistry
  contains : ∀ node, K (inspect (·.nodes.contains node))
  ask : ∀ node call, P call → K (ask node call)
  consult : ∀ call, P' call → K (consult call)
  draw : ∀ bound, K (draw bound)

namespace Closed

variable [Store ν] [Registry ρ] {K : ∀ {α : Type}, Op ν ρ α → Prop} {P : Store.Call → Prop} {P' : Registry.Call → Prop}

theorem lift (hK : Closed @K P P') (outcome : Except Fault α) : K (liftM outcome : Op ν ρ α) := by
  cases outcome with
  | ok a => exact hK.pure a
  | error fault => exact hK.throw fault

theorem unlessFailed (hK : Closed @K P P') (failures : List (NodeId × Fault)) (a : α) :
    K (unlessFailed failures a : Op ν ρ α) := by
  unfold Cluster.unlessFailed
  split
  · exact hK.throw _
  · exact hK.pure _

end Closed

/-- Relations that a sequence of steps stays within, as long as it makes no calls but those in `P` and `P'`. -/
structure Permits [Store ν] [Registry ρ] (R : Cluster ν ρ → Cluster ν ρ → Prop) (P : Store.Call → Prop)
    (P' : Registry.Call → Prop) : Prop extends Closed (Within R) P P' where
  refl : ∀ w, R w w
  trans : ∀ {w w' w''}, R w w' → R w' w'' → R w w''
  report : ∀ s, Within R (report s)
  pure _ := fun w => ensures_pure (refl w)
  throw _ := fun w => ensures_throw (refl w)
  bind h hf := fun w => (h w).bind fun a w' hw => (hf a w').mono (fun _ _ => trans hw) fun _ _ => trans hw
  attempt h := fun w => (h w).attempt
  ids := fun w => ensures_inspect (refl w)
  hasRegistry := fun w => ensures_inspect (refl w)
  contains _ := fun w => ensures_inspect (refl w)

end Cluster

end Placement
