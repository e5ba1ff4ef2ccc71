import Placement.Proofs.Views
import Placement.Store.Redis
import Placement.Store.Redis.Nowhere

/-!
What a node does after it was given up.

A closed memory fails every call but closing. A closed node on a server fails the calls for which it needs its server;
three kinds of calls ask for nothing, and those it goes on answering, closed or not. Either way nothing changes: no
record, no connection, and nothing is sent.

- `Memory.perform_refused`, `Redis.Node.perform_closed_eq`: one call on a node that is closed.
- `performAll_enters`: what a successful call brings about lasts if no call undoes it.
- `closed_nodes_refuse`: every call after one that closed the node.
-/

namespace Placement.Store

def Call.asksNothing : Call → Bool
  | .write _ fields => fields.isEmpty
  | .fetchFields _ names => names.isEmpty
  | .indexRange _ most => most == 0
  | _ => false

/-- What holds after a call succeeded that was made on the way, where every such call brings it about and no call ends
it. -/
theorem performAll_enters {ν : Type} [Store ν] {P : ν → Prop} {call : Call} {a : call.Answer}
    (enters : ∀ state, (Store.perform call state).1 = .ok a → P (Store.perform call state).2)
    (stays : ∀ other state, P state → P (Store.perform other state).2) {calls : List Call} {state : ν}
    (h : ⟨call, .ok a⟩ ∈ (performAll calls state).1) : P (performAll calls state).2 := by
  induction calls generalizing state with
  | nil => cases h
  | cons first rest ih =>
    rcases List.mem_cons.1 h with he | hrest
    · obtain ⟨rfl, hanswer⟩ := Result.mk.inj he
      exact performAll_keeps stays (enters state (eq_of_heq hanswer).symm) rest
    · exact ih hrest

namespace Memory

/-- A closed memory refuses all calls but closing. -/
theorem perform_refused {m : Memory} (h : m.closed = true) {call : Call} (hc : call ≠ .close) :
    ∃ cause, perform call m = (.error (.connection cause), m) := by
  obtain ⟨cause, ho⟩ : ∃ cause, m.obstacle = some cause := by
    unfold obstacle
    rw [if_pos h]
    split <;> exact ⟨_, rfl⟩
  cases call with
  | close => exact absurd rfl hc
  | _ => exact ⟨cause, by simp only [perform, ho]⟩

theorem closed_of_close {m : Memory} (h : (perform .close m).1 = .ok ()) : (perform .close m).2.closed = true := by
  rcases hp : perform .close m with ⟨fault | a, m'⟩
  · rw [hp] at h
    cases h
  · obtain ⟨-, -, rfl⟩ := perform_ok hp
    rfl

theorem closed_stays {m : Memory} (h : m.closed = true) (call : Call) : (perform call m).2.closed = true := by
  rcases hp : perform call m with ⟨fault | a, m'⟩
  · obtain rfl := perform_error hp
    exact h
  · obtain ⟨-, -, rfl⟩ := perform_ok hp
    cases call with
    | close => rfl
    | write key fields =>
      show (m.write key fields).closed = true
      unfold write
      split <;> exact h
    | _ => exact h

end Memory

namespace Redis

variable {σ : Type} [Server σ] {n : Node σ}

namespace Node

theorem ready_closed (h : n.link = .closed) :
    n.ready = (.error (.connection (.closed n.endpoint.address)), n) := by
  rw [ready, h]

theorem perform_closed_eq (h : n.link = .closed) {call : Call} (hc : call ≠ .close) :
    (call.asksNothing = false →
      Store.perform call n = (.error (.connection (.closed n.endpoint.address)), n)) ∧
    (call.asksNothing = true → ∃ a, Store.perform call n = (.ok a, n)) := by
  show (_ → perform call n = _) ∧ (_ → ∃ a, perform call n = _)
  have refused : ∀ {α : Type} (name : String) (c : Command) (read : Reply → Except String α),
      n.call name c read = (.error (.connection (.closed n.endpoint.address)), n) := by
    intro α name c read
    rw [Node.call, ready_closed h]
  cases call with
  | close => exact absurd rfl hc
  | write key fields =>
    have hasks : (Call.write key fields).asksNothing = fields.isEmpty := rfl
    rw [hasks, perform]
    cases fields.isEmpty with
    | true => exact ⟨by simp, fun _ => ⟨0, rfl⟩⟩
    | false => exact ⟨fun _ => refused .., by simp⟩
  | fetchFields key names =>
    have hasks : (Call.fetchFields key names).asksNothing = names.isEmpty := rfl
    rw [hasks, perform]
    cases names.isEmpty with
    | true => exact ⟨by simp, fun _ => ⟨Dict.empty, rfl⟩⟩
    | false => exact ⟨fun _ => refused .., by simp⟩
  | indexRange min most =>
    cases most with
    | zero => exact ⟨by simp [Call.asksNothing], fun _ => ⟨[], rfl⟩⟩
    | succ most => exact ⟨fun _ => refused .., fun ha => by cases ha⟩
  | removeIndexed key =>
    refine ⟨fun _ => ?_, fun he => by cases he⟩
    rw [perform, removeIndexed, ready_closed h]
  | _ => exact ⟨fun _ => refused .., by simp [Call.asksNothing]⟩

/-- A call leaves a closed node as it is, or gives up its connection for transactions once more. -/
theorem perform_closed_left (h : n.link = .closed) (call : Call) :
    (Store.perform call n).2 = if call = .close then { n with transaction := none } else n := by
  split
  · rename_i hc
    subst hc
    show { n with link := .closed, transaction := none } = _
    rw [← h]
  · rename_i hc
    obtain ⟨hrefused, hanswered⟩ := perform_closed_eq h hc
    cases ha : call.asksNothing with
    | false => rw [hrefused ha]
    | true =>
      obtain ⟨a, hp⟩ := hanswered ha
      rw [hp]

end Node

end Redis

/-- After a call has closed a node, every other call but closing is refused by a node in memory. By a node on a server
it is refused if it asks for anything, and otherwise answered. All of this leaves the node, its connections and its
server as they are. -/
theorem closed_nodes_refuse {before : List Call} {call : Call} (hc : call ≠ .close) :
    (∀ m : Memory, ⟨.close, .ok ()⟩ ∈ (performAll before m).1 →
      let left := (performAll before m).2
      ∃ cause, Store.perform call left = (.error (.connection cause), left)) ∧
    ∀ (σ : Type) [Redis.Server σ] (n : Redis.Node σ), ⟨.close, .ok ()⟩ ∈ (performAll before n).1 →
      let left := (performAll before n).2
      (call.asksNothing = false → ∃ cause, Store.perform call left = (.error (.connection cause), left)) ∧
      (call.asksNothing = true → ∃ a, Store.perform call left = (.ok a, left)) := by
  constructor
  · intro m hclosed left
    have h : left.closed = true :=
      performAll_enters (P := fun m : Memory => m.closed = true) (fun _ h => Memory.closed_of_close h)
        (fun other _ h => Memory.closed_stays h other) hclosed
    exact Memory.perform_refused h hc
  · intro σ _ n hclosed left
    have h : left.link = .closed := by
      refine performAll_enters (P := fun n : Redis.Node σ => n.link = .closed) (fun n _ => rfl) (fun other n h => ?_)
        hclosed
      rw [Redis.Node.perform_closed_left h]
      split <;> exact h
    obtain ⟨hrefused, hanswered⟩ := Redis.Node.perform_closed_eq h hc
    exact ⟨fun ha => ⟨_, hrefused ha⟩, hanswered⟩

def Redis.abandoned : Redis.Node Redis.Nowhere where
  server := {}
  endpoint := { host := "localhost", port := 6379 }
  patience := 250

/-- A read after the node was closed, by either kind of node. -/
theorem a_closed_node_refuses_a_read :
    let memory := (performAll [.write "user1" (Dict.ofList [("f", "v")]), .close] ({} : Memory)).2
    let node := (performAll [.close] Redis.abandoned).2
    (∃ cause, Store.perform (.fetch "user1") memory = (.error (.connection cause), memory)) ∧
      ∃ cause, Store.perform (.fetch "user1") node = (.error (.connection cause), node) := by
  intro memory node
  have hc : Call.fetch "user1" ≠ .close := by simp
  exact ⟨(closed_nodes_refuse hc).1 {} (.tail _ (.head _)),
    ((closed_nodes_refuse hc).2 Redis.Nowhere Redis.abandoned (.head _)).1 rfl⟩

/-- A closed node on a server still answers calls that ask for nothing. -/
theorem a_closed_node_answers_for_nothing :
    (performAll [.close, .write "user1" Dict.empty, .fetchFields "user1" [], .indexRange (KeyHash.score "user1") 0]
      Redis.abandoned).1 =
      [⟨.close, .ok ()⟩, ⟨.write "user1" Dict.empty, .ok 0⟩, ⟨.fetchFields "user1" [], .ok Dict.empty⟩,
        ⟨.indexRange (KeyHash.score "user1") 0, .ok []⟩] := rfl

end Placement.Store
