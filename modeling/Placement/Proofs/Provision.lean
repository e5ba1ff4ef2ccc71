import Placement.Proofs.Isolation
import Placement.Proofs.Separation
import Placement.Proofs.Session
import Placement.Store.Redis

/-!
What an insert does not fail for.

A cluster can lack what an insert needs: it has no node to choose, or it is to ask a registry and there is none. Neither
is a fault that a node or a registry reports of itself, so neither comes up where there are nodes, and a registry if one
is to choose. That stays so: no request has a node or the registry go away, only out of use.

- `Node.perform_ofServer`: what a node on a server reports.
- `insert_provided`: an insert.
- `serveAll_members`: nodes and registry are there after any requests.
-/

namespace Placement

def Fault.OfNothing (fault : Fault) : Prop := fault = .noNodesAvailable ∨ fault = .registryUnavailable .absent

/-- What a node on a server reports: that there is no connection, that nothing came in time, or what its server said. -/
def Fault.ofServer : Fault → Bool
  | .connection _ | .timeout _ | .redis _ => true
  | _ => false

theorem Fault.not_ofNothing_of_ofServer {fault : Fault} (h : fault.ofServer = true) : ¬ fault.OfNothing := by
  rintro (rfl | rfl) <;> cases h

namespace Store.Redis

/-! ## Nodes on servers -/

/-- If it is a fault, it is one that a node on a server reports. -/
def OfServer {α : Type} (x : Except Fault α) : Prop := ∀ fault, x = .error fault → fault.ofServer = true

variable {α : Type}

theorem ofServer_ok (a : α) : OfServer (.ok a) := by rintro _ ⟨⟩

theorem ofServer_error {fault : Fault} (h : fault.ofServer = true) : OfServer (.error fault : Except Fault α) := by
  rintro _ ⟨⟩
  exact h

namespace Node

variable {σ : Type}

theorem outcome_ofServer (n : Node σ) (name : String) (read : Reply → Except String α) (delivery : Delivery) :
    OfServer (n.outcome name read delivery) := by
  cases delivery with
  | reply r =>
    show OfServer ((read r).mapError .redis)
    cases read r with
    | ok a => exact ofServer_ok a
    | error detail => exact ofServer_error rfl
  | silent => exact ofServer_error rfl
  | failed detail => exact ofServer_error rfl

variable [Server σ]

theorem ready_ofServer (n : Node σ) : OfServer n.ready.1 := by
  unfold ready
  split
  · exact ofServer_error rfl
  · exact ofServer_ok _
  · split
    · exact ofServer_ok _
    · exact ofServer_error rfl
    · exact ofServer_error rfl

theorem call_ofServer (n : Node σ) (name : String) (c : Command) (read : Reply → Except String α) :
    OfServer (n.call name c read).1 := by
  have ready := ready_ofServer n
  unfold call
  split <;> (rename_i heq; rw [heq] at ready)
  · exact ofServer_error (ready _ rfl)
  · exact outcome_ofServer _ name read _

theorem transactionReady_ofServer (n : Node σ) : OfServer n.transactionReady.1 := by
  unfold transactionReady
  split
  · exact ofServer_ok _
  · split
    · exact ofServer_ok _
    · exact ofServer_error rfl
    · exact ofServer_error rfl

theorem watchedRemove_ofServer (key : String) (connection : Nat) (n : Node σ) :
    OfServer (n.watchedRemove key connection).1 := by
  have watched := outcome_ofServer (n.exchange connection [.watch key]).2 "WATCH" (Server.readers σ).done
    (n.exchange connection [.watch key]).1
  unfold watchedRemove
  dsimp only
  split
  · rename_i heq
    exact ofServer_error (watched _ heq)
  · exact outcome_ofServer _ _ _ _

theorem removeIndexed_ofServer (key : String) (n : Node σ) : OfServer (n.removeIndexed key).1 := by
  have ready := ready_ofServer n
  unfold removeIndexed
  split <;> (rename_i n₁ heq; rw [heq] at ready)
  · exact ofServer_error (ready _ rfl)
  have got := transactionReady_ofServer n₁
  split <;> (rename_i heq; rw [heq] at got)
  · exact ofServer_error (got _ rfl)
  rename_i connection n₂
  have removed := watchedRemove_ofServer key connection n₂
  split <;> (rename_i heq; rw [heq] at removed)
  · exact ofServer_error (removed _ rfl)
  · exact ofServer_ok _

/-- What a node reports. -/
theorem perform_ofServer (call : Call) (n : Node σ) : OfServer (Store.perform call n).1 := by
  show OfServer (perform call n).1
  cases call with
  | write _ _ | fetchFields _ _ | indexRange _ _ =>
    simp only [perform]
    split
    · exact ofServer_ok _
    · exact call_ofServer n _ _ _
  | removeIndexed key => exact removeIndexed_ofServer key n
  | close => exact ofServer_ok _
  | _ => exact call_ofServer n _ _ _

end Node

end Store.Redis

namespace Cluster

variable {ν ρ : Type} [Store ν] [Registry ρ] {w : Cluster ν ρ}

/-! ## Inserts -/

section
variable (hnodes : ∀ (call : Store.Call) (state : ν) (fault : Fault),
    (Store.perform call state).1 = .error fault → ¬ fault.OfNothing)
  (hregistries : ∀ (call : Registry.Call) (state : ρ) (fault : Fault),
    call ≠ .close → (Registry.perform call state).1 = .error fault → ¬ fault.OfNothing)

omit [Registry ρ] in
include hnodes in
theorem ask_provided (node : NodeId) (call : Store.Call) (w : Cluster ν ρ) :
    Ensures w (ask node call) (fun _ _ => True) fun fault _ => ¬ fault.OfNothing := by
  refine ensures_ask (fun _ _ _ _ _ => trivial) (fun state fault state' _ hp => ?_) fun _ => by simp [Fault.OfNothing]
  exact hnodes call state fault (by rw [hp])

omit [Store ν] in
include hregistries in
theorem consult_provided (hr : w.registry.isSome = true) {call : Registry.Call} (hc : call ≠ .close) :
    Ensures w (consult call) (fun _ _ => True) fun fault _ => ¬ fault.OfNothing := by
  refine ensures_consult (fun _ _ _ _ _ => trivial) (fun state fault state' _ hp => ?_) fun hn => ?_
  · exact hregistries call state fault hc (by rw [hp])
  · rw [hn] at hr
    cases hr

omit [Registry ρ] in
/-- Where no node says its count, all of them have failed, and their faults are reported. -/
theorem leastLoaded_provided (hne : w.ids ≠ []) :
    Ensures w leastLoaded (fun _ _ => True) fun fault _ => ¬ fault.OfNothing := by
  obtain ⟨f, w₁, hrun, hf⟩ := onEveryNode_complete (ν := ν) (ρ := ρ) (fun node => local_ask node .count) w
  have counted : Ensures w counts (fun g w' => g = f ∧ w' = w₁) fun _ _ => False := by
    rw [Ensures, show run counts w = _ from hrun]
    exact ⟨rfl, rfl⟩
  refine counted.andThen (fun _ _ hfalse => hfalse.elim) fun g w' h => ensures_inspect_bind ?_
  obtain ⟨rfl, rfl⟩ := h
  split
  · exact ensures_pure trivial
  rename_i hnone
  obtain ⟨node, hn⟩ := List.exists_mem_of_ne_nil w.ids hne
  have failed : g.failures ≠ [] := by
    rcases Selection.leastLoadedOf_cases (w'.ids.map fun id => (id, g.results.get? id))
      with ⟨-, hall⟩ | ⟨_, _, _, hsome, -⟩
    · have hunknown : g.results.get? node = none := by
        refine hall (node, g.results.get? node) (List.mem_map.2 ⟨node, ?_, rfl⟩)
        rwa [hf.ids]
      rw [hf.results, if_pos hn] at hunknown
      cases hout : (alone (fun node => ask node .count) w node).1 with
      | ok count =>
        rw [hout] at hunknown
        cases hunknown
      | error fault => exact List.ne_nil_of_mem (hf.mem_failures.2 ⟨hn, hout⟩)
    · rw [hnone] at hsome
      cases hsome
  cases hof : Fault.ofFailures g.failures with
  | none =>
    rw [Fault.ofFailures, Option.map_eq_none_iff, Causes.ofList?_eq_none] at hof
    exact absurd hof failed
  | some fault =>
    obtain ⟨causes, -, rfl⟩ := Option.map_eq_some_iff.1 hof
    exact ensures_throw (by simp [Fault.OfNothing])

include hregistries in
theorem choose_provided {how : Selection} (hne : w.ids ≠ []) (hr : how = .registry → w.registry.isSome = true) :
    Ensures w (choose how) (fun _ _ => True) fun fault _ => ¬ fault.OfNothing := by
  refine ensures_inspect_bind ?_
  rw [if_neg (by simpa using hne)]
  cases how with
  | random => exact (ensures_draw (Q := fun _ _ => True) trivial).bind fun _ _ _ => ensures_pure trivial
  | leastLoaded => exact leastLoaded_provided hne
  | registry =>
    refine ensures_inspect_bind ((consult_provided hregistries (hr rfl) (by simp)).bind fun node w₁ _ => ?_)
    refine ensures_inspect_bind ?_
    split
    · exact ensures_pure trivial
    · exact ensures_throw (by simp [Fault.OfNothing])

omit [Registry ρ] in
include hnodes in
theorem writeNew_provided (node : NodeId) (key : String) (fields : Record) (w : Cluster ν ρ) :
    Ensures w (writeNew node key fields) (fun _ _ => True) fun fault _ => ¬ fault.OfNothing := by
  refine (ask_provided hnodes node _ w).bind fun written w₁ _ => ?_
  split
  · exact ensures_throw (by simp [Fault.OfNothing])
  · exact ensures_pure trivial

omit [Registry ρ] in
include hnodes in
/-- Undoing reports the fault that led to it. -/
theorem undo_provided {α : Type} {fault : Fault} (hf : ¬ fault.OfNothing) (node : NodeId) (key : String)
    (w : Cluster ν ρ) :
    Ensures w (do takeBack node key; throw fault : Op ν ρ α) (fun _ _ => True) fun fault _ => ¬ fault.OfNothing := by
  have taken : Ensures w (takeBack node key) (fun _ _ => True) fun fault _ => ¬ fault.OfNothing :=
    (ask_provided hnodes node _ w).attempt_bind (fun _ _ _ => ensures_pure trivial) fun _ _ _ => ensures_pure trivial
  exact taken.bind fun _ _ _ => ensures_throw hf

include hnodes hregistries in
theorem confirm_provided (node : NodeId) (key : String) (w : Cluster ν ρ) :
    Ensures w (confirm node key) (fun _ _ => True) fun fault _ => ¬ fault.OfNothing := by
  refine ensures_hasRegistry_bind ?_
  cases hr : w.registry.isSome with
  | false => exact ensures_pure trivial
  | true =>
    refine (consult_provided hregistries hr (by simp)).attempt_bind (fun confirmed w₁ _ => ?_) fun fault w₁ hf => ?_
    · cases confirmed with
      | true => exact ensures_pure trivial
      | false => exact undo_provided hnodes (by simp [Fault.OfNothing]) node key w₁
    · exact undo_provided hnodes hf node key w₁

include hnodes hregistries in
theorem enter_provided (node : NodeId) (key : String) (w : Cluster ν ρ) :
    Ensures w (enter node key) (fun _ _ => True) fun fault _ => ¬ fault.OfNothing := by
  refine (ask_provided hnodes node _ w).attempt_bind (fun _ _ _ => ensures_pure trivial) fun fault w₁ hf => ?_
  refine ensures_hasRegistry_bind ?_
  cases hr : w₁.registry.isSome with
  | false => exact undo_provided hnodes hf node key w₁
  | true =>
    exact (consult_provided hregistries hr (by simp)).attempt_bind (fun _ w₂ _ => undo_provided hnodes hf node key w₂)
      fun _ w₂ _ => undo_provided hnodes hf node key w₂

include hnodes hregistries in
theorem insert_provided {how : Selection} (hne : w.ids ≠ []) (hr : how = .registry → w.registry.isSome = true)
    (key : String) (fields : Record) :
    Ensures w (insert how key fields) (fun _ _ => True) fun fault _ => ¬ fault.OfNothing := by
  unfold insert
  split
  · exact ensures_throw (by simp [Fault.OfNothing])
  refine (choose_provided hregistries hne hr).bind fun node w₁ _ => ?_
  refine (writeNew_provided hnodes node key fields w₁).bind fun _ w₂ _ => ?_
  refine (confirm_provided hnodes hregistries node key w₂).bind fun _ w₃ _ => ?_
  exact (enter_provided hnodes hregistries node key w₃).bind fun _ _ _ => ensures_pure trivial

end

/-- Nodes and registry stay where they are, and no others come. -/
theorem permits_members :
    Permits (fun w w' : Cluster ν ρ => w'.ids = w.ids ∧ w'.registry.isSome = w.registry.isSome) (fun _ => True)
      fun _ => True where
  refl _ := ⟨rfl, rfl⟩
  trans h h' := ⟨h'.1.trans h.1, h'.2.trans h.2⟩
  ask node call _ w := by
    have kept : ∀ state state', w.nodes.get? node = some state → (w.nodes.insert node state').keys = w.nodes.keys :=
      fun state state' hn => Dict.keys_insert (Dict.contains_iff.2 ⟨state, hn⟩) state'
    exact ensures_ask (fun _ _ _ hn _ => ⟨kept _ _ hn, rfl⟩) (fun _ _ _ hn _ => ⟨kept _ _ hn, rfl⟩) fun _ => ⟨rfl, rfl⟩
  consult _ _ _ := ensures_advised (fun _ _ hr => ⟨rfl, (congrArg Option.isSome hr).symm⟩) fun _ => ⟨rfl, rfl⟩
  draw _ _ := ensures_draw ⟨rfl, rfl⟩
  report _ _ := ensures_report ⟨rfl, rfl⟩

end Cluster

namespace Coordinator

variable {ν ρ : Type} [Store ν] [Registry ρ]

theorem serveAll_members (requests : List Request) (c : Coordinator ν ρ) :
    let left := (serveAll requests c).2
    left.selection = c.selection ∧ left.cluster.ids = c.cluster.ids ∧
      left.cluster.registry.isSome = c.cluster.registry.isSome := by
  refine serveAll_keeps (I := fun left => left.selection = c.selection ∧ left.cluster.ids = c.cluster.ids ∧
    left.cluster.registry.isSome = c.cluster.registry.isSome) (P := fun _ => True) (fun q left _ h => ?_)
    (fun _ _ => trivial) ⟨rfl, rfl, rfl⟩
  obtain ⟨hselection, hids, hregistry⟩ := h
  have kept := q.stays_within Cluster.permits_members left.selection left.cluster (fun _ _ => trivial)
    (fun _ _ => trivial) fun _ => ⟨trivial, trivial⟩
  rw [serve_eq]
  exact ⟨hselection, kept.1.trans hids, kept.2.trans hregistry⟩

end Coordinator

end Placement
