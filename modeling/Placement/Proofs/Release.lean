import Placement.Proofs.Isolation
import Placement.Proofs.Refusal
import Placement.Proofs.RoundTrip
import Placement.Proofs.Separation

/-!
What is left after a clean-up.

Nodes and lines may fail to be given up, or be gone already, in any combination. Closing goes on after each failure, so
every node that could be closed is, and both lines of the registry are given up. Neither comes back: closed nodes refuse
every call, and so does a registry without its lines, which sends nothing any more.

- `Client.perform_close`, `Client.performAll_shut`: closing both lines, and what a client does after that.
- `Backing.performAll_closed`: what a closed node does.
- `permits_released`: no step of any operation brings back what was given up.
- `cleanup_releases`: what a clean-up reports and leaves, whatever fails, and whatever comes after it.
-/

namespace Placement

/-- Why giving a channel up would fail, if it would. One that was given up before has nothing to shut down. -/
def Channel.closeFault? (c : Channel) : Option Fault := if c.isOpen then c.stream.shutdownFault.map .stream else none

/-- A channel is given up even if that fails. -/
theorem Channel.close_eq (c : Channel) :
    c.close = ((c.closeFault?.elim (.ok ()) .error : Except Fault Unit), { c with isOpen := false }) := by
  obtain ⟨address, stream, isOpen⟩ := c
  cases isOpen with
  | false => rfl
  | true =>
    unfold Channel.close Channel.closeFault?
    dsimp only
    rw [if_pos rfl, if_pos rfl]
    cases stream.shutdownFault <;> rfl

namespace Registry.Client

def shut (s : Client) : Client where
  control := { s.control with isOpen := false }
  benchmark := { s.benchmark with isOpen := false }

/-- Both lines are given up; a fault of the control line is reported before one of the other. -/
theorem perform_close (s : Client) :
    perform .close s =
      (((s.control.closeFault?.or s.benchmark.closeFault?).elim (.ok ()) .error : Except Fault Unit), s.shut) := by
  show s.closeBoth = _
  unfold closeBoth
  rw [Channel.close_eq, Channel.close_eq]
  cases s.control.closeFault? <;> rfl

/-- Nothing goes over the lines of such a client, and nothing changes on them. -/
theorem perform_shut (call : Call) (s : Client) :
    (perform call s.shut).2 = s.shut ∧
      (call ≠ .close → ∃ cause, (perform call s.shut).1 = .error (.registryUnavailable cause)) := by
  have hclosed : ∀ line, (s.shut.channel line).isOpen = false := fun line => by cases line <;> rfl
  have hsame : ∀ line, (perform call s.shut).2.channel line = s.shut.channel line := fun line =>
    channel_perform_of_closed (hclosed line) call
  constructor
  · have hcontrol := hsame .control
    have hbenchmark := hsame .benchmark
    rcases hp : (perform call s.shut).2 with ⟨control, benchmark⟩
    rw [hp] at hcontrol hbenchmark
    obtain rfl : control = s.shut.control := hcontrol
    obtain rfl : benchmark = s.shut.benchmark := hbenchmark
    rfl
  · intro hc
    cases hcommand : call.command? with
    | none => exact absurd (Call.command?_eq_none.1 hcommand) hc
    | some command => exact perform_of_closed hcommand (hclosed command.line)

theorem performAll_shut (calls : List Call) (s : Client) :
    (performAll calls s.shut).2 = s.shut ∧
      ∀ r ∈ (performAll calls s.shut).1, r.call ≠ .close →
        ∃ cause, r.answer = .error (.registryUnavailable cause) := by
  have same : ∀ call s', s' = s.shut → (perform call s').2 = s.shut := by
    rintro call _ rfl
    exact (perform_shut call s).1
  refine ⟨performAll_keeps same rfl calls, fun r hr => ?_⟩
  refine performAll_answers (Q := fun r => r.call ≠ .close → ∃ cause, r.answer = .error (.registryUnavailable cause))
    same ?_ rfl hr
  rintro call _ rfl
  exact (perform_shut call s).2

end Registry.Client

namespace Store

/-- A closed memory stays closed, and serves nothing but closing. -/
theorem Memory.perform_of_closed {m : Memory} (h : m.closed = true) (call : Call) :
    (perform call m).2.closed = true ∧ (call ≠ .close → ∃ fault, (perform call m).1 = .error fault) := by
  refine ⟨closed_stays h call, fun hc => ?_⟩
  obtain ⟨cause, hrefused⟩ := perform_refused h hc
  exact ⟨.connection cause, by rw [hrefused]⟩

namespace Backing

variable {ν : Type} [Store ν] {spared : Call → Prop} (B : Backing ν spared)

theorem perform_closed {state : ν} (h : (B.memory state).closed = true) (call : Call) :
    (B.memory (Store.perform call state).2).closed = true ∧
      (call ≠ .close → ∃ fault, (Store.perform call state).1 = .error fault) := by
  rcases B.serves call state with hs | ⟨-, hfault, hm⟩
  · obtain ⟨hclosed, hrefused⟩ := Memory.perform_of_closed h call
    rw [← hs] at hclosed hrefused
    exact ⟨hclosed, hrefused⟩
  · rw [hm]
    exact ⟨h, fun _ => hfault⟩

/-- A closed node refuses all calls but closing, however many. -/
theorem performAll_closed {state : ν} (h : (B.memory state).closed = true) {calls : List Call} {r : Result}
    (hr : r ∈ (performAll calls state).1) (hc : r.call ≠ .close) : ∃ fault, r.answer = .error fault :=
  performAll_answers (P := fun state => (B.memory state).closed = true)
    (Q := fun r => r.call ≠ .close → ∃ fault, r.answer = .error fault)
    (fun call _ h => (B.perform_closed h call).1) (fun call _ h => (B.perform_closed h call).2) h hr hc

end Backing

end Store

namespace Cluster

open Registry (Client)

variable {ν : Type} [Store ν] {spared : Store.Call → Prop} {w w' w'' : Cluster ν Client}

/-! ## What stays given up -/

def ClosedOn (B : Store.Backing ν spared) (w : Cluster ν Client) (node : NodeId) : Prop :=
  ∃ state, w.nodes.get? node = some state ∧ (B.memory state).closed = true

structure Released (B : Store.Backing ν spared) (w w' : Cluster ν Client) : Prop where
  nodes : ∀ node, ClosedOn B w node → ClosedOn B w' node
  registry : ∀ client : Client, w.registry = some client.shut → w'.registry = some client.shut

/-- No step brings back what was given up. -/
theorem permits_released (B : Store.Backing ν spared) :
    Permits (Released B) (fun _ => True) fun _ => True where
  refl w := ⟨fun _ h => h, fun _ h => h⟩
  trans h h' :=
    ⟨fun node hn => h'.nodes node (h.nodes node hn), fun client hc => h'.registry client (h.registry client hc)⟩
  ask node call _ w := by
    have answered : ∀ state answer, w.nodes.get? node = some state →
        Released B w (w.answered node call answer (Store.perform call state).2) := by
      intro state answer hn
      refine ⟨fun other hother => ?_, fun _ h => h⟩
      obtain ⟨state', hs, hclosed⟩ := hother
      by_cases ho : node = other
      · subst ho
        obtain rfl : state = state' := Option.some.inj (hn.symm.trans hs)
        exact ⟨_, Dict.get?_insert_self .., (B.perform_closed hclosed call).1⟩
      · exact ⟨state', by simp [Cluster.answered, Dict.get?_insert, ho, hs], hclosed⟩
    refine ensures_ask (fun state a state' hn hp => ?_) (fun state fault state' hn hp => ?_) fun _ =>
      ⟨fun _ h => h, fun _ h => h⟩
    · have h := answered state (.ok a) hn
      rwa [hp] at h
    · have h := answered state (.error fault) hn
      rwa [hp] at h
  consult call _ w := by
    refine ensures_advised (fun client answer hr => ⟨fun _ h => h, fun gone hgone => ?_⟩) fun _ =>
      ⟨fun _ h => h, fun _ h => h⟩
    obtain rfl : client = gone.shut := Option.some.inj (hr.symm.trans hgone)
    exact congrArg some (Client.perform_shut call gone).1
  draw _ _ := ensures_draw ⟨fun _ h => h, fun _ h => h⟩
  report _ _ := ensures_report ⟨fun _ h => h, fun _ h => h⟩

/-! ## Closing the nodes -/

def closeFaults (w : Cluster ν Client) : List (NodeId × Fault) :=
  w.ids.filterMap fun node =>
    (w.nodes.get? node).bind fun state => FanOut.failureOf node (Store.perform .close state).1

theorem alone_close {node : NodeId} {state : ν} (hn : w.nodes.get? node = some state) :
    (alone (fun node => ask node .close) w node).1 = (Store.perform .close state).1 ∧
      (alone (fun node => ask node .close) w node).2.nodes.get? node = some (Store.perform .close state).2 := by
  have honly : (w.only node).nodes.get? node = some state := by simp [only, Dict.get?_restrict, hn]
  rw [alone, run_ask honly]
  exact ⟨rfl, Dict.get?_insert_self ..⟩

/-- Every node is asked to close, whatever the others do, and those that fail are reported. -/
theorem closeAll_leaves (w : Cluster ν Client) :
    ∃ (f : FanOut Unit) (outcome : Except Fault Unit) (w' : Cluster ν Client), run closeAll w = (outcome, w') ∧
      Reported w.ids f outcome ∧ f.failures = w.closeFaults ∧ w'.registry = w.registry ∧
      ∀ node state, w.nodes.get? node = some state → w'.nodes.get? node = some (Store.perform .close state).2 := by
  obtain ⟨f, w', hrun, hf⟩ := onEveryNode_complete (fun node => local_ask node .close) w
  refine ⟨f, _, w', run_toExcept hrun, hf.reported _, ?_, hf.registry, ?_⟩
  · rw [hf.failures]
    unfold closeFaults
    apply List.filterMap_congr
    intro node hnode
    obtain ⟨state, hn⟩ := Dict.contains_iff.1 (Dict.mem_keys.1 hnode)
    rw [hn, (alone_close hn).1]
    rfl
  · intro node state hn
    rw [hf.states node (Dict.mem_keys.2 (Dict.contains_iff.2 ⟨state, hn⟩)), (alone_close hn).2]

end Cluster

namespace Coordinator

open Registry (Client)

variable {ν : Type} [Store ν] {spared : Store.Call → Prop} {client : Client}

omit [Store ν] in
theorem closeRegistry_leaves {w : Cluster ν Client} (hr : w.registry = some client) :
    ∃ w', Cluster.run closeRegistry w =
        (((client.control.closeFault?.or client.benchmark.closeFault?).elim (.ok ()) .error : Except Fault Unit), w') ∧
      w'.nodes = w.nodes ∧ w'.registry = some client.shut := by
  have hclose : Registry.perform .close client = _ := client.perform_close
  have hrun : Cluster.run closeRegistry w = Cluster.run (Cluster.consult .close) w := by
    show Cluster.run (if w.registry.isSome then _ else _) w = _
    rw [hr]
    rfl
  rw [hrun, Cluster.run_consult hr, hclose]
  exact ⟨_, rfl, rfl, rfl⟩

/-- Closing goes on behind a failure, and the first failure is the one reported. -/
theorem run_cleanup {w w₁ w₂ : Cluster ν Client} {nodes lines : Except Fault Unit}
    (hnodes : Cluster.run Cluster.closeAll w = (nodes, w₁)) (hlines : Cluster.run closeRegistry w₁ = (lines, w₂)) :
    Cluster.run
        (do
          let nodes ← Cluster.attempt Cluster.closeAll
          let registry ← Cluster.attempt closeRegistry
          nodes
          registry) w = (nodes.bind fun _ => lines, w₂) := by
  rw [Cluster.run_bind, Cluster.run_attempt, hnodes]
  dsimp only
  rw [Cluster.run_bind, Cluster.run_attempt, hlines]
  dsimp only
  rw [Cluster.run_bind, Cluster.run_lift]
  cases nodes with
  | error fault => rfl
  | ok _ => exact Cluster.run_lift lines w₂

/-- What a clean-up reports: the faults of all nodes that failed, if any did; if none, the fault of the control line; if
it had none either, the fault of the benchmark line. -/
structure Reports (failures : List (NodeId × Fault)) (client : Client) (outcome : Except Fault Unit) : Prop where
  ok_iff : outcome = .ok () ↔
    failures = [] ∧ client.control.closeFault? = none ∧ client.benchmark.closeFault? = none
  nodes : failures ≠ [] → ∃ causes, outcome = .error (.aggregate causes) ∧ causes.toList = failures
  control : failures = [] → ∀ fault, client.control.closeFault? = some fault → outcome = .error fault
  benchmark : failures = [] → client.control.closeFault? = none →
    ∀ fault, client.benchmark.closeFault? = some fault → outcome = .error fault

theorem reports {ids : List NodeId} {f : FanOut Unit} {outcome : Except Fault Unit} (h : Cluster.Reported ids f outcome)
    (client : Client) :
    Reports f.failures client
      (outcome.bind fun _ => (client.control.closeFault?.or client.benchmark.closeFault?).elim (.ok ()) .error) := by
  cases outcome with
  | ok _ =>
    have hnone : f.failures = [] := h.ok_iff.1 ⟨(), rfl⟩
    rw [hnone]
    show Reports [] client ((client.control.closeFault?.or client.benchmark.closeFault?).elim (.ok ()) .error)
    refine ⟨?_, fun hne => absurd rfl hne, fun _ fault hc => ?_, fun _ hc fault hb => ?_⟩
    · cases client.control.closeFault? <;> cases client.benchmark.closeFault? <;> simp
    · rw [hc]
      rfl
    · rw [hc, hb]
      rfl
  | error fault =>
    obtain ⟨causes, rfl, hcauses⟩ := h.aggregate fault rfl
    have hsome : f.failures ≠ [] := fun hnone => by
      obtain ⟨_, hok⟩ := h.ok_iff.2 hnone
      cases hok
    refine ⟨⟨fun hok => ?_, fun hok => absurd hok.1 hsome⟩, fun _ => ⟨causes, rfl, hcauses⟩,
      fun hnone => absurd hnone hsome, fun hnone => absurd hnone hsome⟩
    cases hok

/-- No request brings back what was given up. -/
theorem serveAll_released (B : Store.Backing ν spared) (requests : List Request) (c : Coordinator ν Client) :
    Cluster.Released B c.cluster (serveAll requests c).2.cluster := by
  have hP := Cluster.permits_released B
  refine serveAll_keeps (I := fun c' => Cluster.Released B c.cluster c'.cluster) (P := fun _ => True) ?_
    (fun _ _ => trivial) (hP.refl _)
  intro q c' _ hc'
  rw [serve_eq]
  apply hP.trans hc'
  exact q.stays_within hP c'.selection c'.cluster (fun _ _ => trivial) (fun _ _ => trivial) fun _ => ⟨trivial, trivial⟩

/-- Whatever nodes and lines fail to be given up, a clean-up gives up all the others and both lines, and reports the
failures of the nodes before those of the lines. Whatever is asked of the coordinator after that, the nodes refuse all
calls but closing, and so does the client of the registry, over whose lines nothing goes any more. -/
theorem cleanup_releases (B : Store.Backing ν spared) (c : Coordinator ν Client)
    (hr : c.cluster.registry = some client) :
    Reports c.cluster.closeFaults client (cleanup c).1 ∧
      ∀ later : List Request,
        (∀ node state, c.cluster.nodes.get? node = some state → (Store.perform .close state).1 = .ok () →
          ∃ state', (serveAll later (cleanup c).2).2.cluster.nodes.get? node = some state' ∧
            ∀ calls, ∀ r ∈ (Store.performAll calls state').1, r.call ≠ .close → ∃ fault, r.answer = .error fault) ∧
        (serveAll later (cleanup c).2).2.cluster.registry = some client.shut ∧
          ∀ calls, (Registry.performAll calls client.shut).2 = client.shut ∧
            ∀ r ∈ (Registry.performAll calls client.shut).1, r.call ≠ .close →
              ∃ cause, r.answer = .error (.registryUnavailable cause) := by
  obtain ⟨f, outcome, w₁, hnodes, hreported, hfailures, hregistry₁, hstates⟩ := Cluster.closeAll_leaves c.cluster
  obtain ⟨w₂, hlines, hnodes₂, hregistry₂⟩ := closeRegistry_leaves (hregistry₁.trans hr)
  have hcleanup : cleanup c =
      (outcome.bind fun _ => (client.control.closeFault?.or client.benchmark.closeFault?).elim (.ok ()) .error,
        { c with cluster := w₂ }) := by
    unfold cleanup perform
    rw [run_cleanup hnodes hlines]
  rw [hcleanup]
  refine ⟨hfailures ▸ reports hreported client, fun later => ?_⟩
  have hreleased : Cluster.Released B w₂ (serveAll later { c with cluster := w₂ }).2.cluster :=
    serveAll_released B later { c with cluster := w₂ }
  refine ⟨fun node state hn hclose => ?_, ?_, fun calls => Client.performAll_shut calls client⟩
  · have hclosed : Cluster.ClosedOn B w₂ node := by
      refine ⟨(Store.perform .close state).2, by rw [hnodes₂, hstates node state hn], ?_⟩
      rw [(B.ok (Prod.ext hclose rfl)).2.2]
      rfl
    obtain ⟨state', hn', hclosed'⟩ := hreleased.nodes node hclosed
    exact ⟨state', hn', fun calls r hr' hc => B.performAll_closed hclosed' hr' hc⟩
  · exact hreleased.registry client hregistry₂

/-- A node that cannot be reached, one that can, a control line that was given up before, and a benchmark line that
cannot be shut down. -/
def halfGone : Coordinator Store.Memory Client where
  cluster :=
    { nodes := Dict.ofList [("a", { unreachable := true }), ("b", {})]
      registry := some
        { control := { address := "control", stream := {}, isOpen := false }
          benchmark := { address := "benchmark", stream := { shutdownFault := some (.stated "reset") } } } }

theorem what_is_left_is_given_up :
    (∃ causes, (cleanup halfGone).1 = .error (.aggregate causes) ∧
      causes.toList = [("a", .connection .nodeUnreachable)]) ∧
    ∃ state', (cleanup halfGone).2.cluster.nodes.get? "b" = some state' ∧
      ∀ calls, ∀ r ∈ (Store.performAll calls state').1, r.call ≠ .close → ∃ fault, r.answer = .error fault := by
  have faults : halfGone.cluster.closeFaults = [("a", .connection .nodeUnreachable)] := by decide +kernel
  obtain ⟨hreports, hleft⟩ := cleanup_releases (.self fun _ => True) halfGone rfl
  obtain ⟨causes, houtcome, hcauses⟩ := hreports.nodes (by rw [faults]; simp)
  obtain ⟨hnodes, -⟩ := hleft []
  exact ⟨⟨causes, houtcome, hcauses.trans faults⟩, hnodes "b" {} rfl rfl⟩

end Coordinator

end Placement
