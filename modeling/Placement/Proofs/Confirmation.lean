import Placement.Proofs.Envelopes
import Placement.Proofs.Outcome
import Placement.Proofs.Turns
import Placement.Registry.Client

/-!
A record is kept on an explicit confirmation and on nothing else.

The registry is a client on a connection of which only the bytes are known. An insert is `Committed` when the other end
was sent the frame that places the key on the node, and the next frame to come from there says that this was done.

- `Client.perform_suggest`, `Client.perform_place`: what one command comes to where writes do not fail.
- `choose_asks`, `confirm_asks`: what an insert sends before it writes, and after.
- `insert_commits`: an insert ends well if and only if it is committed, and otherwise leaves every node as it was.
-/

namespace Placement.Registry

open Json (Document)

/-! ## Commands and replies in bytes -/

namespace Command

def frame (command : Command) : List UInt8 := Frame.bytes (Envelope.toBytes { command })

theorem frame_ne_nil (command : Command) : command.frame ≠ [] := by
  intro h
  have hlength := congrArg List.length h
  simp only [frame, Frame.length_bytes, List.length_nil] at hlength
  omega

/-- A frame tells the command that goes out in it. -/
theorem frame_inj : Function.Injective frame := by
  intro c c' h
  have hbytes : Envelope.toBytes { command := c } = Envelope.toBytes { command := c' } := Frame.bytes_inj h
  have hread := Envelope.ofBytes?_toBytes { command := c }
  rw [hbytes, Envelope.ofBytes?_toBytes] at hread
  cases hread
  rfl

end Command

/-- The reply says that the command was served, and answers it with yes. -/
def Confirms (reply : ByteArray) : Prop :=
  ∃ r : Reply Bool, Reply.ofBytes Document.bool? reply = .ok r ∧ r.success = true ∧ r.result = some true

/-- A placement is answered with yes by a reply that confirms it, and by no other. -/
theorem answer_eq_true_iff (command : String) (reply : ByteArray) :
    (Reply.ofBytes Document.bool? reply >>= (·.outcome command)).map (·.getD false) = .ok true ↔ Confirms reply := by
  unfold Confirms
  cases Reply.ofBytes Document.bool? reply with
  | error fault => simp [bind, Except.bind, Except.map]
  | ok r =>
    obtain ⟨success, result, reason⟩ := r
    rcases success with _ | _ <;> rcases result with _ | _ | _ <;>
      simp [bind, Except.bind, Except.map, Reply.outcome]

/-! ## Single commands -/

structure Confirmed (command : Command) (c c' : Channel) : Prop where
  sent : c'.sent = c.sent ++ command.frame
  reply : ∃ reply, (Frame.payloads c.incoming).head? = some reply ∧ Confirms reply

/-- The command was not sent, or it was and the next frame, if there is one, does not confirm it. -/
def Unconfirmed (command : Command) (c c' : Channel) : Prop :=
  c'.sent = c.sent ∨
    c'.sent = c.sent ++ command.frame ∧ ∀ reply, (Frame.payloads c.incoming).head? = some reply → ¬ Confirms reply

namespace Client

variable {s : Client}

theorem perform_place (h : s.control.stream.outflow.Willing) (node : NodeId) (key : String) :
    ((perform (.place node key) s).1 = .ok true →
        Confirmed (.place node key) s.control (perform (.place node key) s).2.control) ∧
      ((perform (.place node key) s).1 ≠ .ok true →
        Unconfirmed (.place node key) s.control (perform (.place node key) s).2.control) := by
  simp only [perform, overControl, request]
  rcases Channel.send_willing h (Envelope.toBytes { command := .place node key }) with
    ⟨reply, c', hs, hx, -⟩ | ⟨fault, c', hs, hfail⟩
  · have hsent : c'.sent = s.control.sent ++ (Command.place node key).frame := by
      simpa [Command.frame] using hx.sent
    have hnext : (Frame.payloads s.control.incoming).head? = some reply := by simp [hx.payloads]
    rw [hs]
    simp only [ne_eq, answer_eq_true_iff]
    refine ⟨fun hyes => ⟨hsent, reply, hnext, hyes⟩, fun hno => .inr ⟨hsent, fun other hother => ?_⟩⟩
    rw [hnext] at hother
    cases hother
    exact hno
  · rw [hs]
    refine ⟨fun hyes => (by cases hyes), fun _ => ?_⟩
    rcases hfail with hsent | ⟨hsent, hnone⟩
    · exact .inl hsent
    · refine .inr ⟨hsent, fun other hother => ?_⟩
      rw [Frame.payloads_of_none hnone] at hother
      cases hother

theorem perform_suggest (h : s.control.stream.outflow.Willing) (nodes : List NodeId) :
    (∃ node s' reply, perform (.suggest nodes) s = (.ok node, s') ∧
        s.control.Exchanged [(Envelope.toBytes { command := .suggest nodes }, reply)] s'.control ∧
        s'.control.stream.outflow.Willing) ∨
      ∃ fault s' part, perform (.suggest nodes) s = (.error fault, s') ∧ s'.control.sent = s.control.sent ++ part ∧
        part <+: (Command.suggest nodes).frame := by
  simp only [perform, overControl, request]
  rcases Channel.send_willing h (Envelope.toBytes { command := .suggest nodes }) with
    ⟨reply, c', hs, hx, hwilling⟩ | ⟨fault, c', hs, hfail⟩
  · have hsent : c'.sent = s.control.sent ++ (Command.suggest nodes).frame := by
      simpa [Command.frame] using hx.sent
    rw [hs]
    dsimp only
    rcases (Reply.ofBytes Document.text? reply >>= (·.outcome (Command.suggest nodes).name)) with
      fault | _ | node
    · exact .inr ⟨_, _, _, rfl, hsent, List.prefix_rfl⟩
    · exact .inr ⟨_, _, _, rfl, hsent, List.prefix_rfl⟩
    · exact .inl ⟨node, _, reply, rfl, hx, hwilling⟩
  · rw [hs]
    rcases hfail with hsent | ⟨hsent, -⟩
    · exact .inr ⟨_, _, [], rfl, by simpa using hsent, List.nil_prefix⟩
    · exact .inr ⟨_, _, _, rfl, hsent, List.prefix_rfl⟩

end Client

/-! ## Commands of an insert -/

def asked (how : Selection) (ids : List NodeId) : List Command :=
  match how with
  | .registry => [.suggest ids]
  | _ => []

/-- Over the control channel went what is asked while the node is chosen and then the placement of the key on that node,
and the frame that comes next confirms it. -/
structure Committed (how : Selection) (ids : List NodeId) (node : NodeId) (key : String) (c c' : Channel) : Prop where
  sent : c'.sent = c.sent ++ (asked how ids ++ [Command.place node key]).flatMap Command.frame
  reply : ∃ reply, (Frame.payloads c.incoming)[(asked how ids).length]? = some reply ∧ Confirms reply

/-- Everything that is asked while the node is chosen was asked and answered. -/
def Answered (how : Selection) (ids : List NodeId) (c c' : Channel) : Prop :=
  ∃ turns, c.Exchanged turns c' ∧ turns.map (·.1) = (asked how ids).map fun command => Envelope.toBytes { command }

variable {how : Selection} {ids : List NodeId} {node node' : NodeId} {key : String} {c c' c'' : Channel}

theorem Committed.unique (h : Committed how ids node key c c') (h' : Committed how ids node' key c c') :
    node = node' := by
  have hsent := h.sent.symm.trans h'.sent
  simp only [List.flatMap_append, List.flatMap_singleton, List.append_cancel_left_eq] at hsent
  exact (Command.place.inj (Command.frame_inj hsent)).1

/-- Without a placement after what is asked before, nothing is committed. -/
theorem not_committed_of_prefix {part : List UInt8} (hsent : c'.sent = c.sent ++ part)
    (hpart : part <+: (asked how ids).flatMap Command.frame) : ¬ Committed how ids node key c c' := by
  intro h
  have hall := hsent.symm.trans h.sent
  rw [List.flatMap_append, List.flatMap_singleton, List.append_cancel_left_eq] at hall
  have hlength := hpart.length_le
  have hplace : 0 < (Command.place node key).frame.length := List.length_pos_iff.2 (Command.frame_ne_nil _)
  rw [hall, List.length_append] at hlength
  omega

theorem Answered.sent (h : Answered how ids c c') :
    c'.sent = c.sent ++ (asked how ids).flatMap Command.frame := by
  obtain ⟨turns, hx, hturns⟩ := h
  have hframes : (turns.map (·.1)).flatMap Frame.bytes = (asked how ids).flatMap Command.frame := by
    rw [hturns, List.flatMap_map]
    rfl
  rw [hx.sent, ← hframes, List.flatMap_map]

/-- The next reply is the one behind those that were asked for before. -/
theorem Answered.next (h : Answered how ids c c') :
    (Frame.payloads c.incoming)[(asked how ids).length]? = (Frame.payloads c'.incoming).head? := by
  obtain ⟨turns, hx, hturns⟩ := h
  have hlength : (asked how ids).length = (turns.map (·.2)).length := by
    have := congrArg List.length hturns
    simpa using this.symm
  rw [hx.payloads, hlength, List.getElem?_append_right (Nat.le_refl _), Nat.sub_self, List.head?_eq_getElem?]

theorem Answered.committed (h : Answered how ids c c') (hc : Confirmed (.place node key) c' c'') :
    Committed how ids node key c c'' := by
  refine ⟨?_, ?_⟩
  · rw [hc.sent, h.sent, List.flatMap_append, List.flatMap_singleton, List.append_assoc]
  · rw [h.next]
    exact hc.reply

theorem Answered.not_committed (h : Answered how ids c c') (hc : Unconfirmed (.place node' key) c' c'') :
    ¬ Committed how ids node key c c'' := by
  rcases hc with hsent | ⟨-, hno⟩
  · exact not_committed_of_prefix (hsent.trans h.sent) List.prefix_rfl
  · intro hcommitted
    obtain ⟨reply, hnext, hyes⟩ := hcommitted.reply
    rw [h.next] at hnext
    exact hno reply hnext hyes

end Placement.Registry

namespace Placement.Cluster

open Registry (Client Command Confirmed Unconfirmed Committed Answered asked)

variable {w : Cluster Store.Memory Client} {client : Client} {node : NodeId} {key : String}

/-! ## Steps of an insert -/

def OverControl (P : Channel → Prop) (w : Cluster Store.Memory Client) : Prop :=
  ∃ client, w.registry = some client ∧ P client.control

theorem OverControl.of_eq {P : Channel → Prop} {w' : Cluster Store.Memory Client} (h : OverControl P w)
    (heq : w'.registry = w.registry) : OverControl P w' := by
  obtain ⟨client, hr, hp⟩ := h
  exact ⟨client, heq.trans hr, hp⟩

/-- The registry suggests a node after one exchange, or fails having sent no more than the frame that asks for it. -/
theorem suggest_asks (hr : w.registry = some client) (h : client.control.stream.outflow.Willing) (nodes : List NodeId) :
    Ensures w (consult (.suggest nodes))
      (fun _ w' => w'.nodes = w.nodes ∧
        OverControl (fun c => c.stream.outflow.Willing ∧ Answered .registry nodes client.control c) w')
      fun _ w' => w'.nodes = w.nodes ∧ OverControl
        (fun c => ∃ part, c.sent = client.control.sent ++ part ∧
          part <+: (asked .registry nodes).flatMap Command.frame) w' := by
  rw [Ensures, run_consult hr]
  rcases Client.perform_suggest h nodes with ⟨node, s', reply, hp, hx, hw⟩ | ⟨fault, s', part, hp, hsent, hpart⟩
  · rw [show Registry.perform (.suggest nodes) client = _ from hp]
    exact ⟨rfl, s', rfl, hw, _, hx, by simp [asked]⟩
  · rw [show Registry.perform (.suggest nodes) client = _ from hp]
    exact ⟨rfl, s', rfl, part, hsent, by simpa [asked] using hpart⟩

/-- Choosing a node finds one after asking what is to be asked, or fails having sent no more than that; the nodes stay
as they are. -/
theorem choose_asks (how : Selection) (hr : w.registry = some client) (h : client.control.stream.outflow.Willing)
    (hu : Usable w) :
    Ensures w (choose how)
      (fun node w' => node ∈ w.ids ∧ w'.nodes = w.nodes ∧
        OverControl (fun c => c.stream.outflow.Willing ∧ Answered how w.ids client.control c) w')
      fun _ w' => w'.nodes = w.nodes ∧ OverControl
        (fun c => ∃ part, c.sent = client.control.sent ++ part ∧ part <+: (asked how w.ids).flatMap Command.frame)
        w' := by
  by_cases hne : w.ids = []
  · refine ensures_inspect_bind ?_
    rw [hne]
    exact ensures_throw ⟨rfl, client, hr, [], by simp, List.nil_prefix⟩
  by_cases hq : how = .registry
  · subst hq
    refine ensures_inspect_bind ?_
    rw [if_neg (by simpa using hne)]
    refine ensures_inspect_bind ?_
    refine (suggest_asks hr h w.ids).bind fun node w₁ h₁ => ensures_inspect_bind ?_
    obtain ⟨hnodes, client', hr', hw', ha⟩ := h₁
    rw [hnodes]
    split
    · rename_i hknown
      exact ensures_pure ⟨Dict.mem_keys.2 hknown, hnodes, client', hr', hw', ha⟩
    · exact ensures_throw ⟨hnodes, client', hr', _, ha.sent, List.prefix_rfl⟩
  · refine (choose_quietly hu hne hq).mono (fun node w₁ h₁ => ?_) fun _ _ hf => hf.elim
    have silent : asked how w.ids = [] := by cases how <;> first | rfl | exact absurd rfl hq
    exact ⟨h₁.1, h₁.2.1, client, h₁.2.2.trans hr, h, [], .refl _, by simp [silent]⟩

theorem place_asks (hr : w.registry = some client) (h : client.control.stream.outflow.Willing) (node : NodeId)
    (key : String) :
    Ensures w (consult (.place node key))
      (fun confirmed w' => w'.nodes = w.nodes ∧ OverControl
        (fun c => if confirmed then Confirmed (.place node key) client.control c
          else Unconfirmed (.place node key) client.control c) w')
      fun _ w' => w'.nodes = w.nodes ∧ OverControl (Unconfirmed (.place node key) client.control) w' := by
  obtain ⟨hyes, hno⟩ := Client.perform_place h node key
  rw [Ensures, run_consult hr]
  rw [show Registry.perform (.place node key) client = Client.perform (.place node key) client from rfl]
  rcases hp : Client.perform (.place node key) client with ⟨fault | _ | _, client'⟩
  · exact ⟨rfl, client', rfl, by simpa [hp] using hno⟩
  · exact ⟨rfl, client', rfl, by simpa [hp] using hno⟩
  · exact ⟨rfl, client', rfl, by simpa [hp] using hyes⟩

/-- A usable node removes the record. -/
theorem takeBack_removes {m : Store.Memory} (hn : w.nodes.get? node = some m) (hu : m.obstacle = none) :
    Ensures w (takeBack node key)
      (fun _ w' => w'.nodes = w.nodes.insert node (Store.Memory.serve (.remove key) m).2 ∧ w'.registry = w.registry)
      fun _ _ => False :=
  (ask_serves (.remove key) hn hu).attempt_bind (fun _ _ hw => ensures_pure hw.2) fun _ _ hf => hf.elim

/-- The write stands if the placement is confirmed, and is taken back if not. -/
theorem confirm_asks {m : Store.Memory} (hn : w.nodes.get? node = some m) (hu : m.obstacle = none)
    (hr : w.registry = some client) (h : client.control.stream.outflow.Willing) :
    Ensures w (confirm node key)
      (fun _ w' => w'.nodes = w.nodes ∧ OverControl (Confirmed (.place node key) client.control) w')
      fun _ w' => w'.nodes = w.nodes.insert node (Store.Memory.serve (.remove key) m).2 ∧
        OverControl (Unconfirmed (.place node key) client.control) w' := by
  have undone : ∀ {w₁ : Cluster Store.Memory Client} (fault : Fault), w₁.nodes = w.nodes →
      OverControl (Unconfirmed (.place node key) client.control) w₁ →
      Ensures w₁
        (do
          takeBack node key
          throw fault : Op Store.Memory Client Unit)
        (fun _ w' => w'.nodes = w.nodes ∧ OverControl (Confirmed (.place node key) client.control) w')
        fun _ w' => w'.nodes = w.nodes.insert node (Store.Memory.serve (.remove key) m).2 ∧
          OverControl (Unconfirmed (.place node key) client.control) w' := by
    intro w₁ fault hnodes hno
    refine (takeBack_removes (by rw [hnodes]; exact hn) hu).andThen (fun _ _ hf => hf.elim) fun _ w₂ h₂ => ?_
    exact ensures_throw ⟨by rw [h₂.1, hnodes], hno.of_eq h₂.2⟩
  refine ensures_hasRegistry_bind ?_
  rw [hr]
  refine (place_asks hr h node key).attempt_bind (fun confirmed w₁ h₁ => ?_) fun fault w₁ h₁ => undone fault h₁.1 h₁.2
  cases confirmed with
  | false => exact undone _ h₁.1 h₁.2
  | true => exact ensures_pure h₁

/-- What an insert of a key that no node holds comes to on usable nodes, step by step. -/
theorem insert_asks (how : Selection) {fields : Record} (hr : w.registry = some client)
    (h : client.control.stream.outflow.Willing) (hu : Usable w)
    (fresh : ∀ node, (w.memory node).records.contains key = false) (hf : fields.isEmpty = false) :
    Ensures w (insert how key fields)
      (fun node w' => (node ∈ w.ids ∧ w'.nodes = w.nodes.insert node
          { (w.memory node).write key fields with index := (w.memory node).index.insert key (KeyHash.score key) }) ∧
        OverControl (Committed how w.ids node key client.control) w')
      fun _ w' => w'.nodes = w.nodes ∧
        OverControl (fun c => ∀ node, ¬ Committed how w.ids node key client.control c) w' := by
  unfold insert
  rw [if_neg (by simp [hf])]
  refine (choose_asks how hr h hu).andThen (fun _ w₁ h₁ => ?_) fun node w₁ h₁ => ?_
  · obtain ⟨hnodes, client', hr', part, hsent, hpart⟩ := h₁
    exact ⟨hnodes, client', hr', fun node => Registry.not_committed_of_prefix hsent hpart⟩
  obtain ⟨hmem, hnodes₁, client₁, hr₁, hw₁, ha⟩ := h₁
  -- choosing a node leaves all of them alone
  have hsame : w₁.memory = w.memory := memory_of_nodes hnodes₁
  refine (writeNew_writes_fields w₁ node key fields).andThen (fun _ _ hfail => ?_) fun _ w₂ h₂ => ?_
  · -- The node is known and usable, so only an older record could have stopped the write.
    have hmem₁ : node ∈ w₁.ids := by
      show node ∈ w₁.nodes.keys
      rw [hnodes₁]
      exact hmem
    have hheld := hfail.2 hmem₁
    rw [hsame, fresh] at hheld
    exact absurd (hheld (hu node)) (by simp)
  obtain ⟨-, -, -, hnodes₂, hregistry₂⟩ := h₂
  rw [hsame, hnodes₁, Store.Memory.serve] at hnodes₂
  have hn₂ : w₂.nodes.get? node = some ((w.memory node).write key fields) := by rw [hnodes₂, Dict.get?_insert_self]
  have hu₂ : ((w.memory node).write key fields).obstacle = none := (Store.Memory.obstacle_write ..).trans (hu node)
  refine (confirm_asks hn₂ hu₂ (hregistry₂.trans hr₁) hw₁).andThen (fun _ w₃ h₃ => ?_) fun _ w₃ h₃ => ?_
  · obtain ⟨hnodes₃, client₃, hr₃, hno⟩ := h₃
    refine ⟨?_, client₃, hr₃, fun node' => ha.not_committed hno⟩
    rw [hnodes₃, hnodes₂, Dict.insert_insert, Store.Memory.remove_write (fresh node),
      Dict.insert_of_get? (get?_memory hmem)]
  obtain ⟨hnodes₃, client₃, hr₃, hyes⟩ := h₃
  refine (enter_indexes (by rw [hnodes₃]; exact hn₂) hu₂).andThen (fun _ _ hf => hf.elim) fun _ w₄ h₄ => ensures_pure ?_
  refine ⟨⟨hmem, ?_⟩, client₃, h₄.2.trans hr₃, ha.committed hyes⟩
  rw [h₄.1, hnodes₃, hnodes₂, Dict.insert_insert, Store.Memory.index_write]

/-- An insert of a key that no node holds answers a node if and only if the placement of the key on that node was sent
and the next frame confirms it, whatever bytes the other end delivers, in whatever chunks and however they end. The node
then has the record and its index entry; an insert that fails leaves every node as it was, without a record of the
key. -/
theorem insert_commits {how : Selection} {fields : Record} {outcome : Except Fault NodeId}
    {w' : Cluster Store.Memory Client} (registered : w.registry = some client)
    (willing : client.control.stream.outflow.Willing) (usable : Usable w)
    (fresh : ∀ node, (w.memory node).records.contains key = false) (filled : fields.isEmpty = false)
    (hrun : run (insert how key fields) w = (outcome, w')) :
    ∃ client', w'.registry = some client' ∧
      (∀ node, outcome = .ok node ↔ Committed how w.ids node key client.control client'.control) ∧
      (∀ node, outcome = .ok node → node ∈ w.ids ∧ w'.nodes = w.nodes.insert node
        { (w.memory node).write key fields with index := (w.memory node).index.insert key (KeyHash.score key) }) ∧
      ∀ fault, outcome = .error fault →
        w'.nodes = w.nodes ∧ ∀ node, (w'.memory node).records.contains key = false := by
  have inserted := insert_asks how registered willing usable fresh filled
  cases outcome with
  | error fault =>
    obtain ⟨hnodes, client', hr', hno⟩ := inserted.error hrun
    refine ⟨client', hr', fun node => ⟨?_, fun hc => absurd hc (hno node)⟩, ?_, fun _ _ => ⟨hnodes, fun node => ?_⟩⟩
    · rintro ⟨⟩
    · rintro _ ⟨⟩
    · rw [memory_of_nodes hnodes]
      exact fresh node
  | ok node =>
    obtain ⟨hadded, client', hr', hyes⟩ := inserted.ok hrun
    refine ⟨client', hr', fun node' => ⟨?_, fun hc => ?_⟩, ?_, ?_⟩
    · rintro ⟨⟩
      exact hyes
    · rw [hyes.unique hc]
    · rintro _ ⟨⟩
      exact hadded
    · rintro _ ⟨⟩

def agreement : List UInt8 := Frame.bytes "\x7b\"success\":true,\"result\":true\x7d".toUTF8

/-- Two empty nodes, and a registry that takes seven bytes in a write and confirms in three pieces. -/
def confirming : Cluster Store.Memory Client where
  nodes := Dict.ofList [("a", {}), ("b", {})]
  registry := some
    { control :=
        { address := "control"
          stream :=
            { inflow :=
                { chunks := [.mk (agreement.take 2).toArray, .mk ((agreement.drop 2).take 9).toArray,
                    .mk (agreement.drop 11).toArray] }
              outflow := { perWrite := fun _ => some 7 } } }
      benchmark := { address := "benchmark", stream := {} } }
  draws := [1]

theorem confirming_memory (node : NodeId) : confirming.memory node = {} := by
  simp only [memory, confirming, Dict.ofList, List.foldl_cons, List.foldl_nil, Dict.get?_insert, Dict.get?_empty]
  repeat' split
  all_goals rfl

theorem a_confirmed_insert_commits :
    ∃ client w' client', confirming.registry = some client ∧
      run (insert .random "user1" (Dict.ofList [("f", "v")])) confirming = (.ok "b", w') ∧ w'.registry = some client' ∧
      Committed .random confirming.ids "b" "user1" client.control client'.control := by
  have usable : Usable confirming := fun node => by
    rw [confirming_memory]
    rfl
  have fresh : ∀ node, (confirming.memory node).records.contains "user1" = false := fun node => by
    rw [confirming_memory]
    rfl
  have ended : (run (insert .random "user1" (Dict.ofList [("f", "v")])) confirming).1.toOption = some "b" := by
    decide +kernel
  rcases hrun : run (insert .random "user1" (Dict.ofList [("f", "v")])) confirming with ⟨outcome, w'⟩
  obtain ⟨client', hr', hcommitted, -, -⟩ :=
    insert_commits rfl ⟨rfl, by simp, fun _ => rfl⟩ usable fresh (by decide) hrun
  rw [hrun] at ended
  obtain rfl : outcome = .ok "b" := by
    cases outcome with
    | error fault => cases ended
    | ok node => exact congrArg _ (Option.some.inj ended)
  exact ⟨_, w', client', rfl, rfl, hr', (hcommitted "b").1 rfl⟩

end Placement.Cluster
