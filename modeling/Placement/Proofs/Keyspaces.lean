import Placement.Proofs.Refusal
import Placement.Proofs.Replies
import Placement.Store.Redis.Keyspace

/-!
What a node answers whose server keeps a keyspace.

A server that does what is documented, for one node alone and always in time, opens every connection and answers every
command, so connections decide nothing about an answer: as long as a node is not closed, it answers what
`Keyspace.serve` says, which has no connections in it. What is documented leaves open in which order the fields of a
hash are listed. A `Keyspace` is one such server.

- `execute_congr`: no command looks at the connections that were opened.
- `record_of_admits`: fields make one record in any order.
- `call_answers`, `removeIndexed_answers`: one command, and the transaction of two.
- `perform_answers`, `perform_closed`: every call, and what a closed node does.
-/

namespace Placement

/-! ## Scores -/

/-- Numbers that are ordered alike with and without the signs of zeros: all but NaN and the zero with a sign. -/
def Binary64.Plain (s : Binary64) : Prop := s.isNaN = false ∧ s ≠ negativeZero

instance (s : Binary64) : Decidable s.Plain := inferInstanceAs (Decidable (_ ∧ _))

namespace Store.Redis

/-- Commands that are carried out on their own, and have plain scores. -/
def Command.Plain : Command → Prop
  | begin | commit | watch _ => False
  | rank score _ | range score _ => score.Plain
  | _ => True

def Node.command? : Store.Call → Option Command
  | .write key fields => some (.setFields key fields)
  | .fetch key => some (.allFields key)
  | .fetchFields key names => some (.someFields key names)
  | .holds key => some (.doesExist key)
  | .remove key => some (.delete key)
  | .indexAdd score key => some (.rank score key)
  | .indexRange min count => some (.range min count)
  | .count => some .size
  | .flush => some .dropAll
  | .removeIndexed _ | .close => none

namespace Keyspace

def command {α : Type} (c : Command) (read : Reply → Except String α) (s : Keyspace) : Except Fault α × Keyspace :=
  ((read (execute c s).1).mapError .redis, (execute c s).2)

def remove (key : String) (s : Keyspace) : Reply × Keyspace :=
  let (removed, s) := execute (.delete key) s
  let (unranked, s) := execute (.unrank key) s
  (.array [removed, unranked], s)

def serve (r : Readers) : (call : Call) → Keyspace → Except Fault call.Answer × Keyspace
  | .write key fields, s => if fields.isEmpty then (.ok (0 : Nat), s) else command (.setFields key fields) r.count s
  | .fetch key, s => command (.allFields key) r.record s
  | .fetchFields key names, s =>
    if names.isEmpty then (.ok (Dict.empty : Record), s)
    else command (.someFields key names) (fun reply => (r.values reply).map (Node.found names)) s
  | .holds key, s => command (.doesExist key) r.truth s
  | .remove key, s => command (.delete key) (fun reply => (r.count reply).map fun _ => ()) s
  | .indexAdd score key, s => command (.rank score key) (fun reply => (r.count reply).map fun _ => ()) s
  | .indexRange min count, s => if count = 0 then (.ok ([] : List String), s) else command (.range min count) r.texts s
  | .removeIndexed key, s =>
    (((r.counts? (remove key s).1).mapError .redis).map Node.foundBoth, (remove key s).2)
  | .count, s => command .size r.count s
  | .flush, s => command .dropAll r.done s
  | .close, s => (.ok (), s)

/-- No command looks at the connections that were opened. -/
theorem execute_congr {s s' : Keyspace} (h : s.values = s'.values) (c : Command) :
    (execute c s).1 = (execute c s').1 ∧ (execute c s).2.values = (execute c s').2.values := by
  have hhash : ∀ key, s.hash? key = s'.hash? key := fun key => by rw [hash?, hash?, h]
  have hsorted : ∀ key, s.sorted? key = s'.sorted? key := fun key => by rw [sorted?, sorted?, h]
  cases c with
  | setFields key fields =>
    simp only [execute, hhash]
    cases s'.hash? key <;> exact ⟨rfl, by simp only [h]⟩
  | allFields key =>
    simp only [execute, hhash]
    cases s'.hash? key <;> exact ⟨rfl, h⟩
  | someFields key names =>
    simp only [execute, hhash]
    cases s'.hash? key <;> exact ⟨rfl, h⟩
  | rank score member =>
    simp only [execute, hsorted]
    cases s'.sorted? indexKey <;> exact ⟨rfl, by simp only [setSorted, h]⟩
  | range min count =>
    simp only [execute, hsorted]
    cases s'.sorted? indexKey <;> exact ⟨rfl, h⟩
  | unrank member =>
    simp only [execute, hsorted]
    cases s'.sorted? indexKey <;> exact ⟨rfl, by simp only [setSorted, h]⟩
  | doesExist key => exact ⟨by simp only [execute, h], h⟩
  | delete key => exact ⟨by simp only [execute, h], by simp only [execute, h]⟩
  | size => exact ⟨by simp only [execute, h], h⟩
  | dropAll => exact ⟨rfl, rfl⟩
  | _ => exact ⟨rfl, h⟩

theorem remove_congr {s s' : Keyspace} (h : s.values = s'.values) (key : String) :
    (remove key s).1 = (remove key s').1 ∧ (remove key s).2.values = (remove key s').2.values := by
  obtain ⟨hremoved, hvalues⟩ := execute_congr h (.delete key)
  obtain ⟨hunranked, hvalues'⟩ := execute_congr hvalues (.unrank key)
  exact ⟨by simp only [remove, hremoved, hunranked], hvalues'⟩

/-- So no call does either. -/
theorem serve_congr (r : Readers) {s s' : Keyspace} (h : s.values = s'.values) (call : Call) :
    (serve r call s).1 = (serve r call s').1 ∧ (serve r call s).2.values = (serve r call s').2.values := by
  have one : ∀ {α : Type} (c : Command) (read : Reply → Except String α),
      (command c read s).1 = (command c read s').1 ∧ (command c read s).2.values = (command c read s').2.values := by
    intro α c read
    obtain ⟨hreply, hvalues⟩ := execute_congr h c
    exact ⟨congrArg (fun reply => (read reply).mapError _) hreply, hvalues⟩
  cases call with
  | write _ _ | fetchFields _ _ | indexRange _ _ =>
    simp only [serve]
    split
    · exact ⟨rfl, h⟩
    · exact one _ _
  | removeIndexed key =>
    obtain ⟨hreply, hvalues⟩ := remove_congr h key
    exact ⟨by simp only [serve, hreply], hvalues⟩
  | close => exact ⟨rfl, h⟩
  | _ => exact one _ _

/-- A reply that the command may get: that which is carried out here, or the fields of a hash in another order. -/
def Admits (s : Keyspace) (c : Command) (reply : Reply) : Prop :=
  reply = (execute c s).1 ∨
    ∃ key fields listed, c = .allFields key ∧ s.hash? key = some fields ∧ listed.Perm fields.toList ∧
      reply = .ofFields listed

variable {s : Keyspace} {reply : Reply}

theorem admits_iff {c : Command} (hc : ∀ key, c ≠ .allFields key) : Admits s c reply ↔ reply = (execute c s).1 := by
  refine ⟨fun h => ?_, .inl⟩
  rcases h with h | ⟨key, -, -, he, -⟩
  · exact h
  · exact absurd he (hc key)

/-- In whatever order its fields are listed, the record is the same. -/
theorem record_of_admits {r : Readers} (hr : r.Faithful) {key : String} (h : Admits s (.allFields key) reply) :
    r.record reply = r.record (execute (.allFields key) s).1 := by
  rcases h with rfl | ⟨key', fields, listed, he, hhash, hperm, rfl⟩
  · rfl
  · cases he
    have hnames : (fields.toList.map (·.1)).Nodup := fields.keys_nodup
    have hlisted : (listed.map (·.1)).Nodup := (hperm.map _).nodup_iff.2 hnames
    simp only [execute, hhash]
    rw [hr.record _ hlisted, hr.record _ hnames, Dict.ofList_perm hperm hlisted]

end Keyspace

/-! ## Servers that keep to what is documented -/

/-- What is to be seen of a server: what its keys hold, and which connections are open, in no transaction, and without a
watch. -/
structure View (σ : Type) where
  values : σ → Dict Value
  Free : (connection : Nat) → σ → Prop

/-- A step that leaves these values, and every connection that was free. -/
structure View.Leaves {σ : Type} (view : View σ) (s : σ) (left : Dict Value) (s' : σ) : Prop where
  values : view.values s' = left
  free : ∀ connection, view.Free connection s → view.Free connection s'

/-- A server that keeps to what is documented and has no other client. It opens all connections and answers all
commands for those it serves; some scores it may not take. A transaction is void only if a watched key was written to,
which nobody else does. -/
class Documented (σ : Type) extends Server σ where
  view : View σ
  /-- It lets in who comes this way, and is done within this time. -/
  Serves : Endpoint → (patience : Nat) → Prop
  Takes : Command → Prop
  faithful : readers.Faithful
  takes : ∀ {c : Command}, c.Plain → Takes c
  opensShared : ∀ {endpoint : Endpoint} {patience : Nat} (s : σ), Serves endpoint patience →
    ∃ connection s', openShared endpoint patience s = (.opened connection, s') ∧ view.Free connection s' ∧
      view.Leaves s (view.values s) s'
  opensOwn : ∀ {endpoint : Endpoint} {patience : Nat} (s : σ), Serves endpoint patience →
    ∃ connection s', openOwn endpoint patience s = (.opened connection, s') ∧ view.Free connection s' ∧
      view.Leaves s (view.values s) s'
  answers : ∀ {endpoint : Endpoint} {patience connection : Nat} {c : Command} (s : σ), Serves endpoint patience →
    view.Free connection s → Takes c →
    ∃ reply s', exchange connection patience [c] s = (.reply reply, s') ∧
      Keyspace.Admits { values := view.values s } c reply ∧
      view.Leaves s (Keyspace.execute c { values := view.values s }).2.values s'
  removes : ∀ {endpoint : Endpoint} {patience connection : Nat} (key : String) (s : σ), Serves endpoint patience →
    view.Free connection s →
    ∃ watched s', exchange connection patience [.watch key] s = (.reply (.status "OK"), watched) ∧
      exchange connection patience (Command.removal key) watched =
        (.reply (Keyspace.remove key { values := view.values s }).1, s') ∧
      view.Leaves s (Keyspace.remove key { values := view.values s }).2.values s'

open Documented (view Serves Takes)

namespace Node

variable {σ α : Type} [Documented σ] {n n' : Node σ}

def keyspace (n : Node σ) : Keyspace := { values := view.values n.server }

/-- The node is served, and its connections are free. -/
structure Served (n : Node σ) : Prop where
  serves : Serves σ n.endpoint n.patience
  shared : ∀ connection, n.link = .open connection → view.Free connection n.server
  own : ∀ connection, n.transaction = some connection → view.Free connection n.server

theorem Served.leaves (h : n.Served) {left : Dict Value} {server : σ} (hs : view.Leaves n.server left server)
    (log : List Exchange) : Served { n with server, log } where
  serves := h.serves
  shared connection hl := hs.free connection (h.shared connection hl)
  own connection ht := hs.free connection (h.own connection ht)

/-! ## Connections -/

theorem ready_served (h : n.Served) (hopen : n.link ≠ .closed) :
    ∃ connection n', n.ready = (.ok connection, n') ∧ n'.link = .open connection ∧ n'.Served ∧
      n'.keyspace = n.keyspace := by
  unfold ready
  cases hl : n.link with
  | closed => exact absurd hl hopen
  | «open» connection => exact ⟨connection, n, rfl, hl, h, rfl⟩
  | idle =>
    obtain ⟨connection, server, hconnect, hfree, hleft⟩ := Documented.opensShared n.server h.serves
    refine ⟨connection, { n with server, link := .open connection }, ?_, rfl, ⟨h.serves, ?_, ?_⟩, ?_⟩
    · simp only [hconnect]
    · rintro c ⟨⟩
      exact hfree
    · exact fun c ht => hleft.free c (h.own c ht)
    · exact congrArg (fun values => ({ values } : Keyspace)) hleft.values

theorem transactionReady_served (h : n.Served) :
    ∃ connection n', n.transactionReady = (.ok connection, n') ∧ n'.transaction = some connection ∧ n'.Served ∧
      n'.keyspace = n.keyspace ∧ n'.link = n.link := by
  unfold transactionReady
  cases ht : n.transaction with
  | some connection => exact ⟨connection, n, rfl, ht, h, rfl, rfl⟩
  | none =>
    obtain ⟨connection, server, hconnect, hfree, hleft⟩ := Documented.opensOwn n.server h.serves
    refine ⟨connection, { n with server, transaction := some connection }, ?_, rfl, ⟨h.serves, ?_, ?_⟩, ?_, rfl⟩
    · simp only [hconnect]
    · exact fun c hl => hleft.free c (h.shared c hl)
    · rintro c ⟨⟩
      exact hfree
    · exact congrArg (fun values => ({ values } : Keyspace)) hleft.values

/-! ## Calls -/

/-- The node answers what is served from a keyspace, keeps what that leaves, and goes on being served. -/
structure Answers (result : Except Fault α × Node σ) (served : Except Fault α × Keyspace) : Prop where
  answer : result.1 = served.1
  values : view.values result.2.server = served.2.values
  link : result.2.link ≠ .closed
  served : result.2.Served

theorem call_answers (h : n.Served) (hopen : n.link ≠ .closed) (name : String) {c : Command} (hc : Takes σ c)
    {read : Reply → Except String α}
    (hread : ∀ {s reply}, Keyspace.Admits s c reply → read reply = read (Keyspace.execute c s).1) :
    Answers (n.call name c read) (Keyspace.command c read n.keyspace) := by
  obtain ⟨connection, n₁, hready, hlink, h₁, hkeyspace⟩ := ready_served h hopen
  obtain ⟨reply, server, hexchange, hadmits, hleft⟩ :=
    Documented.answers n₁.server h₁.serves (h₁.shared connection hlink) hc
  have hcall : n.call name c read = ((read reply).mapError .redis,
      { n₁ with server, log := n₁.log ++ [⟨connection, [c], .reply reply⟩] }) := by
    simp only [call, hready, exchange, hexchange, outcome]
  rw [hcall, ← hkeyspace]
  refine ⟨congrArg (Except.mapError Fault.redis) (hread hadmits), hleft.values, ?_, h₁.leaves hleft _⟩
  show n₁.link ≠ _
  simp [hlink]

/-- The removals of a record and of its index entry are carried out one after the other. -/
theorem watchedRemove_answers (h : n.Served) {connection : Nat} (hfree : view.Free connection n.server) (key : String) :
    ∃ n', n.watchedRemove key connection =
        (((Server.readers σ).counts? (Keyspace.remove key n.keyspace).1).mapError .redis, n') ∧
      view.values n'.server = (Keyspace.remove key n.keyspace).2.values ∧ n'.link = n.link ∧ n'.Served := by
  -- nobody else writes between the watch and the transaction
  obtain ⟨watched, server, hwatch, hremove, hleft⟩ := Documented.removes key n.server h.serves hfree
  let log := n.log ++ [⟨connection, [.watch key], .reply (.status "OK")⟩] ++
    [⟨connection, Command.removal key, .reply (Keyspace.remove key n.keyspace).1⟩]
  refine ⟨{ n with server, log }, ?_, hleft.values, rfl, h.leaves hleft log⟩
  simp only [watchedRemove, exchange, hwatch, outcome, Documented.faithful.done, Except.mapError]
  simp only [hremove]
  rfl

theorem removeIndexed_answers (h : n.Served) (hopen : n.link ≠ .closed) (key : String) :
    Answers (n.removeIndexed key) (Keyspace.serve (Server.readers σ) (.removeIndexed key) n.keyspace) := by
  obtain ⟨shared, n₁, hready, hlink₁, h₁, hkeyspace₁⟩ := ready_served h hopen
  obtain ⟨connection, n₂, hown, hslot, h₂, hkeyspace₂, hlink₂⟩ := transactionReady_served h₁
  obtain ⟨n₃, hremove, hvalues, hlink₃, h₃⟩ := watchedRemove_answers h₂ (h₂.own connection hslot) key
  have hlink : n₃.link ≠ .closed := by simp [hlink₃, hlink₂, hlink₁]
  rw [hkeyspace₂, hkeyspace₁] at hremove hvalues
  unfold removeIndexed
  simp only [hready, hown, hremove, Keyspace.serve]
  -- what is left is to read the same reply
  cases ((Server.readers σ).counts? (Keyspace.remove key n.keyspace).1).mapError Fault.redis with
  | ok counts => exact ⟨rfl, hvalues, hlink, h₃⟩
  | error fault => exact ⟨rfl, hvalues, hlink, h₃.serves, h₃.shared, by simp⟩

/-- A node that is not closed answers by what its server keeps. -/
theorem perform_answers (h : n.Served) (hopen : n.link ≠ .closed) {call : Store.Call} (hc : call ≠ .close)
    (htakes : ∀ c, command? call = some c → Takes σ c) :
    Answers (Store.perform call n) (Keyspace.serve (Server.readers σ) call n.keyspace) := by
  have same : ∀ {β : Type} {c : Command} (read : Reply → Except String β), (∀ key, c ≠ .allFields key) →
      ∀ {s reply}, Keyspace.Admits s c reply → read reply = read (Keyspace.execute c s).1 :=
    fun read hne _ _ hadmits => congrArg read ((Keyspace.admits_iff hne).1 hadmits)
  have one := fun {β : Type} (name : String) (c : Command) (hcommand : command? call = some c)
    (hne : ∀ key, c ≠ .allFields key) (read : Reply → Except String β) =>
    call_answers h hopen name (htakes c hcommand) (same read hne)
  show Answers (perform call n) _
  cases call with
  | close => exact absurd rfl hc
  | write _ _ | fetchFields _ _ | indexRange _ _ =>
    simp only [perform, Keyspace.serve]
    split
    · exact ⟨rfl, rfl, hopen, h⟩
    · exact one _ _ rfl (by simp) _
  | fetch key => exact call_answers h hopen _ (htakes _ rfl) (Keyspace.record_of_admits Documented.faithful)
  | removeIndexed key => exact removeIndexed_answers h hopen key
  | _ => exact one _ _ rfl (by simp) _

/-- A closed node asks its server nothing. -/
theorem perform_closed {σ : Type} [Server σ] {n : Node σ} (h : n.link = .closed) (call : Store.Call) :
    (Store.perform call n).2.server = n.server ∧ (Store.perform call n).2.link = .closed := by
  rw [perform_closed_left h]
  split <;> exact ⟨rfl, h⟩

end Node

/-! ## A keyspace -/

namespace Keyspace

/-- One command on its own is carried out. -/
theorem exchange_command {c : Command} (hb : c ≠ .begin) (hc : c ≠ .commit) (connection patience : Nat) (s : Keyspace) :
    Server.exchange connection patience [c] s = (.reply (execute c s).1, (execute c s).2) := by
  cases c with
  | begin => exact absurd rfl hb
  | commit => exact absurd rfl hc
  | _ => rfl

/-- Nothing is ever watched in vain here, so every connection counts as free, and any score is taken. -/
instance : Documented Keyspace where
  view := { values, Free := fun _ _ => True }
  Serves _ _ := True
  Takes c := c ≠ .begin ∧ c ≠ .commit
  faithful := Readers.usual_faithful
  takes {c} h := by constructor <;> (rintro rfl; exact h)
  opensShared s _ := ⟨_, _, rfl, trivial, rfl, fun _ _ => trivial⟩
  opensOwn s _ := ⟨_, _, rfl, trivial, rfl, fun _ _ => trivial⟩
  answers {_ _ _ c} s _ _ h := by
    obtain ⟨hreply, hvalues⟩ := execute_congr (show s.values = ({ values := s.values } : Keyspace).values from rfl) c
    exact ⟨_, _, exchange_command h.1 h.2 _ _ s, .inl hreply, hvalues, fun _ _ => trivial⟩
  removes key s _ _ := by
    obtain ⟨hreply, hvalues⟩ := remove_congr (show s.values = ({ values := s.values } : Keyspace).values from rfl) key
    exact ⟨s, (remove key s).2, rfl, congrArg (fun reply => (Delivery.reply reply, _)) hreply, hvalues,
      fun _ _ => trivial⟩

end Keyspace

namespace Node

theorem served_keyspace (n : Node Keyspace) : n.Served := ⟨trivial, fun _ _ => trivial, fun _ _ => trivial⟩

theorem perform_keyspace {n : Node Keyspace} (hopen : n.link ≠ .closed) {call : Store.Call} (hc : call ≠ .close) :
    Answers (Store.perform call n) (Keyspace.serve .usual call n.server) := by
  have htakes : ∀ c, command? call = some c → Takes Keyspace c := by
    intro c hcommand
    constructor <;> (rintro rfl; cases call <;> cases hcommand)
  obtain ⟨hanswer, hvalues, hlink, hserved⟩ := perform_answers n.served_keyspace hopen hc htakes
  obtain ⟨hsame, hleft⟩ := Keyspace.serve_congr .usual (show n.keyspace.values = n.server.values from rfl) call
  exact ⟨hanswer.trans hsame, hvalues.trans hleft, hlink, hserved⟩

end Node

end Store.Redis

end Placement
