import Placement.Store.Redis.Server

/-!
A data node on a Redis server.

Two connections are used. The shared one is opened by the first call that needs it. Removing a record
together with its index entry is a transaction on a connection of its own, because a watched key belongs to
a connection; after a failed transaction that connection is dropped, as a watch may be left on it. No wait
goes on longer than the patience of the node. A closed node opens no connection.
-/

namespace Placement.Store.Redis

inductive Link
  | idle
  | open (connection : Nat)
  | closed
deriving DecidableEq, Repr

structure Node (σ : Type) where
  server : σ
  endpoint : Endpoint
  /-- The longest wait for anything, in milliseconds. -/
  patience : Nat
  link : Link := .idle
  /-- The connection for transactions, if it is open. -/
  transaction : Option Nat := none
  log : List Exchange := []

namespace Node

variable {σ : Type} [Server σ] {α : Type}

def exchange (connection : Nat) (commands : List Command) (n : Node σ) : Delivery × Node σ :=
  let (delivery, server) := Server.exchange connection n.patience commands n.server
  (delivery, { n with server, log := n.log ++ [⟨connection, commands, delivery⟩] })

def refused (n : Node σ) (detail : String) : Fault := .connection (.refused n.endpoint.address detail)

def late (n : Node σ) : Fault := .timeout (.nodeConnection n.endpoint.address)

def unanswered (n : Node σ) (name : String) : Fault := .timeout (.nodeReply name n.endpoint.address)

def ready (n : Node σ) : Except Fault Nat × Node σ :=
  match n.link with
  | .closed => (.error (.connection (.closed n.endpoint.address)), n)
  | .open connection => (.ok connection, n)
  | .idle =>
    match Server.openShared n.endpoint n.patience n.server with
    | (.opened connection, server) => (.ok connection, { n with server, link := .open connection })
    | (.refused detail, server) => (.error (n.refused detail), { n with server })
    | (.silent, server) => (.error n.late, { n with server })

def outcome (n : Node σ) (name : String) (read : Reply → Except String α) : Delivery → Except Fault α
  | .reply r => (read r).mapError .redis
  | .silent => .error (n.unanswered name)
  | .failed detail => .error (.redis detail)

def call (name : String) (command : Command) (read : Reply → Except String α) (n : Node σ) :
    Except Fault α × Node σ :=
  match n.ready with
  | (.error fault, n) => (.error fault, n)
  | (.ok connection, n) =>
    let (delivery, n) := n.exchange connection [command]
    (n.outcome name read delivery, n)

def transactionReady (n : Node σ) : Except Fault Nat × Node σ :=
  match n.transaction with
  | some connection => (.ok connection, n)
  | none =>
    match Server.openOwn n.endpoint n.patience n.server with
    | (.opened connection, server) => (.ok connection, { n with server, transaction := some connection })
    | (.refused detail, server) => (.error (n.refused detail), { n with server })
    | (.silent, server) => (.error n.late, { n with server })

/-- Watches the key, then removes it and its index entry at once; nothing if the key was written to between. -/
def watchedRemove (key : String) (connection : Nat) (n : Node σ) : Except Fault (Option (Nat × Nat)) × Node σ :=
  let (delivery, n) := n.exchange connection [.watch key]
  match n.outcome "WATCH" (Server.readers σ).done delivery with
  | .error fault => (.error fault, n)
  | .ok () =>
    let (delivery, n) := n.exchange connection (Command.removal key)
    (n.outcome "MULTI/EXEC" (Server.readers σ).counts? delivery, n)

def foundBoth (counts : Option (Nat × Nat)) : Bool :=
  counts.any fun (records, entries) => decide (0 < records ∧ 0 < entries)

/-- Removes a record and its index entry; whether both were there. -/
def removeIndexed (key : String) (n : Node σ) : Except Fault Bool × Node σ :=
  match n.ready with
  | (.error fault, n) => (.error fault, n)
  | (.ok _, n) =>
    match n.transactionReady with
    | (.error fault, n) => (.error fault, n)
    | (.ok connection, n) =>
      match n.watchedRemove key connection with
      | (.error fault, n) => (.error fault, { n with transaction := none })
      | (.ok counts, n) => (.ok (foundBoth counts), n)

/-- The values found under the names; a name without one is left out. -/
def found (names : List String) (values : List (Option String)) : Record :=
  Dict.ofList ((names.zip values).filterMap fun (name, value) => value.map fun v => (name, v))

/-- Answers a call. Writing no fields, fetching no names and a range of no keys need no connection. -/
def perform : (c : Call) → Node σ → Except Fault c.Answer × Node σ
  | .write key fields, n =>
    if fields.isEmpty then (.ok (0 : Nat), n) else n.call "HSET" (.setFields key fields) (Server.readers σ).count
  | .fetch key, n => n.call "HGETALL" (.allFields key) (Server.readers σ).record
  | .fetchFields key names, n =>
    if names.isEmpty then (.ok (Dict.empty : Record), n)
    else n.call "HMGET" (.someFields key names) fun r => ((Server.readers σ).values r).map (found names)
  | .holds key, n => n.call "EXISTS" (.doesExist key) (Server.readers σ).truth
  | .remove key, n => n.call "DEL" (.delete key) fun r => ((Server.readers σ).count r).map fun _ => ()
  | .indexAdd score key, n => n.call "ZADD" (.rank score key) fun r => ((Server.readers σ).count r).map fun _ => ()
  | .indexRange min count, n =>
    if count = 0 then (.ok ([] : List String), n)
    else n.call "ZRANGEBYSCORE" (.range min count) (Server.readers σ).texts
  | .removeIndexed key, n => n.removeIndexed key
  | .count, n => n.call "DBSIZE" .size (Server.readers σ).count
  | .flush, n => n.call "FLUSHALL" .dropAll (Server.readers σ).done
  | .close, n => (.ok (), { n with link := .closed, transaction := none })

instance : Store (Node σ) := ⟨perform⟩

end Node

end Placement.Store.Redis
