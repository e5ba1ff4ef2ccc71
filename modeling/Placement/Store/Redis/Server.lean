import Placement.Store.Redis.Command
import Placement.Store.Redis.Reply

/-!
The other end of a node: a client library and the server behind it.

A server is any state that says what comes of opening a connection and of sending commands over one, within the time
that is waited for it, and how its replies are read. A shared connection is looked after by the library, which shows
the password and may open it again when it breaks. Commands that are sent together are answered together, and the
reply to the last of them is the reply to all.
-/

namespace Placement.Store.Redis

/-- Where a server is and how to be let in. -/
structure Endpoint where
  host : String
  port : Nat
  password : Option String := none
deriving DecidableEq, Repr

namespace Endpoint

def address (e : Endpoint) : String := s!"{e.host}:{e.port}"

end Endpoint

/-- What an attempt to open a connection comes to. -/
inductive Opening
  /-- The connection has this number. -/
  | opened (connection : Nat)
  | refused (detail : String)
  | silent

/-- What comes back over a connection. -/
inductive Delivery
  | reply (r : Reply)
  /-- Nothing comes in time. -/
  | silent
  | failed (detail : String)

/-- States that open connections and answer commands; times are in milliseconds. -/
class Server (σ : Type) where
  openShared : Endpoint → (patience : Nat) → σ → Opening × σ
  openOwn : Endpoint → (patience : Nat) → σ → Opening × σ
  exchange : (connection patience : Nat) → List Command → σ → Delivery × σ
  readers : Readers

/-- One exchange over a connection. -/
structure Exchange where
  connection : Nat
  commands : List Command
  delivery : Delivery

end Placement.Store.Redis
