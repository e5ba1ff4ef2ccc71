import Placement.Store.Redis.Server

/-!
A server that is not there.

Every connection is refused. A connection of one's own is tried once, a shared one again after growing random waits, as
long as patience lasts.
-/

namespace Placement.Store.Redis

/-- The parts of the longest waits that are waited, in thousandths; when they run out, all of it is. -/
structure Nowhere where
  portions : List Nat := []

namespace Nowhere

def refusal : String := "connection refused"

def longestWaits : List Nat := [200, 400, 800, 1600, 3200, 6400]

def retry (patience elapsed : Nat) (s : Nowhere) : List Nat → Opening × Nowhere
  | [] => (.refused refusal, s)
  | longest :: rest =>
    let elapsed := elapsed + longest * s.portions.headD 1000 / 1000
    let s : Nowhere := { portions := s.portions.tail }
    if patience ≤ elapsed then (.silent, s) else retry patience elapsed s rest

instance : Server Nowhere where
  openShared _ patience s := retry patience 0 s longestWaits
  openOwn _ _ s := (.refused refusal, s)
  exchange _ _ _ s := (.failed "no such connection", s)
  readers := .usual

end Nowhere

end Placement.Store.Redis
