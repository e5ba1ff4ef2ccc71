import Placement.Decimal.Shortest
import Placement.Store

/-!
Commands for a Redis server.

Records are hashes under their keys, and the index is one sorted set, `_indices`.
-/

namespace Placement.Store.Redis

def indexKey : String := "_indices"

inductive Command
  | setFields (key : String) (fields : Record)
  | allFields (key : String)
  | someFields (key : String) (names : List String)
  | doesExist (key : String)
  | delete (key : String)
  | rank (score : Score) (member : String)
  | range (min : Score) (count : Nat)
  | unrank (member : String)
  /-- Makes the next transaction void if the key is written to before it. -/
  | watch (key : String)
  | begin
  | commit
  | size
  | dropAll
deriving DecidableEq, Repr

namespace Command

def scoreText (s : Score) : String := s.text Decimal.scientific

def greatestCount : Nat := Word.values63 - 1

def words : Command → List String
  | setFields key fields => "HSET" :: key :: fields.toList.flatMap fun (name, value) => [name, value]
  | allFields key => ["HGETALL", key]
  | someFields key names => "HMGET" :: key :: names
  | doesExist key => ["EXISTS", key]
  | delete key => ["DEL", key]
  | rank score member => ["ZADD", indexKey, scoreText score, member]
  | range min count =>
    ["ZRANGEBYSCORE", indexKey, scoreText min, "+inf", "LIMIT", "0", toString (Nat.min count greatestCount)]
  | unrank member => ["ZREM", indexKey, member]
  | watch key => ["WATCH", key]
  | begin => ["MULTI"]
  | commit => ["EXEC"]
  | size => ["DBSIZE"]
  | dropAll => ["FLUSHALL"]

def removal (key : String) : List Command := [begin, delete key, unrank key, commit]

end Command

end Placement.Store.Redis
