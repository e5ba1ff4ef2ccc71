import Placement.Store.Redis.Server

/-!
A server that keeps hashes and sorted sets in memory.

Every key holds one of the two and never an empty one; a command for the other kind is answered with an error
and changes nothing. The fields of a hash are listed by name, and members of a sorted set by score and then by
name. Commands between a start and a commit are queued, carried out together, and answered together by the
commit. There are no other clients, so no watched key is ever written to by someone else.
-/

namespace Placement.Store.Redis

inductive Value
  | hash (fields : Record)
  | sorted (members : Dict Score)
deriving DecidableEq, Repr

structure Keyspace where
  values : Dict Value := Dict.empty
  /-- The number of connections opened so far. -/
  opened : Nat := 0
deriving DecidableEq, Repr

namespace Keyspace

def wrongKind : Reply := .error "WRONGTYPE Operation against a key holding the wrong kind of value"

/-- The hash of a key, without fields if there is none; none if the key holds another kind. -/
def hash? (s : Keyspace) (key : String) : Option Record :=
  match s.values.get? key with
  | some (.hash fields) => some fields
  | some (.sorted _) => none
  | none => some Dict.empty

/-- The sorted set of a key, without members if there is none; none if the key holds another kind. -/
def sorted? (s : Keyspace) (key : String) : Option (Dict Score) :=
  match s.values.get? key with
  | some (.sorted members) => some members
  | some (.hash _) => none
  | none => some Dict.empty

def setSorted (key : String) (members : Dict Score) (s : Keyspace) : Keyspace :=
  { s with values := if members.isEmpty then s.values.erase key else s.values.insert key (.sorted members) }

def memberLe (a b : String × Score) : Bool :=
  decide (a.2.place < b.2.place) || (decide (a.2.place = b.2.place) && decide (a.1 ≤ b.1))

/-- The first so many members with a score of at least `min`, in their order. -/
def range (members : Dict Score) (min : Score) (count : Nat) : List String :=
  (((members.toList.filter fun e => e.2.atLeast min).mergeSort memberLe).take count).map (·.1)

def execute : Command → Keyspace → Reply × Keyspace
  | .setFields key fields, s =>
    match s.hash? key with
    | some old => (.int (old.created fields), { s with values := s.values.insert key (.hash (old.override fields)) })
    | none => (wrongKind, s)
  | .allFields key, s =>
    match s.hash? key with
    | some fields => (.ofFields fields.toList, s)
    | none => (wrongKind, s)
  | .someFields key names, s =>
    match s.hash? key with
    | some fields => (.ofValues (names.map fields.get?), s)
    | none => (wrongKind, s)
  | .doesExist key, s => (.int (if s.values.contains key then 1 else 0), s)
  | .delete key, s =>
    (.int (if s.values.contains key then 1 else 0), { s with values := s.values.erase key })
  | .rank score member, s =>
    match s.sorted? indexKey with
    | some members =>
      (.int (if members.contains member then 0 else 1), s.setSorted indexKey (members.insert member score))
    | none => (wrongKind, s)
  | .range min count, s =>
    match s.sorted? indexKey with
    | some members => (.ofTexts (range members min (Nat.min count Command.greatestCount)), s)
    | none => (wrongKind, s)
  | .unrank member, s =>
    match s.sorted? indexKey with
    | some members =>
      (.int (if members.contains member then 1 else 0), s.setSorted indexKey (members.erase member))
    | none => (wrongKind, s)
  | .size, s => (.int s.values.size, s)
  | .dropAll, s => (.status "OK", { s with values := Dict.empty })
  | _, s => (.status "OK", s)

def executeAll (s : Keyspace) : List Command → List Reply × Keyspace
  | [] => ([], s)
  | c :: rest =>
    let (reply, s) := execute c s
    let (replies, s) := executeAll s rest
    (reply :: replies, s)

/-- Takes commands that were sent together, with those queued so far if there was a start; gives the last reply. -/
def take (queued : Option (List Command)) (last : Reply) (s : Keyspace) : List Command → Reply × Keyspace
  | [] => (last, s)
  | c :: rest =>
    match c, queued with
    | .begin, _ => take (some []) (.status "OK") s rest
    | .commit, some commands =>
      let (replies, s) := executeAll s commands
      take none (.array replies) s rest
    | .commit, none => take none (.error "ERR EXEC without MULTI") s rest
    | c, some commands => take (some (commands ++ [c])) (.status "QUEUED") s rest
    | c, none =>
      let (reply, s) := execute c s
      take none reply s rest

instance : Server Keyspace where
  openShared _ _ s := (.opened s.opened, { s with opened := s.opened + 1 })
  openOwn _ _ s := (.opened s.opened, { s with opened := s.opened + 1 })
  exchange _ _ commands s :=
    let (reply, s) := take none .nil s commands
    (.reply reply, s)
  readers := .usual

end Keyspace

end Placement.Store.Redis
