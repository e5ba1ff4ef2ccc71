import Placement.Fault

/-!
Byte streams.

Bytes come in as chunks, as the other end happens to cut them, and go out a few at a time, as there happens
to be room. What a stream does beyond that is its `Ending`. An empty chunk is a reading of no bytes, which
readers take for the end, though more may follow.
-/

namespace Placement

/-- What a stream does when it has nothing more to give, or no more room. -/
inductive Ending
  /-- No bytes are read, or taken. -/
  | closed
  | failing (fault : StreamFault)
  /-- Nothing happens. -/
  | silent
deriving DecidableEq, Repr

/-- Bytes to be read: the chunks that will come, and how the stream ends after them. -/
structure Inflow where
  chunks : List ByteArray := []
  ending : Ending := .closed

namespace Inflow

/-- How a reading of many bytes came short: what it had by then, and what happened instead of more. -/
structure Shortage where
  received : Nat
  cause : Ending

def gatherFrom (n : Nat) (ending : Ending) (got : ByteArray) :
    List ByteArray → Except Shortage ByteArray × List ByteArray
  | [] => if n ≤ got.size then (.ok got, []) else (.error ⟨got.size, ending⟩, [])
  | c :: rest =>
    if n ≤ got.size then (.ok got, c :: rest)
    else if c.size = 0 then (.error ⟨got.size, .closed⟩, rest)
    else if got.size + c.size ≤ n then gatherFrom n ending (got ++ c) rest
    else (.ok (got ++ c.extract 0 (n - got.size)), c.extract (n - got.size) c.size :: rest)

def gather (n : Nat) (s : Inflow) : Except Shortage ByteArray × Inflow :=
  let (outcome, chunks) := gatherFrom n s.ending .empty s.chunks
  (outcome, { s with chunks })

def size (s : Inflow) : Nat := s.chunks.foldl (fun n c => n + c.size) 0

end Inflow

/-- Bytes written, and how further ones are taken. -/
structure Outflow where
  /-- The most bytes that one write takes, if there is a limit, by how many bytes were written before. -/
  perWrite : Nat → Option Nat := fun _ => none
  /-- The bytes that are still taken, if there is a limit. -/
  room : Option Nat := none
  /-- What a write meets when there is no room. -/
  whenFull : Ending := .closed
  /-- Why flushing fails, if it does, by how many flushes came before. -/
  flushFault : Nat → Option StreamFault := fun _ => none
  written : ByteArray := .empty
  flushes : Nat := 0

namespace Outflow

def taken (o : Outflow) (n : Nat) : Nat := min (min n ((o.perWrite o.written.size).getD n)) (o.room.getD n)

def accept (o : Outflow) (bytes : ByteArray) : Outflow :=
  { o with room := o.room.map (· - bytes.size), written := o.written ++ bytes }

/-- Writes the bytes from a position on, until all are taken or a write takes none. -/
def writeFrom (bytes : ByteArray) (i : Nat) (o : Outflow) : Except Ending Unit × Outflow :=
  if i < bytes.size then
    if o.room = some 0 then (.error o.whenFull, o)
    else
      let n := o.taken (bytes.size - i)
      if 0 < n then writeFrom bytes (i + n) (o.accept (bytes.extract i (i + n))) else (.error .closed, o)
  else (.ok (), o)
termination_by bytes.size - i

def write (bytes : ByteArray) (o : Outflow) : Except Ending Unit × Outflow := o.writeFrom bytes 0

def flush (o : Outflow) : Except StreamFault Unit × Outflow :=
  (match o.flushFault o.flushes with
    | some fault => .error fault
    | none => .ok (),
    { o with flushes := o.flushes + 1 })

end Outflow

end Placement
