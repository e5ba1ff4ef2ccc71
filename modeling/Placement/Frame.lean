import Placement.Stream

/-!
Frames: payloads on a byte stream.

A frame is the length of its payload, four bytes with the highest first, and then the payload. No payload is
longer than 64 MiB: a longer one is not sent, and a length that announces a longer one is an error as soon as
it is read. The outcome of reading a frame does not depend on how the bytes are cut into chunks.
-/

namespace Placement.Frame

def limit : Nat := 67108864

def lengthBytes (n : Nat) : ByteArray :=
  .mk #[UInt8.ofNat (n >>> 24), UInt8.ofNat (n >>> 16), UInt8.ofNat (n >>> 8), UInt8.ofNat n]

def lengthOf (bytes : ByteArray) : Nat := bytes.data.foldl (fun n b => n * 256 + b.toNat) 0

def encode (payload : ByteArray) : Except Fault ByteArray :=
  if limit < payload.size then .error (.protocol (.payloadTooLong payload.size limit))
  else .ok (lengthBytes payload.size ++ payload)

/-- Writes a frame and flushes it; `late` is the fault of a wait without end. -/
def write (late : Fault) (payload : ByteArray) (o : Outflow) : Except Fault Unit × Outflow :=
  match encode payload with
  | .error fault => (.error fault, o)
  | .ok frame =>
    match o.write frame with
    | (.error .closed, o) => (.error (.stream .nothingTaken), o)
    | (.error (.failing fault), o) => (.error (.stream fault), o)
    | (.error .silent, o) => (.error late, o)
    | (.ok (), o) =>
      let (outcome, o) := o.flush
      (outcome.mapError .stream, o)

def lengthShortage (late : Fault) : Ending → Fault
  | .closed => .protocol .closedBeforeLength
  | .failing (.unexpectedEnd _) => .protocol .closedBeforeLength
  | .failing fault => .stream fault
  | .silent => late

def payloadShortage (late : Fault) (announced : Nat) (s : Inflow.Shortage) : Fault :=
  match s.cause with
  | .closed => .protocol (.closedInPayload s.received announced)
  | .failing fault => .stream fault
  | .silent => late

/-- Reads a frame and gives its payload; `late` is the fault of a wait without end. -/
def read (late : Fault) (s : Inflow) : Except Fault ByteArray × Inflow :=
  match s.gather 4 with
  | (.error shortage, s) => (.error (lengthShortage late shortage.cause), s)
  | (.ok bytes, s) =>
    let length := lengthOf bytes
    if limit < length then (.error (.protocol (.announcedTooLong length limit)), s)
    else
      let (outcome, s) := s.gather length
      (outcome.mapError (payloadShortage late length), s)

end Placement.Frame
