import Placement.Frame
import Placement.Text.Blank

/-!
Channels: one connection that carries requests and replies in strict turns.

A request is written as a frame, and the next frame of the stream is its reply. After any failure it is not
known where in the stream the other end is, so the channel gives the stream up and stays closed.
-/

namespace Placement

/-- A connection: what comes in, what goes out, and why shutting it down fails, if it does. -/
structure Stream where
  inflow : Inflow := {}
  outflow : Outflow := {}
  shutdownFault : Option StreamFault := none

/-- What an attempt to connect comes to. -/
inductive Connecting
  | connected (s : Stream)
  | refused (detail : String)
  /-- No answer comes. -/
  | silent

abbrev Network := String → Nat → Connecting

/-- One connection to a registry. A channel that is not open keeps what was sent, and uses nothing of it. -/
structure Channel where
  address : String
  stream : Stream
  isOpen : Bool := true

namespace Channel

def connect (network : Network) (host : String) (port : Nat) : Except Fault Channel :=
  if Text.isBlank host then .error (.connection .blankRegistryHost)
  else if port = 0 then .error (.connection .zeroRegistryPort)
  else
    let address := s!"{host}:{port}"
    match network host port with
    | .connected stream => .ok { address, stream }
    | .refused detail => .error (.connection (.registryRefused address detail))
    | .silent => .error (.timeout (.registryConnection address))

def send (request : ByteArray) (c : Channel) : Except Fault ByteArray × Channel :=
  if c.isOpen then
    let late := Fault.timeout (.registryReply c.address)
    match Frame.write late request c.stream.outflow with
    | (.error fault, outflow) => (.error fault, { c with stream.outflow := outflow, isOpen := false })
    | (.ok (), outflow) =>
      match Frame.read late c.stream.inflow with
      | (.error fault, inflow) =>
        (.error fault, { c with stream := { c.stream with inflow, outflow }, isOpen := false })
      | (.ok reply, inflow) => (.ok reply, { c with stream := { c.stream with inflow, outflow } })
  else (.error (.connection (.registryClosed c.address)), c)

def close (c : Channel) : Except Fault Unit × Channel :=
  if c.isOpen then
    (match c.stream.shutdownFault with
      | some fault => .error (.stream fault)
      | none => .ok (),
      { c with isOpen := false })
  else (.ok (), c)

end Channel

end Placement
