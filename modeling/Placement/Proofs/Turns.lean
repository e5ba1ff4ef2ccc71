import Placement.Channel
import Placement.Proofs.Framing

/-!
Requests and replies in strict turns.

Callers act on a channel one after another, in the order in which they come to hold it. As long as every request
is answered, the frames sent are those of the requests and the frames taken are those of the replies (`Exchanged`).
The first failure and the first closing both end this for good: a channel that is not open is never used again.

- `send_cases`: one request on an open channel.
- `acts_closed`: what is left to do on a channel that is not open.
- `replies_in_turn`: any sequence of acts.
-/

namespace Placement.Channel

def sent (c : Channel) : List UInt8 := c.stream.outflow.sent

def incoming (c : Channel) : List UInt8 := c.stream.inflow.bytes

inductive Act
  | send (request : ByteArray)
  | close

inductive Event
  | sent (request : ByteArray) (outcome : Except Fault ByteArray)
  | closed (outcome : Except Fault Unit)

namespace Event

/-- After this the channel is not used again. -/
def ends : Event → Bool
  | .sent _ (.ok _) => false
  | _ => true

def turn? : Event → Option (ByteArray × ByteArray)
  | .sent request (.ok reply) => some (request, reply)
  | _ => none

def failed? : Event → Option ByteArray
  | .sent request (.error _) => some request
  | _ => none

def refused (address : String) : Act → Event
  | .send request => .sent request (.error (.connection (.registryClosed address)))
  | .close => .closed (.ok ())

end Event

def act : Act → Channel → Event × Channel
  | .send request, c => (.sent request (c.send request).1, (c.send request).2)
  | .close, c => (.closed c.close.1, c.close.2)

def acts : List Act → Channel → List Event × Channel
  | [], c => ([], c)
  | a :: rest, c => ((act a c).1 :: (acts rest (act a c).2).1, (acts rest (act a c).2).2)

def turns (log : List Event) : List (ByteArray × ByteArray) := log.filterMap Event.turn?

def firstFailed? (log : List Event) : Option ByteArray := log.findSome? Event.failed?

@[simp] theorem turns_answered (request reply : ByteArray) (log : List Event) :
    turns (.sent request (.ok reply) :: log) = (request, reply) :: turns log := rfl

@[simp] theorem turns_failed (request : ByteArray) (fault : Fault) (log : List Event) :
    turns (.sent request (.error fault) :: log) = turns log := rfl

@[simp] theorem turns_closed (outcome : Except Fault Unit) (log : List Event) :
    turns (.closed outcome :: log) = turns log := rfl

@[simp] theorem firstFailed?_answered (request reply : ByteArray) (log : List Event) :
    firstFailed? (.sent request (.ok reply) :: log) = firstFailed? log := rfl

@[simp] theorem firstFailed?_failed (request : ByteArray) (fault : Fault) (log : List Event) :
    firstFailed? (.sent request (.error fault) :: log) = some request := rfl

/-! ## One act -/

/-- From one channel to the other the requests were sent and answered, each with its own reply, and nothing else was
sent or taken. -/
structure Exchanged (c : Channel) (turns : List (ByteArray × ByteArray)) (c' : Channel) : Prop where
  address : c'.address = c.address
  isOpen : c'.isOpen = c.isOpen
  sent : c'.sent = c.sent ++ turns.flatMap fun t => Frame.bytes t.1
  incoming : c.incoming = (turns.map (·.2)).flatMap Frame.bytes ++ c'.incoming
  short : ∀ t ∈ turns, t.2.size ≤ Frame.limit

variable {c c' c'' : Channel} {ts ts' : List (ByteArray × ByteArray)}

theorem Exchanged.refl (c : Channel) : Exchanged c [] c := ⟨rfl, rfl, by simp, by simp, by simp⟩

theorem Exchanged.trans (h : Exchanged c ts c') (h' : Exchanged c' ts' c'') : Exchanged c (ts ++ ts') c'' := by
  refine ⟨h'.address.trans h.address, h'.isOpen.trans h.isOpen, ?_, ?_, ?_⟩
  · rw [h'.sent, h.sent, List.flatMap_append, List.append_assoc]
  · rw [h.incoming, h'.incoming, List.map_append, List.flatMap_append, List.append_assoc]
  · intro t ht
    rcases List.mem_append.1 ht with ht | ht
    · exact h.short t ht
    · exact h'.short t ht

/-- The replies are the next frames that the other end delivers. -/
theorem Exchanged.payloads (h : Exchanged c ts c') :
    Frame.payloads c.incoming = ts.map (·.2) ++ Frame.payloads c'.incoming := by
  rw [h.incoming, Frame.payloads_flatMap]
  intro p hp
  obtain ⟨t, ht, rfl⟩ := List.mem_map.1 hp
  exact h.short t ht

/-- A request that fails closes the channel and has sent no more than a front part of its frame. -/
structure Dropped (c : Channel) (request : ByteArray) (c' : Channel) : Prop where
  address : c'.address = c.address
  closed : c'.isOpen = false
  sent : ∃ part, c'.sent = c.sent ++ part ∧ part <+: Frame.bytes request

theorem send_closed (h : c.isOpen = false) (request : ByteArray) :
    c.send request = (.error (.connection (.registryClosed c.address)), c) := by
  simp [send, h]

theorem close_closed (h : c.isOpen = false) : c.close = (.ok (), c) := by
  simp [close, h]

/-- On an open channel a request is answered by the next frame, or the channel is dropped. -/
theorem send_cases (h : c.isOpen = true) (request : ByteArray) :
    (∃ reply c', c.send request = (.ok reply, c') ∧ Exchanged c [(request, reply)] c') ∨
      ∃ fault c', c.send request = (.error fault, c') ∧ Dropped c request c' := by
  obtain ⟨part, hsent, hpart, hok⟩ :=
    Frame.write_sends (.timeout (.registryReply c.address)) request c.stream.outflow
  rcases hw : Frame.write (.timeout (.registryReply c.address)) request c.stream.outflow with ⟨wrote, o'⟩
  rw [hw] at hsent hok
  cases wrote with
  | error fault =>
    simp only [send, h, if_true, hw]
    exact .inr ⟨fault, _, rfl, rfl, rfl, part, hsent, hpart⟩
  | ok =>
    obtain rfl := hok rfl
    rcases hr : Frame.read (.timeout (.registryReply c.address)) c.stream.inflow with ⟨got, s'⟩
    simp only [send, h, if_true, hw, hr]
    cases got with
    | error fault => exact .inr ⟨fault, _, rfl, rfl, rfl, _, hsent, hpart⟩
    | ok reply =>
      obtain ⟨hbytes, hshort⟩ := Frame.read_ok hr
      refine .inl ⟨reply, _, rfl, rfl, h.symm, ?_, ?_, ?_⟩
      · simpa [sent] using hsent
      · simpa [incoming] using hbytes
      · simpa using hshort

/-- A request that goes out is answered by the frame that waits, and the channel goes on behind it. -/
theorem send_answered (h : c.isOpen = true) {request reply : ByteArray} {rest : List UInt8}
    (hw : (Frame.write (.timeout (.registryReply c.address)) request c.stream.outflow).1 = .ok ())
    (hr : Frame.first? c.incoming = some (reply, rest)) :
    ∃ c', c.send request = (.ok reply, c') ∧ c'.isOpen = true ∧ c'.incoming = rest := by
  rcases hwrite : Frame.write (.timeout (.registryReply c.address)) request c.stream.outflow with ⟨wrote, o'⟩
  rw [hwrite] at hw
  obtain rfl : wrote = .ok () := hw
  obtain ⟨hbytes, hshort⟩ := Frame.first?_eq_some_iff.1 hr
  obtain ⟨s', hread, hrest, -, -⟩ := Frame.read_frame (.timeout (.registryReply c.address)) hbytes hshort
  simp only [send, h, if_true, hwrite, hread]
  exact ⟨_, rfl, rfl, hrest⟩

/-- Where writes do not fail, a request that is not answered was not sent at all, or was sent and no frame came back. -/
theorem send_willing (h : c.stream.outflow.Willing) (request : ByteArray) :
    (∃ reply c', c.send request = (.ok reply, c') ∧ Exchanged c [(request, reply)] c' ∧ c'.stream.outflow.Willing) ∨
      ∃ fault c', c.send request = (.error fault, c') ∧
        (c'.sent = c.sent ∨ c'.sent = c.sent ++ Frame.bytes request ∧ Frame.first? c.incoming = none) := by
  cases hopen : c.isOpen with
  | false => exact .inr ⟨_, c, send_closed hopen request, .inl rfl⟩
  | true =>
    let late := Fault.timeout (.registryReply c.address)
    by_cases hsize : request.size ≤ Frame.limit
    · obtain ⟨hok, hwilling⟩ := Frame.write_willing late hsize h
      obtain ⟨part, hsent, -, hall⟩ := Frame.write_sends late request c.stream.outflow
      obtain rfl := hall hok
      rcases hw : Frame.write late request c.stream.outflow with ⟨wrote, o'⟩
      rw [hw] at hok hwilling hsent
      obtain rfl : wrote = .ok () := hok
      cases hfirst : Frame.first? c.incoming with
      | none =>
        obtain ⟨fault, s', hr⟩ := Frame.read_fails late hfirst
        simp only [send, hopen, if_true, hw, hr, late]
        exact .inr ⟨fault, _, rfl, .inr ⟨hsent, trivial⟩⟩
      | some found =>
        obtain ⟨hbytes, hshort⟩ := Frame.first?_eq_some_iff.1 hfirst
        obtain ⟨s', hr, hrest, -, -⟩ := Frame.read_frame late hbytes hshort
        simp only [send, hopen, if_true, hw, hr, late]
        refine .inl ⟨found.1, _, rfl, ⟨rfl, hopen.symm, ?_, ?_, by simpa using hshort⟩, hwilling⟩
        · simpa [sent] using hsent
        · simpa [incoming, hrest] using hbytes
    · have hw := Frame.write_long late (Nat.lt_of_not_le hsize) c.stream.outflow
      simp only [send, hopen, if_true, hw, late]
      exact .inr ⟨_, _, rfl, .inl rfl⟩

theorem act_address (a : Act) (c : Channel) : (act a c).2.address = c.address := by
  cases a with
  | send request =>
    cases hopen : c.isOpen with
    | false => simp [act, send_closed hopen]
    | true =>
      rcases send_cases hopen request with ⟨reply, c', hs, hx⟩ | ⟨fault, c', hs, hd⟩
      · simp [act, hs, hx.address]
      · simp [act, hs, hd.address]
  | close => cases hopen : c.isOpen <;> simp [act, close, hopen]

/-- What ends the turns leaves the channel closed. -/
theorem act_ends {a : Act} (h : (act a c).1.ends = true) : (act a c).2.isOpen = false := by
  cases hopen : c.isOpen with
  | false =>
    cases a with
    | send request => simp [act, send_closed hopen, hopen]
    | close => simp [act, close_closed hopen, hopen]
  | true =>
    cases a with
    | send request =>
      rcases send_cases hopen request with ⟨reply, c', hs, -⟩ | ⟨fault, c', hs, hd⟩
      · simp [act, hs, Event.ends] at h
      · simp [act, hs, hd.closed]
    | close => simp [act, close, hopen]

/-! ## Many acts -/

/-- A channel that is not open answers nothing and stays as it is. -/
theorem acts_closed (h : c.isOpen = false) (l : List Act) : acts l c = (l.map (Event.refused c.address), c) := by
  induction l with
  | nil => rfl
  | cons a rest ih =>
    have hact : act a c = (Event.refused c.address a, c) := by
      cases a with
      | send request => simp only [act, send_closed h, Event.refused]
      | close => simp only [act, close_closed h, Event.refused]
    simp [acts, hact, ih]

/-- Once the turns have ended the channel is closed. -/
theorem acts_ends (l : List Act) (c : Channel) :
    (acts l c).2.address = c.address ∧ ((∃ e ∈ (acts l c).1, e.ends = true) → (acts l c).2.isOpen = false) := by
  induction l generalizing c with
  | nil => exact ⟨rfl, fun ⟨e, he, _⟩ => by cases he⟩
  | cons a rest ih =>
    obtain ⟨haddress, hclosed⟩ := ih (act a c).2
    refine ⟨haddress.trans (act_address a c), ?_⟩
    rintro ⟨e, he, hends⟩
    rcases List.mem_cons.1 he with rfl | he
    · have hc := act_ends hends
      rw [acts, acts_closed hc]
      exact hc
    · exact hclosed ⟨e, he, hends⟩

theorem turns_refused (address : String) (l : List Act) : turns (l.map (Event.refused address)) = [] := by
  induction l with
  | nil => rfl
  | cons a rest ih => cases a <;> exact ih

/-- Whatever is done on an open channel, the turns that came to an end are the next frames on either side, and beyond
them no more was sent than a front part of the frame of the first request that failed. -/
theorem acts_exchange (l : List Act) (h : c.isOpen = true) :
    ∃ c₁ part, Exchanged c (turns (acts l c).1) c₁ ∧ (acts l c).2.sent = c₁.sent ++ part ∧
      part <+: ((firstFailed? (acts l c).1).map Frame.bytes).getD [] := by
  induction l generalizing c with
  | nil => exact ⟨c, [], .refl c, by simp [acts], by simp⟩
  | cons a rest ih =>
    cases a with
    | send request =>
      rcases send_cases h request with ⟨reply, c', hs, hx⟩ | ⟨fault, c', hs, hd⟩
      · obtain ⟨c₁, part, hx', hsent, hpart⟩ := ih (hx.isOpen.trans h)
        simp only [acts, act, hs, turns_answered, firstFailed?_answered]
        exact ⟨c₁, part, hx.trans hx', hsent, hpart⟩
      · obtain ⟨part, hsent, hpart⟩ := hd.sent
        simp only [acts, act, hs, acts_closed hd.closed, turns_failed, turns_refused, firstFailed?_failed]
        exact ⟨c, part, .refl c, hsent, hpart⟩
    | close =>
      have hclosed : c.close.2.isOpen = false := by simp [close, h]
      have hsent : c.close.2.sent = c.sent := by simp [close, h, sent]
      simp only [acts, act, acts_closed hclosed, turns_closed, turns_refused]
      exact ⟨c, [], .refl c, by simpa using hsent, List.nil_prefix⟩

/-- A channel never mistakes one exchange for another. The replies are the frames that the other end delivers, in their
order. What is sent are the frames of the answered requests, in their order, and after them at most a front part of the
frame of the first request that failed. Once a request has failed or the channel was closed, nothing that is done then
is answered, sends or takes a byte. -/
theorem replies_in_turn (address : String) (stream : Stream) (l : List Act) :
    let c : Channel := { address, stream }
    (turns (acts l c).1).map (·.2) <+: Frame.payloads c.incoming ∧
      (∃ part, (acts l c).2.sent = c.sent ++ ((turns (acts l c).1).flatMap fun t => Frame.bytes t.1) ++ part ∧
        part <+: ((firstFailed? (acts l c).1).map Frame.bytes).getD []) ∧
      ∀ before after, l = before ++ after → (∃ e ∈ (acts before c).1, e.ends = true) →
        acts after (acts before c).2 = (after.map (Event.refused address), (acts before c).2) := by
  intro c
  obtain ⟨c₁, part, hx, hsent, hpart⟩ := acts_exchange l (show c.isOpen = true from rfl)
  refine ⟨?_, ⟨part, by rw [hsent, hx.sent], hpart⟩, ?_⟩
  · rw [hx.payloads]
    exact List.prefix_append ..
  · intro before after _ hended
    obtain ⟨haddress, hclosed⟩ := acts_ends before c
    rw [acts_closed (hclosed hended), haddress]

def breaksOff : Stream := { inflow := { chunks := [.mk #[0, 0, 0, 1, 49, 0, 0], .mk #[0, 8, 120]] } }

theorem refused_after_a_broken_reply :
    let (events, c) := acts [.send "one".toUTF8, .send "two".toUTF8] { address := "registry", stream := breaksOff }
    turns events = [("one".toUTF8, "1".toUTF8)] ∧ firstFailed? events = some "two".toUTF8 ∧
      acts [.send "three".toUTF8] c =
        ([.sent "three".toUTF8 (.error (.connection (.registryClosed "registry")))], c) := by
  let l : List Act := [.send "one".toUTF8, .send "two".toUTF8]
  have ended : ∃ e ∈ (acts l { address := "registry", stream := breaksOff }).1, e.ends = true := by decide +kernel
  exact ⟨by decide +kernel, by decide +kernel,
    (replies_in_turn "registry" breaksOff (l ++ [.send "three".toUTF8])).2.2 l _ rfl ended⟩

end Placement.Channel
