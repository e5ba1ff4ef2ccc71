import Placement.Frame
import Placement.Proofs.Delivery

/-!
Frames as they stand in the bytes of a stream.

`bytes` is the written form of one payload, and `first?` and `payloads` find payloads in any bytes, by the rule
of length and payload alone. A frame ends where its length says, so no frame is the beginning of another.

- `first?_eq_some_iff`: what is found is what was written.
- `read_frame`, `read_fails`: a reading gives the first payload and takes its frame, or fails.
- `write_sends`: a writing sends a front part of a frame, and the whole of it unless it fails.
- `reads_return_what_was_written`: a list of payloads survives any fragmentation on either side.
-/

namespace Placement.Frame

def bytes (payload : ByteArray) : List UInt8 := bytesOf (lengthBytes payload.size) ++ bytesOf payload

def number (digits : List UInt8) : Nat := digits.foldl (fun n b => n * 256 + b.toNat) 0

def announced (b : List UInt8) : Nat := number (b.take 4)

/-- The payload of the frame that the bytes start with, and the bytes after that frame. -/
def first? (b : List UInt8) : Option (ByteArray × List UInt8) :=
  if 4 ≤ b.length ∧ announced b ≤ limit ∧ 4 + announced b ≤ b.length then
    some (.mk ((b.drop 4).take (announced b)).toArray, b.drop (4 + announced b))
  else none

theorem first?_length {b rest : List UInt8} {p : ByteArray} (h : first? b = some (p, rest)) :
    rest.length < b.length := by
  unfold first? at h
  split at h
  · cases h
    simp only [List.length_drop]
    omega
  · cases h

/-- The payloads of the frames that the bytes start with, up to bytes that are no frame. -/
def payloads (b : List UInt8) : List ByteArray :=
  match _h : first? b with
  | none => []
  | some (p, rest) => p :: payloads rest
termination_by b.length
decreasing_by exact first?_length _h

/-! ## Lengths -/

theorem lengthOf_eq (b : ByteArray) : lengthOf b = number (bytesOf b) := by
  simp [lengthOf, number, bytesOf]

theorem bytesOf_lengthBytes (n : Nat) :
    bytesOf (lengthBytes n) =
      [UInt8.ofNat (n >>> 24), UInt8.ofNat (n >>> 16), UInt8.ofNat (n >>> 8), UInt8.ofNat n] := rfl

@[simp] theorem length_bytes (p : ByteArray) : (bytes p).length = 4 + p.size := by
  simp [bytes, bytesOf_lengthBytes]
  omega

theorem bytes_inj {p q : ByteArray} (h : bytes p = bytes q) : p = q := by
  have hsize : p.size = q.size := by
    have hlength := congrArg List.length h
    simp only [length_bytes] at hlength
    omega
  rw [bytes, bytes, hsize] at h
  exact bytesOf_inj.1 (List.append_cancel_left h)

/-- Four digits are enough for any length up to the limit. -/
theorem number_lengthBytes {n : Nat} (h : n ≤ limit) : number (bytesOf (lengthBytes n)) = n := by
  rw [bytesOf_lengthBytes]
  simp only [number, List.foldl_cons, List.foldl_nil, UInt8.toNat_ofNat', Nat.shiftRight_eq_div_pow]
  unfold limit at h
  omega

theorem lengthBytes_number {digits : List UInt8} (h : digits.length = 4) :
    bytesOf (lengthBytes (number digits)) = digits := by
  obtain ⟨a, b, c, d, rfl⟩ : ∃ a b c d, digits = [a, b, c, d] := by
    match digits, h with
    | [a, b, c, d], _ => exact ⟨a, b, c, d, rfl⟩
  have ha := a.toNat_lt
  have hb := b.toNat_lt
  have hc := c.toNat_lt
  have hd := d.toNat_lt
  rw [bytesOf_lengthBytes]
  simp only [number, List.foldl_cons, List.foldl_nil, List.cons.injEq, and_true, ← UInt8.toNat_inj,
    UInt8.toNat_ofNat', Nat.shiftRight_eq_div_pow]
  omega

theorem announced_append {n : Nat} (h : n ≤ limit) (rest : List UInt8) :
    announced (bytesOf (lengthBytes n) ++ rest) = n := by
  have hfour : (bytesOf (lengthBytes n) ++ rest).take 4 = bytesOf (lengthBytes n) := by simp [bytesOf_lengthBytes]
  rw [announced, hfour, number_lengthBytes h]

/-! ## Frames in bytes -/

/-- What is found at the front of some bytes is what was written there. -/
theorem first?_eq_some_iff {b rest : List UInt8} {p : ByteArray} :
    first? b = some (p, rest) ↔ b = bytes p ++ rest ∧ p.size ≤ limit := by
  constructor
  · intro h
    unfold first? at h
    split at h
    · rename_i hb
      obtain ⟨hlen, hlimit, hall⟩ := hb
      cases h
      have hsize : (ByteArray.mk ((b.drop 4).take (announced b)).toArray).size = announced b := by
        simp only [ByteArray.size, List.size_toArray, List.length_take, List.length_drop]
        omega
      refine ⟨?_, by rwa [hsize]⟩
      have hdigits : bytesOf (lengthBytes (announced b)) = b.take 4 := lengthBytes_number (by simp; omega)
      rw [bytes, hsize, hdigits]
      simp only [bytesOf, List.append_assoc]
      rw [← List.drop_drop, List.take_append_drop, List.take_append_drop]
    · cases h
  · rintro ⟨rfl, hp⟩
    have hannounced : announced (bytes p ++ rest) = p.size := by
      rw [bytes, List.append_assoc, announced_append hp]
    have hdrop : (bytes p ++ rest).drop 4 = bytesOf p ++ rest := by simp [bytes, bytesOf_lengthBytes]
    have hlen : (bytes p ++ rest).length = 4 + p.size + rest.length := by simp
    unfold first?
    rw [hannounced, if_pos ⟨by omega, hp, by omega⟩, ← List.drop_drop, hdrop, ← length_bytesOf, List.take_left,
      List.drop_left]
    simp [bytesOf]

theorem payloads_of_none {b : List UInt8} (h : first? b = none) : payloads b = [] := by
  rw [payloads]
  split
  · rfl
  · rename_i hsome
    rw [h] at hsome
    cases hsome

theorem payloads_append {p : ByteArray} (h : p.size ≤ limit) (rest : List UInt8) :
    payloads (bytes p ++ rest) = p :: payloads rest := by
  have hfirst : first? (bytes p ++ rest) = some (p, rest) := first?_eq_some_iff.2 ⟨rfl, h⟩
  rw [payloads]
  split
  · rename_i hnone
    rw [hfirst] at hnone
    cases hnone
  · rename_i hsome
    rw [hfirst] at hsome
    cases hsome
    rfl

theorem payloads_flatMap {ps : List ByteArray} (h : ∀ p ∈ ps, p.size ≤ limit) (rest : List UInt8) :
    payloads (ps.flatMap bytes ++ rest) = ps ++ payloads rest := by
  induction ps with
  | nil => rfl
  | cons p ps ih =>
    rw [List.flatMap_cons, List.append_assoc, payloads_append (h p (by simp)),
      ih fun q hq => h q (List.mem_cons_of_mem _ hq)]
    rfl

/-! ## Reading -/

/-- A reading gives the payload of the first frame and takes no byte beyond that frame. -/
theorem read_frame (late : Fault) {s : Inflow} {p : ByteArray} {rest : List UInt8} (hs : s.bytes = bytes p ++ rest)
    (hp : p.size ≤ limit) :
    ∃ s', read late s = (.ok p, s') ∧ s'.bytes = rest ∧ s'.ending = s.ending ∧ (s.Solid → s'.Solid) := by
  have hfour : 4 ≤ s.bytes.length := by simp [hs]; omega
  obtain ⟨digits, s₁, hr₁, hdigits, h₁⟩ := Inflow.gather_ok hfour
  have hlength : lengthOf digits = p.size := by
    rw [lengthOf_eq, hdigits, hs, bytes, List.append_assoc]
    exact announced_append hp _
  have hb₁ : s₁.bytes = bytesOf p ++ rest := by
    rw [h₁.bytes, hs]
    simp [bytes, bytesOf_lengthBytes]
  have hall : p.size ≤ s₁.bytes.length := by simp [hb₁]
  obtain ⟨payload, s₂, hr₂, hpayload, h₂⟩ := Inflow.gather_ok hall
  have hsame : payload = p := by
    rw [← bytesOf_inj, hpayload, hb₁, ← length_bytesOf, List.take_left]
  refine ⟨s₂, ?_, ?_, (h₁.trans h₂).ending, (h₁.trans h₂).solid⟩
  · simp only [read, hr₁, hlength, Nat.not_lt.2 hp, if_false, hr₂, hsame]
    rfl
  · rw [h₂.bytes, hb₁, ← length_bytesOf, List.drop_left]

/-- Without a frame at the front a reading fails. -/
theorem read_fails (late : Fault) {s : Inflow} (h : first? s.bytes = none) :
    ∃ fault s', read late s = (.error fault, s') := by
  by_cases hfour : 4 ≤ s.bytes.length
  · obtain ⟨digits, s₁, hr₁, hdigits, h₁⟩ := Inflow.gather_ok hfour
    have hlength : lengthOf digits = announced s.bytes := by rw [lengthOf_eq, hdigits, announced]
    by_cases hlong : limit < announced s.bytes
    · simp only [read, hr₁, hlength, hlong, if_true]
      exact ⟨_, _, rfl⟩
    have hshort : s₁.bytes.length < announced s.bytes := by
      refine Nat.lt_of_not_le fun hall => ?_
      rw [h₁.bytes, List.length_drop] at hall
      rw [first?, if_pos ⟨hfour, by omega, by omega⟩] at h
      cases h
    obtain ⟨shortage, s₂, hr₂⟩ := Inflow.gather_short hshort
    simp only [read, hr₁, hlength, hlong, if_false, hr₂]
    exact ⟨_, _, rfl⟩
  · obtain ⟨shortage, s₁, hr₁⟩ := Inflow.gather_short (Nat.lt_of_not_le hfour)
    simp only [read, hr₁]
    exact ⟨_, _, rfl⟩

/-- What a reading gives was the payload of the first frame. -/
theorem read_ok {late : Fault} {s s' : Inflow} {p : ByteArray} (h : read late s = (.ok p, s')) :
    s.bytes = bytes p ++ s'.bytes ∧ p.size ≤ limit := by
  cases hfirst : first? s.bytes with
  | none =>
    obtain ⟨fault, s₁, hr⟩ := read_fails late hfirst
    rw [hr] at h
    cases h
  | some found =>
    obtain ⟨q, rest⟩ := found
    obtain ⟨hs, hq⟩ := first?_eq_some_iff.1 hfirst
    obtain ⟨s₁, hr, hb, -, -⟩ := read_frame late hs hq
    rw [hr] at h
    cases h
    exact ⟨by rw [hs, hb], hq⟩

/-! ## Writing -/

theorem encode_of_le {p : ByteArray} (h : p.size ≤ limit) : encode p = .ok (lengthBytes p.size ++ p) := by
  simp [encode, Nat.not_lt.2 h]

theorem bytesOf_frame (p : ByteArray) : bytesOf (lengthBytes p.size ++ p) = bytes p := bytesOf_append ..

/-- A payload that is too long is not written. -/
theorem write_long (late : Fault) {p : ByteArray} (h : limit < p.size) (o : Outflow) :
    write late p o = (.error (.protocol (.payloadTooLong p.size limit)), o) := by
  simp [write, encode, h]

/-- A writing sends a front part of the frame, and the whole of it unless it fails. -/
theorem write_sends (late : Fault) (p : ByteArray) (o : Outflow) :
    ∃ part, (write late p o).2.sent = o.sent ++ part ∧ part <+: bytes p ∧
      ((write late p o).1 = .ok () → part = bytes p) := by
  by_cases hp : p.size ≤ limit
  · obtain ⟨part, hsent, hpart, hok⟩ := Outflow.write_sends (lengthBytes p.size ++ p) o
    rw [bytesOf_frame] at hpart hok
    rcases hw : o.write (lengthBytes p.size ++ p) with ⟨outcome, o'⟩
    rw [hw] at hsent hok
    cases outcome with
    | error ending =>
      refine ⟨part, ?_, hpart, fun h => ?_⟩
      · cases ending <;> simpa only [write, encode_of_le hp, hw] using hsent
      · cases ending <;> simp only [write, encode_of_le hp, hw, reduceCtorEq] at h
    | ok =>
      refine ⟨part, ?_, hpart, fun _ => hok rfl⟩
      simpa only [write, encode_of_le hp, hw, Outflow.sent_flush] using hsent
  · rw [write_long late (Nat.lt_of_not_le hp)]
    exact ⟨[], by simp, List.nil_prefix, fun h => by cases h⟩

/-- Where every write takes something and flushing does not fail, a payload that is not too long is written. -/
theorem write_willing (late : Fault) {p : ByteArray} (hp : p.size ≤ limit) {o : Outflow} (h : o.Willing) :
    (write late p o).1 = .ok () ∧ (write late p o).2.Willing := by
  have hwrite := Outflow.write_willing h (lengthBytes p.size ++ p)
  rcases hw : o.write (lengthBytes p.size ++ p) with ⟨outcome, o'⟩
  rw [hw] at hwrite
  obtain ⟨rfl, h'⟩ := hwrite
  have hflush := Outflow.flush_willing h'
  simp only [write, encode_of_le hp, hw]
  exact ⟨by rw [hflush.1]; rfl, hflush.2⟩

/-! ## Many frames -/

def writeAll (late : Fault) : List ByteArray → Outflow → List (Except Fault Unit) × Outflow
  | [], o => ([], o)
  | p :: rest, o => ((write late p o).1 :: (writeAll late rest (write late p o).2).1,
    (writeAll late rest (write late p o).2).2)

def readAll (late : Fault) : Nat → Inflow → List (Except Fault ByteArray) × Inflow
  | 0, s => ([], s)
  | n + 1, s => ((read late s).1 :: (readAll late n (read late s).2).1, (readAll late n (read late s).2).2)

theorem writeAll_willing (late : Fault) {ps : List ByteArray} (hp : ∀ p ∈ ps, p.size ≤ limit) {o : Outflow}
    (h : o.Willing) :
    (writeAll late ps o).1 = ps.map (fun _ => .ok ()) ∧ (writeAll late ps o).2.sent = o.sent ++ ps.flatMap bytes := by
  induction ps generalizing o with
  | nil => exact ⟨rfl, by simp [writeAll]⟩
  | cons p rest ih =>
    obtain ⟨hok, h'⟩ := write_willing late (hp p (by simp)) h
    obtain ⟨part, hsent, -, hall⟩ := write_sends late p o
    obtain ⟨houtcomes, hrest⟩ := ih (fun q hq => hp q (List.mem_cons_of_mem _ hq)) h'
    refine ⟨by rw [writeAll, hok, houtcomes, List.map_cons], ?_⟩
    rw [writeAll, hrest, hsent, hall hok, List.flatMap_cons, List.append_assoc]

theorem readAll_frames (late : Fault) {ps : List ByteArray} (hp : ∀ p ∈ ps, p.size ≤ limit) {s : Inflow}
    {rest : List UInt8} (hs : s.bytes = ps.flatMap bytes ++ rest) :
    ∃ s', readAll late ps.length s = (ps.map .ok, s') ∧ s'.bytes = rest ∧ s'.ending = s.ending ∧
      (s.Solid → s'.Solid) := by
  induction ps generalizing s with
  | nil => exact ⟨s, rfl, hs, rfl, id⟩
  | cons p ps ih =>
    rw [List.flatMap_cons, List.append_assoc] at hs
    obtain ⟨s₁, hr₁, hb₁, he₁, hsolid₁⟩ := read_frame late hs (hp p (by simp))
    obtain ⟨s₂, hr₂, hb₂, he₂, hsolid₂⟩ := ih (fun q hq => hp q (List.mem_cons_of_mem _ hq)) hb₁
    refine ⟨s₂, ?_, hb₂, he₂.trans he₁, fun h => hsolid₂ (hsolid₁ h)⟩
    rw [List.length_cons, readAll, hr₁, hr₂, List.map_cons]

/-- Payloads come back one for one, however few bytes each write takes and however what was written is cut into chunks;
nothing is left over, and a further reading finds the end of the stream. -/
theorem reads_return_what_was_written (late late' : Fault) {ps : List ByteArray} (hp : ∀ p ∈ ps, p.size ≤ limit)
    {o : Outflow} (willing : o.Willing) {chunks : List ByteArray} (solid : ∀ c ∈ chunks, c.size ≠ 0)
    (written : (writeAll late ps o).2.sent = o.sent ++ chunks.flatMap bytesOf) :
    (writeAll late ps o).1 = ps.map (fun _ => .ok ()) ∧
      readAll late' ps.length { chunks } = (ps.map .ok, {}) ∧
      (read late' {}).1 = .error (.protocol .closedBeforeLength) ∧
      ProtocolFault.closedBeforeLength.text = "stream closed before frame length" := by
  obtain ⟨houtcomes, hsent⟩ := writeAll_willing late hp willing
  refine ⟨houtcomes, ?_, rfl, rfl⟩
  rw [hsent, List.append_cancel_left_eq] at written
  have hs : (Inflow.mk chunks .closed).Solid := solid
  have hbytes : (Inflow.mk chunks .closed).bytes = ps.flatMap bytes ++ [] := by
    rw [hs.bytes_eq, ← written, List.append_nil]
  obtain ⟨s', hr, hrest, hending, hsolid⟩ := readAll_frames late' hp hbytes
  have hempty : s' = {} := by
    obtain ⟨left, ending⟩ := s'
    have hleft : left = [] := (hsolid hs).chunks_eq_nil hrest
    have hclosed : ending = .closed := hending
    rw [hleft, hclosed]
  rw [hr, hempty]

def letters : List ByteArray := ["ab".toUTF8, .empty, "c".toUTF8]

def narrow : Outflow := { perWrite := fun _ => some 3 }

def shreds : List ByteArray :=
  [.mk #[0, 0], .mk #[0, 2, 97], .mk #[98, 0, 0, 0, 0, 0, 0, 0, 1], .mk #[99]]

theorem letters_return : readAll .noNodesAvailable 3 { chunks := shreds } = (letters.map .ok, {}) := by
  have willing : narrow.Willing := ⟨rfl, by simp [narrow], fun _ => rfl⟩
  have short : ∀ p ∈ letters, p.size ≤ limit := by decide
  have written : (writeAll .noNodesAvailable letters narrow).2.sent = narrow.sent ++ shreds.flatMap bytesOf := by
    decide +kernel
  exact (reads_return_what_was_written .noNodesAvailable .noNodesAvailable short willing (by decide) written).2.1

end Placement.Frame
