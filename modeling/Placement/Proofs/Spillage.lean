import Mathlib.Data.List.Induction
import Placement.Proofs.Framing

/-!
Frames written where there is room for so many bytes.

A write takes bytes as long as there is room, however few at a time, so of a run of frames just the front part that
there is room for goes out, cut wherever the room ends. Each frame that goes out whole is flushed, once and at its end.

- `Outflow.Taking.write`: one write into so much room.
- `Progress.write`: what one more frame keeps.
- `writeAll_progress`: what all frames come to.
- `writes_fill_the_room`: the bytes that go out, and the outcome and the flush of each frame.
-/

namespace Placement

/-! ## Room -/

namespace Outflow

/-- There is room for so many bytes, and until it is used up every write takes something. -/
structure Taking (room : Nat) (o : Outflow) : Prop where
  room : o.room = some room
  perWrite : ∀ i, o.perWrite i ≠ some 0

variable {o : Outflow} {r : Nat}

theorem accept_empty (o : Outflow) : o.accept .empty = o := by
  simp [accept]

theorem accept_accept (o : Outflow) (a b : ByteArray) : (o.accept a).accept b = o.accept (a ++ b) := by
  simp [accept, Function.comp_def, Nat.sub_sub, ByteArray.append_assoc]

theorem Taking.accept (h : o.Taking r) (b : ByteArray) : (o.accept b).Taking (r - b.size) :=
  ⟨by simp [Outflow.accept, h.room], h.perWrite⟩

theorem Taking.taken_le (h : o.Taking r) (n : Nat) : o.taken n ≤ r := by
  unfold taken
  rw [h.room, Option.getD_some]
  omega

/-- From any position on, what there is room for goes out, and the write fails if that is not all. -/
theorem writeFrom_taking (b : ByteArray) (i : Nat) (o : Outflow) :
    ∀ r, o.Taking r →
      o.writeFrom b i = (if b.size - i ≤ r then .ok () else .error o.whenFull, o.accept (b.extract i (i + r))) := by
  fun_induction o.writeFrom b i with
  | case1 i o hlt hfull =>
    intro r h
    obtain rfl : r = 0 := Option.some.inj (h.room.symm.trans hfull)
    rw [if_neg (by omega), Nat.add_zero, ByteArray.extract_same, accept_empty]
  | case2 i o hlt hfull n hpos ih =>
    intro r h
    have hn : n ≤ b.size - i := Outflow.taken_le ..
    have hr : n ≤ r := h.taken_le _
    have hsize : (b.extract i (i + n)).size = n := by
      simp only [ByteArray.size_extract]
      omega
    have hend : i + n + (r - n) = i + r := by omega
    have hjoin : b.extract i (i + n) ++ b.extract (i + n) (i + n + (r - n)) = b.extract i (i + r) := by
      rw [ByteArray.extract_append_extract, Nat.min_eq_left (by omega), Nat.max_eq_right (by omega), hend]
    -- one write takes as much of the room as of the bytes
    have hall : b.size - (i + n) ≤ r - n ↔ b.size - i ≤ r := by omega
    rw [ih _ (h.accept _), hsize, accept_accept, hjoin, if_congr hall rfl rfl]
    rfl
  | case3 i o hlt hfull n hpos =>
    intro r h
    exact absurd (taken_pos h.perWrite hfull (by omega)) hpos
  | case4 i o hend =>
    intro r h
    have hnone : b.extract i (i + r) = .empty := bytesOf_inj.1 (by simp; omega)
    rw [if_pos (by omega), hnone, accept_empty]

/-- What there is room for goes out, and the write fails if that is not all. -/
theorem Taking.write (h : o.Taking r) (b : ByteArray) :
    o.write b = (if b.size ≤ r then .ok () else .error o.whenFull, o.accept (b.extract 0 r)) := by
  rw [Outflow.write, writeFrom_taking b 0 o r h, Nat.sub_zero, Nat.zero_add]

end Outflow

/-! ## Frames -/

namespace Frame

variable {late : Fault} {o o' : Outflow} {r capacity : Nat} {p : ByteArray} {ps : List ByteArray}

theorem size_frame (p : ByteArray) : (lengthBytes p.size ++ p).size = 4 + p.size := by
  rw [← length_bytesOf, bytesOf_frame, length_bytes]

/-- A frame that there is room for is written and flushed. -/
theorem write_fits (late : Fault) (h : o.Taking r) (hp : p.size ≤ limit) (hfit : 4 + p.size ≤ r) :
    write late p o = (o.flush.1.mapError .stream, (o.accept ((lengthBytes p.size ++ p).extract 0 r)).flush.2) := by
  rw [write, encode_of_le hp]
  dsimp only
  rw [h.write, if_pos (by rwa [size_frame])]
  rfl

/-- Of any other what there is room for is written, and nothing is flushed. -/
theorem write_spills (late : Fault) (h : o.Taking r) (hp : p.size ≤ limit) (hlong : r < 4 + p.size) :
    ∃ fault, write late p o = (.error fault, o.accept ((lengthBytes p.size ++ p).extract 0 r)) := by
  rw [write, encode_of_le hp]
  dsimp only
  rw [h.write, if_neg (by rw [size_frame]; exact Nat.not_le.2 hlong)]
  cases o.whenFull <;> exact ⟨_, rfl⟩

theorem write_ok_iff (late : Fault) (h : o.Taking r) (hp : p.size ≤ limit) :
    (write late p o).1 = .ok () ↔ 4 + p.size ≤ r ∧ o.flushFault o.flushes = none := by
  by_cases hfit : 4 + p.size ≤ r
  · rw [write_fits late h hp hfit, Outflow.flush]
    cases hf : o.flushFault o.flushes <;> simp [hfit, Except.mapError]
  · obtain ⟨fault, hw⟩ := write_spills late h hp (Nat.lt_of_not_le hfit)
    simp [hw, hfit]

theorem flushes_write (late : Fault) (h : o.Taking r) (hp : p.size ≤ limit) :
    (write late p o).2.flushes = o.flushes + if 4 + p.size ≤ r then 1 else 0 := by
  by_cases hfit : 4 + p.size ≤ r
  · rw [write_fits late h hp hfit, if_pos hfit]
    rfl
  · obtain ⟨fault, hw⟩ := write_spills late h hp (Nat.lt_of_not_le hfit)
    rw [hw, if_neg hfit]
    rfl

def framed (ps : List ByteArray) : List UInt8 := (ps.filter fun p => p.size ≤ limit).flatMap bytes

theorem framed_snoc (ps : List ByteArray) (hp : p.size ≤ limit) : framed (ps ++ [p]) = framed ps ++ bytes p := by
  simp [framed, hp]

theorem framed_snoc_long (ps : List ByteArray) (hp : limit < p.size) : framed (ps ++ [p]) = framed ps := by
  simp [framed, Nat.not_le.2 hp]

/-- After the payloads the outflow has got the front of their frames, as far as its room was enough. -/
structure Progress (capacity : Nat) (ps : List ByteArray) (o o' : Outflow) : Prop where
  sent : o'.sent = o.sent ++ (framed ps).take capacity
  taking : o'.Taking (capacity - (framed ps).length)
  flushFault : o'.flushFault = o.flushFault

theorem Progress.write (h : Progress capacity ps o o') (late : Fault) (p : ByteArray) :
    Progress capacity (ps ++ [p]) o (Frame.write late p o').2 := by
  by_cases hp : p.size ≤ limit
  · let r := capacity - (framed ps).length
    let part := (lengthBytes p.size ++ p).extract 0 r
    have accepted : (o'.accept part).sent = o.sent ++ (framed (ps ++ [p])).take capacity := by
      rw [Outflow.sent_accept, h.sent, bytesOf_extract, bytesOf_frame, framed_snoc _ hp, List.take_append,
        List.append_assoc]
      rfl
    have room : (o'.accept part).Taking (capacity - (framed (ps ++ [p])).length) := by
      have hsize : part.size = min r (4 + p.size) := by
        rw [← length_bytesOf, bytesOf_extract, bytesOf_frame]
        simp
      have hrest : r - part.size = capacity - (framed (ps ++ [p])).length := by
        rw [framed_snoc _ hp, List.length_append, length_bytes, hsize]
        omega
      exact hrest ▸ h.taking.accept part
    by_cases hfit : 4 + p.size ≤ r
    · rw [write_fits late h.taking hp hfit]
      exact ⟨accepted, ⟨room.room, room.perWrite⟩, h.flushFault⟩
    · obtain ⟨fault, hw⟩ := write_spills late h.taking hp (Nat.lt_of_not_le hfit)
      rw [hw]
      exact ⟨accepted, room, h.flushFault⟩
  · have hlong : limit < p.size := Nat.lt_of_not_le hp
    have hsame := framed_snoc_long ps hlong
    rw [write_long late hlong]
    exact ⟨by rw [hsame, h.sent], by rw [hsame]; exact h.taking, h.flushFault⟩

/-! ## Many frames -/

theorem writeAll_append (late : Fault) (ps qs : List ByteArray) (o : Outflow) :
    writeAll late (ps ++ qs) o = ((writeAll late ps o).1 ++ (writeAll late qs (writeAll late ps o).2).1,
      (writeAll late qs (writeAll late ps o).2).2) := by
  induction ps generalizing o with
  | nil => rfl
  | cons p rest ih => rw [List.cons_append, writeAll, ih, writeAll, List.cons_append]

theorem length_writeAll (late : Fault) (ps : List ByteArray) (o : Outflow) :
    (writeAll late ps o).1.length = ps.length := by
  induction ps generalizing o with
  | nil => rfl
  | cons p rest ih => rw [writeAll, List.length_cons, ih, List.length_cons]

theorem writeAll_snoc (late : Fault) (ps : List ByteArray) (p : ByteArray) (o : Outflow) :
    (writeAll late (ps ++ [p]) o).2 = (write late p (writeAll late ps o).2).2 := by
  rw [writeAll_append]
  rfl

/-- What all payloads come to. -/
theorem writeAll_progress (late : Fault) (h : o.Taking capacity) (ps : List ByteArray) :
    Progress capacity ps o (writeAll late ps o).2 := by
  induction ps using List.reverseRecOn with
  | nil => exact ⟨by simp [framed, writeAll], h, rfl⟩
  | append_singleton ps p ih =>
    rw [writeAll_snoc]
    exact ih.write late p

/-- The outcome at a position is that of the payload there, written after those before it. -/
theorem writeAll_outcome (late : Fault) {i : Nat} (hi : ps[i]? = some p) (o : Outflow) :
    (writeAll late ps o).1[i]? = some (write late p (writeAll late (ps.take i) o).2).1 := by
  obtain ⟨hlt, hget⟩ := List.getElem?_eq_some_iff.1 hi
  have hsplit : ps = ps.take i ++ p :: ps.drop (i + 1) := by
    rw [← hget, List.getElem_cons_drop, List.take_append_drop]
  have hlength : (writeAll late (ps.take i) o).1.length = i := by
    rw [length_writeAll, List.length_take]
    omega
  rw [hsplit, writeAll_append, ← hsplit, List.getElem?_append_right (by omega), hlength, Nat.sub_self]
  rfl

theorem take_succ_eq {i : Nat} (hi : ps[i]? = some p) : ps.take (i + 1) = ps.take i ++ [p] := by
  rw [List.take_add_one, hi]
  rfl

/-- What becomes of payloads written one after another where there is room for so many bytes. -/
structure Emitted (late : Fault) (capacity : Nat) (ps : List ByteArray) (o : Outflow) : Prop where
  /-- The bytes that go out are the first of the frames, as many as there is room for. -/
  accepted : (writeAll late ps o).2.sent = o.sent ++ (framed ps).take capacity
  /-- A payload that is too long fails, and nothing is written or flushed for it. -/
  tooLong : ∀ i p, ps[i]? = some p → limit < p.size →
    (writeAll late ps o).1[i]? = some (.error (.protocol (.payloadTooLong p.size limit))) ∧
      (writeAll late (ps.take (i + 1)) o).2 = (writeAll late (ps.take i) o).2
  /-- A payload succeeds if its frame ends within the room and the flush after it succeeds. -/
  ok_iff : ∀ i p, ps[i]? = some p → ((writeAll late ps o).1[i]? = some (.ok ()) ↔
    p.size ≤ limit ∧ (framed (ps.take (i + 1))).length ≤ capacity ∧
      o.flushFault (writeAll late (ps.take i) o).2.flushes = none)
  /-- There is one flush for a frame that is written to its end, and none for any other. -/
  flushes : ∀ i p, ps[i]? = some p → (writeAll late (ps.take (i + 1)) o).2.flushes =
    (writeAll late (ps.take i) o).2.flushes +
      if p.size ≤ limit ∧ (framed (ps.take (i + 1))).length ≤ capacity then 1 else 0

/-- Where there is room for so many bytes, just the first bytes of the frames go out, however few each write takes;
those frames succeed that go out whole and are flushed, each with one flush of its own; and payloads that are too long
fail and leave no trace. -/
theorem writes_fill_the_room (late : Fault) (ps : List ByteArray) (o : Outflow) (capacity : Nat)
    (room : o.room = some capacity) (perWrite : ∀ i, o.perWrite i ≠ some 0) : Emitted late capacity ps o where
  accepted := (writeAll_progress late ⟨room, perWrite⟩ ps).sent
  tooLong i p hi hp := by
    rw [writeAll_outcome late hi, take_succ_eq hi, writeAll_snoc, write_long late hp]
    exact ⟨rfl, rfl⟩
  ok_iff i p hi := by
    have before := writeAll_progress late ⟨room, perWrite⟩ (ps.take i)
    rw [writeAll_outcome late hi, Option.some_inj]
    by_cases hp : p.size ≤ limit
    · rw [write_ok_iff late before.taking hp, before.flushFault, take_succ_eq hi, framed_snoc _ hp, List.length_append,
        length_bytes]
      have hroom : 4 + p.size ≤ capacity - (framed (ps.take i)).length ↔
          (framed (ps.take i)).length + (4 + p.size) ≤ capacity := by omega
      simp only [hroom, hp, true_and]
    · rw [write_long late (Nat.lt_of_not_le hp)]
      simp [hp]
  flushes i p hi := by
    have before := writeAll_progress late ⟨room, perWrite⟩ (ps.take i)
    rw [take_succ_eq hi, writeAll_snoc]
    by_cases hp : p.size ≤ limit
    · rw [flushes_write late before.taking hp, framed_snoc _ hp, List.length_append, length_bytes]
      congr 1
      exact if_congr (by simp only [hp, true_and]; omega) rfl rfl
    · rw [write_long late (Nat.lt_of_not_le hp), if_neg fun h => hp h.1, Nat.add_zero]

def brim : Outflow where
  perWrite := fun _ => some 3
  room := some 12
  whenFull := .failing (.stated "full")
  flushFault := fun i => if i = 1 then some (.stated "stuck") else none

/-- Of three frames the first goes out, the second goes out but is not flushed, and the third is cut after two bytes. -/
theorem a_brim_takes_two_frames :
    (writeAll .noNodesAvailable letters brim).2.sent = [0, 0, 0, 2, 97, 98, 0, 0, 0, 0, 0, 0] ∧
      (writeAll .noNodesAvailable letters brim).1[0]? = some (.ok ()) ∧
      (writeAll .noNodesAvailable letters brim).1[1]? ≠ some (.ok ()) ∧
      (writeAll .noNodesAvailable letters brim).1[2]? ≠ some (.ok ()) ∧
      (writeAll .noNodesAvailable (letters.take 3) brim).2.flushes = 2 := by
  have h := writes_fill_the_room .noNodesAvailable letters brim 12 rfl (by simp [brim])
  have first := h.flushes 0 "ab".toUTF8 (by decide)
  have second := h.flushes 1 .empty (by decide)
  have third := h.flushes 2 "c".toUTF8 (by decide)
  rw [if_pos (by decide)] at first second
  rw [if_neg (by decide)] at third
  have start : (writeAll .noNodesAvailable (letters.take 0) brim).2.flushes = 0 := rfl
  rw [start] at first
  rw [first] at second
  rw [second] at third
  refine ⟨h.accepted.trans (by decide), ?_, fun hok => ?_, fun hok => ?_, third⟩
  · exact (h.ok_iff 0 "ab".toUTF8 (by decide)).2 ⟨by decide, by decide, by rw [start]; rfl⟩
  · obtain ⟨-, -, hflush⟩ := (h.ok_iff 1 .empty (by decide)).1 hok
    rw [first] at hflush
    cases hflush
  · exact absurd ((h.ok_iff 2 "c".toUTF8 (by decide)).1 hok).2.1 (by decide)

end Frame

end Placement
