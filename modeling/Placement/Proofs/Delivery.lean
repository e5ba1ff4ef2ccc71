import Placement.Stream

/-!
The bytes of a stream, whatever chunks they come in and however few go out at a time.

Of an inflow only its `bytes` matter, those that come before an end is seen, and of an outflow only what it has
`sent`.

- `gather_ok`, `gather_short`: reading takes bytes from the front, or comes short.
- `write_sends`: a write sends a front part of what it is given, and all of it unless it fails.
- `write_willing`: it does not fail where every write takes something.
-/

namespace Placement

def bytesOf (b : ByteArray) : List UInt8 := b.data.toList

@[simp] theorem bytesOf_empty : bytesOf .empty = [] := rfl

@[simp] theorem bytesOf_append (a b : ByteArray) : bytesOf (a ++ b) = bytesOf a ++ bytesOf b := by
  simp [bytesOf]

@[simp] theorem length_bytesOf (b : ByteArray) : (bytesOf b).length = b.size := Array.length_toList

@[simp] theorem bytesOf_extract (b : ByteArray) (i j : Nat) :
    bytesOf (b.extract i j) = ((bytesOf b).drop i).take (j - i) := by
  simp [bytesOf, ByteArray.data_extract, List.extract_eq_take_drop]

theorem bytesOf_inj {a b : ByteArray} : bytesOf a = bytesOf b ↔ a = b := by
  constructor
  · intro h
    exact ByteArray.ext (Array.toList_inj.1 h)
  · rintro rfl
    rfl

/-! ## Reading -/

namespace Inflow

/-- The bytes of the chunks before an empty one, which is read as the end. -/
def delivered : List ByteArray → List UInt8
  | [] => []
  | c :: rest => if c.size = 0 then [] else bytesOf c ++ delivered rest

def bytes (s : Inflow) : List UInt8 := delivered s.chunks

def Solid (s : Inflow) : Prop := ∀ c ∈ s.chunks, c.size ≠ 0

/-- What is left of an inflow once the first `n` of its bytes are read. -/
structure Drained (n : Nat) (s s' : Inflow) : Prop where
  bytes : s'.bytes = s.bytes.drop n
  ending : s'.ending = s.ending
  solid : s.Solid → s'.Solid

theorem Drained.trans {n m : Nat} {s s' s'' : Inflow} (h : Drained n s s') (h' : Drained m s' s'') :
    Drained (n + m) s s'' := by
  refine ⟨?_, h'.ending.trans h.ending, fun hs => h'.solid (h.solid hs)⟩
  rw [h'.bytes, h.bytes, List.drop_drop]

theorem gatherFrom_ok {n : Nat} (ending : Ending) {got : ByteArray} {chunks : List ByteArray} (hg : got.size ≤ n)
    (h : n ≤ got.size + (delivered chunks).length) :
    ∃ b rest, gatherFrom n ending got chunks = (.ok b, rest) ∧
      bytesOf b = bytesOf got ++ (delivered chunks).take (n - got.size) ∧
      delivered rest = (delivered chunks).drop (n - got.size) ∧
      ((∀ c ∈ chunks, c.size ≠ 0) → ∀ c ∈ rest, c.size ≠ 0) := by
  induction chunks generalizing got with
  | nil =>
    have hn : n ≤ got.size := by simpa [delivered] using h
    exact ⟨got, [], by simp [gatherFrom, hn], by simp [delivered], by simp [delivered], id⟩
  | cons c rest ih =>
    by_cases hn : n ≤ got.size
    · have h0 : n - got.size = 0 := by omega
      exact ⟨got, c :: rest, by simp [gatherFrom, hn], by simp [h0], by simp [h0], id⟩
    -- an empty chunk would be the end, and there is not enough before it
    have hc : c.size ≠ 0 := by
      intro hc
      simp only [delivered, hc, if_true, List.length_nil] at h
      omega
    have hd : delivered (c :: rest) = bytesOf c ++ delivered rest := by simp [delivered, hc]
    rw [hd] at h ⊢
    simp only [List.length_append, length_bytesOf] at h
    by_cases hfit : got.size + c.size ≤ n
    · -- The whole chunk is wanted.
      have hg' : (got ++ c).size ≤ n := by simpa using hfit
      obtain ⟨b, left, hb, hbytes, hleft, hsolid⟩ := ih hg' (by simp only [ByteArray.size_append]; omega)
      have hsub : n - (got ++ c).size = n - got.size - c.size := by simp only [ByteArray.size_append]; omega
      refine ⟨b, left, by simp [gatherFrom, hn, hc, hfit, hb], ?_, ?_, ?_⟩
      · have hall : (bytesOf c).take (n - got.size) = bytesOf c := List.take_of_length_le (by simp; omega)
        rw [hbytes, hsub, bytesOf_append, List.take_append, hall, length_bytesOf, List.append_assoc]
      · have hnone : (bytesOf c).drop (n - got.size) = [] := List.drop_of_length_le (by simp; omega)
        rw [hleft, hsub, List.drop_append, hnone, length_bytesOf, List.nil_append]
      · exact fun hs => hsolid fun c' hc' => hs c' (List.mem_cons_of_mem _ hc')
    · -- The chunk is cut; what is not wanted of it stays in front.
      have hcut : (c.extract (n - got.size) c.size).size ≠ 0 := by simp only [ByteArray.size_extract]; omega
      refine ⟨got ++ c.extract 0 (n - got.size), c.extract (n - got.size) c.size :: rest,
        by simp [gatherFrom, hn, hc, hfit], ?_, ?_, ?_⟩
      · rw [bytesOf_append, bytesOf_extract, List.take_append_of_le_length (by simp; omega)]
        simp
      · rw [delivered, if_neg hcut, bytesOf_extract, List.drop_append_of_le_length (by simp; omega),
          List.take_of_length_le (by simp)]
      · intro hs c' hc'
        rcases List.mem_cons.1 hc' with rfl | hc'
        · exact hcut
        · exact hs c' (List.mem_cons_of_mem _ hc')

theorem gatherFrom_short {n : Nat} (ending : Ending) {got : ByteArray} {chunks : List ByteArray}
    (h : got.size + (delivered chunks).length < n) :
    ∃ shortage rest, gatherFrom n ending got chunks = (.error shortage, rest) := by
  induction chunks generalizing got with
  | nil =>
    have hn : ¬ n ≤ got.size := by simpa [delivered] using h
    exact ⟨⟨got.size, ending⟩, [], by simp [gatherFrom, hn]⟩
  | cons c rest ih =>
    have hn : ¬ n ≤ got.size := by omega
    by_cases hc : c.size = 0
    · exact ⟨⟨got.size, .closed⟩, rest, by simp [gatherFrom, hn, hc]⟩
    have hmore : (got ++ c).size + (delivered rest).length < n := by
      simpa [delivered, hc, Nat.add_assoc] using h
    have hle : got.size + c.size ≤ n := by
      simp only [ByteArray.size_append] at hmore
      omega
    obtain ⟨shortage, left, hr⟩ := ih hmore
    exact ⟨shortage, left, by simp [gatherFrom, hn, hc, hle, hr]⟩

/-- Where there are enough bytes, the first of them are read, and no more are taken. -/
theorem gather_ok {n : Nat} {s : Inflow} (h : n ≤ s.bytes.length) :
    ∃ b s', s.gather n = (.ok b, s') ∧ bytesOf b = s.bytes.take n ∧ Drained n s s' := by
  have hn : n ≤ ByteArray.empty.size + (delivered s.chunks).length := by simpa [bytes] using h
  obtain ⟨b, rest, hr, hb, hrest, hsolid⟩ := gatherFrom_ok s.ending (Nat.zero_le n) hn
  refine ⟨b, { s with chunks := rest }, by simp [gather, hr], by simpa [bytes] using hb, ?_, rfl, hsolid⟩
  simpa [bytes] using hrest

theorem gather_short {n : Nat} {s : Inflow} (h : s.bytes.length < n) :
    ∃ shortage s', s.gather n = (.error shortage, s') := by
  have hn : ByteArray.empty.size + (delivered s.chunks).length < n := by simpa [bytes] using h
  obtain ⟨shortage, rest, hr⟩ := gatherFrom_short s.ending hn
  exact ⟨shortage, { s with chunks := rest }, by simp [gather, hr]⟩

/-- An inflow without empty chunks and without bytes has no chunks. -/
theorem Solid.chunks_eq_nil {s : Inflow} (h : s.Solid) (hb : s.bytes = []) : s.chunks = [] := by
  cases hc : s.chunks with
  | nil => rfl
  | cons c rest =>
    have hne : c.size ≠ 0 := h c (by simp [hc])
    have hlen := congrArg List.length hb
    simp only [bytes, hc, delivered, hne, if_false, List.length_append, length_bytesOf, List.length_nil] at hlen
    omega

/-- However bytes are cut into chunks that bring something, they are the bytes of the inflow. -/
theorem Solid.bytes_eq {s : Inflow} (h : s.Solid) : s.bytes = s.chunks.flatMap bytesOf := by
  obtain ⟨chunks, ending⟩ := s
  induction chunks with
  | nil => rfl
  | cons c rest ih =>
    have hne : c.size ≠ 0 := h c (by simp)
    have hrest := ih fun c' hc' => h c' (List.mem_cons_of_mem _ hc')
    simp only [bytes] at hrest ⊢
    simp [delivered, hne, hrest]

end Inflow

/-! ## Writing -/

namespace Outflow

/-- The bytes that were taken, in order. -/
def sent (o : Outflow) : List UInt8 := bytesOf o.written

/-- Every write takes something, and no flush fails. -/
structure Willing (o : Outflow) : Prop where
  room : o.room = none
  perWrite : ∀ i, o.perWrite i ≠ some 0
  flush : ∀ i, o.flushFault i = none

@[simp] theorem sent_accept (o : Outflow) (b : ByteArray) : (o.accept b).sent = o.sent ++ bytesOf b := by
  simp [sent, accept]

@[simp] theorem sent_flush (o : Outflow) : o.flush.2.sent = o.sent := rfl

theorem taken_le (o : Outflow) (n : Nat) : o.taken n ≤ n := by
  unfold taken
  omega

theorem Willing.accept {o : Outflow} (h : o.Willing) (b : ByteArray) : (o.accept b).Willing :=
  ⟨by simp [Outflow.accept, h.room], h.perWrite, h.flush⟩

/-- Where there is room and writes take something, something is taken. -/
theorem taken_pos {o : Outflow} (perWrite : ∀ i, o.perWrite i ≠ some 0) (room : o.room ≠ some 0) {n : Nat}
    (hn : 0 < n) : 0 < o.taken n := by
  have bounds : ∀ bound : Option Nat, bound ≠ some 0 → 0 < bound.getD n := by
    intro bound hbound
    cases bound with
    | none => exact hn
    | some k => exact Nat.pos_of_ne_zero fun hk => hbound (congrArg some hk)
  have hwrite := bounds _ (perWrite o.written.size)
  have hroom := bounds _ room
  unfold taken
  omega

theorem Willing.taken_pos {o : Outflow} (h : o.Willing) {n : Nat} (hn : 0 < n) : 0 < o.taken n :=
  Outflow.taken_pos h.perWrite (by simp [h.room]) hn

/-- Writing from a position on goes on to some later one, and to the end unless it fails. -/
theorem writeFrom_sends (b : ByteArray) (i : Nat) (o : Outflow) (hi : i ≤ b.size) :
    ∃ k, (o.writeFrom b i).2.sent = o.sent ++ ((bytesOf b).drop i).take k ∧
      ((o.writeFrom b i).1 = .ok () → i + k = b.size) := by
  fun_induction o.writeFrom b i with
  | case1 i o hlt hfull => exact ⟨0, by simp, by simp⟩
  | case2 i o hlt hfull n hpos ih =>
    have hn : n ≤ b.size - i := taken_le ..
    obtain ⟨k, hk, hok⟩ := ih (by omega)
    refine ⟨n + k, ?_, fun h => by have := hok h; omega⟩
    rw [hk, sent_accept, bytesOf_extract, List.append_assoc, Nat.add_sub_cancel_left, List.take_add, List.drop_drop]
  | case3 i o hlt hfull n hpos => exact ⟨0, by simp, by simp⟩
  | case4 i o hend => exact ⟨0, by simp, fun _ => by omega⟩

theorem writeFrom_willing {o : Outflow} (h : o.Willing) (b : ByteArray) (i : Nat) :
    (o.writeFrom b i).1 = .ok () ∧ (o.writeFrom b i).2.Willing := by
  fun_induction o.writeFrom b i with
  | case1 i o hlt hfull => simp [h.room] at hfull
  | case2 i o hlt hfull n hpos ih => exact ih (h.accept _)
  | case3 i o hlt hfull n hpos => exact absurd (h.taken_pos (by omega)) hpos
  | case4 i o hend => exact ⟨rfl, h⟩

/-- A write sends a front part of what it is given, and all of it unless it fails. -/
theorem write_sends (b : ByteArray) (o : Outflow) :
    ∃ part, (o.write b).2.sent = o.sent ++ part ∧ part <+: bytesOf b ∧ ((o.write b).1 = .ok () → part = bytesOf b) := by
  obtain ⟨k, hk, hok⟩ := writeFrom_sends b 0 o (Nat.zero_le _)
  refine ⟨(bytesOf b).take k, by simpa [write] using hk, List.take_prefix .., fun h => ?_⟩
  have : k = b.size := by simpa using hok h
  exact List.take_of_length_le (by simp [this])

theorem write_willing {o : Outflow} (h : o.Willing) (b : ByteArray) :
    (o.write b).1 = .ok () ∧ (o.write b).2.Willing :=
  writeFrom_willing h b 0

theorem flush_willing {o : Outflow} (h : o.Willing) : o.flush.1 = .ok () ∧ o.flush.2.Willing :=
  ⟨by simp [flush, h.flush], h.room, h.perWrite, h.flush⟩

end Outflow

end Placement
