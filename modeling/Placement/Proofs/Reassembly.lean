import Placement.Proofs.Framing

/-!
A frame put together again from the chunks it comes in.

A reading is a loop of reads. Each takes of the chunk in front what is still wanted of it (`Fill`), so the reads keep
the bytes in order, have something more after each of them, and never have more than is wanted. The loop ends where
nothing is wanted any more or no chunk is left, and what it has by then does not depend on the chunks.

- `Fills.bounded`, `Fills.kept`: what so many reads have, and that no byte is lost.
- `gather_fills`: a reading is such a loop, gone through to its end.
- `read_verdict`: what the reading of a frame comes to and leaves, by the bytes and the ending alone.
- `reading_depends_on_bytes`: the same case by case, for every way to cut the bytes.
-/

namespace Placement

/-! ## Reads -/

namespace Inflow

/-- One read of a reading that wants `n` bytes, from what it has and what is still to come to the same after the read.
-/
inductive Fill (n : Nat) : ByteArray × List ByteArray → ByteArray × List ByteArray → Prop
  /-- All of the chunk is wanted. -/
  | whole {got c : ByteArray} {rest : List ByteArray} : got.size < n → c.size ≠ 0 → got.size + c.size ≤ n →
      Fill n (got, c :: rest) (got ++ c, rest)
  /-- The front of the chunk is wanted, and the rest of it stays. -/
  | cut {got c : ByteArray} {rest : List ByteArray} : got.size < n → n < got.size + c.size →
      Fill n (got, c :: rest) (got ++ c.extract 0 (n - got.size), c.extract (n - got.size) c.size :: rest)

inductive Fills (n : Nat) : Nat → ByteArray × List ByteArray → ByteArray × List ByteArray → Prop
  | none (a : ByteArray × List ByteArray) : Fills n 0 a a
  | more {k : Nat} {a b c : ByteArray × List ByteArray} : Fill n a b → Fills n k b c → Fills n (k + 1) a c

variable {n k : Nat} {a b : ByteArray × List ByteArray} {s : Inflow}

/-- A read brings something, and not more than is wanted. -/
theorem Fill.bounded (h : Fill n a b) : a.1.size < b.1.size ∧ b.1.size ≤ n := by
  cases h with
  | whole hwanted hc hfit =>
    simp only [ByteArray.size_append]
    omega
  | cut hwanted hlong =>
    simp only [ByteArray.size_append, ByteArray.size_extract]
    omega

/-- A read only moves bytes from what is to come to what is there. -/
theorem Fill.kept (h : Fill n a b) : bytesOf b.1 ++ b.2.flatMap bytesOf = bytesOf a.1 ++ a.2.flatMap bytesOf := by
  cases h with
  | whole hwanted hc hfit => simp
  | @cut got c rest hwanted hlong =>
    have hall : ((bytesOf c).drop (n - got.size)).take (c.size - (n - got.size)) = (bytesOf c).drop (n - got.size) :=
      List.take_of_length_le (by simp)
    simp only [bytesOf_append, bytesOf_extract, List.flatMap_cons, List.drop_zero, Nat.sub_zero, hall,
      List.append_assoc]
    rw [← List.append_assoc (List.take _ _), List.take_append_drop]

/-- A read leaves no empty chunk behind. -/
theorem Fill.solid (h : Fill n a b) (hs : ∀ c ∈ a.2, c.size ≠ 0) : ∀ c ∈ b.2, c.size ≠ 0 := by
  cases h with
  | whole hwanted hc hfit => exact fun c' hc' => hs c' (List.mem_cons_of_mem _ hc')
  | cut hwanted hlong =>
    intro c' hc'
    rcases List.mem_cons.1 hc' with rfl | hc'
    · simp only [ByteArray.size_extract]
      omega
    · exact hs c' (List.mem_cons_of_mem _ hc')

/-- After so many reads there are at least so many bytes more, and never more than are wanted. -/
theorem Fills.bounded (h : Fills n k a b) (ha : a.1.size ≤ n) : a.1.size + k ≤ b.1.size ∧ b.1.size ≤ n := by
  induction h with
  | none a => exact ⟨Nat.le_refl _, ha⟩
  | more hfill _ ih =>
    have hstep := hfill.bounded
    have hrest := ih hstep.2
    omega

theorem Fills.kept (h : Fills n k a b) : bytesOf b.1 ++ b.2.flatMap bytesOf = bytesOf a.1 ++ a.2.flatMap bytesOf := by
  induction h with
  | none a => rfl
  | more hfill _ ih => exact ih.trans hfill.kept

theorem Fills.solid (h : Fills n k a b) (hs : ∀ c ∈ a.2, c.size ≠ 0) : ∀ c ∈ b.2, c.size ≠ 0 := by
  induction h with
  | none a => exact hs
  | more hfill _ ih => exact ih (hfill.solid hs)

/-- How the reads end: all is there, or no chunk is left. -/
theorem gatherFrom_fills (ending : Ending) (got : ByteArray) {chunks : List ByteArray}
    (hs : ∀ c ∈ chunks, c.size ≠ 0) :
    ∃ k b, Fills n k (got, chunks) b ∧
      (n ≤ b.1.size ∧ gatherFrom n ending got chunks = (.ok b.1, b.2) ∨
        b.1.size < n ∧ b.2 = [] ∧ gatherFrom n ending got chunks = (.error ⟨b.1.size, ending⟩, [])) := by
  induction chunks generalizing got with
  | nil =>
    refine ⟨0, (got, []), .none _, ?_⟩
    by_cases hn : n ≤ got.size
    · exact .inl ⟨hn, by simp [gatherFrom, hn]⟩
    · exact .inr ⟨Nat.lt_of_not_le hn, rfl, by simp [gatherFrom, hn]⟩
  | cons c rest ih =>
    by_cases hn : n ≤ got.size
    · exact ⟨0, (got, c :: rest), .none _, .inl ⟨hn, by simp [gatherFrom, hn]⟩⟩
    have hwanted : got.size < n := Nat.lt_of_not_le hn
    have hc : c.size ≠ 0 := hs c (by simp)
    by_cases hfit : got.size + c.size ≤ n
    · obtain ⟨k, b, hfills, hend⟩ := ih (got ++ c) fun c' hc' => hs c' (List.mem_cons_of_mem _ hc')
      have hgo : gatherFrom n ending got (c :: rest) = gatherFrom n ending (got ++ c) rest := by
        simp [gatherFrom, hn, hc, hfit]
      exact ⟨k + 1, b, .more (.whole hwanted hc hfit) hfills, by rwa [hgo]⟩
    · refine ⟨1, _, .more (.cut hwanted (Nat.lt_of_not_le hfit)) (.none _), .inl ⟨?_, ?_⟩⟩
      · simp only [ByteArray.size_append, ByteArray.size_extract]
        omega
      · simp [gatherFrom, hn, hc, hfit]

/-- A reading of `n` bytes is a loop of reads: however many there have been, each brought something and there are not
more bytes than are wanted; and there are no more reads once all is there or no chunk is left. -/
structure Looped (n : Nat) (s : Inflow) : Prop where
  bounded : ∀ k b, Fills n k (.empty, s.chunks) b → k ≤ b.1.size ∧ b.1.size ≤ n
  ends : ∃ k b, Fills n k (.empty, s.chunks) b ∧
    (b.1.size = n ∧ s.gather n = (.ok b.1, { s with chunks := b.2 }) ∨
      b.1.size < n ∧ b.2 = [] ∧ s.gather n = (.error ⟨b.1.size, s.ending⟩, { s with chunks := [] }))

theorem gather_fills (n : Nat) (hs : s.Solid) : Looped n s := by
  have bounded : ∀ k b, Fills n k (.empty, s.chunks) b → k ≤ b.1.size ∧ b.1.size ≤ n := by
    intro k b h
    simpa using h.bounded (Nat.zero_le n)
  refine ⟨bounded, ?_⟩
  obtain ⟨k, b, hfills, hend⟩ := gatherFrom_fills (n := n) s.ending .empty hs
  refine ⟨k, b, hfills, hend.imp (fun ⟨hn, hgo⟩ => ?_) fun ⟨hn, hnil, hgo⟩ => ?_⟩
  · exact ⟨Nat.le_antisymm (bounded k b hfills).2 hn, by rw [gather, hgo]⟩
  · exact ⟨hn, hnil, by rw [gather, hgo]⟩

theorem gather_solid (n : Nat) (hs : s.Solid) : (s.gather n).2.Solid := by
  obtain ⟨k, b, hfills, ⟨-, hgo⟩ | ⟨-, -, hgo⟩⟩ := (gather_fills n hs).ends
  · rw [hgo]
    exact hfills.solid hs
  · rw [hgo]
    simp [Solid]

/-- Where there are too few bytes, all of them are read before the ending is met. -/
theorem gather_runs_dry (hs : s.Solid) (h : s.bytes.length < n) :
    s.gather n = (.error ⟨s.bytes.length, s.ending⟩, { s with chunks := [] }) := by
  obtain ⟨k, b, hfills, ⟨hall, -⟩ | ⟨-, hnil, hgo⟩⟩ := (gather_fills n hs).ends
  · -- there are no more bytes than the stream has
    have hlen := congrArg List.length hfills.kept
    rw [List.length_append, length_bytesOf, hall, bytesOf_empty, List.nil_append, ← hs.bytes_eq] at hlen
    omega
  · have hbytes : bytesOf b.1 = s.bytes := by
      have hkept := hfills.kept
      rwa [hnil, List.flatMap_nil, List.append_nil, bytesOf_empty, List.nil_append, ← hs.bytes_eq] at hkept
    rw [hgo, ← hbytes, length_bytesOf]

end Inflow

/-! ## Frames -/

namespace Frame

open Inflow (Looped)

/-- What the reading of a frame comes to by the bytes and the ending alone, and the bytes that it leaves. -/
def verdict (late : Fault) (ending : Ending) (b : List UInt8) : Except Fault ByteArray × List UInt8 :=
  if b.length < 4 then (.error (lengthShortage late ending), [])
  else if limit < announced b then (.error (.protocol (.announcedTooLong (announced b) limit)), b.drop 4)
  else
    match first? b with
    | some (p, rest) => (.ok p, rest)
    | none => (.error (payloadShortage late (announced b) ⟨b.length - 4, ending⟩), [])

theorem read_verdict (late : Fault) {s : Inflow} (hs : s.Solid) :
    ∃ s', read late s = ((verdict late s.ending s.bytes).1, s') ∧ s'.bytes = (verdict late s.ending s.bytes).2 ∧
      s'.ending = s.ending ∧ s'.Solid := by
  have hnone : ({ s with chunks := [] } : Inflow).Solid := by simp [Inflow.Solid]
  -- in the order of the reading: too few bytes for a length, a length beyond the limit, a payload or less than one
  by_cases hfour : s.bytes.length < 4
  · refine ⟨{ s with chunks := [] }, ?_, ?_, rfl, hnone⟩
    · simp only [read, Inflow.gather_runs_dry hs hfour, verdict, hfour, if_true]
    · simp only [verdict, hfour, if_true]
      rfl
  obtain ⟨digits, s₁, hr₁, hdigits, h₁⟩ := Inflow.gather_ok (Nat.le_of_not_lt hfour)
  have hlength : lengthOf digits = announced s.bytes := by rw [lengthOf_eq, hdigits, announced]
  by_cases hlong : limit < announced s.bytes
  · refine ⟨s₁, ?_, ?_, h₁.ending, h₁.solid hs⟩
    · simp only [read, hr₁, hlength, hlong, if_true, verdict, hfour, if_false]
    · simp only [verdict, hfour, hlong, if_true, if_false, h₁.bytes]
  cases hfirst : first? s.bytes with
  | some found =>
    obtain ⟨p, rest⟩ := found
    obtain ⟨hb, hp⟩ := first?_eq_some_iff.1 hfirst
    obtain ⟨s', hread, hrest, hending, hsolid⟩ := read_frame late hb hp
    refine ⟨s', ?_, ?_, hending, hsolid hs⟩
    · simp only [hread, verdict, hfour, hlong, if_false, hfirst]
    · simp only [hrest, verdict, hfour, hlong, if_false, hfirst]
  | none =>
    -- no frame is in front although its length is there and allowed, so the payload is cut off
    have hshort : s₁.bytes.length < announced s.bytes := by
      refine Nat.lt_of_not_le fun hall => ?_
      rw [h₁.bytes, List.length_drop] at hall
      rw [first?, if_pos ⟨by omega, by omega, by omega⟩] at hfirst
      cases hfirst
    have hhad : s₁.bytes.length = s.bytes.length - 4 := by rw [h₁.bytes, List.length_drop]
    refine ⟨{ s₁ with chunks := [] }, ?_, ?_, h₁.ending, by simp [Inflow.Solid]⟩
    · simp only [read, hr₁, hlength, hlong, if_false, Inflow.gather_runs_dry (h₁.solid hs) hshort, verdict, hfour,
        hfirst, hhad, h₁.ending]
      rfl
    · simp only [verdict, hfour, hlong, if_false, hfirst]
      rfl

/-- What the reading of a frame comes to where `b` are all the bytes before the ending, and the bytes `left` after it.
-/
structure ReadOff (ending : Ending) (b : List UInt8) (outcome : Except Fault ByteArray) (left : List UInt8) : Prop where
  /-- A stream that ends within the length, whether it says so or not, has no frame. -/
  endsInLength : b.length < 4 → (ending = .closed ∨ ∃ words, ending = .failing (.unexpectedEnd words)) →
    outcome = .error (.protocol .closedBeforeLength)
  failsInLength : b.length < 4 → ∀ fault, ending = .failing fault → (∀ words, fault ≠ .unexpectedEnd words) →
    outcome = .error (.stream fault)
  /-- Of a frame that is too long only the length is read. -/
  tooLong : 4 ≤ b.length → limit < announced b →
    outcome = .error (.protocol (.announcedTooLong (announced b) limit)) ∧ left = b.drop 4
  /-- Of a frame that is all there, all is read and nothing beyond it. -/
  whole : announced b ≤ limit → 4 + announced b ≤ b.length →
    ∃ p frame, outcome = .ok p ∧ bytesOf p = (b.drop 4).take (announced b) ∧ left = b.drop (4 + announced b) ∧
      encode p = .ok frame ∧ b = bytesOf frame ++ left
  endsInPayload : 4 ≤ b.length → announced b ≤ limit → b.length < 4 + announced b → ending = .closed →
    outcome = .error (.protocol (.closedInPayload (b.length - 4) (announced b)))
  failsInPayload : 4 ≤ b.length → announced b ≤ limit → b.length < 4 + announced b → ∀ fault,
    ending = .failing fault → outcome = .error (.stream fault)

theorem verdict_readOff (late : Fault) (ending : Ending) (b : List UInt8) :
    ReadOff ending b (verdict late ending b).1 (verdict late ending b).2 where
  endsInLength hfour hending := by
    rw [verdict, if_pos hfour]
    rcases hending with rfl | ⟨words, rfl⟩ <;> rfl
  failsInLength hfour fault hending hother := by
    rw [verdict, if_pos hfour]
    subst hending
    cases fault with
    | unexpectedEnd words => exact absurd rfl (hother words)
    | _ => rfl
  tooLong hfour hlong := by
    rw [verdict, if_neg (Nat.not_lt.2 hfour), if_pos hlong]
    exact ⟨rfl, rfl⟩
  whole hlimit hall := by
    have hfirst : first? b = some (.mk ((b.drop 4).take (announced b)).toArray, b.drop (4 + announced b)) :=
      if_pos ⟨by omega, hlimit, hall⟩
    rw [verdict, if_neg (by omega), if_neg (Nat.not_lt.2 hlimit), hfirst]
    obtain ⟨hb, hp⟩ := first?_eq_some_iff.1 hfirst
    refine ⟨_, _, rfl, by simp [bytesOf], rfl, encode_of_le hp, ?_⟩
    rw [bytesOf_frame]
    exact hb
  endsInPayload hfour hlimit hshort hending := by
    have hfirst : first? b = none := if_neg fun h => by omega
    rw [verdict, if_neg (Nat.not_lt.2 hfour), if_neg (Nat.not_lt.2 hlimit), hfirst, hending]
    rfl
  failsInPayload hfour hlimit hshort fault hending := by
    have hfirst : first? b = none := if_neg fun h => by omega
    rw [verdict, if_neg (Nat.not_lt.2 hfour), if_neg (Nat.not_lt.2 hlimit), hfirst, hending]
    rfl

/-- What the reading of a frame comes to and what it leaves depend on the bytes before the ending and on the ending, and
not on the chunks that the bytes come in. Both its loops, over the length and over the payload, have an end, and neither
ever has more bytes than it wants. -/
theorem reading_depends_on_bytes (late : Fault) (ending : Ending) {chunks : List ByteArray}
    (solid : ∀ c ∈ chunks, c.size ≠ 0) :
    ∃ outcome left, read late ⟨chunks, ending⟩ = (outcome, ⟨left, ending⟩) ∧
      ReadOff ending (chunks.flatMap bytesOf) outcome (left.flatMap bytesOf) ∧
      (∀ chunks' : List ByteArray, (∀ c ∈ chunks', c.size ≠ 0) → chunks'.flatMap bytesOf = chunks.flatMap bytesOf →
        ∃ left', read late ⟨chunks', ending⟩ = (outcome, ⟨left', ending⟩) ∧
          left'.flatMap bytesOf = left.flatMap bytesOf) ∧
      Looped 4 ⟨chunks, ending⟩ ∧ Looped (announced (chunks.flatMap bytesOf)) (Inflow.gather 4 ⟨chunks, ending⟩).2 ∧
      ProtocolFault.closedBeforeLength.text = "stream closed before frame length" ∧
      ∀ received length, (ProtocolFault.closedInPayload received length).text =
        s!"stream closed after {received} of {length} payload bytes" := by
  have reads : ∀ chunks' : List ByteArray, (∀ c ∈ chunks', c.size ≠ 0) →
      ∃ left, read late ⟨chunks', ending⟩ = ((verdict late ending (chunks'.flatMap bytesOf)).1, ⟨left, ending⟩) ∧
        left.flatMap bytesOf = (verdict late ending (chunks'.flatMap bytesOf)).2 := by
    intro chunks' solid'
    have hs : (Inflow.mk chunks' ending).Solid := solid'
    obtain ⟨⟨left, ending'⟩, hread, hleft, hending, hsolid⟩ := read_verdict late hs
    have hsame : ending' = ending := hending
    rw [hs.bytes_eq] at hread hleft
    rw [hsolid.bytes_eq] at hleft
    exact ⟨left, by rw [hread, hsame], hleft⟩
  obtain ⟨left, hread, hleft⟩ := reads chunks solid
  refine ⟨_, left, hread, ?_, fun chunks' solid' hsame => ?_, Inflow.gather_fills 4 solid,
    Inflow.gather_fills _ (Inflow.gather_solid 4 solid), rfl, fun _ _ => rfl⟩
  · rw [hleft]
    exact verdict_readOff late ending _
  · obtain ⟨left', hread', hleft'⟩ := reads chunks' solid'
    rw [hsame] at hread' hleft'
    exact ⟨left', hread', hleft'.trans hleft.symm⟩

/-- The shredded frames, and the same bytes in one piece, give the first payload and leave the other two frames. -/
theorem a_shredded_frame_is_read :
    ∃ left left', read .noNodesAvailable ⟨shreds, .failing (.stated "reset")⟩ =
        (.ok "ab".toUTF8, ⟨left, .failing (.stated "reset")⟩) ∧
      read .noNodesAvailable ⟨[.mk #[0, 0, 0, 2, 97, 98, 0, 0, 0, 0, 0, 0, 0, 1, 99]], .failing (.stated "reset")⟩ =
        (.ok "ab".toUTF8, ⟨left', .failing (.stated "reset")⟩) ∧
      left'.flatMap bytesOf = left.flatMap bytesOf ∧ left.flatMap bytesOf = [0, 0, 0, 0, 0, 0, 0, 1, 99] := by
  have solid : ∀ c ∈ shreds, c.size ≠ 0 := by decide
  obtain ⟨outcome, left, hread, hoff, hsame, -⟩ :=
    reading_depends_on_bytes .noNodesAvailable (.failing (.stated "reset")) solid
  obtain ⟨p, frame, rfl, hp, hleft, -, -⟩ := hoff.whole (by decide) (by decide)
  obtain ⟨left', hread', hleft'⟩ :=
    hsame [.mk #[0, 0, 0, 2, 97, 98, 0, 0, 0, 0, 0, 0, 0, 1, 99]] (by decide) (by decide)
  have hab : p = "ab".toUTF8 := bytesOf_inj.1 (hp.trans (by decide))
  rw [hab] at hread hread'
  exact ⟨left, left', hread, hread', hleft', hleft.trans (by decide)⟩

end Frame

end Placement
