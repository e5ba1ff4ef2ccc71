import Placement.Proofs.Indexing

/-!
The window of an index.

A `Window` is the entries from a score upward in their order: by score in the total order, and entries of one score by
the bytes of their keys. There is one such list for every index, and a range is its beginning.

- `Utf8.encode_lt_iff`: texts are in the order of their bytes.
- `Window.unique`, `window_exists`: there is one window.
- `Window.range`: what a node lists.
-/

namespace Placement

/-! ## Texts in the order of their bytes -/

namespace Utf8

/-- Numbers of up to twenty-one bits are in the order of their groups of six bits, the highest first. -/
theorem sextets_lt {m n : Nat} (h : m < n) (hn : n < 2097152) :
    m / 262144 % 8 < n / 262144 % 8 ∨ m / 262144 % 8 = n / 262144 % 8 ∧
      (m / 4096 % 64 < n / 4096 % 64 ∨ m / 4096 % 64 = n / 4096 % 64 ∧
        (m / 64 % 64 < n / 64 % 64 ∨ m / 64 % 64 = n / 64 % 64 ∧ m % 64 < n % 64)) := by
  have groups : ∀ k < 2097152,
      k = k / 262144 % 8 * 262144 + k / 4096 % 64 * 4096 + k / 64 % 64 * 64 + k % 64 := fun k hk => by omega
  have low : ∀ k, k % 64 < 64 := fun k => Nat.mod_lt k (by decide)
  have hm := groups m (Nat.lt_trans h hn)
  have hn := groups n hn
  have := low (m / 4096)
  have := low (n / 4096)
  have := low (m / 64)
  have := low (n / 64)
  have := low m
  have := low n
  -- with the groups as numbers of their own the rest is linear
  generalize m / 262144 % 8 = a, m / 4096 % 64 = b, m / 64 % 64 = c, m % 64 = d at *
  generalize n / 262144 % 8 = a', n / 4096 % 64 = b', n / 64 % 64 = c', n % 64 = d' at *
  omega

/-- The bytes of a smaller character come first, whatever comes behind them. -/
theorem utf8EncodeChar_lt {c d : Char} (h : c < d) (s t : List UInt8) :
    String.utf8EncodeChar c ++ s < String.utf8EncodeChar d ++ t := by
  have hlt : c.val.toNat < d.val.toNat := h
  have hd : d.val.toNat < 2097152 := by
    have := d.valid
    simp only [UInt32.isValidChar, Nat.isValidChar] at this
    omega
  have hgroups := sextets_lt hlt hd
  unfold String.utf8EncodeChar
  generalize c.val.toNat = m, d.val.toNat = n at *
  dsimp only
  -- by the number of bytes of either character
  repeat' split
  all_goals
    simp (disch := omega) only [List.cons_append, List.nil_append, List.cons_lt_cons_iff, UInt8.lt_iff_toNat_lt,
      ← UInt8.toNat_inj, UInt8.toNat_ofNat', Nat.mod_eq_of_lt, Nat.add_lt_add_iff_right, Nat.add_right_cancel_iff]
    omega

theorem encode_lt {s t : String} (h : s < t) : encode s < encode t := by
  have chars : ∀ l m : List Char, l < m → l.flatMap String.utf8EncodeChar < m.flatMap String.utf8EncodeChar := by
    intro l m hlm
    induction hlm with
    | @nil c m =>
      obtain ⟨byte, bytes, hbytes⟩ := List.exists_cons_of_length_pos (l := String.utf8EncodeChar c)
        (by rw [String.length_utf8EncodeChar]; exact c.utf8Size_pos)
      rw [List.flatMap_cons, hbytes]
      exact List.nil_lt_cons ..
    | rel hcd => exact utf8EncodeChar_lt hcd _ _
    | cons _ ih => exact List.append_left_lt ih
  exact chars _ _ h

/-- Texts are in the order of their bytes. -/
theorem encode_lt_iff {s t : String} : encode s < encode t ↔ s < t := by
  refine ⟨fun h => ?_, encode_lt⟩
  by_contra hn
  by_cases hlt : t < s
  · exact List.lt_asymm h (encode_lt hlt)
  · obtain rfl : s = t := String.le_antisymm (String.not_lt.1 hlt) (String.not_lt.1 hn)
    exact List.lt_irrefl _ h

end Utf8

/-! ## The window of an index -/

namespace Store.Memory

/-- Whether one index entry comes before another: by score in the total order, then by the bytes of the keys. -/
def Before (a b : String × Score) : Prop :=
  a.2.rank < b.2.rank ∨ a.2.rank = b.2.rank ∧ Utf8.encode a.1 < Utf8.encode b.1

instance (a b : String × Score) : Decidable (Before a b) := inferInstanceAs (Decidable (_ ∨ _ ∧ _))

variable {a b c : String × Score} {index : Dict Score} {min : Score} {entries entries' : List (String × Score)}

theorem entryLe_iff : entryLe a b = true ↔ a.2.rank < b.2.rank ∨ a.2.rank = b.2.rank ∧ a.1 ≤ b.1 := by
  simp [entryLe]

theorem entryLe_trans (hab : entryLe a b = true) (hbc : entryLe b c = true) : entryLe a c = true := by
  rw [entryLe_iff] at *
  rcases hab with hab | ⟨hab, hkeys⟩
  · exact .inl (by omega)
  · rcases hbc with hbc | ⟨hbc, hkeys'⟩
    · exact .inl (by omega)
    · exact .inr ⟨by omega, String.le_trans hkeys hkeys'⟩

theorem entryLe_total (a b : String × Score) : entryLe a b = true ∨ entryLe b a = true := by
  rw [entryLe_iff, entryLe_iff]
  rcases Int.lt_trichotomy a.2.rank b.2.rank with h | h | h
  · exact .inl (.inl h)
  · exact (String.le_total a.1 b.1).imp (fun hkeys => .inr ⟨h, hkeys⟩) fun hkeys => .inr ⟨h.symm, hkeys⟩
  · exact .inr (.inl h)

theorem pairwise_mergeSort (l : List (String × Score)) :
    (l.mergeSort entryLe).Pairwise fun a b => entryLe a b = true := by
  have htrans : ∀ a b c, entryLe a b = true → entryLe b c = true → entryLe a c = true := fun a b c => entryLe_trans
  have htotal : ∀ a b, (entryLe a b || entryLe b a) = true := fun a b => by simpa using entryLe_total a b
  exact List.pairwise_mergeSort htrans htotal l

/-- An entry comes before those that are sorted behind it, itself apart. -/
theorem before_iff : Before a b ↔ entryLe a b = true ∧ a ≠ b := by
  rw [Before, Utf8.encode_lt_iff, entryLe_iff]
  constructor
  · rintro (h | ⟨h, hkeys⟩)
    · exact ⟨.inl h, by rintro rfl; omega⟩
    · exact ⟨.inr ⟨h, String.not_lt.1 (String.lt_asymm hkeys)⟩, by rintro rfl; exact String.lt_irrefl _ hkeys⟩
  · rintro ⟨h | ⟨h, hkeys⟩, hne⟩
    · exact .inl h
    · refine .inr ⟨h, ?_⟩
      by_contra hn
      exact hne (Prod.ext (String.le_antisymm hkeys (String.not_lt.1 hn)) (Binary64.rank_injective h))

theorem before_asymm (h : Before a b) : ¬ Before b a := by
  rw [Before, Utf8.encode_lt_iff] at *
  rintro (h' | ⟨h', hkeys'⟩)
  · omega
  · rcases h with h | ⟨-, hkeys⟩
    · omega
    · exact String.lt_asymm hkeys hkeys'

/-- The entries of an index with a score of at least `min`, in their order. -/
structure Window (index : Dict Score) (min : Score) (entries : List (String × Score)) : Prop where
  ordered : entries.Pairwise Before
  mem_iff : ∀ key score, (key, score) ∈ entries ↔ index.get? key = some score ∧ score.atLeast min = true

namespace Window

theorem nodup (h : Window index min entries) : entries.Nodup :=
  h.ordered.imp fun hb => (before_iff.1 hb).2

theorem unique (h : Window index min entries) (h' : Window index min entries') : entries = entries' := by
  have hperm : entries.Perm entries' := (List.perm_ext_iff_of_nodup h.nodup h'.nodup).2 fun (key, score) => by
    rw [h.mem_iff, h'.mem_iff]
  exact hperm.eq_of_pairwise (fun a b _ _ hab hba => absurd hba (before_asymm hab)) h.ordered h'.ordered

/-- No key is listed twice. -/
theorem keys_nodup (h : Window index min entries) : (entries.map (·.1)).Nodup := by
  refine List.pairwise_map.2 (h.nodup.imp_of_mem fun {a b} ha hb hne hkeys => hne ?_)
  have hscores := ((h.mem_iff a.1 a.2).1 ha).1.symm.trans (hkeys ▸ ((h.mem_iff b.1 b.2).1 hb).1)
  exact Prod.ext hkeys (Option.some.inj hscores)

end Window

theorem window_of_perm (hordered : entries.Pairwise Before)
    (hperm : entries.Perm (index.toList.filter fun e => e.2.atLeast min)) : Window index min entries where
  ordered := hordered
  mem_iff key score := by rw [hperm.mem_iff, List.mem_filter, Dict.mem_toList]

/-- In whatever order the entries of an index are walked through, sorted they are its window. -/
theorem window_of_walk {walked : List (String × Score)} (h : walked.Perm index.toList) (min : Score) :
    Window index min ((walked.filter fun e => e.2.atLeast min).mergeSort entryLe) := by
  have hnodup : (index.toList.filter fun e => e.2.atLeast min).Nodup := by
    refine List.Pairwise.filter _ (index.ascending.imp fun {a b} (hlt : a.1 < b.1) (he : a = b) => ?_)
    rw [he] at hlt
    exact String.lt_irrefl b.1 hlt
  have hperm := (List.mergeSort_perm (walked.filter fun e => e.2.atLeast min) entryLe).trans (h.filter _)
  have hsorted := pairwise_mergeSort (walked.filter fun e => e.2.atLeast min)
  exact window_of_perm (hsorted.imp₂ (fun a b hle hne => before_iff.2 ⟨hle, hne⟩) (hperm.nodup_iff.2 hnodup)) hperm

theorem window_mergeSort (index : Dict Score) (min : Score) :
    Window index min ((index.toList.filter fun e => e.2.atLeast min).mergeSort entryLe) :=
  window_of_walk (.refl _) min

/-- A node lists the keys at the beginning of the window. -/
theorem Window.range {m : Memory} (h : Window m.index min entries) (count : Nat) :
    m.range min count = (entries.take count).map (·.1) := by
  rw [h.unique (window_mergeSort m.index min), Memory.range]

end Store.Memory

end Placement
