import Mathlib.Data.List.Infix
import Mathlib.Data.List.Nodup
import Placement.Proofs.Numbers
import Placement.Proofs.Windows

/-!
What a range of an index lists.

A range is the front of a window, and everything that can be said of it follows from the order of the window and from
what is in it: no key is listed twice, none is missing that comes before a listed one, and a longer range only goes on.
Scores are compared by what they are worth, once to meet the threshold and once, in the total order, to be sorted.

- `before_iff_precedes`: the order of keys.
- `Window.front`: the front of a window.
- `indexed_perm`: entries may come in any order.
- `ranges_are_exact`: what a node answers.
-/

namespace Placement

namespace Store.Memory

/-- The index has the key, with a score that is a number and worth at least the threshold. -/
def Qualifies (index : Dict Score) (min : Score) (key : String) : Prop :=
  ∃ score, index.get? key = some score ∧ score.isNaN = false ∧ min.isNaN = false ∧ min.units ≤ score.units

/-- One indexed key comes before another: by the total order of their scores, and by their bytes where these are one. -/
def Precedes (index : Dict Score) (key key' : String) : Prop :=
  ∃ score score', index.get? key = some score ∧ index.get? key' = some score' ∧
    (score.TotalLt score' ∨ score = score' ∧ Utf8.encode key < Utf8.encode key')

/-- The first so many of the keys that qualify. -/
structure Front (index : Dict Score) (min : Score) (count : Nat) (keys : List String) : Prop where
  nodup : keys.Nodup
  qualify : ∀ key ∈ keys, Qualifies index min key
  ordered : keys.Pairwise (Precedes index)
  /-- There are as many as are wanted, or all that qualify. -/
  length : ∃ all : List String, all.Nodup ∧ (∀ key, key ∈ all ↔ Qualifies index min key) ∧
    keys.length = Nat.min count all.length
  /-- What is left out comes behind all that is listed. -/
  rest : ∀ key, Qualifies index min key → key ∉ keys → ∀ listed ∈ keys, Precedes index listed key

variable {index : Dict Score} {min : Score} {entries : List (String × Score)}

theorem before_iff_precedes {a b : String × Score} (ha : index.get? a.1 = some a.2) (hb : index.get? b.1 = some b.2) :
    Before a b ↔ Precedes index a.1 b.1 := by
  have horder : Before a b ↔ a.2.TotalLt b.2 ∨ a.2 = b.2 ∧ Utf8.encode a.1 < Utf8.encode b.1 := by
    rw [Before, Binary64.rank_lt_iff]
    exact or_congr_right (and_congr_left fun _ => ⟨Binary64.rank_injective, congrArg Binary64.rank⟩)
  rw [horder]
  constructor
  · exact fun h => ⟨a.2, b.2, ha, hb, h⟩
  · rintro ⟨score, score', hs, hs', h⟩
    rw [Option.some.inj (ha.symm.trans hs), Option.some.inj (hb.symm.trans hs')]
    exact h

/-- The keys of a window are those that qualify. -/
theorem Window.qualifies_iff (h : Window index min entries) (key : String) :
    key ∈ entries.map (·.1) ↔ Qualifies index min key := by
  rw [List.mem_map]
  constructor
  · rintro ⟨⟨key', score⟩, he, rfl⟩
    obtain ⟨hget, hmeets⟩ := (h.mem_iff key' score).1 he
    exact ⟨score, hget, Binary64.atLeast_iff.1 hmeets⟩
  · rintro ⟨score, hget, hmeets⟩
    exact ⟨(key, score), (h.mem_iff key score).2 ⟨hget, Binary64.atLeast_iff.2 hmeets⟩, rfl⟩

theorem Window.precedes (h : Window index min entries) : (entries.map (·.1)).Pairwise (Precedes index) := by
  refine List.pairwise_map.2 (h.ordered.imp_of_mem fun {a b} ha hb hbefore => ?_)
  exact (before_iff_precedes ((h.mem_iff a.1 a.2).1 ha).1 ((h.mem_iff b.1 b.2).1 hb).1).1 hbefore

theorem Window.front (h : Window index min entries) (count : Nat) :
    Front index min count ((entries.map (·.1)).take count) where
  nodup := h.keys_nodup.sublist (List.take_sublist ..)
  qualify key hkey := (h.qualifies_iff key).1 (List.mem_of_mem_take hkey)
  ordered := h.precedes.sublist (List.take_sublist ..)
  length := ⟨_, h.keys_nodup, h.qualifies_iff, List.length_take⟩
  rest key hq hout listed hlisted := by
    have hkey : key ∈ (entries.map (·.1)).drop count := by
      have hmem := (h.qualifies_iff key).2 hq
      rw [← List.take_append_drop count (entries.map (·.1)), List.mem_append] at hmem
      exact hmem.resolve_left hout
    have hordered := h.precedes
    rw [← List.take_append_drop count (entries.map (·.1)), List.pairwise_append] at hordered
    exact hordered.2.2 listed hlisted key hkey

def indexed (entries : List (String × Score)) (m : Memory) : Memory :=
  entries.foldl (fun m e => (perform (.indexAdd e.2 e.1) m).2) m

/-- Entries for different keys can be added in any order. -/
theorem indexed_perm {entries entries' : List (String × Score)} (hkeys : (entries.map (·.1)).Nodup)
    (hperm : entries.Perm entries') (m : Memory) : indexed entries m = indexed entries' m := by
  refine hperm.foldl_eq' (fun a ha b hb m => ?_) m
  cases ho : m.obstacle with
  | some cause => simp only [perform_of_obstacle ho (c := .indexAdd _ _) (by simp)]
  | none =>
    have hadded : ∀ e : String × Score, (serve (.indexAdd e.2 e.1) m).2.obstacle = none := fun _ => ho
    simp only [perform_of_usable ho, perform_of_usable (hadded _)]
    by_cases he : a.1 = b.1
    · rw [List.inj_on_of_nodup_map hkeys ha hb he]
    · simp only [serve, Dict.insert_comm _ he]

/-- What a node that can be used answers to a range: the keys that qualify, in their order, as many as are wanted. Of
two ranges from one score upward the shorter is the beginning of the longer; and neither the order in which the
entries are walked through nor the one in which they were added makes a difference. -/
theorem ranges_are_exact {m : Memory} (reachable : m.unreachable = false) (unclosed : m.closed = false) (min : Score)
    (count : Nat) :
    ∃ keys, perform (.indexRange min count) m = (.ok keys, m) ∧ Front m.index min count keys ∧
      (∀ more, count ≤ more → ∃ keys', perform (.indexRange min more) m = (.ok keys', m) ∧ keys <+: keys') ∧
      (∀ walked : List (String × Score), walked.Perm m.index.toList →
        (((walked.filter fun e => e.2.atLeast min).mergeSort entryLe).take count).map (·.1) = keys) ∧
      ∀ (before : Memory) (entries entries' : List (String × Score)), (entries.map (·.1)).Nodup →
        entries.Perm entries' → indexed entries before = m →
          perform (.indexRange min count) (indexed entries' before) = (.ok keys, m) := by
  have usable : m.obstacle = none := by simp [obstacle, reachable, unclosed]
  have window := window_mergeSort m.index min
  have answers : ∀ count, perform (.indexRange min count) m = (.ok (m.range min count), m) := fun count =>
    perform_of_usable usable (.indexRange min count)
  have listed : ∀ count, m.range min count =
      (((m.index.toList.filter fun e => e.2.atLeast min).mergeSort entryLe).map (·.1)).take count := fun count => by
    rw [window.range, List.map_take]
  refine ⟨m.range min count, answers count, ?_, fun more hmore => ⟨m.range min more, answers more, ?_⟩,
    fun walked hwalked => ?_, fun before entries entries' hkeys hperm hm => ?_⟩
  · rw [listed]
    exact window.front count
  · rw [listed, listed]
    exact List.take_prefix_take_left hmore
  · exact ((window_of_walk hwalked min).range count).symm
  · rw [← indexed_perm hkeys hperm before, hm]
    exact answers count

def graded : Memory where
  index := Dict.ofList [("a", .zero), ("b", .negativeZero), ("c", .nan), ("d", .infinity), ("e", .negativeInfinity),
    ("f", .zero)]

/-- From 0 upward -0 comes first and then the zeros by their keys; the infinity is left out and follows. -/
theorem a_graded_range :
    ∃ keys, perform (.indexRange .zero 3) graded = (.ok keys, graded) ∧ keys = ["b", "a", "f"] ∧
      ∃ keys', perform (.indexRange .zero 4) graded = (.ok keys', graded) ∧ keys <+: keys' := by
  obtain ⟨keys, hkeys, -, hmore, hwalk, -⟩ := ranges_are_exact (m := graded) rfl rfl .zero 3
  have window : Window graded.index .zero [("b", .negativeZero), ("a", .zero), ("f", .zero), ("d", .infinity)] :=
    window_of_perm (by decide) (by decide +kernel)
  refine ⟨keys, hkeys, ?_, hmore 4 (by decide)⟩
  rw [← hwalk graded.index.toList (.refl _), (window_of_walk (.refl _) .zero).unique window]
  rfl

end Store.Memory

end Placement
