import Placement.FanOut

/-!
Which node gets a new record.

By chance, by load or as the registry suggests. The least loaded node is the first with the smallest known
count; a node whose count is not known is never chosen and stops no choice among the others.
-/

namespace Placement

/-- How the node for a new record is chosen. -/
inductive Selection
  | random
  | leastLoaded
  | registry
deriving DecidableEq, Repr, Inhabited

namespace Selection

/-- The better of the best so far and a further entry of a tally: the entry only if its count is smaller. -/
def better (best : Option (NodeId × Nat)) : NodeId × Option Nat → Option (NodeId × Nat)
  | (_, none) => best
  | (node, some count) =>
    match best with
    | some (_, least) => if least ≤ count then best else some (node, count)
    | none => some (node, count)

/-- The first entry of a tally with the smallest known count. -/
def leastLoadedOf (tally : List (NodeId × Option Nat)) : Option NodeId := (tally.foldl better none).map (·.1)

/-- The entry at a position has the smallest known count, and every known count before it is larger. -/
structure LeastAt (tally : List (NodeId × Option Nat)) (i : Nat) (node : NodeId) (count : Nat) : Prop where
  entry : tally[i]? = some (node, some count)
  least : ∀ other c, (other, some c) ∈ tally → count ≤ c
  first : ∀ j < i, ∀ other c, tally[j]? = some (other, some c) → count < c

/-- An entry that is in the lead stays there behind one that is not known or counts more. -/
theorem LeastAt.cons {tally : List (NodeId × Option Nat)} {i : Nat} {node : NodeId} {count : Nat}
    (h : LeastAt tally i node count) {e : NodeId × Option Nat} (he : ∀ c, e.2 = some c → count < c) :
    LeastAt (e :: tally) (i + 1) node count where
  entry := h.entry
  least other c hc := by
    rcases List.mem_cons.1 hc with rfl | hc
    · exact Nat.le_of_lt (he c rfl)
    · exact h.least other c hc
  first j hj other c hc := by
    cases j with
    | zero => exact he c (congrArg Prod.snd (Option.some.inj hc))
    | succ j => exact h.first j (Nat.lt_of_succ_lt_succ hj) other c hc

/-- The best so far stays the best, or gives way to the first entry with the smallest count. -/
theorem foldl_better_some (tally : List (NodeId × Option Nat)) (node : NodeId) (count : Nat) :
    (tally.foldl better (some (node, count)) = some (node, count) ∧ ∀ other c, (other, some c) ∈ tally → count ≤ c) ∨
      ∃ i node' count', tally.foldl better (some (node, count)) = some (node', count') ∧
        LeastAt tally i node' count' ∧ count' < count := by
  induction tally generalizing node count with
  | nil => exact .inl ⟨rfl, by simp⟩
  | cons e rest ih =>
    obtain ⟨other, _ | c⟩ := e
    · rw [List.foldl_cons, better]
      rcases ih node count with ⟨hfold, hleast⟩ | ⟨i, node', count', hfold, hleast, hlt⟩
      · exact .inl ⟨hfold, fun o c hc => hleast o c (by simpa using hc)⟩
      · exact .inr ⟨i + 1, node', count', hfold, hleast.cons (by simp), hlt⟩
    · by_cases hc : count ≤ c
      · rw [List.foldl_cons, better, if_pos hc]
        rcases ih node count with ⟨hfold, hleast⟩ | ⟨i, node', count', hfold, hleast, hlt⟩
        · refine .inl ⟨hfold, fun o c' hc' => ?_⟩
          rcases List.mem_cons.1 hc' with he | hc'
          · cases he
            exact hc
          · exact hleast o c' hc'
        · exact .inr ⟨i + 1, node', count', hfold, hleast.cons (by simp; omega), hlt⟩
      · rw [List.foldl_cons, better, if_neg hc]
        rcases ih other c with ⟨hfold, hleast⟩ | ⟨i, node', count', hfold, hleast, hlt⟩
        · refine .inr ⟨0, other, c, hfold, ⟨rfl, fun o c' hc' => ?_, by simp⟩, by omega⟩
          rcases List.mem_cons.1 hc' with he | hc'
          · cases he
            exact Nat.le_refl _
          · exact hleast o c' hc'
        · exact .inr ⟨i + 1, node', count', hfold, hleast.cons (by simp; omega), by omega⟩

/-- There is a first entry with the smallest known count, unless no count is known. -/
theorem leastLoadedOf_cases (tally : List (NodeId × Option Nat)) :
    (leastLoadedOf tally = none ∧ ∀ e ∈ tally, e.2 = none) ∨
      ∃ i node count, leastLoadedOf tally = some node ∧ LeastAt tally i node count := by
  induction tally with
  | nil => exact .inl ⟨rfl, by simp⟩
  | cons e rest ih =>
    obtain ⟨other, _ | c⟩ := e
    · have hrest : leastLoadedOf ((other, none) :: rest) = leastLoadedOf rest := rfl
      rcases ih with ⟨hnone, hall⟩ | ⟨i, node, count, hsome, hleast⟩
      · exact .inl ⟨hrest.trans hnone, by simpa using hall⟩
      · exact .inr ⟨i + 1, node, count, hrest.trans hsome, hleast.cons (by simp)⟩
    · rw [leastLoadedOf, List.foldl_cons, better]
      rcases foldl_better_some rest other c with ⟨hfold, hleast⟩ | ⟨i, node, count, hfold, hleast, hlt⟩
      · refine .inr ⟨0, other, c, by rw [hfold]; rfl, rfl, fun o c' hc' => ?_, by simp⟩
        rcases List.mem_cons.1 hc' with he | hc'
        · cases he
          exact Nat.le_refl _
        · exact hleast o c' hc'
      · exact .inr ⟨i + 1, node, count, by rw [hfold]; rfl, hleast.cons (by simp; omega)⟩

/-- Only one entry is the first with the smallest count. -/
theorem LeastAt.unique {tally : List (NodeId × Option Nat)} {i j : Nat} {node node' : NodeId} {count count' : Nat}
    (h : LeastAt tally i node count) (h' : LeastAt tally j node' count') : node = node' := by
  have hle := h.least _ _ (List.mem_of_getElem? h'.entry)
  have hle' := h'.least _ _ (List.mem_of_getElem? h.entry)
  rcases Nat.lt_trichotomy i j with hij | rfl | hij
  · have := h'.first i hij _ _ h.entry
    omega
  · exact congrArg Prod.fst (Option.some.inj (h.entry.symm.trans h'.entry))
  · have := h.first j hij _ _ h'.entry
    omega

theorem leastLoadedOf_of_leastAt {tally : List (NodeId × Option Nat)} {i : Nat} {node : NodeId} {count : Nat}
    (h : LeastAt tally i node count) : leastLoadedOf tally = some node := by
  rcases leastLoadedOf_cases tally with ⟨-, hall⟩ | ⟨j, node', count', hsome, h'⟩
  · cases hall _ (List.mem_of_getElem? h.entry)
  · rw [hsome, h.unique h']

/-- A tally that knows every count has a least loaded node. -/
theorem leastLoadedOf_mem {tally : List (NodeId × Option Nat)} (h : ∀ e ∈ tally, e.2.isSome = true) (hne : tally ≠ []) :
    ∃ node ∈ tally.map (·.1), leastLoadedOf tally = some node := by
  rcases leastLoadedOf_cases tally with ⟨-, hall⟩ | ⟨i, node, count, hsome, hleast⟩
  · obtain ⟨e, he⟩ := List.exists_mem_of_ne_nil tally hne
    have hknown := h e he
    rw [hall e he] at hknown
    cases hknown
  · exact ⟨node, List.mem_map.2 ⟨_, List.mem_of_getElem? hleast.entry, rfl⟩, hsome⟩

end Selection

namespace Cluster

variable {ν ρ : Type} [Store ν] [Registry ρ]

def leastLoaded : Op ν ρ NodeId := do
  let counted ← counts
  match Selection.leastLoadedOf ((← inspect ids).map fun id => (id, counted.results.get? id)) with
  | some node => return node
  | none => throw ((Fault.ofFailures counted.failures).getD .noNodesAvailable)

def suggested : Op ν ρ NodeId := do
  let node ← consult (.suggest (← inspect ids))
  if ← inspect (·.nodes.contains node) then return node else throw (.unknownNode node)

def choose (how : Selection) : Op ν ρ NodeId := do
  let ids ← inspect ids
  if ids.isEmpty then throw .noNodesAvailable
  match how with
  | .random => return ids.getD (← draw ids.length) ""
  | .leastLoaded => leastLoaded
  | .registry => suggested

end Cluster

end Placement
