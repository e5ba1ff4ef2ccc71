import Placement.Registry
import Placement.Dict

/-!
A registry in memory: a dictionary from keys to locations.

It confirms every placement, forgets one only from the node that has it, and suggests the first node it is
offered. It never fails, unless it is to suggest a node out of none.
-/

namespace Placement.Registry

/-- The locations a registry knows. -/
structure Ledger where
  placements : Dict Location := Dict.empty
deriving DecidableEq, Repr, Inhabited

namespace Ledger

/-- Whether the key is placed on the node. -/
def owns (l : Ledger) (node : NodeId) (key : String) : Bool :=
  match l.placements.get? key with
  | some location => location.node == node
  | none => false

def perform : (c : Call) → Ledger → Except Fault c.Answer × Ledger
  | .place node key, l => (.ok true, { placements := l.placements.insert key ⟨node, true⟩ })
  | .withdraw node key, l =>
    if l.owns node key then (.ok true, { placements := l.placements.erase key }) else (.ok false, l)
  | .locate key, l => (.ok (l.placements.get? key), l)
  | .release _, l => (.ok (), l)
  | .suggest [], l => (.error .noNodesAvailable, l)
  | .suggest (node :: _), l => (.ok node, l)
  | .close, l => (.ok (), l)

instance : Registry Ledger := ⟨perform⟩

/-- A ledger fails no call but to suggest a node. -/
theorem perform_ne_error {c : Call} (h : ∀ nodes, c ≠ .suggest nodes) (l : Ledger) (fault : Fault) :
    (perform c l).1 ≠ .error fault := by
  cases c with
  | suggest nodes => exact absurd rfl (h nodes)
  | withdraw node key =>
    rw [perform]
    split <;> simp
  | _ => simp [perform]

theorem owns_iff {l : Ledger} {node : NodeId} {key : String} :
    l.owns node key = true ↔ ∃ location, l.placements.get? key = some location ∧ location.node = node := by
  unfold owns
  split
  · rename_i location h
    simp [h]
  · rename_i h
    simp [h]

/-- A key has one place at most. -/
theorem owns_unique {l : Ledger} {node node' : NodeId} {key : String} (h : l.owns node key = true)
    (h' : l.owns node' key = true) : node = node' := by
  obtain ⟨location, hl, rfl⟩ := owns_iff.1 h
  obtain ⟨location', hl', rfl⟩ := owns_iff.1 h'
  rw [hl] at hl'
  cases hl'
  rfl

theorem owns_place (l : Ledger) (node node' : NodeId) (key key' : String) :
    (perform (.place node key) l).2.owns node' key' =
      if key = key' then decide (node = node') else l.owns node' key' := by
  simp only [perform, owns, Dict.get?_insert]
  by_cases h : key = key'
  · simp only [h, if_true]
    rfl
  · simp only [h, if_false]

/-- A withdrawal makes one node lose one key and touches no other place. -/
theorem owns_withdraw (l : Ledger) (node node' : NodeId) (key key' : String) :
    (perform (.withdraw node key) l).2.owns node' key' =
      (l.owns node' key' && !(decide (key = key') && decide (node = node'))) := by
  simp only [perform]
  split
  · rename_i h
    by_cases hk : key = key'
    · subst hk
      have hgone : Ledger.owns { placements := l.placements.erase key } node' key = false := by
        simp [owns, Dict.get?_erase]
      by_cases hn : node = node'
      · simp [hgone, hn]
      · have hother : l.owns node' key = false := Bool.eq_false_iff.2 fun h' => hn (owns_unique h h')
        simp [hgone, hother]
    · simp [owns, Dict.get?_erase, hk]
  · rename_i h
    by_cases hk : key = key' ∧ node = node'
    · obtain ⟨rfl, rfl⟩ := hk
      simp [Bool.eq_false_iff.2 h]
    · have : (decide (key = key') && decide (node = node')) = false := by simpa using hk
      simp [this]

/-- A place that was withdrawn is forgotten. -/
theorem get?_withdraw {l : Ledger} {node : NodeId} {key : String} (h : l.owns node key = true) :
    (perform (.withdraw node key) l).2.placements.get? key = none := by
  simp [perform, h, Dict.get?_erase]

end Ledger

end Placement.Registry
