import Placement.Proofs.Views

/-!
Nodes and registries that lapse from call to call, and never worse than custody allows.

A node may fail any call but a taking back. A registry may fail before it does what it is asked or after it, and
declines to place a key that it has in another place. A map fails only before, and declines every key that it has in
a place.
-/

namespace Placement.Drill

inductive Lapse
  | before
  | after
deriving DecidableEq, Repr

/-- A node in memory and which of the calls to come it fails. -/
structure LapsingNode where
  memory : Store.Memory := {}
  lapses : List Bool := []

namespace LapsingNode

def perform (c : Store.Call) (n : LapsingNode) : Except Fault c.Answer × LapsingNode :=
  match c, n.lapses with
  | .remove key, lapses => ((Store.Memory.perform (.remove key) n.memory).1,
      ⟨(Store.Memory.perform (.remove key) n.memory).2, lapses⟩)
  | _, true :: lapses => (.error (.connection .nodeUnreachable), { n with lapses })
  | c, lapses => ((Store.Memory.perform c n.memory).1, ⟨(Store.Memory.perform c n.memory).2, lapses.tail⟩)

instance : Store LapsingNode := ⟨perform⟩

def backing : Store.Backing LapsingNode Store.Call.takesBack where
  memory := memory
  serves call state := by
    obtain ⟨memory, lapses⟩ := state
    show ((perform call _).1, (perform call _).2.memory) = _ ∨ _
    cases call with
    | remove key => exact .inl rfl
    | _ =>
      rcases lapses with _ | ⟨_ | _, lapses⟩
      · exact .inl rfl
      · exact .inl rfl
      · exact .inr ⟨not_false, ⟨_, rfl⟩, rfl⟩

end LapsingNode

/-- A registry in memory and how it fails the calls to come. -/
structure LapsingRegistry where
  ledger : Placement.Registry.Ledger := {}
  lapses : List (Option Lapse) := []

namespace LapsingRegistry

def guarded (c : Registry.Call) (l : Placement.Registry.Ledger) : Except Fault c.Answer × Placement.Registry.Ledger :=
  match c with
  | .place node key =>
    if (l.placements.get? key).any (·.node ≠ node) then (.ok false, l)
    else Placement.Registry.Ledger.perform (.place node key) l
  | c => Placement.Registry.Ledger.perform c l

def perform (c : Registry.Call) (r : LapsingRegistry) : Except Fault c.Answer × LapsingRegistry :=
  let (answer, ledger) := guarded c r.ledger
  match r.lapses.headD none with
  | none => (answer, ⟨ledger, r.lapses.tail⟩)
  | some .before => (.error (.registryUnavailable .absent), ⟨r.ledger, r.lapses.tail⟩)
  | some .after => (.error (.registryUnavailable .absent), ⟨ledger, r.lapses.tail⟩)

instance : Placement.Registry LapsingRegistry := ⟨perform⟩

/-- A lapse before a call keeps the ledger; in any other case it is as if there had been none. -/
theorem ledger_perform (c : Registry.Call) (r : LapsingRegistry) :
    ((perform c r).1 = (guarded c r.ledger).1 ∨ ∃ fault, (perform c r).1 = .error fault) ∧
      (perform c r).2.ledger = (guarded c r.ledger).2 ∨
    (∃ fault, (perform c r).1 = .error fault) ∧ (perform c r).2.ledger = r.ledger := by
  unfold perform
  rcases r.lapses.headD none with _ | _ | _
  · exact .inl ⟨.inl rfl, rfl⟩
  · exact .inr ⟨⟨_, rfl⟩, rfl⟩
  · exact .inl ⟨.inr ⟨_, rfl⟩, rfl⟩

/-- A key that is placed elsewhere is declined; any other is placed. -/
theorem guarded_place (node : NodeId) (key : String) (l : Placement.Registry.Ledger) :
    guarded (.place node key) l = (.ok false, l) ∨
      (∀ other, l.owns other key = true → other = node) ∧
        guarded (.place node key) l = Placement.Registry.Ledger.perform (.place node key) l := by
  unfold guarded
  dsimp only
  split
  · exact .inl rfl
  · rename_i hfree
    refine .inr ⟨fun other ho => ?_, rfl⟩
    obtain ⟨location, hl, rfl⟩ := Placement.Registry.Ledger.owns_iff.1 ho
    simpa [hl] using hfree

def guards : Placement.Registry.Guarded LapsingRegistry where
  ledger := ledger
  place node key r := by
    rcases ledger_perform (.place node key) r with ⟨ha, hl⟩ | ⟨⟨fault, ha⟩, hl⟩
    · rcases guarded_place node key r.ledger with hg | ⟨hfree, hg⟩
      · refine .inl ⟨fun hc => ?_, hl.trans (by rw [hg])⟩
        change (perform (.place node key) r).1 = _ at hc
        rw [hg, hc] at ha
        simp at ha
      · exact .inr ⟨hfree, hl.trans (by rw [hg])⟩
    · refine .inl ⟨fun hc => ?_, hl⟩
      change (perform (.place node key) r).1 = _ at hc
      rw [hc] at ha
      cases ha
  withdraw node key r := by
    rcases ledger_perform (.withdraw node key) r with ⟨-, hl⟩ | ⟨-, hl⟩
    · exact .inr hl
    · exact .inl hl
  rest call r hc := by
    have hg : (guarded call r.ledger).2 = r.ledger := by
      rcases hc with hc | rfl
      · cases call with
        | suggest nodes => cases nodes <;> rfl
        | locate | release => rfl
        | _ => cases hc
      · rfl
    rcases ledger_perform call r with ⟨-, hl⟩ | ⟨-, hl⟩
    · exact hl.trans hg
    · exact hl

end LapsingRegistry

/-- A registry in memory that places a key once only, and which of the calls to come it fails before it does them. -/
structure LapsingMap where
  ledger : Placement.Registry.Ledger := {}
  lapses : List Bool := []

namespace LapsingMap

def once (c : Registry.Call) (l : Placement.Registry.Ledger) : Except Fault c.Answer × Placement.Registry.Ledger :=
  match c with
  | .place node key =>
    if l.placements.contains key then (.ok false, l) else Placement.Registry.Ledger.perform (.place node key) l
  | c => Placement.Registry.Ledger.perform c l

def perform (c : Registry.Call) (r : LapsingMap) : Except Fault c.Answer × LapsingMap :=
  if r.lapses.headD false then (.error (.registryUnavailable .absent), { r with lapses := r.lapses.tail })
  else ((once c r.ledger).1, ⟨(once c r.ledger).2, r.lapses.tail⟩)

instance : Placement.Registry LapsingMap := ⟨perform⟩

/-- A call is done, or it fails and the ledger is kept. -/
theorem ledger_perform (c : Registry.Call) (r : LapsingMap) :
    (perform c r).1 = (once c r.ledger).1 ∧ (perform c r).2.ledger = (once c r.ledger).2 ∨
      (∃ fault, (perform c r).1 = .error fault) ∧ (perform c r).2.ledger = r.ledger := by
  unfold perform
  split
  · exact .inr ⟨⟨_, rfl⟩, rfl⟩
  · exact .inl ⟨rfl, rfl⟩

def guards : Placement.Registry.Guarded LapsingMap where
  ledger := ledger
  place node key r := by
    show (perform (.place node key) r).1 ≠ .ok true ∧ _ ∨ _
    rcases ledger_perform (.place node key) r with ⟨ha, hl⟩ | ⟨⟨fault, ha⟩, hl⟩
    · unfold once at ha hl
      dsimp only at ha hl
      split at ha
      · rename_i hplaced
        rw [if_pos hplaced] at hl
        exact .inl ⟨by simp [ha], hl⟩
      · rename_i hplaced
        rw [if_neg hplaced] at hl
        refine .inr ⟨fun other ho => ?_, hl⟩
        obtain ⟨location, hlocation, -⟩ := Placement.Registry.Ledger.owns_iff.1 ho
        exact absurd (Dict.contains_iff.2 ⟨location, hlocation⟩) hplaced
    · exact .inl ⟨by simp [ha], hl⟩
  withdraw node key r := by
    rcases ledger_perform (.withdraw node key) r with ⟨-, hl⟩ | ⟨-, hl⟩
    · exact .inr hl
    · exact .inl hl
  rest call r hc := by
    have hkept : (once call r.ledger).2 = r.ledger := by
      rcases hc with hc | rfl
      · cases call with
        | suggest nodes => cases nodes <;> rfl
        | locate | release => rfl
        | _ => cases hc
      · rfl
    rcases ledger_perform call r with ⟨-, hl⟩ | ⟨-, hl⟩
    · exact hl.trans hkept
    · exact hl

theorem forthright : guards.Forthright := by
  intro node key r answer ha
  rcases ledger_perform (.withdraw node key) r with ⟨-, hl⟩ | ⟨⟨fault, hfail⟩, -⟩
  · exact hl
  · rw [show (perform (.withdraw node key) r).1 = _ from ha] at hfail
    cases hfail

end LapsingMap

end Placement.Drill
