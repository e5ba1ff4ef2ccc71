import Placement.Drill.Node
import Placement.Proofs.Calls
import Placement.Registry.Ledger

/-!
An insert writes, has the write confirmed, then indexes.

Once its node is chosen an insert takes one of few courses (`Course`): it goes on until a call fails or is answered
amiss, and if the whole record was written by then it takes back what it did. A fault of the taking back is let pass.

- `insert_takes`: the calls of an insert from its first to its last.
- `insert_follows_protocol`: which calls come before which, and what an insert answers.
-/

namespace Placement

/-! ## Kinds of calls -/

def Event.chooses : Event → Bool
  | .asked _ .count _ | .consulted (.suggest _) _ => true
  | _ => false

def Event.writes : Event → Bool
  | .asked _ (.write ..) _ => true
  | _ => false

def Event.Inserts (node : NodeId) (key : String) (fields : Record) : Event → Prop
  | .asked other call _ =>
    other = node ∧ (call = .write key fields ∨ call = .indexAdd (KeyHash.score key) key ∨ call = .remove key)
  | .consulted call _ => call = .place node key ∨ call = .withdraw node key

/-- What went wrong with a call: it failed, or the answer is no better than a failure. A call that helps to choose a
node may fail and another node be chosen. -/
def Event.failure? : Event → Option Fault
  | .asked _ .count _ | .consulted (.suggest _) _ => none
  | .asked node (.write key fields) (.ok written) =>
    if written = fields.size then none else some (.partialWrite node key written fields.size)
  | .consulted (.place node key) (.ok false) => some (.placementRejected node key)
  | .asked _ _ (.error fault) | .consulted _ (.error fault) => some fault
  | _ => none

theorem Event.failure?_of_chooses {e : Event} (h : e.chooses = true) : e.failure? = none := by
  unfold Event.chooses at h
  split at h
  · rfl
  · rfl
  · cases h

theorem Event.not_writes_of_chooses {e : Event} (h : e.chooses = true) : e.writes = false := by
  unfold Event.chooses at h
  split at h
  · rfl
  · rfl
  · cases h

/-- Wherever the later call is made, the earlier has been made before. -/
def Precedes (earlier later : Event) (events : List Event) : Prop :=
  ∀ before after, events = before ++ later :: after → earlier ∈ before

section
variable {earlier later : Event} {events back : List Event}

theorem precedes_of_mem (h : later ∈ events → Precedes earlier later events) : Precedes earlier later events :=
  fun before after he => h (by simp [he]) before after he

theorem precedes_append (front : List Event) (he : earlier ∈ front) (hl : later ∉ front) :
    Precedes earlier later (front ++ back) := by
  intro before after hs
  obtain ⟨middle, rfl, -⟩ | ⟨middle, rfl, hm⟩ := List.append_eq_append_iff.1 hs
  · exact List.mem_append_left _ he
  · cases middle with
    | nil => simpa using he
    | cons e middle =>
      cases (List.cons.inj hm).1
      simp at hl

theorem Precedes.behind {front : List Event} (h : Precedes earlier later back) (hl : later ∉ front) :
    Precedes earlier later (front ++ back) := by
  intro before after hs
  obtain ⟨middle, rfl, hm⟩ | ⟨middle, rfl, hm⟩ := List.append_eq_append_iff.1 hs
  · exact List.mem_append_right _ (h _ _ hm)
  · cases middle with
    | nil => exact absurd (h [] after hm.symm) List.not_mem_nil
    | cons e middle =>
      cases (List.cons.inj hm).1
      simp at hl

end

namespace Insertion

/-! ## Courses -/

section
variable (registered : Bool) (node : NodeId) (key : String) (fields : Record)

/-- The calls that an insert makes once its node is chosen, and what it comes to. -/
inductive Course : List Event → Except Fault NodeId → Prop
  | unwritten (fault : Fault) : Course [.asked node (.write key fields) (.error fault)] (.error fault)
  | partly {written : Nat} : written ≠ fields.size →
    Course [.asked node (.write key fields) (.ok written)] (.error (.partialWrite node key written fields.size))
  | rejected (removed : Except Fault Unit) : registered = true →
    Course
      [.asked node (.write key fields) (.ok fields.size), .consulted (.place node key) (.ok false),
        .asked node (.remove key) removed]
      (.error (.placementRejected node key))
  | unplaced (fault : Fault) (removed : Except Fault Unit) : registered = true →
    Course
      [.asked node (.write key fields) (.ok fields.size), .consulted (.place node key) (.error fault),
        .asked node (.remove key) removed]
      (.error fault)
  | unindexed (fault : Fault) (removed : Except Fault Unit) : registered = false →
    Course
      [.asked node (.write key fields) (.ok fields.size),
        .asked node (.indexAdd (KeyHash.score key) key) (.error fault), .asked node (.remove key) removed]
      (.error fault)
  | withdrawn (fault : Fault) (forgotten : Except Fault Bool) (removed : Except Fault Unit) : registered = true →
    Course
      [.asked node (.write key fields) (.ok fields.size), .consulted (.place node key) (.ok true),
        .asked node (.indexAdd (KeyHash.score key) key) (.error fault), .consulted (.withdraw node key) forgotten,
        .asked node (.remove key) removed]
      (.error fault)
  | indexed : registered = false →
    Course
      [.asked node (.write key fields) (.ok fields.size), .asked node (.indexAdd (KeyHash.score key) key) (.ok ())]
      (.ok node)
  | placed : registered = true →
    Course
      [.asked node (.write key fields) (.ok fields.size), .consulted (.place node key) (.ok true),
        .asked node (.indexAdd (KeyHash.score key) key) (.ok ())]
      (.ok node)

end

namespace Course

variable {registered : Bool} {node : NodeId} {key : String} {fields : Record} {events : List Event}
  {outcome : Except Fault NodeId}

theorem inserts (h : Course registered node key fields events outcome) : ∀ e ∈ events, e.Inserts node key fields := by
  cases h <;> simp [Event.Inserts]

theorem once (h : Course registered node key fields events outcome) : events.countP Event.writes ≤ 1 := by
  cases h <;> simp [List.countP_cons, Event.writes]

/-- Nothing else is called before the whole record is written. -/
theorem written_first (h : Course registered node key fields events outcome) {later : Event}
    (hl : later.writes = false) : Precedes (.asked node (.write key fields) (.ok fields.size)) later events := by
  have first : ∀ answer, later ∉ [.asked node (.write key fields) answer] := by
    rintro answer hm
    cases List.mem_singleton.1 hm
    cases hl
  cases h with
  | unwritten | partly => exact precedes_of_mem fun hm => absurd hm (first _)
  | _ => exact precedes_append [_] (List.mem_singleton.2 rfl) (first _)

theorem placed_first (h : Course registered node key fields events outcome) (hr : registered = true)
    (answer : Except Fault Unit) :
    Precedes (.consulted (.place node key) (.ok true)) (.asked node (.indexAdd (KeyHash.score key) key) answer)
      events := by
  cases h with
  | withdrawn | placed => exact precedes_append [_, _] (by simp) (by simp)
  | unindexed _ _ hr' | indexed hr' =>
    rw [hr] at hr'
    cases hr'
  | _ => exact precedes_of_mem (by simp)

theorem ok_iff (h : Course registered node key fields events outcome) (other : NodeId) :
    outcome = .ok other ↔ .asked other (.indexAdd (KeyHash.score key) key) (.ok ()) ∈ events := by
  cases h <;> simp [eq_comm]

theorem undone (h : Course registered node key fields events outcome)
    (hw : .asked node (.write key fields) (.ok fields.size) ∈ events) {fault : Fault} (hf : outcome = .error fault) :
    ∃ before removed, events = before ++ [.asked node (.remove key) removed] := by
  cases h with
  | unwritten => simp at hw
  | partly hne => simp [hne.symm] at hw
  | rejected removed | unplaced _ removed | unindexed _ removed => exact ⟨[_, _], removed, rfl⟩
  | withdrawn _ _ removed => exact ⟨[_, _, _, _], removed, rfl⟩
  | indexed | placed => cases hf

theorem withdraws_iff (h : Course registered node key fields events outcome) (other : NodeId) :
    (∃ answer, .consulted (.withdraw other key) answer ∈ events) ↔
      registered = true ∧ ∃ fault, .asked other (.indexAdd (KeyHash.score key) key) (.error fault) ∈ events := by
  cases h <;> simp_all

/-- What went wrong first is what is reported. -/
theorem error_iff (h : Course registered node key fields events outcome) (fault : Fault) :
    outcome = .error fault ↔ events.findSome? Event.failure? = some fault := by
  cases h <;> simp_all [List.findSome?_cons, Event.failure?]

end Course

/-! ## The whole insert -/

/-- The calls of an insert from the first, and what it comes to. `chosen` is what choosing a node comes to. -/
inductive Path (registered : Bool) (ids : List NodeId) (chosen : Except Fault NodeId) (key : String) (fields : Record) :
    List Event → Except Fault NodeId → Prop
  | empty : fields.isEmpty = true → Path registered ids chosen key fields [] (.error (.emptyRecord key))
  | unchosen {choosing : List Event} {fault : Fault} : fields.isEmpty = false →
    (∀ e ∈ choosing, e.chooses = true) → chosen = .error fault →
    Path registered ids chosen key fields choosing (.error fault)
  | chosen {choosing course : List Event} {node : NodeId} {outcome : Except Fault NodeId} : fields.isEmpty = false →
    (∀ e ∈ choosing, e.chooses = true) → chosen = .ok node → node ∈ ids →
    Course registered node key fields course outcome →
    Path registered ids chosen key fields (choosing ++ course) outcome

/-- What an insert keeps to, whatever it is answered. -/
structure Protocol (registered : Bool) (ids : List NodeId) (chosen : Except Fault NodeId) (key : String)
    (fields : Record) (events : List Event) (outcome : Except Fault NodeId) : Prop where
  /-- Without fields nothing is called. -/
  empty : fields.isEmpty = true → events = [] ∧ outcome = .error (.emptyRecord key)
  /-- All calls but those that choose the node concern the chosen node, one of the cluster, and the key. -/
  calls : ∀ e ∈ events, e.chooses = true ∨ ∃ node ∈ ids, chosen = .ok node ∧ e.Inserts node key fields
  once : events.countP Event.writes ≤ 1
  /-- The registry is asked, and the key indexed, only behind the write of the whole record. -/
  written : ∀ node, chosen = .ok node → ∀ e : Event, e.chooses = false → e.writes = false →
    Precedes (.asked node (.write key fields) (.ok fields.size)) e events
  /-- With a registry the key is indexed only behind its consent. -/
  placed : registered = true → ∀ node, chosen = .ok node → ∀ answer,
    Precedes (.consulted (.place node key) (.ok true)) (.asked node (.indexAdd (KeyHash.score key) key) answer) events
  /-- To be inserted is to be indexed. -/
  inserted : ∀ node, outcome = .ok node ↔ .asked node (.indexAdd (KeyHash.score key) key) (.ok ()) ∈ events
  /-- What failed behind the write of the whole record ends in its removal. -/
  undone : ∀ node fault, .asked node (.write key fields) (.ok fields.size) ∈ events → outcome = .error fault →
    ∃ before removed, events = before ++ [.asked node (.remove key) removed]
  /-- The placement is withdrawn just if indexing failed. -/
  withdrawn : ∀ node, (∃ answer, .consulted (.withdraw node key) answer ∈ events) ↔
    registered = true ∧ ∃ fault, .asked node (.indexAdd (KeyHash.score key) key) (.error fault) ∈ events
  /-- What went wrong first is what is reported: no node was chosen, or a later call. -/
  failed : fields.isEmpty = false → ∀ fault,
    outcome = .error fault ↔ chosen = .error fault ∨ events.findSome? Event.failure? = some fault

section
variable {registered : Bool} {ids : List NodeId} {chosen : Except Fault NodeId} {key : String} {fields : Record}
  {events : List Event} {outcome : Except Fault NodeId}

theorem not_mem_choosing {choosing : List Event} (h : ∀ e ∈ choosing, e.chooses = true) {e : Event}
    (he : e.chooses = false) : e ∉ choosing := fun hm => by
  rw [h e hm] at he
  cases he

theorem mem_append_choosing {choosing course : List Event} (h : ∀ e ∈ choosing, e.chooses = true) {e : Event}
    (he : e.chooses = false) : e ∈ choosing ++ course ↔ e ∈ course := by
  rw [List.mem_append, or_iff_right (not_mem_choosing h he)]

theorem findSome?_choosing {choosing : List Event} (h : ∀ e ∈ choosing, e.chooses = true) :
    choosing.findSome? Event.failure? = none :=
  List.findSome?_eq_none_iff.2 fun e he => Event.failure?_of_chooses (h e he)

theorem countP_choosing {choosing : List Event} (h : ∀ e ∈ choosing, e.chooses = true) :
    choosing.countP Event.writes = 0 :=
  List.countP_eq_zero.2 fun e he => by simp [Event.not_writes_of_chooses (h e he)]

theorem protocol_of_nothing (hf : fields.isEmpty = true) :
    Protocol registered ids chosen key fields [] (.error (.emptyRecord key)) where
  empty _ := ⟨rfl, rfl⟩
  calls := by simp
  once := by simp
  written _ _ _ _ _ := precedes_of_mem (by simp)
  placed _ _ _ _ := precedes_of_mem (by simp)
  inserted := by simp
  undone := by simp
  withdrawn := by simp
  failed := by simp [hf]

theorem protocol_of_choosing {fault : Fault} (hf : fields.isEmpty = false) (hc : ∀ e ∈ events, e.chooses = true) :
    Protocol registered ids (.error fault) key fields events (.error fault) where
  empty := by simp [hf]
  calls e he := .inl (hc e he)
  once := by
    rw [countP_choosing hc]
    exact Nat.zero_le 1
  written _ hn := by cases hn
  placed _ _ hn := by cases hn
  inserted node := by
    refine iff_of_false (fun ho => ?_) (not_mem_choosing hc rfl)
    cases ho
  undone _ _ hm := absurd hm (not_mem_choosing hc rfl)
  withdrawn node := by
    refine iff_of_false ?_ ?_
    · rintro ⟨answer, hm⟩
      exact not_mem_choosing hc rfl hm
    · rintro ⟨-, fault, hm⟩
      exact not_mem_choosing hc rfl hm
  failed := by simp [findSome?_choosing hc]

/-- A course is behind the calls that chose its node, and these are none of its own. -/
theorem Course.protocol {choosing : List Event} {node : NodeId} (h : Course registered node key fields events outcome)
    (hf : fields.isEmpty = false) (hc : ∀ e ∈ choosing, e.chooses = true) (hn : node ∈ ids) :
    Protocol registered ids (.ok node) key fields (choosing ++ events) outcome where
  empty := by simp [hf]
  calls e he := (List.mem_append.1 he).imp (hc e) fun he => ⟨node, hn, rfl, h.inserts e he⟩
  once := by
    rw [List.countP_append, countP_choosing hc, Nat.zero_add]
    exact h.once
  written _ hnode e he hw := by
    cases hnode
    exact (h.written_first hw).behind (not_mem_choosing hc he)
  placed hr _ hnode answer := by
    cases hnode
    exact (h.placed_first hr answer).behind (not_mem_choosing hc rfl)
  inserted other := by rw [mem_append_choosing hc rfl, h.ok_iff]
  undone other fault hm ho := by
    rw [mem_append_choosing hc rfl] at hm
    obtain ⟨rfl, -⟩ := h.inserts _ hm
    obtain ⟨before, removed, rfl⟩ := h.undone hm ho
    exact ⟨choosing ++ before, removed, (List.append_assoc ..).symm⟩
  withdrawn other := by
    have withdraw : ∀ answer, .consulted (.withdraw other key) answer ∈ choosing ++ events ↔ _ := fun _ =>
      mem_append_choosing hc rfl
    have index : ∀ fault, .asked other (.indexAdd (KeyHash.score key) key) (.error fault) ∈ choosing ++ events ↔ _ :=
      fun _ => mem_append_choosing hc rfl
    simpa only [withdraw, index] using h.withdraws_iff other
  failed _ fault := by
    rw [List.findSome?_append, findSome?_choosing hc, Option.none_or, h.error_iff]
    simp

theorem Path.protocol (h : Path registered ids chosen key fields events outcome) :
    Protocol registered ids chosen key fields events outcome := by
  cases h with
  | empty hf => exact protocol_of_nothing hf
  | unchosen hf hc hch =>
    subst hch
    exact protocol_of_choosing hf hc
  | chosen hf hc hch hn hcourse =>
    subst hch
    exact hcourse.protocol hf hc hn

end

end Insertion

namespace Cluster

open Insertion

variable {ν ρ : Type} [Store ν] {w : Cluster ν ρ}

/-! ## What an insert calls -/

theorem writeNew_calls {node : NodeId} (hn : node ∈ w.ids) (key : String) (fields : Record) :
    Ensures w (writeNew node key fields)
      (fun _ w' => Calls w [.asked node (.write key fields) (.ok fields.size)] w')
      fun fault w' =>
        ∃ event, Calls w [event] w' ∧ ∀ registered, Course registered node key fields [event] (.error fault) := by
  refine (ask_calls hn (.write key fields)).andThen (fun fault w₁ h₁ => ?_) fun written w₁ h₁ => ?_
  · exact ⟨_, h₁, fun _ => .unwritten fault⟩
  · split
    · rename_i hne
      exact ensures_throw ⟨_, h₁, fun _ => .partly hne⟩
    · rename_i he
      rw [Decidable.not_not.1 he] at h₁
      exact ensures_pure h₁

theorem takeBack_calls {E : Fault → Cluster ν ρ → Prop} {node : NodeId} (hn : node ∈ w.ids) (key : String) :
    Ensures w (takeBack node key) (fun _ w' => ∃ removed, Calls w [.asked node (.remove key) removed] w') E :=
  (ask_calls hn (.remove key)).attempt_bind (fun _ _ h => ensures_pure ⟨_, h⟩) fun _ _ h => ensures_pure ⟨_, h⟩

/-- The fault that led to the taking back is thrown behind it. -/
theorem undo_calls {node : NodeId} (hn : node ∈ w.ids) (key : String) (fault : Fault) :
    Ensures w
      (do
        takeBack node key
        throw fault : Op ν ρ Unit)
      (fun _ _ => False)
      fun fault' w' => fault' = fault ∧ ∃ removed, Calls w [.asked node (.remove key) removed] w' :=
  (takeBack_calls hn key).bind fun _ _ h => ensures_throw ⟨rfl, h⟩

variable [Registry ρ]

def consented (registered : Bool) (node : NodeId) (key : String) : List Event :=
  if registered then [.consulted (.place node key) (.ok true)] else []

theorem confirm_calls {node : NodeId} (hn : node ∈ w.ids) (key : String) (fields : Record) :
    Ensures w (confirm node key) (fun _ w' => Calls w (consented w.registry.isSome node key) w')
      fun fault w' => ∃ events, Calls w events w' ∧
        Course w.registry.isSome node key fields (.asked node (.write key fields) (.ok fields.size) :: events)
          (.error fault) := by
  refine ensures_hasRegistry_bind ?_
  cases hr : w.registry.isSome with
  | false => exact ensures_pure (.refl w)
  | true =>
    refine (consult_calls hr (.place node key)).attempt_bind (fun confirmed w₁ h₁ => ?_) fun fault w₁ h₁ => ?_
    · cases confirmed with
      | true => exact ensures_pure h₁
      | false =>
        refine (undo_calls (h₁.ids ▸ hn) key _).mono (fun _ _ h => h.elim) ?_
        rintro _ w₂ ⟨rfl, removed, h₂⟩
        exact ⟨_, h₁.trans h₂, .rejected removed rfl⟩
    · refine (undo_calls (h₁.ids ▸ hn) key fault).mono (fun _ _ h => h.elim) ?_
      rintro _ w₂ ⟨rfl, removed, h₂⟩
      exact ⟨_, h₁.trans h₂, .unplaced _ removed rfl⟩

theorem enter_calls {node : NodeId} (hn : node ∈ w.ids) (key : String) (fields : Record) :
    Ensures w (enter node key)
      (fun _ w' => Calls w [.asked node (.indexAdd (KeyHash.score key) key) (.ok ())] w')
      fun fault w' => ∃ events, Calls w events w' ∧
        Course w.registry.isSome node key fields
          (.asked node (.write key fields) (.ok fields.size) :: (consented w.registry.isSome node key ++ events))
          (.error fault) := by
  refine (ask_calls hn (.indexAdd (KeyHash.score key) key)).attempt_bind (fun _ w₁ h₁ => ensures_pure h₁)
    fun fault w₁ h₁ => ?_
  have hn₁ : node ∈ w₁.ids := h₁.ids ▸ hn
  refine ensures_hasRegistry_bind ?_
  rw [← h₁.registered]
  cases hr : w₁.registry.isSome with
  | false =>
    refine (undo_calls hn₁ key fault).mono (fun _ _ h => h.elim) ?_
    rintro _ w₂ ⟨rfl, removed, h₂⟩
    exact ⟨_, h₁.trans h₂, .unindexed _ removed rfl⟩
  | true =>
    have withdrawn : ∀ forgotten w₂, Calls w₁ [.consulted (.withdraw node key) forgotten] w₂ →
        Ensures w₂
          (do
            takeBack node key
            throw fault : Op ν ρ Unit)
          (fun _ w' => Calls w [.asked node (.indexAdd (KeyHash.score key) key) (.ok ())] w')
          fun fault w' => ∃ events, Calls w events w' ∧
            Course true node key fields
              (.asked node (.write key fields) (.ok fields.size) :: (consented true node key ++ events))
              (.error fault) := by
      intro forgotten w₂ h₂
      refine (undo_calls (h₂.ids ▸ hn₁) key fault).mono (fun _ _ h => h.elim) ?_
      rintro _ w₃ ⟨rfl, removed, h₃⟩
      exact ⟨_, h₁.trans (h₂.trans h₃), .withdrawn _ forgotten removed rfl⟩
    exact (consult_calls hr (.withdraw node key)).attempt_bind (fun _ w₂ h₂ => withdrawn _ w₂ h₂)
      fun _ w₂ h₂ => withdrawn _ w₂ h₂

/-! ## Choosing the node -/

/-- No node is chosen that is not in the cluster. -/
theorem choose_member (how : Selection) (w : Cluster ν ρ) :
    Ensures w (choose how) (fun node _ => node ∈ w.ids) fun _ _ => True := by
  refine ensures_inspect_bind ?_
  by_cases hne : w.ids = []
  · rw [hne]
    exact ensures_throw trivial
  rw [if_neg (by simpa using hne)]
  cases how with
  | random =>
    refine (ensures_draw (Q := fun i _ => i < w.ids.length) ?_).bind fun i _ hi => ensures_pure ?_
    · exact Nat.mod_lt _ (List.length_pos_iff.2 hne)
    · rw [List.getD_eq_getElem?_getD, List.getElem?_eq_getElem hi]
      exact List.getElem_mem hi
  | leastLoaded =>
    have counted := (permits_calls (ν := ν) (ρ := ρ) fun _ => True).counts (fun _ _ => trivial) w
    refine counted.andThen (fun _ _ _ => trivial) fun g w₁ h₁ => ensures_inspect_bind ?_
    obtain ⟨_, hc, -⟩ := h₁
    rw [hc.ids]
    rcases Selection.leastLoadedOf_cases (w.ids.map fun id => (id, g.results.get? id)) with ⟨hnone, -⟩ | h
    · rw [hnone]
      exact ensures_throw trivial
    · obtain ⟨i, node, count, hsome, hleast⟩ := h
      rw [hsome]
      obtain ⟨id, hid, he⟩ := List.mem_map.1 (List.mem_of_getElem? hleast.entry)
      obtain ⟨rfl, -⟩ := Prod.mk.inj he
      exact ensures_pure hid
  | registry =>
    have asked := (permits_calls (ν := ν) (ρ := ρ) fun _ => True).consult (.suggest w.ids) (fun _ => trivial) w
    refine ensures_inspect_bind (asked.andThen (fun _ _ _ => trivial) fun node w₁ h₁ => ensures_inspect_bind ?_)
    obtain ⟨_, hc, -⟩ := h₁
    split
    · rename_i hknown
      exact ensures_pure (hc.ids ▸ Dict.mem_keys.2 hknown)
    · exact ensures_throw trivial

theorem choose_calls (how : Selection) (w : Cluster ν ρ) :
    Ensures w (choose how)
      (fun node w' => (run (choose how) w).1 = .ok node ∧ node ∈ w.ids ∧
        ∃ events, Calls w events w' ∧ ∀ e ∈ events, e.chooses = true)
      fun fault w' => (run (choose how) w).1 = .error fault ∧
        ∃ events, Calls w events w' ∧ ∀ e ∈ events, e.chooses = true := by
  have called := (permits_calls (ν := ν) (ρ := ρ) (·.chooses = true)).choose (fun _ _ => rfl) (fun _ _ => rfl) how w
  refine ((ensures_self w (choose how)).and ((choose_member how w).and called)).mono ?_ ?_
  · rintro node w₁ ⟨hr, hmem, hcalls⟩
    exact ⟨congrArg Prod.fst hr, hmem, hcalls⟩
  · rintro fault w₁ ⟨hr, -, hcalls⟩
    exact ⟨congrArg Prod.fst hr, hcalls⟩

/-! ## The whole insert -/

theorem insert_takes (how : Selection) (key : String) (fields : Record) (w : Cluster ν ρ) :
    ∃ events, Calls w events (run (insert how key fields) w).2 ∧
      Path w.registry.isSome w.ids (run (choose how) w).1 key fields events (run (insert how key fields) w).1 := by
  refine Ensures.outcome (S := fun outcome w' => ∃ events, Calls w events w' ∧
    Path w.registry.isSome w.ids (run (choose how) w).1 key fields events outcome) ?_
  unfold insert
  split
  · rename_i hf
    exact ensures_throw ⟨[], .refl w, .empty hf⟩
  rename_i hf
  rw [Bool.not_eq_true] at hf
  refine (choose_calls how w).andThen ?_ ?_
  · rintro fault w₁ ⟨hch, choosing, hc, hchoose⟩
    exact ⟨choosing, hc, .unchosen hf hchoose hch⟩
  rintro node w₁ ⟨hch, hn, choosing, hc, hchoose⟩
  have chosen : ∀ {course outcome w'}, Calls w₁ course w' → Course w₁.registry.isSome node key fields course outcome →
      ∃ events, Calls w events w' ∧
        Path w.registry.isSome w.ids (run (choose how) w).1 key fields events outcome := fun hcalls hcourse =>
    ⟨_, hc.trans hcalls, .chosen hf hchoose hch hn (hc.registered ▸ hcourse)⟩
  have hn₁ : node ∈ w₁.ids := hc.ids ▸ hn
  refine (writeNew_calls hn₁ key fields).andThen ?_ fun _ w₂ h₂ => ?_
  · rintro fault w₂ ⟨event, h₂, hcourse⟩
    exact chosen h₂ (hcourse _)
  have hn₂ : node ∈ w₂.ids := h₂.ids ▸ hn₁
  refine (confirm_calls hn₂ key fields).andThen ?_ fun _ w₃ h₃ => ?_
  · rintro fault w₃ ⟨events, h₃, hcourse⟩
    exact chosen (h₂.trans h₃) (h₂.registered ▸ hcourse)
  have hn₃ : node ∈ w₃.ids := h₃.ids ▸ hn₂
  refine (enter_calls hn₃ key fields).andThen ?_ fun _ w₄ h₄ => ensures_pure ?_
  · rintro fault w₄ ⟨events, h₄, hcourse⟩
    rw [h₃.registered] at hcourse
    exact chosen (h₂.trans (h₃.trans h₄)) (h₂.registered ▸ hcourse)
  · refine chosen (h₂.trans (h₃.trans h₄)) ?_
    rw [← h₂.registered]
    cases hr : w₂.registry.isSome with
    | false => exact .indexed rfl
    | true => exact .placed rfl

/-- Whatever its calls are answered, an insert keeps to its protocol. -/
theorem insert_follows_protocol (how : Selection) (key : String) (fields : Record) (w : Cluster ν ρ) :
    ∃ events outcome w', run (insert how key fields) w = (outcome, w') ∧ w'.trace = w.trace ++ events ∧
      Protocol w.registry.isSome w.ids (run (choose how) w).1 key fields events outcome := by
  obtain ⟨events, hc, hpath⟩ := insert_takes how key fields w
  exact ⟨events, _, _, rfl, hc.trace, hpath.protocol⟩

def unindexing : Cluster Drill.Node Registry.Ledger where
  nodes := Dict.ofList [("b", {}),
    ("a", { plans := [{ meets := (· matches .indexAdd ..), effect := .fail (.connection .nodeUnreachable) }] })]
  registry := some {}

def oneField : Record := Dict.ofList [("f", "v")]

def undoing : List Event :=
  [.consulted (.suggest ["a", "b"]) (.ok "a"), .asked "a" (.write "k" oneField) (.ok 1),
    .consulted (.place "a" "k") (.ok true),
    .asked "a" (.indexAdd (KeyHash.score "k") "k") (.error (.connection .nodeUnreachable)),
    .consulted (.withdraw "a" "k") (.ok true), .asked "a" (.remove "k") (.ok ())]

theorem an_unindexed_record_is_taken_back :
    (run (insert .registry "k" oneField) unindexing).2.trace = undoing ∧
      Protocol true ["a", "b"] (.ok "a") "k" oneField undoing (.error (.connection .nodeUnreachable)) := by
  have hmade : (run (insert .registry "k" oneField) unindexing).2.trace = undoing := rfl
  have hfails : (run (insert .registry "k" oneField) unindexing).1 = .error (.connection .nodeUnreachable) := rfl
  obtain ⟨made, outcome, w, hrun, htrace, hprotocol⟩ := insert_follows_protocol .registry "k" oneField unindexing
  rw [hrun] at hmade hfails ⊢
  obtain rfl : undoing = made := hmade.symm.trans htrace
  obtain rfl : outcome = .error (.connection .nodeUnreachable) := hfails
  exact ⟨hmade, hprotocol⟩

end Cluster

end Placement
