import Placement.Drill.Registry
import Placement.Proofs.Views

/-!
What a failed insert leaves behind.

Between its write and its undoing an insert makes no call that changes a record (`Untouched`), so what it leaves
is what the undoing leaves (`TakenBack`). The undoing drops the whole record of the key, whatever part of it the
write had put there.

- `failed_insert_undone`: what is left once the undoing has gone through.
- `an_undo_loses_older_fields`: it may be less than there was.
-/

namespace Placement.Cluster

variable {ν ρ : Type} [Store ν] {spared : Store.Call → Prop}

/-- No record has changed, and nothing was asked for that would change one. -/
structure Untouched (B : Store.Backing ν spared) (w w' : Cluster ν ρ) : Prop where
  records : B.recordsOn w' = B.recordsOn w
  known : ∀ node, w.nodes.contains node = true → w'.nodes.contains node = true
  events : ∃ events, w'.trace = w.trace ++ events ∧
    ∀ node call answer, .asked node call answer ∈ events → call.sparesRecords = true

/-- The record of the key was asked to be dropped, and nothing else that would change a record. -/
def TakenBack (B : Store.Backing ν spared) (node : NodeId) (key : String) (w w' : Cluster ν ρ) : Prop :=
  ∃ events answer, w'.trace = w.trace ++ events ++ [.asked node (.remove key) answer] ∧
    (∀ node call answer, .asked node call answer ∈ events → call.sparesRecords = true) ∧
    (answer = .ok () →
      ∀ other, B.recordsOn w' other = if node = other then (B.recordsOn w other).erase key else B.recordsOn w other)

variable {B : Store.Backing ν spared} {w w' w'' : Cluster ν ρ} {node : NodeId} {key : String}

omit [Store ν] in
theorem known_answered {call : Store.Call} {answer : Except Fault call.Answer} {state : ν} {other : NodeId}
    (h : w.nodes.contains other = true) : (w.answered node call answer state).nodes.contains other = true := by
  show (w.nodes.insert node state).contains other = true
  rw [Dict.contains_insert, h, Bool.or_true]

theorem spares_append {events events' : List Event}
    (h : ∀ node call answer, .asked node call answer ∈ events → call.sparesRecords = true)
    (h' : ∀ node call answer, .asked node call answer ∈ events' → call.sparesRecords = true) :
    ∀ node call answer, .asked node call answer ∈ events ++ events' → call.sparesRecords = true := by
  intro node call answer hm
  rcases List.mem_append.1 hm with hm | hm
  · exact h _ _ _ hm
  · exact h' _ _ _ hm

theorem Untouched.refl (B : Store.Backing ν spared) (w : Cluster ν ρ) : Untouched B w w :=
  ⟨rfl, fun _ h => h, [], (List.append_nil _).symm, by simp⟩

theorem Untouched.trans (h : Untouched B w w') (h' : Untouched B w' w'') : Untouched B w w'' := by
  obtain ⟨events, ht, hs⟩ := h.events
  obtain ⟨events', ht', hs'⟩ := h'.events
  refine ⟨h'.records.trans h.records, fun node hn => h'.known node (h.known node hn), events ++ events', ?_, ?_⟩
  · rw [ht', ht, List.append_assoc]
  · exact spares_append hs hs'

theorem TakenBack.after (h' : TakenBack B node key w' w'') (h : Untouched B w w') : TakenBack B node key w w'' := by
  obtain ⟨events, ht, hs⟩ := h.events
  obtain ⟨events', answer, ht', hs', hrec⟩ := h'
  refine ⟨events ++ events', answer, ?_, spares_append hs hs', ?_⟩
  · simp only [ht', ht, List.append_assoc]
  · rwa [h.records] at hrec

theorem takeBack_takes {E : Fault → Cluster ν ρ → Prop} (hk : w.nodes.contains node = true) :
    Ensures w (takeBack node key) (fun _ w' => TakenBack B node key w w') E := by
  have removed : Ensures w (ask node (.remove key)) (fun _ w' => TakenBack B node key w w')
      fun _ w' => TakenBack B node key w w' := by
    refine ensures_ask (fun state a state' hn hp => ?_) (fun state fault state' hn hp => ?_) fun hn => ?_
    · refine ⟨[], .ok a, by simp [answered], by simp, ?_⟩
      intro _ other
      rw [B.recordsOn_answered]
      split
      · rename_i he
        rw [(B.ok hp).2.2, ← he, B.recordsOn_of_get? hn]
        rfl
      · rfl
    · exact ⟨[], .error fault, by simp [answered], by simp, fun he => by cases he⟩
    · rw [Dict.contains_eq_false.2 hn] at hk
      cases hk
  exact removed.attempt_bind (fun _ _ hw => ensures_pure hw) fun _ _ hw => ensures_pure hw

/-! ## The steps of an insert -/

variable [Registry ρ]

theorem permits_untouched (B : Store.Backing ν spared) :
    Permits (Untouched B : Cluster ν ρ → Cluster ν ρ → Prop) (fun call => call.sparesRecords = true) fun _ => True where
  refl := Untouched.refl B
  trans := Untouched.trans
  ask node call hc w := by
    have asked : ∀ (answer : Except Fault call.Answer) (state : ν), ∃ events,
        (w.answered node call answer state).trace = w.trace ++ events ∧
          ∀ node call answer, .asked node call answer ∈ events → call.sparesRecords = true := by
      refine fun answer state => ⟨[.asked node call answer], rfl, fun node' call' answer' hm => ?_⟩
      cases List.mem_singleton.1 hm
      exact hc
    refine ensures_ask (fun state a state' hn hp => ⟨?_, fun _ => known_answered, asked _ _⟩)
      (fun state fault state' hn hp => ⟨?_, fun _ => known_answered, asked _ _⟩) fun _ => .refl B w
    · refine B.recordsOn_answered_of_eq hn ?_ _
      rw [(B.ok hp).2.2]
      exact Store.Memory.records_serve hc _
    · exact B.recordsOn_answered_of_eq hn (by rw [B.error hp]) _
  consult call _ w := by
    refine ensures_advised (fun state answer _ => ?_) fun _ => .refl B w
    exact ⟨rfl, fun _ h => h, [.consulted call answer], rfl, by simp⟩
  draw _ w := ensures_draw ⟨rfl, fun _ h => h, [], (List.append_nil _).symm, by simp⟩
  report _ w := ensures_report ⟨rfl, fun _ h => h, [], (List.append_nil _).symm, by simp⟩

/-- The write of a new record: only the record of its key on its node may differ. -/
structure Written (B : Store.Backing ν spared) (node : NodeId) (key : String) (fields : Record) (w w' : Cluster ν ρ) :
    Prop where
  trace : w'.trace = w.trace ++ [.asked node (.write key fields) (.ok fields.size)]
  known : w'.nodes.contains node = true
  elsewhere : ∀ other, node ≠ other → B.recordsOn w' other = B.recordsOn w other
  here : (B.recordsOn w' node).erase key = (B.recordsOn w node).erase key

def Unwritten (key : String) (fields : Record) (w w' : Cluster ν ρ) : Prop :=
  ∃ events, w'.trace = w.trace ++ events ∧ ∀ node, .asked node (.write key fields) (.ok fields.size) ∉ events

omit [Registry ρ] in
theorem writeNew_writes (B : Store.Backing ν spared) (w : Cluster ν ρ) (node : NodeId) (key : String)
    (fields : Record) :
    Ensures w (writeNew node key fields) (fun _ w' => Written B node key fields w w')
      fun _ w' => Unwritten key fields w w' := by
  have asked : Ensures w (ask node (.write key fields))
      (fun written w' => if written = fields.size then Written B node key fields w w' else Unwritten key fields w w')
      fun _ w' => Unwritten key fields w w' := by
    refine ensures_ask (fun state a state' hn hp => ?_) (fun state fault state' hn hp => ?_) fun _ => ?_
    · have hm := (B.ok hp).2.2
      split
      · rename_i ha
        refine ⟨by rw [← ha]; rfl, by simp [answered, Dict.contains_insert], ?_, ?_⟩
        · intro other hne
          rw [B.recordsOn_answered, if_neg hne]
        · rw [B.recordsOn_answered, if_pos rfl, hm, B.recordsOn_of_get? hn]
          exact Store.Memory.erase_write ..
      · rename_i ha
        exact ⟨[.asked node (.write key fields) (.ok a)], rfl, by simpa using Ne.symm ha⟩
    · exact ⟨[.asked node (.write key fields) (.error fault)], rfl, by simp⟩
    · exact ⟨[], (List.append_nil _).symm, by simp⟩
  refine asked.bind fun written w' hw => ?_
  split
  · rename_i hne
    rw [if_neg hne] at hw
    exact ensures_throw hw
  · rename_i he
    rw [if_pos (Decidable.not_not.1 he)] at hw
    exact ensures_pure hw

omit [Registry ρ] in
/-- A failure after the write, with what came before it. -/
theorem undo_takes (fault : Fault) (hk : w.nodes.contains node = true) (h : Untouched B w w') :
    Ensures w'
      (do
        takeBack node key
        throw fault : Op ν ρ Unit)
      (fun _ w' => Untouched B w w') fun _ w' => TakenBack B node key w w' :=
  (takeBack_takes (h.known node hk)).bind fun _ _ h' => ensures_throw (h'.after h)

theorem confirm_takes (hk : w.nodes.contains node = true) :
    Ensures w (confirm node key) (fun _ w' => Untouched B w w') fun _ w' => TakenBack B node key w w' := by
  refine ensures_hasRegistry_bind ?_
  cases w.registry.isSome with
  | false => exact ensures_pure (.refl B w)
  | true =>
    have consulted := (permits_untouched B).consult (.place node key) trivial w
    refine consulted.attempt_bind (fun confirmed w₁ h₁ => ?_) fun fault w₁ h₁ => undo_takes fault hk h₁
    cases confirmed with
    | false => exact undo_takes _ hk h₁
    | true => exact ensures_pure h₁

theorem enter_takes (hk : w.nodes.contains node = true) :
    Ensures w (enter node key) (fun _ w' => Untouched B w w') fun _ w' => TakenBack B node key w w' := by
  have indexed := (permits_untouched (ρ := ρ) B).ask node (.indexAdd (KeyHash.score key) key) rfl w
  refine indexed.attempt_bind (fun _ w₁ h₁ => ensures_pure h₁) fun fault w₁ h₁ => ?_
  refine ensures_hasRegistry_bind ?_
  cases w₁.registry.isSome with
  | false => exact undo_takes fault hk h₁
  | true =>
    have withdrawn := (permits_untouched B).consult (.withdraw node key) trivial w₁
    exact withdrawn.attempt_bind (fun _ w₂ h₂ => undo_takes fault hk (h₁.trans h₂)) fun _ w₂ h₂ =>
      undo_takes fault hk (h₁.trans h₂)

/-- The key was not written as new, or it was and the write was taken back. -/
def Undone (B : Store.Backing ν spared) (key : String) (fields : Record) (w w' : Cluster ν ρ) : Prop :=
  Unwritten key fields w w' ∨
    ∃ node w₁ w₂, Untouched B w w₁ ∧ Written B node key fields w₁ w₂ ∧ TakenBack B node key w₂ w'

omit [Registry ρ] in
theorem Unwritten.after {fields : Record} (h' : Unwritten key fields w' w'') (h : Untouched B w w') :
    Unwritten key fields w w'' := by
  obtain ⟨events, ht, hs⟩ := h.events
  obtain ⟨events', ht', hn⟩ := h'
  refine ⟨events ++ events', by rw [ht', ht, List.append_assoc], ?_⟩
  intro node hm
  rcases List.mem_append.1 hm with hm | hm
  · have := hs _ _ _ hm
    cases this
  · exact hn node hm

omit [Registry ρ] in
theorem Untouched.undone {fields : Record} (h : Untouched B w w') : Undone B key fields w w' :=
  .inl (Unwritten.after ⟨[], (List.append_nil _).symm, by simp⟩ h)

/-- An insert that fails has not written or has undone its write. -/
theorem insert_undone (B : Store.Backing ν spared) (w : Cluster ν ρ) (how : Selection) (key : String)
    (fields : Record) :
    Ensures w (insert how key fields) (fun _ _ => True) fun _ w' => Undone B key fields w w' := by
  unfold insert
  split
  · exact ensures_throw (Untouched.refl B w).undone
  · have chosen := (permits_untouched B).choose rfl (fun _ => trivial) how w
    refine chosen.andThen (fun _ w₁ h₁ => h₁.undone) fun node w₁ h₁ => ?_
    refine (writeNew_writes B w₁ node key fields).andThen (fun _ w₂ h₂ => .inl (h₂.after h₁)) fun _ w₂ h₂ => ?_
    refine (confirm_takes (B := B) h₂.known).andThen (fun _ w₃ h₃ => ?_) fun _ w₃ h₃ => ?_
    · exact .inr ⟨node, w₁, w₂, h₁, h₂, h₃⟩
    have entered : Ensures w₃ (enter node key) _ fun _ w' => TakenBack B node key w₃ w' :=
      enter_takes (h₃.known node h₂.known)
    refine entered.andThen (fun _ w₄ h₄ => ?_) fun _ w₄ h₄ => ensures_pure trivial
    exact .inr ⟨node, w₁, w₂, h₁, h₂, h₄.after h₃⟩

omit [Registry ρ] in
/-- Of the calls that change records there are two: the write and what takes it back. -/
theorem undone_changes {fields : Record} {w₁ w₂ : Cluster ν ρ} {events : List Event} (h₁ : Untouched B w w₁)
    (h₂ : Written B node key fields w₁ w₂) (h₃ : TakenBack B node key w₂ w') (ht : w'.trace = w.trace ++ events) :
    ∃ answer, .asked node (.remove key) answer ∈ events ∧
      (∀ n call answer', call.sparesRecords = false → .asked n call answer' ∈ events →
        Event.asked n call answer' = .asked node (.write key fields) (.ok fields.size) ∨
          Event.asked n call answer' = .asked node (.remove key) answer) ∧
      (answer = .ok () → ∀ other,
        B.recordsOn w' other = if node = other then (B.recordsOn w other).erase key else B.recordsOn w other) := by
  obtain ⟨events₁, ht₁, hs₁⟩ := h₁.events
  obtain ⟨events₂, answer, ht₂, hs₂, hrec⟩ := h₃
  -- the calls in their order: choosing, the write, whatever led to the undoing, the removal
  have hevents : events = events₁ ++ [.asked node (.write key fields) (.ok fields.size)] ++ events₂ ++
      [.asked node (.remove key) answer] := by
    rw [ht, h₂.trace, ht₁] at ht₂
    simpa only [List.append_assoc, List.append_cancel_left_eq] using ht₂
  refine ⟨answer, by simp [hevents], ?_, ?_⟩
  · intro n call answer' hc hm
    rw [hevents] at hm
    simp only [List.mem_append, List.mem_singleton] at hm
    rcases hm with ((hm | hm) | hm) | hm
    · rw [hs₁ _ _ _ hm] at hc
      cases hc
    · exact .inl hm
    · rw [hs₂ _ _ _ hm] at hc
      cases hc
    · exact .inr hm
  · intro hdone other
    rw [hrec hdone other]
    split
    · rename_i he
      rw [← he, h₂.here, h₁.records]
    · rename_i he
      rw [h₂.elsewhere other he, h₁.records]

omit [Registry ρ] in
/-- Dropping a record leaves all as it was if and only if there was no such record. -/
theorem dropped_eq_iff
    (h : ∀ other, B.recordsOn w' other = if node = other then (B.recordsOn w other).erase key else B.recordsOn w other) :
    B.recordsOn w' = B.recordsOn w ↔ (B.recordsOn w node).contains key = false := by
  constructor
  · intro hsame
    rw [← hsame, h, if_pos rfl, Dict.contains_erase]
    simp
  · intro hheld
    funext other
    rw [h]
    split
    · rename_i he
      rw [← he, Dict.erase_of_get? (Dict.contains_eq_false.1 hheld)]
    · rfl

/-- What an insert leaves that got past its write and failed then: it has asked its node to drop the record, and if the
node has done so, then all records are as they were but the one of the key on that node, which is gone. So nothing is
lost if and only if the node held no record of the key. -/
theorem failed_insert_undone (B : Store.Backing ν spared) {how : Selection} {key : String} {fields : Record}
    {w w' : Cluster ν ρ} {fault : Fault} {events : List Event} {node : NodeId}
    (hr : run (insert how key fields) w = (.error fault, w')) (ht : w'.trace = w.trace ++ events)
    (hw : .asked node (.write key fields) (.ok fields.size) ∈ events) :
    (∃ answer, .asked node (.remove key) answer ∈ events) ∧
      (.asked node (.remove key) (.ok ()) ∈ events →
        (∀ other, B.recordsOn w' other =
          if node = other then (B.recordsOn w other).erase key else B.recordsOn w other) ∧
          (B.recordsOn w' = B.recordsOn w ↔ (B.recordsOn w node).contains key = false)) := by
  obtain ⟨events', ht', hn⟩ | ⟨node', w₁, w₂, h₁, h₂, h₃⟩ := (insert_undone B w how key fields).error hr
  · rw [ht, List.append_cancel_left_eq] at ht'
    exact absurd (ht' ▸ hw) (hn node)
  obtain ⟨answer, hasked, changes, hrec⟩ := undone_changes h₁ h₂ h₃ ht
  have hnode : node' = node := by
    rcases changes _ _ _ rfl hw with he | he
    · cases he
      rfl
    · cases he
  subst hnode
  refine ⟨⟨answer, hasked⟩, ?_⟩
  intro hdone
  have hanswer : answer = .ok () := by
    rcases changes _ _ _ rfl hdone with he | he
    · cases he
    · cases he
      rfl
  have left := hrec hanswer
  exact ⟨left, dropped_eq_iff left⟩

def declining : Cluster Store.Memory Drill.Registry where
  nodes := Dict.ofList [("a", { records := Dict.ofList [("user1", Dict.ofList [("f0", "v0")])] })]
  registry := some { rejects := true }

theorem declined_insert_undone :
    (Store.Backing.self fun _ => False).recordsOn
        (run (insert .random "user2" (Dict.ofList [("f0", "v1")])) declining).2 =
      (Store.Backing.self fun _ => False).recordsOn declining := by
  let fields : Record := Dict.ofList [("f0", "v1")]
  let events : List Event :=
    [.asked "a" (.write "user2" fields) (.ok fields.size), .consulted (.place "a" "user2") (.ok false),
      .asked "a" (.remove "user2") (.ok ())]
  have hr : run (insert .random "user2" fields) declining =
      (.error (.placementRejected "a" "user2"), (run (insert .random "user2" fields) declining).2) := rfl
  have ht : (run (insert .random "user2" fields) declining).2.trace = declining.trace ++ events := rfl
  have undone := failed_insert_undone (Store.Backing.self fun _ => False) hr ht (.head _)
  exact (undone.2 (.tail _ (.tail _ (.head _)))).2.2 rfl

/-- The record had other fields than the insert brings, so the write passes for that of a new record; the undoing then
takes the older fields along. -/
theorem an_undo_loses_older_fields :
    ∃ fault left, run (insert .random "user1" (Dict.ofList [("f1", "v1")])) declining = (.error fault, left) ∧
      left.trace =
        declining.trace ++
          [.asked "a" (.write "user1" (Dict.ofList [("f1", "v1")])) (.ok 1),
            .consulted (.place "a" "user1") (.ok false), .asked "a" (.remove "user1") (.ok ())] ∧
      (Store.Backing.self fun _ => False).recordsOn left "a" ≠
        (Store.Backing.self fun _ => False).recordsOn declining "a" :=
  ⟨_, _, rfl, rfl, by decide⟩

end Placement.Cluster
