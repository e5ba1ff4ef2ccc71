import Placement.Proofs.Footprint

/-!
The calls that a program makes, one after another.

`Calls w events w'` says that just these calls led from one cluster to the other. A step that reaches out makes one
call, which is on record with its answer: `ask_calls`, `consult_calls`. Where every call of a program is of one kind,
`permits_calls` finds them all.

`UpTo settles items answers` says that the items were gone through in order, as far as the first answer that settles the
matter.
-/

namespace Placement

def faultOf {α : Type} : Except Fault α → Option Fault
  | .ok _ => none
  | .error fault => some fault

@[simp] theorem faultOf_ok {α : Type} (a : α) : faultOf (.ok a) = none := rfl

@[simp] theorem faultOf_error {α : Type} (fault : Fault) : faultOf (.error fault : Except Fault α) = some fault := rfl

theorem isSome_faultOf_iff {α : Type} {outcome : Except Fault α} :
    (faultOf outcome).isSome = true ↔ ∃ fault, outcome = .error fault := by
  cases outcome <;> simp

/-! ## Answers up to the one that settles the matter -/

/-- The items were gone through one after another, up to the first whose answer settles the matter. -/
structure UpTo {ι α β : Type} (settles : ι × α → Option β) (items : List ι) (answers : List (ι × α)) : Prop where
  /-- No item is passed over. -/
  order : answers.map (·.1) <+: items
  /-- Nothing is behind an answer that settles the matter. -/
  last : ∀ before item answer after, answers = before ++ (item, answer) :: after →
    (settles (item, answer)).isSome = true → after = []
  /-- Without such an answer all items have been gone through. -/
  all : (∀ a ∈ answers, settles a = none) → answers.map (·.1) = items

namespace UpTo

variable {ι α β : Type} {settles : ι × α → Option β} {items : List ι} {answers : List (ι × α)} {item : ι} {answer : α}

theorem done : UpTo settles [] [] where
  order := List.prefix_rfl
  last before item answer after he := by simp at he
  all _ := rfl

theorem settled (h : (settles (item, answer)).isSome = true) : UpTo settles (item :: items) [(item, answer)] where
  order := ⟨items, rfl⟩
  last before item' answer' after he _ := by
    cases before with
    | nil => exact (List.cons.inj he).2.symm
    | cons a before => simp at he
  all hnone := by
    rw [hnone _ List.mem_cons_self] at h
    cases h

theorem goesOn (h : settles (item, answer) = none) (hrest : UpTo settles items answers) :
    UpTo settles (item :: items) ((item, answer) :: answers) where
  order := (List.prefix_cons_inj _).2 hrest.order
  last before item' answer' after he hs := by
    cases before with
    | nil =>
      obtain ⟨hhead, -⟩ := List.cons.inj he
      rw [← hhead, h] at hs
      cases hs
    | cons a before => exact hrest.last before item' answer' after (List.cons.inj he).2 hs
  all hnone := by
    rw [List.map_cons, hrest.all fun a ha => hnone a (List.mem_cons_of_mem _ ha)]

/-- One answer at most settles the matter, so what it settles is what the first such answer settles. -/
theorem findSome?_eq_some_iff (h : UpTo settles items answers) (b : β) :
    answers.findSome? settles = some b ↔ ∃ a ∈ answers, settles a = some b := by
  constructor
  · exact List.exists_of_findSome?_eq_some
  · rintro ⟨⟨item, answer⟩, ha, hb⟩
    obtain ⟨before, after, rfl⟩ := List.append_of_mem ha
    obtain rfl := h.last before item answer after rfl (by rw [hb]; rfl)
    have hbefore : before.findSome? settles = none := by
      refine List.findSome?_eq_none_iff.2 fun e he => ?_
      cases hs : settles e with
      | none => rfl
      | some b' =>
        obtain ⟨front, back, rfl⟩ := List.append_of_mem he
        have := h.last front e.1 e.2 (back ++ [(item, answer)]) (by simp) (by rw [hs]; rfl)
        simp at this
    rw [List.findSome?_append, hbefore, Option.none_or, List.findSome?_cons, hb]

end UpTo

end Placement

namespace Placement.Cluster

/-! ## Calls on record -/

variable {ν ρ : Type} {w w' w'' : Cluster ν ρ} {events events' : List Event}

/-- Just these calls were made. The nodes have the same names, and there is a registry if there was one. -/
structure Calls (w : Cluster ν ρ) (events : List Event) (w' : Cluster ν ρ) : Prop where
  trace : w'.trace = w.trace ++ events
  ids : w'.ids = w.ids
  registered : w'.registry.isSome = w.registry.isSome

theorem Calls.refl (w : Cluster ν ρ) : Calls w [] w := ⟨(List.append_nil _).symm, rfl, rfl⟩

theorem Calls.trans (h : Calls w events w') (h' : Calls w' events' w'') : Calls w (events ++ events') w'' where
  trace := by rw [h'.trace, h.trace, List.append_assoc]
  ids := h'.ids.trans h.ids
  registered := h'.registered.trans h.registered

theorem ask_calls [Store ν] {node : NodeId} (hn : node ∈ w.ids) (call : Store.Call) :
    Ensures w (ask node call) (fun a w' => Calls w [.asked node call (.ok a)] w')
      fun fault w' => Calls w [.asked node call (.error fault)] w' := by
  have kept : ∀ state, (w.nodes.insert node state).keys = w.nodes.keys := Dict.keys_insert (Dict.mem_keys.1 hn)
  refine ensures_ask (fun _ _ _ _ _ => ⟨rfl, kept _, rfl⟩) (fun _ _ _ _ _ => ⟨rfl, kept _, rfl⟩) fun hnone => ?_
  obtain ⟨state, hs⟩ := Dict.contains_iff.1 (Dict.mem_keys.1 hn)
  rw [hs] at hnone
  cases hnone

theorem consult_calls [Registry ρ] (hr : w.registry.isSome = true) (call : Registry.Call) :
    Ensures w (consult call) (fun a w' => Calls w [.consulted call (.ok a)] w')
      fun fault w' => Calls w [.consulted call (.error fault)] w' := by
  refine ensures_consult (fun _ _ _ _ _ => ⟨rfl, rfl, hr.symm⟩) (fun _ _ _ _ _ => ⟨rfl, rfl, hr.symm⟩) fun hnone => ?_
  rw [hnone] at hr
  cases hr

/-- A program whose calls are all of one kind makes some of that kind. -/
theorem permits_calls [Store ν] [Registry ρ] (kind : Event → Prop) :
    Permits (fun w w' : Cluster ν ρ => ∃ events, Calls w events w' ∧ ∀ e ∈ events, kind e)
      (fun call => ∀ node answer, kind (.asked node call answer))
      fun call => ∀ answer, kind (.consulted call answer) where
  refl w := ⟨[], .refl w, by simp⟩
  trans := by
    rintro w w' w'' ⟨events, hc, hk⟩ ⟨events', hc', hk'⟩
    refine ⟨events ++ events', hc.trans hc', fun e he => ?_⟩
    exact (List.mem_append.1 he).elim (hk e) (hk' e)
  ask node call hkind w := by
    have kept : ∀ state state', w.nodes.get? node = some state → (w.nodes.insert node state').keys = w.nodes.keys :=
      fun state state' hn => Dict.keys_insert (Dict.contains_iff.2 ⟨state, hn⟩) state'
    refine ensures_ask (fun _ _ _ hn _ => ?_) (fun _ _ _ hn _ => ?_) fun _ => ⟨[], .refl w, by simp⟩
    · exact ⟨[_], ⟨rfl, kept _ _ hn, rfl⟩, by simpa using hkind node _⟩
    · exact ⟨[_], ⟨rfl, kept _ _ hn, rfl⟩, by simpa using hkind node _⟩
  consult call hkind w := by
    refine ensures_advised (fun _ answer hr => ?_) fun _ => ⟨[], .refl w, by simp⟩
    exact ⟨[.consulted call answer], ⟨rfl, rfl, (congrArg Option.isSome hr).symm⟩, by simpa using hkind answer⟩
  draw bound w := ensures_draw ⟨[], ⟨(List.append_nil _).symm, rfl, rfl⟩, by simp⟩
  report s w := ensures_report ⟨[], ⟨(List.append_nil _).symm, rfl, rfl⟩, by simp⟩

end Placement.Cluster
