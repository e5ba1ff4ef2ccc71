import Placement.Proofs.Calls
import Placement.Proofs.Isolation

/-!
A delete stops at the first owner of the key.

A node owns the key if it answers `true` when it is asked to drop it. The nodes are asked one after another up to the
first owner (`Walk`), whatever those before it failed with; then the registry is told.

- `deleteFirst_walks`: which nodes are asked, and which failures count.
- `delete_stops_at_owner`: which calls a delete makes, and what it answers.
-/

namespace Placement

namespace Deletion

abbrev Answers := List (NodeId × Except Fault Bool)

def asked (key : String) (answers : Answers) : List Event :=
  answers.map fun a => .asked a.1 (.removeIndexed key) a.2

def failures (answers : Answers) : List (NodeId × Fault) := answers.filterMap fun a => FanOut.failureOf a.1 a.2

def Ownerless (answers : Answers) : Prop := ∀ node, (node, .ok true) ∉ answers

/-- Nodes are asked one after another until one owns the key. -/
inductive Walk : List NodeId → Answers → Option NodeId → Prop
  | done : Walk [] [] none
  | owned (node : NodeId) (rest : List NodeId) : Walk (node :: rest) [(node, .ok true)] (some node)
  | on {node : NodeId} {rest : List NodeId} {answer : Except Fault Bool} {answers : Answers} {owner : Option NodeId} :
    answer ≠ .ok true → Walk rest answers owner → Walk (node :: rest) ((node, answer) :: answers) owner

namespace Walk

variable {nodes : List NodeId} {answers : Answers} {owner : Option NodeId}

theorem order (h : Walk nodes answers owner) : answers.map (·.1) <+: nodes := by
  induction h with
  | done => exact List.prefix_rfl
  | owned node rest => exact ⟨rest, rfl⟩
  | on _ _ ih => exact (List.prefix_cons_inj _).2 ih

theorem mem_iff (h : Walk nodes answers owner) (node : NodeId) : (node, .ok true) ∈ answers ↔ owner = some node := by
  induction h with
  | done => simp
  | owned other rest => simp [eq_comm]
  | on hne _ ih =>
    rw [List.mem_cons, ih]
    exact or_iff_right fun he => hne (congrArg Prod.snd he).symm

theorem owner_mem {node : NodeId} (h : Walk nodes answers (some node)) : (node, .ok true) ∈ answers :=
  (h.mem_iff node).2 rfl

theorem last (h : Walk nodes answers owner) {before after : Answers} {node : NodeId}
    (he : answers = before ++ (node, .ok true) :: after) : after = [] := by
  induction h generalizing before with
  | done => simp at he
  | owned other rest =>
    cases before with
    | nil => exact (List.cons.inj he).2.symm
    | cons a before => simp at he
  | on hne _ ih =>
    cases before with
    | nil => exact absurd (congrArg Prod.snd (List.cons.inj he).1) hne
    | cons a before => exact ih (List.cons.inj he).2

theorem all (h : Walk nodes answers none) : answers.map (·.1) = nodes := by
  induction nodes generalizing answers with
  | nil =>
    cases h
    rfl
  | cons node rest ih =>
    cases h with
    | on _ hrest => rw [List.map_cons, ih hrest]

theorem ownerless (h : Walk nodes answers none) : Ownerless answers := fun node hmem => by
  cases (h.mem_iff node).1 hmem

end Walk

/-- Without an owner and without failures, every node has answered that it does not own the key. -/
theorem failures_eq_nil {answers : Answers} (h : Ownerless answers) :
    failures answers = [] ↔ ∀ a ∈ answers, a.2 = .ok false := by
  rw [failures, List.filterMap_eq_nil_iff]
  refine forall₂_congr fun a ha => ?_
  obtain ⟨node, fault | _ | _⟩ := a
  · simp [FanOut.failureOf]
  · simp [FanOut.failureOf]
  · exact absurd ha (h node)

/-- What a delete asks, in order, and what it answers. -/
structure StopsAtOwner (key : String) (ids : List NodeId) (registered : Bool) (answers : Answers) (told : List Event)
    (outcome : Except Fault (Option NodeId)) : Prop where
  /-- The nodes are asked in ascending order, and none is passed over. -/
  ascending : (answers.map (·.1)).Pairwise (· < ·)
  order : answers.map (·.1) <+: ids
  /-- No node is asked behind an owner, and all are if there is none. -/
  last : ∀ before node after, answers = before ++ (node, .ok true) :: after → after = []
  all : Ownerless answers → answers.map (·.1) = ids
  /-- The registry is told once of an owner, and otherwise of nothing. -/
  informed : ∀ node, (node, .ok true) ∈ answers → registered = true →
    ∃ answer, told = [.consulted (.withdraw node key) answer]
  uninformed : Ownerless answers ∨ registered = false → told = []
  /-- The owner is what is answered, unless the registry failed. -/
  deleted : ∀ node, outcome = .ok (some node) ↔
    (node, .ok true) ∈ answers ∧ ∀ fault, .consulted (.withdraw node key) (.error fault) ∉ told
  refused : ∀ node fault, .consulted (.withdraw node key) (.error fault) ∈ told → outcome = .error fault
  /-- Without an owner the failures are what is answered, or that there is nothing. -/
  absent : outcome = .ok none ↔ ∀ a ∈ answers, a.2 = .ok false
  failed : Ownerless answers → failures answers ≠ [] →
    ∃ causes, outcome = .error (.aggregate causes) ∧ causes.toList = failures answers

namespace Walk

variable {ids : List NodeId} {answers : Answers} {node : NodeId}

theorem stops_without_owner (h : Walk ids answers none) (hasc : ids.Pairwise (· < ·)) (key : String)
    (registered : Bool) :
    StopsAtOwner key ids registered answers []
      (match Fault.ofFailures (failures answers) with
        | some fault => .error fault
        | none => .ok none) where
  ascending := h.all ▸ hasc
  order := h.order
  last _ _ _ := h.last
  all _ := h.all
  informed node hmem := absurd hmem (h.ownerless node)
  uninformed _ := rfl
  deleted node := by
    have hnone := h.ownerless node
    cases Fault.ofFailures (failures answers) <;> simp [hnone]
  refused := by simp
  absent := by
    rw [← failures_eq_nil h.ownerless, ← Causes.ofList?_eq_none, Fault.ofFailures]
    cases Causes.ofList? (failures answers) <;> simp
  failed _ hne := by
    obtain ⟨causes, hcauses⟩ := Option.ne_none_iff_exists'.1 (mt Causes.ofList?_eq_none.1 hne)
    refine ⟨causes, ?_, Causes.toList_of_ofList? hcauses⟩
    rw [Fault.ofFailures, hcauses]
    rfl

/-- What the registry says, if it is asked, decides whether the owner is answered. -/
theorem stops_at_owner (h : Walk ids answers (some node)) (hasc : ids.Pairwise (· < ·)) (key : String)
    (said : Option (Except Fault Bool)) :
    StopsAtOwner key ids said.isSome answers (said.toList.map fun answer => .consulted (.withdraw node key) answer)
      (match said with
        | some (.error fault) => .error fault
        | _ => .ok (some node)) where
  ascending := hasc.sublist h.order.sublist
  order := h.order
  last _ _ _ := h.last
  all hnone := absurd h.owner_mem (hnone node)
  informed other hother hreg := by
    obtain ⟨answer, rfl⟩ := Option.isSome_iff_exists.1 hreg
    cases (h.mem_iff other).1 hother
    exact ⟨answer, rfl⟩
  uninformed hor := by
    rcases hor with hnone | hreg
    · exact absurd h.owner_mem (hnone node)
    · cases said with
      | none => rfl
      | some answer => cases hreg
  deleted other := by
    rw [h.mem_iff]
    rcases said with _ | fault | forgotten <;> simp [eq_comm]
  refused other fault := by
    rcases said with _ | fault' | forgotten <;> simp [eq_comm]
  absent := by
    have hfalse : ¬ ∀ a ∈ answers, a.2 = .ok false := fun hall => by cases hall _ h.owner_mem
    refine ⟨fun he => ?_, fun hall => absurd hall hfalse⟩
    rcases said with _ | fault | forgotten <;> cases he
  failed hnone := absurd h.owner_mem (hnone node)

end Walk

end Deletion

namespace Cluster

open Deletion

variable {ν ρ : Type} [Store ν] {w : Cluster ν ρ}

/-- Whatever the nodes answer, they are asked up to the first owner. Failures count only if there is none. -/
theorem deleteFirst_walks (key : String) {nodes : List NodeId} (hn : ∀ node ∈ nodes, node ∈ w.ids)
    (failed : List (NodeId × Fault)) :
    Ensures w (deleteFirst key failed nodes)
      (fun owner w' => ∃ answers, Walk nodes answers owner ∧ Calls w (asked key answers) w' ∧
        (owner = none → failed ++ failures answers = []))
      fun fault w' => ∃ answers, Walk nodes answers none ∧ Calls w (asked key answers) w' ∧
        Fault.ofFailures (failed ++ failures answers) = some fault := by
  induction nodes generalizing w failed with
  | nil =>
    rw [deleteFirst, unlessFailed]
    split
    · rename_i fault hf
      exact ensures_throw ⟨[], .done, .refl w, by rwa [failures, List.filterMap_nil, List.append_nil]⟩
    · rename_i hf
      refine ensures_pure ⟨[], .done, .refl w, fun _ => ?_⟩
      rw [failures, List.filterMap_nil, List.append_nil]
      simpa [Fault.ofFailures, Causes.ofList?_eq_none] using hf
  | cons node rest ih =>
    -- behind an answer that is not an owner's, the rest of the walk goes on with the failures so far
    have goesOn : ∀ {answer : Except Fault Bool} {w₁ : Cluster ν ρ}, answer ≠ .ok true →
        Calls w [.asked node (.removeIndexed key) answer] w₁ →
        Ensures w₁ (deleteFirst key (failed ++ (FanOut.failureOf node answer).toList) rest)
          (fun owner w' => ∃ answers, Walk (node :: rest) answers owner ∧ Calls w (asked key answers) w' ∧
            (owner = none → failed ++ failures answers = []))
          fun fault w' => ∃ answers, Walk (node :: rest) answers none ∧ Calls w (asked key answers) w' ∧
            Fault.ofFailures (failed ++ failures answers) = some fault := by
      intro answer w₁ hne hc
      have hfailed : ∀ answers, failed ++ failures ((node, answer) :: answers) =
          failed ++ (FanOut.failureOf node answer).toList ++ failures answers := by
        intro answers
        cases answer <;> simp [failures, FanOut.failureOf]
      refine (ih (fun other ho => hc.ids ▸ hn other (List.mem_cons_of_mem _ ho)) _).mono ?_ ?_
      · rintro owner w₂ ⟨answers, hwalk, hc', hnone⟩
        exact ⟨(node, answer) :: answers, .on hne hwalk, hc.trans hc', fun ho => hfailed _ ▸ hnone ho⟩
      · rintro fault w₂ ⟨answers, hwalk, hc', hfault⟩
        exact ⟨(node, answer) :: answers, .on hne hwalk, hc.trans hc', hfailed _ ▸ hfault⟩
    refine (ask_calls (hn node List.mem_cons_self) (.removeIndexed key)).attempt_bind (fun owns w₁ h₁ => ?_)
      fun fault w₁ h₁ => goesOn (by simp) h₁
    cases owns with
    | true => exact ensures_pure ⟨[(node, .ok true)], .owned node rest, h₁, fun ho => by cases ho⟩
    | false => simpa [FanOut.failureOf] using goesOn (by simp) h₁

variable [Registry ρ]

/-- A delete asks the nodes one after another up to the first owner, then tells the registry, and answers with the owner
or with what went wrong. -/
theorem delete_stops_at_owner (key : String) (w : Cluster ν ρ) :
    ∃ answers told outcome w', run (delete key) w = (outcome, w') ∧ w'.trace = w.trace ++ asked key answers ++ told ∧
      StopsAtOwner key w.ids w.registry.isSome answers told outcome := by
  suffices h : ∃ answers told, Calls w (asked key answers ++ told) (run (delete key) w).2 ∧
      StopsAtOwner key w.ids w.registry.isSome answers told (run (delete key) w).1 by
    obtain ⟨answers, told, hc, hs⟩ := h
    exact ⟨answers, told, _, _, rfl, hc.trace.trans (List.append_assoc ..).symm, hs⟩
  have hasc := w.nodes.keys_ascending
  refine Ensures.outcome (S := fun outcome w' => ∃ answers told, Calls w (asked key answers ++ told) w' ∧
    StopsAtOwner key w.ids w.registry.isSome answers told outcome) ?_
  refine (deleteFirst_walks key (fun _ hn => hn) []).andThen ?_ ?_
  · rintro fault w₁ ⟨answers, hwalk, hc, hfault⟩
    have stops := hwalk.stops_without_owner hasc key w.registry.isSome
    rw [List.nil_append] at hfault
    rw [hfault] at stops
    exact ⟨answers, [], by rwa [List.append_nil], stops⟩
  · rintro (_ | node) w₁ ⟨answers, hwalk, hc, hnone⟩
    · have stops := hwalk.stops_without_owner hasc key w.registry.isSome
      rw [show failures answers = [] from hnone rfl] at stops
      exact ensures_pure ⟨answers, [], by rwa [List.append_nil], stops⟩
    · refine ensures_hasRegistry_bind ?_
      have stops := hwalk.stops_at_owner hasc key
      cases hr : w₁.registry.isSome with
      | false =>
        rw [hc.registered] at hr
        rw [hr]
        exact ensures_pure ⟨answers, [], by rwa [List.append_nil], stops none⟩
      | true =>
        have told := consult_calls (w := w₁) hr (.withdraw node key)
        rw [hc.registered] at hr
        rw [hr]
        refine told.andThen (fun fault w₂ h₂ => ?_) fun forgotten w₂ h₂ => ensures_pure ?_
        · exact ⟨answers, _, hc.trans h₂, stops (some (.error fault))⟩
        · exact ⟨answers, _, hc.trans h₂, stops (some (.ok forgotten))⟩

end Cluster

end Placement
