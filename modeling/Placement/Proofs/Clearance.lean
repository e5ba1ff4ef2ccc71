import Placement.Proofs.Lapse
import Placement.Proofs.RoundTrip

/-!
What a delete clears, and what it leaves.

Nodes are memories that can be used; the registry gives no key a second place, and may decline and fail as it likes.
Then every record has an index entry beside it, and the node of an index entry is the place of its key (`Tidy`). One
step only breaks this, the write of a new record, which is spared until it is indexed or taken back. So the keys of a
node that a delete walks over are the keys it is to drop, and no node is left with a trace of the key. The registry is
asked only if a node held the record: a placement that no record stands for stays.

- `tidy_after`: what one request keeps.
- `delete_sweeps`: what a delete comes to.
- `delete_of_nothing_drops_halves`: what it comes to where records and index entries stand alone, and finds no pair.
- `delete_clears`: what a delete comes to after any run.
-/

namespace Placement

def Store.Call.brings : Store.Call → Bool
  | .write .. | .indexAdd .. | .close => true
  | _ => false

theorem Store.Call.brings_of_looks (call : Call) (h : call.looks = true) : call.brings = false := by
  cases call <;> first | rfl | cases h

namespace Cluster

open Registry (Guarded)
open Store.Call (brings_of_looks)

variable {ρ : Type} [Registry ρ] {G : Guarded ρ} {spare : Option (NodeId × String)} {w w' : Cluster Store.Memory ρ}
  {node : NodeId} {key : String}

/-- There is a registry, and every node can be used. Beside every record but the spared one is an index entry of its
key, and index entries are nowhere but at the place of their key. -/
structure Tidy (G : Guarded ρ) (spare : Option (NodeId × String)) (w : Cluster Store.Memory ρ) : Prop where
  registered : w.registry.isSome = true
  usable : Usable w
  indexed : ∀ node key, (w.memory node).records.contains key = true →
    spare = some (node, key) ∨ (w.memory node).index.contains key = true
  owned : ∀ node key, (w.memory node).index.contains key = true → G.owns w node key = true

namespace Tidy

theorem intact (h : Tidy G spare w) (hs : Intact w w') : Tidy G spare w' where
  registered := hs.2 ▸ h.registered
  usable := hs.usable h.usable
  indexed := hs.memory ▸ h.indexed
  owned node key hi := by
    rw [hs.memory] at hi
    rw [Guarded.owns, hs.2]
    exact h.owned node key hi

/-- A node may come to have whatever is spared or indexed, and index entries for what the registry has there. -/
theorem served {call : Store.Call} {answer : call.Answer} (h : Tidy G spare w) (hs : Served node call w answer w')
    (hcall : call ≠ .close)
    (hrecords : ∀ key, (w'.memory node).records.contains key = true →
      spare = some (node, key) ∨ (w'.memory node).index.contains key = true)
    (hindex : ∀ key, (w'.memory node).index.contains key = true → G.owns w node key = true) : Tidy G spare w' where
  registered := hs.registry ▸ h.registered
  usable other := by
    rw [hs.memory]
    split
    · exact (Store.Memory.obstacle_serve hcall _).trans hs.usable
    · exact h.usable other
  indexed other key hc := by
    by_cases he : node = other
    · exact he ▸ hrecords key (he ▸ hc)
    · have hsame : w'.memory other = w.memory other := by rw [hs.memory, if_neg he]
      rw [hsame] at hc ⊢
      exact h.indexed other key hc
  owned other key hi := by
    rw [Guarded.owns, hs.registry]
    by_cases he : node = other
    · exact he ▸ hindex key (he ▸ hi)
    · rw [hs.memory, if_neg he] at hi
      exact h.owned other key hi

/-- The registry may do anything that takes no place from an index entry. -/
theorem advised {call : Registry.Call} {state state' : ρ} (h : Tidy G spare w) (hr : w.registry = some state)
    (hk : ∀ node key, (w.memory node).index.contains key = true → (G.ledger state).owns node key = true →
      (G.ledger state').owns node key = true)
    (answer : Except Fault call.Answer) : Tidy G spare (w.advised call answer state') where
  registered := rfl
  usable := h.usable
  indexed := h.indexed
  owned node key hi := by
    have ho := h.owned node key hi
    rw [G.owns_of_registry hr] at ho
    exact hk node key hi ho

theorem spared (h : Tidy G none w) (spare : Option (NodeId × String)) : Tidy G spare w where
  registered := h.registered
  usable := h.usable
  indexed node key hc := .inr ((h.indexed node key hc).resolve_left (by simp))
  owned := h.owned

/-- What is spared need not be if it is not there, or has its index entry. -/
theorem settled (h : Tidy G (some (node, key)) w)
    (hs : (w.memory node).records.contains key = false ∨ (w.memory node).index.contains key = true) :
    Tidy G none w where
  registered := h.registered
  usable := h.usable
  indexed other key' hc := by
    rcases h.indexed other key' hc with he | hi
    · cases he
      exact .inr (hs.resolve_left (by simp [hc]))
    · exact .inr hi
  owned := h.owned

end Tidy

/-! ## Single calls -/

/-- All calls but writes, entries, closing and withdrawals. -/
theorem permits_tidy (G : Guarded ρ) (spare : Option (NodeId × String)) :
    Permits (fun w w' : Cluster Store.Memory ρ => Tidy G spare w → Tidy G spare w') (fun call => call.brings = false)
      fun call => ∀ node key, call ≠ .withdraw node key where
  refl _ h := h
  trans h h' ht := h' (h ht)
  ask node call hc w := by
    have hclose : call ≠ .close := by
      rintro rfl
      cases hc
    refine (ask_served hclose w node).mono (fun a w' hs h => ?_) fun _ w' hs h => h.intact hs.1
    have hm : w'.memory node = (Store.Memory.serve call (w.memory node)).2 := by rw [hs.memory, if_pos rfl]
    refine h.served hs hclose (fun key hrecord => ?_) fun key hentry => ?_
    · rw [hm] at hrecord ⊢
      cases call with
      | remove key' =>
        rw [Store.Memory.serve, Dict.contains_erase, Bool.and_eq_true] at hrecord
        exact h.indexed node key hrecord.2
      | removeIndexed key' =>
        rw [Store.Memory.serve, Dict.contains_erase, Bool.and_eq_true] at hrecord
        refine (h.indexed node key hrecord.2).imp_right fun hi => ?_
        rw [Store.Memory.serve, Dict.contains_erase, hrecord.1, hi]
        rfl
      | flush => cases hrecord
      | write | indexAdd | close => cases hc
      | _ => exact h.indexed node key hrecord
    · rw [hm] at hentry
      cases call with
      | removeIndexed key' =>
        rw [Store.Memory.serve, Dict.contains_erase, Bool.and_eq_true] at hentry
        exact h.owned node key hentry.2
      | flush => cases hentry
      | write | indexAdd | close => cases hc
      | _ => exact h.owned node key hentry
  consult call hw w := ensures_advised
    (fun state answer hr h => h.advised hr (fun _ _ _ ho => G.perform_keeps hw state ho) answer) fun _ h => h
  draw _ _ := ensures_draw fun h => ⟨h.registered, h.usable, h.indexed, h.owned⟩
  report _ _ := ensures_report fun h => ⟨h.registered, h.usable, h.indexed, h.owned⟩

/-- A write spares its record. -/
theorem Tidy.written {fields : Record} {written : Nat} (h : Tidy G none w)
    (hs : Served node (.write key fields) w written w') : Tidy G (some (node, key)) w' := by
  have hm : w'.memory node = (w.memory node).write key fields := by
    rw [hs.memory, if_pos rfl]
    rfl
  refine (h.spared _).served hs (by simp) (fun key' hrecord => ?_) fun key' hentry => ?_
  · rw [hm, Store.Memory.contains_write, Bool.or_eq_true, Bool.and_eq_true] at hrecord
    rcases hrecord with hrecord | ⟨he, -⟩
    · right
      rw [hm, Store.Memory.index_write]
      exact (h.indexed node key' hrecord).resolve_left (by simp)
    · left
      rw [of_decide_eq_true he]
  · rw [hm, Store.Memory.index_write] at hentry
    exact h.owned node key' hentry

theorem Overwritten.tidy {fields : Record} (h : Overwritten key fields w w') (ht : Tidy G none w) :
    Tidy G none w' := by
  rcases h with h | ⟨node, written, hheld, hserved⟩
  · exact ht.intact h
  · refine (ht.written hserved).settled (.inr ?_)
    rw [hserved.memory, if_pos rfl, Store.Memory.serve, Store.Memory.index_write]
    exact (ht.indexed node key hheld).resolve_left (by simp)

/-! ## Inserting -/

/-- Taking the spared record back ends the sparing. -/
theorem takeBack_tidy (h : Tidy G (some (node, key)) w) (hn : node ∈ w.ids) :
    Ensures w (takeBack node key) (fun _ w' => Tidy G none w') fun _ _ => False := by
  have asked := ((permits_tidy G (some (node, key))).ask node (.remove key) rfl w).and (ask_served (by simp) w node)
  refine asked.attempt_bind (fun _ w₁ h₁ => ensures_pure ?_) fun _ _ hfail => absurd (h.usable node) (hfail.2.2 hn)
  refine (h₁.1 h).settled (.inl ?_)
  rw [h₁.2.memory, if_pos rfl, Store.Memory.serve, Dict.contains_erase]
  simp

/-- The spared record is placed, or it is taken back. -/
theorem confirm_tidy (h : Tidy G (some (node, key)) w) (hn : node ∈ w.ids) :
    Ensures w (confirm node key)
      (fun _ w' => Tidy G (some (node, key)) w' ∧ node ∈ w'.ids ∧ G.owns w' node key = true)
      fun _ w' => Tidy G none w' := by
  have undone : ∀ {w₁ : Cluster Store.Memory ρ} (fault : Fault), Tidy G (some (node, key)) w₁ ∧ node ∈ w₁.ids →
      Ensures w₁
        (do
          takeBack node key
          throw fault : Op Store.Memory ρ Unit)
        (fun _ w' => Tidy G (some (node, key)) w' ∧ node ∈ w'.ids ∧ G.owns w' node key = true)
        fun _ w' => Tidy G none w' := by
    intro w₁ fault h₁
    exact (takeBack_tidy h₁.1 h₁.2).andThen (fun _ _ hf => hf.elim) fun _ _ h₂ => ensures_throw h₂
  have placed : Ensures w (consult (.place node key))
      (fun confirmed w' => (Tidy G (some (node, key)) w' ∧ node ∈ w'.ids) ∧
        (confirmed = true → G.owns w' node key = true))
      fun _ w' => Tidy G (some (node, key)) w' ∧ node ∈ w'.ids := by
    have kept := (permits_tidy G (some (node, key))).consult (.place node key) (by simp) w
    have known : Ensures w (consult (.place node key)) (fun _ w' => node ∈ w'.ids) fun _ w' => node ∈ w'.ids :=
      ensures_advised (fun _ _ _ => hn) fun _ => hn
    exact ((kept.and known).and (G.place_owns node key w)).mono (fun _ _ hw => ⟨⟨hw.1.1 h, hw.1.2⟩, hw.2⟩)
      fun _ _ hw => ⟨hw.1.1 h, hw.1.2⟩
  refine ensures_hasRegistry_bind ?_
  rw [h.registered]
  refine placed.attempt_bind (fun confirmed w₁ h₁ => ?_) fun fault w₁ h₁ => undone fault h₁
  cases confirmed with
  | false => exact undone _ h₁.1
  | true => exact ensures_pure ⟨h₁.1.1, h₁.1.2, h₁.2 rfl⟩

/-- The spared record gets its index entry at the place of its key. -/
theorem enter_tidy (h : Tidy G (some (node, key)) w) (hn : node ∈ w.ids) (ho : G.owns w node key = true) :
    Ensures w (enter node key) (fun _ w' => Tidy G none w') fun _ _ => False := by
  refine (ask_served (by simp) w node).attempt_bind (fun _ w₁ hs => ensures_pure ?_) fun _ _ hfail =>
    absurd (h.usable node) (hfail.2 hn)
  have hm : w₁.memory node =
      { w.memory node with index := (w.memory node).index.insert key (KeyHash.score key) } := by
    rw [hs.memory, if_pos rfl]
    rfl
  have kept : Tidy G (some (node, key)) w₁ := by
    refine h.served hs (by simp) (fun key' hrecord => ?_) fun key' hentry => ?_
    · rw [hm] at hrecord ⊢
      refine (h.indexed node key' hrecord).imp_right fun hi => ?_
      rw [Dict.contains_insert, hi, Bool.or_true]
    · rw [hm, Dict.contains_insert, Bool.or_eq_true] at hentry
      rcases hentry with he | hentry
      · rwa [← of_decide_eq_true he]
      · exact h.owned node key' hentry
  refine kept.settled (.inr ?_)
  rw [hm, Dict.contains_insert]
  simp

theorem insert_tidy (h : Tidy G none w) (how : Selection) (key : String) (fields : Record) :
    Ensures w (insert how key fields) (fun _ w' => Tidy G none w') fun _ w' => Tidy G none w' := by
  unfold insert
  split
  · exact ensures_throw h
  have chosen := (permits_tidy G none).choose rfl (by simp) how w
  refine chosen.andThen (fun _ _ h₁ => h₁ h) fun node w₁ h₁ => ?_
  refine (writeNew_writes_fields w₁ node key fields).andThen (fun _ _ h₂ => h₂.1.tidy (h₁ h)) fun _ w₂ h₂ => ?_
  have hn₂ : node ∈ w₂.ids := h₂.ids ▸ h₂.member
  refine (confirm_tidy ((h₁ h).written h₂) hn₂).bind fun _ w₃ h₃ => ?_
  obtain ⟨ht₃, hn₃, ho₃⟩ := h₃
  exact (enter_tidy ht₃ hn₃ ho₃).andThen (fun _ _ hf => hf.elim) fun _ w₄ h₄ => ensures_pure h₄

/-! ## Deleting -/

def without (key : String) (m : Store.Memory) : Store.Memory := (Store.Memory.serve (.removeIndexed key) m).2

theorem without_contains (key : String) (m : Store.Memory) :
    (without key m).records.contains key = false ∧ (without key m).index.contains key = false := by
  simp [without, Store.Memory.serve, Dict.contains_erase]

theorem without_without (key : String) (m : Store.Memory) : without key (without key m) = without key m :=
  Store.Memory.serve_removeIndexed_of_absent (without_contains key m).1 (without_contains key m).2

/-- No other node than that of a record has a trace of its key. -/
theorem Tidy.elsewhere (h : Tidy G none w) (hheld : (w.memory node).records.contains key = true) {other : NodeId}
    (hne : node ≠ other) : without key (w.memory other) = w.memory other := by
  have ho := h.owned node key ((h.indexed node key hheld).resolve_left (by simp))
  have hindex : (w.memory other).index.contains key = false :=
    Bool.eq_false_iff.2 fun hi => hne (G.owns_unique ho (h.owned other key hi))
  have hrecord : (w.memory other).records.contains key = false :=
    Bool.eq_false_iff.2 fun hr => by simp [(h.indexed other key hr).resolve_left (by simp)] at hindex
  exact Store.Memory.serve_removeIndexed_of_absent hrecord hindex

def entire (key : String) (m : Store.Memory) : Bool := m.records.contains key && m.index.contains key

/-- The nodes that a delete asks: those up to the first that holds both. -/
def visited (key : String) (w : Cluster Store.Memory ρ) : List NodeId → List NodeId
  | [] => []
  | node :: rest => node :: if entire key (w.memory node) then [] else visited key w rest

omit [Registry ρ] in
/-- Where a delete stops depends only on which nodes hold both. -/
theorem visited_congr (h : ∀ node, entire key (w'.memory node) = entire key (w.memory node)) (nodes : List NodeId) :
    visited key w' nodes = visited key w nodes := by
  induction nodes with
  | nil => rfl
  | cons node rest ih => rw [visited, visited, h, ih]

omit [Registry ρ] in
theorem mem_of_visited {nodes : List NodeId} (h : node ∈ visited key w nodes) : node ∈ nodes := by
  induction nodes with
  | nil => exact h
  | cons other rest ih =>
    rw [visited] at h
    rcases List.mem_cons.1 h with rfl | h
    · exact List.mem_cons_self
    · split at h
      · cases h
      · exact List.mem_cons_of_mem _ (ih h)

omit [Registry ρ] in
/-- The walk passes a node over only if it has ended at another. -/
theorem entire_of_not_visited {nodes : List NodeId} (hn : node ∈ nodes) (h : node ∉ visited key w nodes) :
    ∃ owner, owner ≠ node ∧ entire key (w.memory owner) = true := by
  induction nodes with
  | nil => cases hn
  | cons other rest ih =>
    rw [visited, List.mem_cons, not_or] at h
    obtain ⟨hne, h⟩ := h
    by_cases howner : entire key (w.memory other) = true
    · exact ⟨other, Ne.symm hne, howner⟩
    · rw [if_neg howner] at h
      exact ih ((List.mem_cons.1 hn).resolve_left hne) h

omit [Registry ρ] in
/-- The walk drops the key from every node that it asks, also from those that held a half only. -/
theorem deleteFirst_visits (key : String) {nodes : List NodeId} (hn : ∀ node ∈ nodes, node ∈ w.ids) (hu : Usable w) :
    Ensures w (deleteFirst key [] nodes)
      (fun deleted w' => deleted = nodes.find? (fun node => entire key (w.memory node)) ∧ w'.ids = w.ids ∧
        w'.registry = w.registry ∧
        ∀ node, w'.memory node = if node ∈ visited key w nodes then without key (w.memory node) else w.memory node)
      fun _ _ => False := by
  induction nodes generalizing w with
  | nil => exact ensures_pure ⟨rfl, rfl, rfl, fun _ => rfl⟩
  | cons node rest ih =>
    have hnode := hn node List.mem_cons_self
    refine (ask_served (by simp) w node).attempt_bind (fun both w₁ hs => ?_) fun _ _ hfail =>
      absurd (hu node) (hfail.2 hnode)
    have hm₁ : ∀ other, w₁.memory other = if node = other then without key (w.memory node) else w.memory other :=
      hs.memory
    have hboth : both = entire key (w.memory node) := hs.answer
    rw [List.find?_cons, visited, ← hboth]
    cases both with
    | true =>
      refine ensures_pure ⟨rfl, hs.ids, hs.registry, fun other => ?_⟩
      rw [hm₁]
      by_cases he : node = other
      · subst he
        simp
      · simp [he, Ne.symm he]
    | false =>
      -- the rest of the walk is over the nodes as this one has left them
      have hu₁ : Usable w₁ := fun other => by
        rw [hm₁]
        split
        · exact (Store.Memory.obstacle_serve (c := .removeIndexed key) (by simp) _).trans (hu node)
        · exact hu other
      -- what the node held of the key was a half, and now it is nothing
      have hsame : ∀ other, entire key (w₁.memory other) = entire key (w.memory other) := by
        intro other
        rw [hm₁]
        split
        · rename_i he
          rw [entire, (without_contains key _).1, ← he, ← hboth, Bool.false_and]
        · rfl
      refine (ih (fun other ho => hs.ids ▸ hn other (List.mem_cons_of_mem _ ho)) hu₁).mono
        (fun deleted w₂ h₂ => ⟨?_, h₂.2.1.trans hs.ids, h₂.2.2.1.trans hs.registry, fun other => ?_⟩) fun _ _ hf => hf
      · rw [h₂.1]
        simp only [hsame]
      · rw [h₂.2.2.2, visited_congr hsame, hm₁]
        by_cases he : node = other
        · subst he
          simp [without_without]
        · simp [he, Ne.symm he]

/-- Walking over nodes drops the key from all of them, although the walk ends at the first that holds the record. -/
theorem deleteFirst_sweeps (key : String) {nodes : List NodeId} (hn : ∀ node ∈ nodes, node ∈ w.ids)
    (h : Tidy G none w) :
    Ensures w (deleteFirst key [] nodes)
      (fun deleted w' => deleted = nodes.find? (fun node => (w.memory node).records.contains key) ∧
        w'.registry = w.registry ∧
        ∀ node, w'.memory node = if node ∈ nodes then without key (w.memory node) else w.memory node)
      fun _ _ => False := by
  have hentire : ∀ node, entire key (w.memory node) = (w.memory node).records.contains key := by
    intro node
    rw [entire]
    cases hheld : (w.memory node).records.contains key with
    | false => rfl
    | true => rw [(h.indexed node key hheld).resolve_left (by simp)]; rfl
  refine (deleteFirst_visits key hn h.usable).mono (fun deleted w' hw => ?_) fun _ _ hf => hf
  obtain ⟨hdeleted, -, hregistry, hmemory⟩ := hw
  simp only [hentire] at hdeleted
  refine ⟨hdeleted, hregistry, fun node => ?_⟩
  rw [hmemory]
  by_cases hv : node ∈ visited key w nodes
  · rw [if_pos hv, if_pos (mem_of_visited hv)]
  rw [if_neg hv]
  split
  · rename_i hnode
    -- the node is not asked, but behind the holder of the record no node has a trace of the key
    obtain ⟨owner, hne, howner⟩ := entire_of_not_visited hnode hv
    exact (h.elsewhere (hentire owner ▸ howner) hne).symm
  · rfl

/-- What was asked of the registry, if anything, did not fail. -/
def Obliged (events : List Event) : Prop := ∀ call fault, Event.consulted call (.error fault) ∉ events

/-- The registry has no place for the key if it had none before, or some node held a record of it; otherwise it still
has one. -/
def Forgotten (G : Guarded ρ) (key : String) (w w' : Cluster Store.Memory ρ) : Prop :=
  ∃ before after, w.registry = some before ∧ w'.registry = some after ∧
    ((G.ledger after).placements.get? key = none ↔
      (G.ledger before).placements.get? key = none ∨ ∃ node, (w.memory node).records.contains key = true)

/-- No node has a trace of the key; the registry has forgotten it if it did not fail. -/
structure Swept (G : Guarded ρ) (key : String) (w w' : Cluster Store.Memory ρ) : Prop where
  tidy : Tidy G none w'
  memory : ∀ node, w'.memory node = without key (w.memory node)
  events : ∃ events, w'.trace = w.trace ++ events ∧ (Obliged events → Forgotten G key w w')

/-- Whatever is done, what has happened before stays in the trace. -/
theorem permits_extends :
    Permits (fun w w' : Cluster Store.Memory ρ => w.trace <+: w'.trace) (fun _ => True) fun _ => True where
  refl _ := List.prefix_rfl
  trans h h' := h.trans h'
  ask _ _ _ _ := ensures_ask (fun _ _ _ _ _ => List.prefix_append ..) (fun _ _ _ _ _ => List.prefix_append ..)
    fun _ => List.prefix_rfl
  consult _ _ _ := ensures_advised (fun _ _ _ => List.prefix_append ..) fun _ => List.prefix_rfl
  draw _ _ := ensures_draw List.prefix_rfl
  report _ _ := ensures_report List.prefix_rfl

/-- The place of a key without an index entry may go or stay. It goes if the withdrawal is answered. -/
theorem withdraw_forgets (hf : G.Forthright) (h : Tidy G none w)
    (hgone : ∀ node, (w.memory node).index.contains key = false) (ho : G.owns w node key = true) :
    Ensures w (consult (.withdraw node key))
      (fun answer w' => Tidy G none w' ∧ w'.memory = w.memory ∧
        w'.trace = w.trace ++ [.consulted (.withdraw node key) (.ok answer)] ∧
        ∃ after, w'.registry = some after ∧ (G.ledger after).placements.get? key = none)
      fun fault w' => Tidy G none w' ∧ w'.memory = w.memory ∧
        w'.trace = w.trace ++ [.consulted (.withdraw node key) (.error fault)] := by
  have kept : Ensures w (consult (.withdraw node key)) (fun _ w' => Tidy G none w' ∧ w'.memory = w.memory)
      fun _ w' => Tidy G none w' ∧ w'.memory = w.memory := by
    refine ensures_advised (fun state answer hr => ⟨h.advised hr (fun other key' hi hother => ?_) answer, rfl⟩)
      fun _ => ⟨h, rfl⟩
    refine G.withdraw_keeps state hother ?_
    rintro ⟨-, rfl⟩
    simp [hgone other] at hi
  have told : Ensures w (consult (.withdraw node key))
      (fun answer w' => w'.trace = w.trace ++ [.consulted (.withdraw node key) (.ok answer)] ∧
        ∃ after, w'.registry = some after ∧ (G.ledger after).placements.get? key = none)
      fun fault w' => w'.trace = w.trace ++ [.consulted (.withdraw node key) (.error fault)] := by
    refine ensures_consult (fun state a state' hr hp => ⟨rfl, state', rfl, ?_⟩) (fun _ _ _ _ _ => rfl) fun hr => ?_
    · have hforgotten := hf node key state a (by rw [hp])
      rw [hp] at hforgotten
      rw [hforgotten]
      rw [G.owns_of_registry hr] at ho
      exact Registry.Ledger.get?_withdraw ho
    · exact absurd h.registered (by simp [hr])
  exact (kept.and told).mono (fun _ _ hw => ⟨hw.1.1, hw.1.2, hw.2⟩) fun _ _ hw => ⟨hw.1.1, hw.1.2, hw.2⟩

/-- A delete sweeps all nodes, whether it is answered in the end or not. -/
theorem delete_sweeps (hf : G.Forthright) (h : Tidy G none w) (key : String) :
    Ensures w (delete key) (fun _ w' => Swept G key w w') fun _ w' => Swept G key w w' := by
  obtain ⟨before, hbefore⟩ := Option.isSome_iff_exists.1 h.registered
  have swept := deleteFirst_sweeps key (fun _ hn => hn) h
  have tidied := (permits_tidy G none).deleteFirst key rfl [] w.ids w
  have extended := (permits_extends (ρ := ρ)).deleteFirst key trivial [] w.ids w
  refine ((swept.and tidied).and extended).andThen (fun _ _ hfail => hfail.1.1.elim) fun deleted w₁ h₁ => ?_
  obtain ⟨⟨⟨hdeleted, hregistry, hmemory⟩, htidy⟩, events, ht⟩ := h₁
  have hmemory₁ : ∀ node, w₁.memory node = without key (w.memory node) := by
    intro node
    rw [hmemory]
    split
    · rfl
    · rename_i hn
      rw [memory_of_unknown hn]
      rfl
  have hreg₁ : w₁.registry = some before := hregistry.trans hbefore
  cases deleted with
  | none =>
    -- no node held the record, and the registry is not asked
    have hnone : ¬ ∃ node, (w.memory node).records.contains key = true := fun ⟨node, hheld⟩ =>
      List.find?_eq_none.1 hdeleted.symm node (mem_ids_of_held hheld) hheld
    exact ensures_pure
      ⟨htidy h, hmemory₁, events, ht.symm, fun _ => ⟨before, before, hbefore, hreg₁, (or_iff_left hnone).symm⟩⟩
  | some node =>
    have hheld : (w.memory node).records.contains key = true :=
      List.find?_some (p := fun node => (w.memory node).records.contains key) hdeleted.symm
    -- a record is at the place the registry has for it, so the withdrawal is from there
    have howned : G.owns w₁ node key = true := by
      rw [Guarded.owns, hregistry]
      exact h.owned node key ((h.indexed node key hheld).resolve_left (by simp))
    have hgone : ∀ node, (w₁.memory node).index.contains key = false := by
      intro node
      rw [hmemory₁]
      exact (without_contains _ _).2
    have withdrawn : Ensures w₁ (consult (.withdraw node key)) (fun _ w' => Swept G key w w')
        fun _ w' => Swept G key w w' := by
      refine (withdraw_forgets hf (htidy h) hgone howned).mono (fun answer w₂ h₂ => ?_) fun fault w₂ h₂ => ?_
      · obtain ⟨ht₂, hm₂, htrace, after, hafter, hnone⟩ := h₂
        refine ⟨ht₂, hm₂ ▸ hmemory₁, events ++ [_], by rw [htrace, ← ht, List.append_assoc], fun _ => ?_⟩
        exact ⟨before, after, hbefore, hafter, iff_of_true hnone (.inr ⟨node, hheld⟩)⟩
      · obtain ⟨ht₂, hm₂, htrace⟩ := h₂
        refine ⟨ht₂, hm₂ ▸ hmemory₁, events ++ [_], by rw [htrace, ← ht, List.append_assoc], fun hobliged => ?_⟩
        exact absurd (by simp) (hobliged (.withdraw node key) fault)
    refine ensures_hasRegistry_bind ?_
    rw [hreg₁]
    exact withdrawn.bind fun _ _ h₂ => ensures_pure h₂

/-! ## Halves -/

theorem delete_visits (key : String) (hu : Usable w) :
    Ensures w (delete key)
      (fun deleted w' => deleted = w.ids.find? (fun node => entire key (w.memory node)) ∧
        (deleted = none → w'.ids = w.ids ∧ w'.registry = w.registry ∧
          ∀ node, w'.memory node = without key (w.memory node)))
      fun _ _ => ∃ node ∈ w.ids, entire key (w.memory node) = true := by
  refine (deleteFirst_visits key (fun _ hn => hn) hu).andThen (fun _ _ hf => hf.elim) fun deleted w₁ h₁ => ?_
  obtain ⟨hdeleted, hids, hregistry, hmemory⟩ := h₁
  cases deleted with
  | none =>
    refine ensures_pure ⟨hdeleted, fun _ => ⟨hids, hregistry, fun node => ?_⟩⟩
    rw [hmemory]
    split
    · rfl
    rename_i hv
    by_cases hn : node ∈ w.ids
    · obtain ⟨owner, -, howner⟩ := entire_of_not_visited hn hv
      exact absurd howner (List.find?_eq_none.1 hdeleted.symm owner (mem_ids_of_held (Bool.and_eq_true_iff.1 howner).1))
    · rw [memory_of_unknown hn]
      rfl
  | some node =>
    have found : entire key (w.memory node) = true :=
      List.find?_some (p := fun node => entire key (w.memory node)) hdeleted.symm
    have hnode : node ∈ w.ids := List.mem_of_find?_eq_some hdeleted.symm
    refine ensures_hasRegistry_bind ?_
    cases w₁.registry.isSome with
    | false => exact ensures_pure ⟨hdeleted, fun hn => by cases hn⟩
    | true =>
      have told := ensures_self w₁ (consult (.withdraw node key))
      exact told.andThen (fun _ _ _ => ⟨node, hnode, found⟩) fun _ _ _ =>
        ensures_pure ⟨hdeleted, fun hn => by cases hn⟩

/-- A delete on nodes that can be used answers that there is nothing to delete if and only if no node held both the
record and its index entry. It has then dropped the halves that nodes did hold: the nodes are as they were if and only
if none held any. -/
theorem delete_of_nothing_drops_halves (key : String) (hu : Usable w) :
    ∃ outcome w', run (delete key) w = (outcome, w') ∧
      (outcome = .ok none ↔
        ∀ node, ¬ ((w.memory node).records.contains key = true ∧ (w.memory node).index.contains key = true)) ∧
      (outcome = .ok none →
        w'.ids = w.ids ∧ w'.registry = w.registry ∧
          (∀ node, w'.memory node =
            { w.memory node with
              records := (w.memory node).records.erase key, index := (w.memory node).index.erase key }) ∧
          (w'.memory = w.memory ↔
            ∀ node, (w.memory node).records.contains key = false ∧ (w.memory node).index.contains key = false)) := by
  have halves : (∀ node ∈ w.ids, ¬ entire key (w.memory node) = true) ↔
      ∀ node, ¬ ((w.memory node).records.contains key = true ∧ (w.memory node).index.contains key = true) := by
    simp only [entire, Bool.and_eq_true]
    exact ⟨fun h node hboth => h node (mem_ids_of_held hboth.1) hboth, fun h node _ => h node⟩
  rcases hr : run (delete key) w with ⟨outcome, w'⟩
  refine ⟨outcome, w', rfl, ?_, ?_⟩
  · rw [← halves]
    cases outcome with
    | error fault =>
      obtain ⟨node, hn, howner⟩ := (delete_visits key hu).error hr
      exact iff_of_false (by simp) fun h => h node hn howner
    | ok deleted => rw [Except.ok.injEq, ((delete_visits key hu).ok hr).1, List.find?_eq_none]
  · rintro rfl
    obtain ⟨hids, hregistry, hleft⟩ := ((delete_visits key hu).ok hr).2 rfl
    refine ⟨hids, hregistry, hleft, fun hsame node => ?_, fun h => ?_⟩
    · rw [← hsame, hleft]
      exact without_contains key _
    · funext node
      rw [hleft]
      exact Store.Memory.serve_removeIndexed_of_absent (h node).1 (h node).2

def halved : Cluster Store.Memory Drill.LapsingMap where
  nodes := Dict.ofList
    [("a", { records := Dict.ofList [("user1", Dict.ofList [("f0", "v0")])] }),
      ("b", { index := Dict.ofList [("user1", KeyHash.score "user1")] })]

theorem halved_usable : Usable halved := fun node => by
  simp only [memory, halved, Dict.ofList, List.foldl_cons, List.foldl_nil, Dict.get?_insert, Dict.get?_empty]
  repeat' split
  all_goals rfl

theorem halved_loses_its_halves :
    ∃ w', run (delete "user1") halved = (.ok none, w') ∧ w'.memory ≠ halved.memory ∧
      (w'.memory "a").records = Dict.empty ∧ (w'.memory "b").index = Dict.empty := by
  obtain ⟨outcome, w', hr, -, hleft⟩ := delete_of_nothing_drops_halves "user1" halved_usable
  have nothing : (run (delete "user1") halved).1 = .ok none := by decide
  rw [hr] at nothing
  obtain rfl : outcome = .ok none := nothing
  obtain ⟨-, -, hmemory, hsame⟩ := hleft rfl
  refine ⟨w', hr, fun h => ?_, ?_, ?_⟩
  · exact absurd (hsame.1 h "a").1 (by decide)
  · rw [hmemory]
    decide
  · rw [hmemory]
    decide

/-- A delete that finds nothing to delete may have removed something. -/
theorem a_failed_delete_removes_a_record :
    Usable halved ∧ (run (delete "user1") halved).1 = .ok none ∧
      (halved.memory "a").records.get? "user1" = some (Dict.ofList [("f0", "v0")]) ∧
      ((run (delete "user1") halved).2.memory "a").records.get? "user1" = none ∧
      (halved.memory "b").index.contains "user1" = true ∧
      ((run (delete "user1") halved).2.memory "b").index.contains "user1" = false :=
  ⟨halved_usable, by decide, by decide, by decide, by decide, by decide⟩

/-! ## Requests -/

theorem tidy_after (hf : G.Forthright) (h : Tidy G none w) (how : Selection) {q : Coordinator.Request}
    (hq : q.closes = false) : Tidy G none (q.after how w) := by
  have tidied : ∀ {α : Type} {op : Op Store.Memory ρ α},
      Within (fun w w' => Tidy G none w → Tidy G none w') op → Tidy G none (run op w).2 := fun hop => (hop w).left h
  have permitted := permits_tidy G none
  have located := permitted.readLocated brings_of_looks (by simp) (by simp)
  cases q with
  | insert key fields => exact (insert_tidy h how key fields).left
  | read key names into => exact tidied (permitted.read brings_of_looks located key names)
  | update key fields =>
    have written := updateFirst_writes key fields (fun node (hn : node ∈ w.ids) => hn) []
    exact Ensures.left (written.mono (fun _ _ hw => hw.tidy h) fun _ _ hw => hw.tidy h)
  | delete key => exact ((delete_sweeps hf h key).mono (fun _ _ hw => hw.tidy) fun _ _ hw => hw.tidy).left
  | scan start count names into => exact tidied (permitted.scan brings_of_looks located start count names)
  | recordCounts => exact tidied (permitted.bind (permitted.counts rfl) fun _ => permitted.lift _)
  | flush thenClose =>
    obtain rfl : thenClose = false := hq
    exact tidied (permitted.flushAll rfl false fun hc => by cases hc)
  | cleanup => cases hq

end Cluster

namespace Coordinator

open Cluster (Tidy)
open Registry (Guarded)

variable {ρ : Type} [Registry ρ] {c : Coordinator Store.Memory ρ}

/-- Any requests that give no node up, made to nodes that are empty at first beside a registry that gives no key a
second place, however it fails: after a delete no node has a record or an index entry of the key. If the registry was
not asked or did not fail, it has no place for the key if and only if it had none before or some node held a record of
the key; a place without a record stays. -/
theorem delete_clears (G : Guarded ρ) (hf : G.Forthright) (hnew : AllNew c)
    (hreg : c.cluster.registry.isSome = true) {requests : List Request} (hopen : ∀ q ∈ requests, q.closes = false)
    (key : String) :
    let left := (serveAll requests c).2
    let cleared := (delete key left).2
    (∀ node state, cleared.cluster.nodes.get? node = some state →
      state.records.contains key = false ∧ state.index.contains key = false) ∧
    ∃ events, cleared.cluster.trace = left.cluster.trace ++ events ∧
      ((∀ call fault, Event.consulted call (.error fault) ∉ events) →
        ∃ before after, left.cluster.registry = some before ∧ cleared.cluster.registry = some after ∧
          ((G.ledger after).placements.get? key = none ↔
            (G.ledger before).placements.get? key = none ∨
              ∃ node state, left.cluster.nodes.get? node = some state ∧ state.records.contains key = true)) := by
  -- requests keep the nodes tidy, beginning with new ones, which hold nothing
  have htidy : Tidy G none (serveAll requests c).2.cluster := by
    refine serveAll_keeps (I := fun c => Tidy G none c.cluster) (fun q c hq h => ?_) hopen ?_
    · rw [serve_eq]
      exact Cluster.tidy_after hf h _ hq
    · refine ⟨hreg, fun node => ?_, fun node key hr => ?_, fun node key hi => ?_⟩
      · rw [hnew.memory]
        rfl
      · rw [hnew.memory] at hr
        cases hr
      · rw [hnew.memory] at hi
        cases hi
  generalize (serveAll requests c).2 = left at htidy
  dsimp only
  rw [delete_eq]
  obtain ⟨-, hmemory, events, ht, hforgotten⟩ := (Cluster.delete_sweeps hf htidy key).left
  refine ⟨fun node state hn => ?_, events, ht, fun hobliged => ?_⟩
  · rw [← Cluster.memory_of_get? hn, hmemory]
    exact Cluster.without_contains key _
  · obtain ⟨before, after, hbefore, hafter, hiff⟩ := hforgotten hobliged
    refine ⟨before, after, hbefore, hafter, hiff.trans (or_congr_right ⟨?_, ?_⟩)⟩
    · rintro ⟨node, hheld⟩
      exact ⟨node, _, Cluster.get?_memory (Cluster.mem_ids_of_held hheld), hheld⟩
    · rintro ⟨node, state, hn, hheld⟩
      rw [← Cluster.memory_of_get? hn] at hheld
      exact ⟨node, hheld⟩

/-- One empty node beside a registry that knows of no key and fails some of the calls to come before it does them. -/
def faltering (lapses : List Bool) : Coordinator Store.Memory Drill.LapsingMap where
  cluster := { nodes := Dict.ofList [("a", {})], registry := some { lapses } }

theorem faltering_allNew (lapses : List Bool) : AllNew (faltering lapses) := by
  intro node state hn
  simp only [faltering, Dict.ofList, List.foldl_cons, List.foldl_nil, Dict.get?_insert, Dict.get?_empty] at hn
  split at hn
  · exact (Option.some.inj hn).symm
  · cases hn

def placement (c : Coordinator Store.Memory Drill.LapsingMap) (key : String) : Option Location :=
  c.cluster.registry.bind fun r => r.ledger.placements.get? key

def twice : List Request := List.replicate 2 (.insert "k" (Dict.ofList [("f", "v")]))

theorem open_twice : ∀ q ∈ twice, q.closes = false := by
  intro q hq
  rw [List.eq_of_mem_replicate hq]
  rfl

def inserted : Coordinator Store.Memory Drill.LapsingMap := (serveAll twice (faltering [true])).2

/-- The insert whose placement failed has left nothing for the delete to trip over. -/
theorem a_record_at_the_second_attempt_is_cleared :
    inserted.placement "k" = some ⟨"a", true⟩ ∧ (delete "k" inserted).2.placement "k" = none := by
  obtain ⟨-, events, ht, hforgotten⟩ := delete_clears Drill.LapsingMap.guards Drill.LapsingMap.forthright
    (faltering_allNew [true]) rfl open_twice "k"
  have htrace : (delete "k" inserted).2.cluster.trace = inserted.cluster.trace ++
      [.asked "a" (.removeIndexed "k") (.ok true), .consulted (.withdraw "a" "k") (.ok true)] := rfl
  have hevents := List.append_cancel_left (ht.symm.trans htrace)
  have hheld : (inserted.cluster.memory "a").records.contains "k" = true := by decide +kernel
  have hobliged : ∀ call fault, Event.consulted call (.error fault) ∉ events := by
    intro call fault he
    simp only [hevents, List.mem_cons, List.not_mem_nil, or_false] at he
    rcases he with he | he <;> cases he
  obtain ⟨before, after, -, hafter, hiff⟩ := hforgotten hobliged
  refine ⟨by decide +kernel, ?_⟩
  have hregistry : (delete "k" inserted).2.cluster.registry = some after := hafter
  rw [placement, hregistry]
  exact hiff.2 (.inr ⟨"a", _, Cluster.get?_memory (Cluster.mem_ids_of_held hheld), hheld⟩)

def halfDeleted : Coordinator Store.Memory Drill.LapsingMap :=
  (serveAll [.insert "k" (Dict.ofList [("f", "v")]), .delete "k"] (faltering [false, true])).2

/-- A delete whose withdrawal failed leaves a place without a record, and the next delete does not ask for it any
more. -/
theorem a_retried_delete_leaves_the_place :
    AllNew (faltering [false, true]) ∧
      (delete "k" halfDeleted).2.cluster.trace =
        halfDeleted.cluster.trace ++ [.asked "a" (.removeIndexed "k") (.ok false)] ∧
      (delete "k" halfDeleted).2.placement "k" = some ⟨"a", true⟩ :=
  ⟨faltering_allNew _, rfl, by decide +kernel⟩

end Coordinator

end Placement
