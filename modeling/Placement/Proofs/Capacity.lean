import Placement.Proofs.Session

/-!
The capacity that a reader takes is handed back.

A registry that names the node of a record lends capacity on it until the node is released. The calls that lend and
return are a sequence of `Block`s: a look-up that lent nothing, or one that named a node and then the release of that
node.

- `readLocated_settles`: one read from the place that the registry names.
- `Settled.returns_eq_takes`, `Settled.returns_le_takes`: what a sequence of blocks comes to, at its end and on the way.
- `capacity_returned`: any sequence of requests.
-/

namespace Placement

def Registry.Call.meters : Registry.Call → Bool
  | .locate _ | .release _ => true
  | _ => false

namespace Event

def meters : Event → Bool
  | .asked .. => false
  | .consulted call _ => call.meters

/-- The registry named the node to a reader, and lent capacity on it. -/
def takes (node : NodeId) : Event → Bool
  | .consulted (.locate _) (.ok (some location)) => location.node == node
  | _ => false

/-- The node was released, whatever the registry answered. -/
def returns (node : NodeId) : Event → Bool
  | .consulted (.release released) _ => released == node
  | _ => false

theorem meters_of_takes {node : NodeId} {e : Event} (h : e.takes node = true) : e.meters = true := by
  unfold takes at h
  split at h
  · rfl
  · cases h

theorem meters_of_returns {node : NodeId} {e : Event} (h : e.returns node = true) : e.meters = true := by
  unfold returns at h
  split at h
  · rfl
  · cases h

end Event

namespace Capacity

/-- One look-up, and the release it asks for. -/
inductive Block : List Event → Prop
  | failed (key : String) (fault : Fault) : Block [.consulted (.locate key) (.error fault)]
  | unknown (key : String) : Block [.consulted (.locate key) (.ok none)]
  | lent (key : String) (location : Location) (released : Except Fault Unit) :
    Block [.consulted (.locate key) (.ok (some location)), .consulted (.release location.node) released]

def Settled (events : List Event) : Prop :=
  ∃ blocks : List (List Event), events.filter Event.meters = blocks.flatten ∧ ∀ b ∈ blocks, Block b

variable {events events' : List Event}

theorem filter_meters_of_quiet (h : ∀ e ∈ events, e.meters = false) : events.filter Event.meters = [] := by
  rw [List.filter_eq_nil_iff]
  intro e he
  simp [h e he]

theorem Settled.of_quiet (h : ∀ e ∈ events, e.meters = false) : Settled events :=
  ⟨[], filter_meters_of_quiet h, by simp⟩

theorem Settled.append (h : Settled events) (h' : Settled events') : Settled (events ++ events') := by
  obtain ⟨blocks, hb, hall⟩ := h
  obtain ⟨blocks', hb', hall'⟩ := h'
  refine ⟨blocks ++ blocks', by rw [List.filter_append, hb, hb', List.flatten_append], ?_⟩
  intro b hmem
  rcases List.mem_append.1 hmem with hmem | hmem
  · exact hall b hmem
  · exact hall' b hmem

theorem Settled.of_block {b : List Event} (hb : Block b) (h : events.filter Event.meters = b) : Settled events :=
  ⟨[b], by simpa using h, by simpa using hb⟩

/-! ## What blocks come to -/

theorem Block.returns_eq_takes {b : List Event} (h : Block b) (node : NodeId) :
    b.countP (Event.returns node) = b.countP (Event.takes node) := by
  cases h with
  | failed key fault => rfl
  | unknown key => rfl
  | lent key location released => simp [List.countP_cons, Event.returns, Event.takes]

/-- On the way through a block the look-up comes first. -/
theorem Block.returns_le_takes {b before : List Event} (h : Block b) (hp : before <+: b) (node : NodeId) :
    before.countP (Event.returns node) ≤ before.countP (Event.takes node) := by
  cases h with
  | failed key fault =>
    rcases List.prefix_cons_iff.1 hp with rfl | ⟨t, rfl, ht⟩
    · simp
    · rw [List.prefix_nil.1 ht]
      simp [List.countP_cons, Event.returns]
  | unknown key =>
    rcases List.prefix_cons_iff.1 hp with rfl | ⟨t, rfl, ht⟩
    · simp
    · rw [List.prefix_nil.1 ht]
      simp [List.countP_cons, Event.returns]
  | lent key location released =>
    rcases List.prefix_cons_iff.1 hp with rfl | ⟨t, rfl, ht⟩
    · simp
    · rcases List.prefix_cons_iff.1 ht with rfl | ⟨t', rfl, ht'⟩
      · simp [List.countP_cons, Event.returns]
      · rw [List.prefix_nil.1 ht']
        simp [List.countP_cons, Event.returns, Event.takes]

theorem blocks_returns_eq_takes {blocks : List (List Event)} (h : ∀ b ∈ blocks, Block b) (node : NodeId) :
    blocks.flatten.countP (Event.returns node) = blocks.flatten.countP (Event.takes node) := by
  induction blocks with
  | nil => rfl
  | cons b rest ih =>
    have hb := (h b (by simp)).returns_eq_takes node
    have hrest := ih fun b' hb' => h b' (by simp [hb'])
    rw [List.flatten_cons, List.countP_append, List.countP_append]
    omega

theorem blocks_returns_le_takes {blocks : List (List Event)} {before : List Event} (h : ∀ b ∈ blocks, Block b)
    (hp : before <+: blocks.flatten) (node : NodeId) :
    before.countP (Event.returns node) ≤ before.countP (Event.takes node) := by
  induction blocks generalizing before with
  | nil =>
    rw [List.prefix_nil.1 hp]
    simp
  | cons b rest ih =>
    -- the prefix ends within the first block, or behind it, where that block is settled
    rw [List.flatten_cons] at hp
    rcases List.prefix_or_prefix_of_prefix hp (List.prefix_append b rest.flatten) with hp' | ⟨q, rfl⟩
    · exact (h b (by simp)).returns_le_takes hp' node
    · have hb := (h b (by simp)).returns_eq_takes node
      have hq := ih (fun b' hb' => h b' (by simp [hb'])) ((List.prefix_append_right_inj b).1 hp)
      rw [List.countP_append, List.countP_append]
      omega

/-- Events that are not metered count for nothing. -/
theorem countP_filter_meters {p : Event → Bool} (h : ∀ e, p e = true → e.meters = true) (events : List Event) :
    (events.filter Event.meters).countP p = events.countP p := by
  rw [List.countP_filter]
  refine List.countP_congr fun e _ => ?_
  constructor
  · intro hp
    exact (Bool.and_eq_true_iff.1 hp).1
  · intro hp
    simp [hp, h e hp]

theorem Settled.returns_eq_takes (h : Settled events) (node : NodeId) :
    events.countP (Event.returns node) = events.countP (Event.takes node) := by
  obtain ⟨blocks, hb, hall⟩ := h
  rw [← countP_filter_meters (fun _ => Event.meters_of_returns), ← countP_filter_meters fun _ => Event.meters_of_takes,
    hb]
  exact blocks_returns_eq_takes hall node

theorem Settled.returns_le_takes {before : List Event} (h : Settled events) (hp : before <+: events) (node : NodeId) :
    before.countP (Event.returns node) ≤ before.countP (Event.takes node) := by
  obtain ⟨blocks, hb, hall⟩ := h
  rw [← countP_filter_meters (fun _ => Event.meters_of_returns), ← countP_filter_meters fun _ => Event.meters_of_takes]
  refine blocks_returns_le_takes hall ?_ node
  rw [← hb]
  exact hp.filter _

end Capacity

/-! ## What programs come to -/

namespace Cluster

open Capacity (Settled Block)

variable {ν ρ : Type} [Store ν] [Registry ρ]

/-- Of what happens from one cluster to the other, everything is settled. -/
def Settles (w w' : Cluster ν ρ) : Prop := ∃ events, w'.trace = w.trace ++ events ∧ Settled events

def Aside (w w' : Cluster ν ρ) : Prop :=
  w'.registry = w.registry ∧ ∃ events, w'.trace = w.trace ++ events ∧ ∀ e ∈ events, e.meters = false

theorem permits_settles :
    Permits (Settles : Cluster ν ρ → Cluster ν ρ → Prop) (fun _ => True) fun call => call.meters = false where
  refl w := ⟨[], by simp, .of_quiet (by simp)⟩
  trans := by
    rintro w w' w'' ⟨events, ht, hs⟩ ⟨events', ht', hs'⟩
    exact ⟨events ++ events', by rw [ht', ht, List.append_assoc], hs.append hs'⟩
  ask node call _ w := by
    refine ensures_ask (fun _ _ _ _ _ => ?_) (fun _ _ _ _ _ => ?_) fun _ => ?_
    · exact ⟨[_], rfl, .of_quiet (by simp [Event.meters])⟩
    · exact ⟨[_], rfl, .of_quiet (by simp [Event.meters])⟩
    · exact ⟨[], by simp, .of_quiet (by simp)⟩
  consult call hc w := by
    refine ensures_advised (fun _ answer _ => ?_) fun _ => ?_
    · exact ⟨[.consulted call answer], rfl, .of_quiet (by simpa [Event.meters] using hc)⟩
    · exact ⟨[], by simp, .of_quiet (by simp)⟩
  draw bound w := ensures_draw ⟨[], by simp, .of_quiet (by simp)⟩
  report s w := ensures_report ⟨[], by simp, .of_quiet (by simp)⟩

theorem permits_aside : Permits (Aside : Cluster ν ρ → Cluster ν ρ → Prop) (fun _ => True) fun _ => False where
  refl w := ⟨rfl, [], by simp, by simp⟩
  trans := by
    rintro w w' w'' ⟨hr, events, ht, hq⟩ ⟨hr', events', ht', hq'⟩
    refine ⟨hr'.trans hr, events ++ events', by rw [ht', ht, List.append_assoc], ?_⟩
    intro e he
    rcases List.mem_append.1 he with he | he
    · exact hq e he
    · exact hq' e he
  ask node call _ w := by
    refine ensures_ask (fun _ _ _ _ _ => ?_) (fun _ _ _ _ _ => ?_) fun _ => ?_
    · exact ⟨rfl, [_], rfl, by simp [Event.meters]⟩
    · exact ⟨rfl, [_], rfl, by simp [Event.meters]⟩
    · exact ⟨rfl, [], by simp, by simp⟩
  consult _ hc := hc.elim
  draw bound w := ensures_draw ⟨rfl, [], by simp, by simp⟩
  report s w := ensures_report ⟨rfl, [], by simp, by simp⟩

/-- Whatever the node does, and whatever the registry makes of the release, one look-up that names a node is followed by
the release of that node. -/
theorem readLocated_settles (key : String) (names : Option (List String)) :
    Within Settles (readLocated key names : Op ν ρ (Option Found)) := by
  intro w
  refine Ensures.andThen (Q := fun location w₁ => w₁.registry.isSome = true ∧
      w₁.trace = w.trace ++ [.consulted (.locate key) (.ok location)])
    (E := fun fault w₁ => Settles w w₁) ?_ (fun _ _ h => h) ?_
  · refine ensures_consult (fun _ _ _ _ _ => ⟨rfl, rfl⟩) (fun _ fault _ _ _ => ?_) fun _ => permits_settles.refl w
    exact ⟨[_], rfl, .of_block (.failed key fault) rfl⟩
  · rintro (_ | location) w₁ ⟨hregistry, ht⟩
    · exact ensures_pure ⟨_, ht, .of_block (.unknown key) rfl⟩
    have fetched : Within Aside
        (if location.present then fetch location.node key names else pure Dict.empty : Op ν ρ Record) := by
      split
      · exact permits_aside.fetch (fun _ _ => trivial) _ _ _
      · exact permits_aside.pure _
    refine ((fetched w₁).attempt (S := fun _ w₂ => Aside w₁ w₂)).bind fun got w₂ h₂ => ?_
    obtain ⟨hregistry₂, events, ht₂, hquiet⟩ := h₂
    have released : Ensures w₂ (attempt (consult (.release location.node))) (fun _ w₃ => Settles w w₃)
        fun _ w₃ => Settles w w₃ := by
      refine Ensures.attempt (ensures_advised (fun _ answer _ => ?_) fun habsent => ?_)
      · refine ⟨.consulted (.locate key) (.ok (some location)) :: events ++
          [.consulted (.release location.node) answer], ?_, .of_block (.lent key location answer) ?_⟩
        · show w₂.trace ++ [.consulted (.release location.node) answer] = _
          rw [ht₂, ht]
          simp
        · rw [List.cons_append, List.filter_cons_of_pos rfl, List.filter_append,
            Capacity.filter_meters_of_quiet hquiet]
          rfl
      · rw [hregistry₂] at habsent
        simp [habsent] at hregistry
    refine released.bind fun answer w₃ h₃ => ?_
    refine (ensures_lift (fun _ _ => h₃) fun _ _ => h₃).bind fun record w₄ h₄ => ?_
    exact (ensures_lift (fun _ _ => h₄) fun _ _ => h₄).bind fun _ _ h₅ => ensures_pure h₅

end Cluster

namespace Coordinator

open Capacity (Block)

variable {ν ρ : Type} [Store ν] [Registry ρ]

theorem serve_settles (q : Request) (c : Coordinator ν ρ) : Cluster.Settles c.cluster (serve q c).2.cluster := by
  rw [serve_eq]
  exact q.within Cluster.permits_settles c.selection c.cluster (fun _ _ => trivial) (fun _ => rfl) (fun _ _ => rfl)
    (fun _ _ => rfl) Cluster.readLocated_settles fun _ => ⟨trivial, rfl⟩

theorem serveAll_settles (requests : List Request) (c : Coordinator ν ρ) :
    Cluster.Settles c.cluster (serveAll requests c).2.cluster := by
  induction requests generalizing c with
  | nil => exact Cluster.permits_settles.refl _
  | cons q rest ih => exact Cluster.permits_settles.trans (serve_settles q c) (ih _)

/-- Whatever the nodes and the registry answer, and whatever is asked of the coordinator: every look-up that names a
node is followed by exactly one release of that node before anything else is looked up or released, and no other node is
released. So for each node the releases come to the look-ups that named it, and never run ahead of them. -/
theorem capacity_returned (requests : List Request) (c : Coordinator ν ρ) :
    ∃ events, (serveAll requests c).2.cluster.trace = c.cluster.trace ++ events ∧
      (∃ blocks : List (List Event), events.filter Event.meters = blocks.flatten ∧ ∀ b ∈ blocks, Block b) ∧
      (∀ node, events.countP (Event.returns node) = events.countP (Event.takes node)) ∧
      ∀ node before, before <+: events →
        before.countP (Event.returns node) ≤ before.countP (Event.takes node) := by
  obtain ⟨events, ht, hs⟩ := serveAll_settles requests c
  exact ⟨events, ht, hs, hs.returns_eq_takes, fun node before hp => hs.returns_le_takes hp node⟩

end Coordinator

end Placement
