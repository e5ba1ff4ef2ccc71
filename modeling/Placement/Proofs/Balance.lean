import Placement.Proofs.Indexing
import Placement.Proofs.Polling

/-!
Placing by load: new records go to the nodes in turn.

What a node counts is not the number of its records: an index that is not empty counts as one more. So an empty node and
one that holds records are counted on two scales, and only the first record of a node moves it from one to the other.
Where all nodes start empty, that never changes their order: a node that has had its turn counts more than one that has
not, and of the others the first in line counts least.

- `leastLoaded_finds_first`: on usable nodes, the first with the smallest count is chosen.
- `share_succ`: what one more turn changes.
- `Dealt.insert`: one insert.
- `inserts_take_turns`: all inserts, and what every node holds after any of them.
-/

namespace Placement

/-! ## Counts -/

namespace Store.Memory

theorem Indexed.isEmpty_index {m : Memory} (h : m.Indexed) : m.index.isEmpty = m.records.isEmpty := by
  have same : ∀ key, m.index.contains key = m.records.contains key := by
    intro key
    rw [Dict.contains, h key]
    cases m.records.contains key <;> rfl
  cases hr : m.records.isEmpty with
  | true =>
    cases hi : m.index.isEmpty with
    | true => rfl
    | false =>
      obtain ⟨key, hkey⟩ := Dict.isEmpty_eq_false.1 hi
      rw [same, Dict.isEmpty_iff.1 hr] at hkey
      cases hkey
  | false =>
    obtain ⟨key, hkey⟩ := Dict.isEmpty_eq_false.1 hr
    exact Dict.isEmpty_eq_false.2 ⟨key, (same key).trans hkey⟩

/-- A node whose index follows its records counts one more than it has records, unless it has none. -/
theorem Indexed.count {m : Memory} (h : m.Indexed) :
    m.count = m.records.size + if m.records.size = 0 then 0 else 1 := by
  have hsize : m.records.isEmpty = true ↔ m.records.size = 0 := by
    rw [Dict.isEmpty, Dict.size, List.isEmpty_iff, List.length_eq_zero_iff]
  unfold Memory.count
  rw [h.isEmpty_index]
  simp only [hsize]

/-- What such nodes count has the order of the numbers of their records. -/
theorem Indexed.count_le_iff {m m' : Memory} (h : m.Indexed) (h' : m'.Indexed) :
    m.count ≤ m'.count ↔ m.records.size ≤ m'.records.size := by
  rw [h.count, h'.count]
  by_cases hm : m.records.size = 0 <;> by_cases hm' : m'.records.size = 0 <;> simp only [hm, hm', if_true, if_false]
    <;> omega

end Store.Memory

/-! ## Taking turns -/

/-- How many of `dealt` things the player at a position has got, where they are dealt to the players in turn. -/
def share (players dealt position : Nat) : Nat := dealt / players + if position < dealt % players then 1 else 0

theorem share_zero (players position : Nat) : share players 0 position = 0 := by
  simp [share]

/-- One more goes to the player whose turn it is, and to no other. -/
theorem share_succ {players position : Nat} (h : position < players) (dealt : Nat) :
    share players (dealt + 1) position =
      share players dealt position + if position = dealt % players then 1 else 0 := by
  have hplayers : 0 < players := by omega
  have hturn := Nat.mod_lt dealt hplayers
  have hsplit := Nat.div_add_mod dealt players
  unfold share
  by_cases hlast : dealt % players + 1 = players
  · -- the round is over, and the next one begins
    obtain ⟨hdiv, hmod⟩ : (dealt + 1) / players = dealt / players + 1 ∧ (dealt + 1) % players = 0 := by
      rw [Nat.div_mod_unique hplayers, Nat.mul_succ]
      omega
    rw [hdiv, hmod]
    split_ifs <;> omega
  · obtain ⟨hdiv, hmod⟩ : (dealt + 1) / players = dealt / players ∧ (dealt + 1) % players = dealt % players + 1 := by
      rw [Nat.div_mod_unique hplayers]
      omega
    rw [hdiv, hmod]
    split_ifs <;> omega

theorem share_le (players dealt position position' : Nat) :
    share players dealt position ≤ share players dealt position' + 1 := by
  unfold share
  split <;> split <;> omega

namespace Cluster

variable {ρ : Type} [Registry ρ] {w w' : Cluster Store.Memory ρ} {node : NodeId} {key : String} {fields : Record}

/-! ## Choosing -/

omit [Registry ρ] in
/-- A usable node says its count. -/
theorem said_usable (hu : Usable w) (hn : node ∈ w.ids) : said w node = .ok (w.memory node).count := by
  rw [said, get?_memory hn]
  exact congrArg Prod.fst (Store.Memory.perform_of_usable (hu node) .count)

/-- Of usable nodes the first that counts least is chosen. -/
theorem leastLoaded_finds_first (hu : Usable w) {i : Nat} (hnode : w.ids[i]? = some node)
    (least : ∀ other ∈ w.ids, (w.memory node).count ≤ (w.memory other).count)
    (first : ∀ j < i, ∀ other, w.ids[j]? = some other → (w.memory node).count < (w.memory other).count) :
    Ensures w (choose .leastLoaded) (fun chosen w' => chosen = node ∧ Intact w w') fun _ _ => False := by
  have hmem := List.mem_of_getElem? hnode
  have leads : Selection.LeastAt (tally w) i node (w.memory node).count := by
    refine ⟨tally_getElem?.2 ⟨hnode, said_usable hu hmem⟩, fun other c hc => ?_, fun j hj other c hc => ?_⟩
    · obtain ⟨ho, hsaid⟩ := mem_tally.1 hc
      rw [said_usable hu ho] at hsaid
      cases hsaid
      exact least other ho
    · obtain ⟨ho, hsaid⟩ := tally_getElem?.1 hc
      rw [said_usable hu (List.mem_of_getElem? ho)] at hsaid
      cases hsaid
      exact first j hj other ho
  obtain ⟨w₁, hrun, -⟩ := run_choose_leastLoaded (List.ne_nil_of_mem hmem)
  have kept : Ensures w (choose .leastLoaded) (fun _ w' => _ ∧ Intact w w') fun _ _ => False :=
    choose_quietly hu (List.ne_nil_of_mem hmem) nofun
  rw [Ensures, hrun, chosen_eq_ok.2 ⟨_, leastAt_iff_leads.1 ⟨i, leads⟩⟩] at kept ⊢
  exact ⟨rfl, kept.2⟩

/-- A new record goes, with its index entry, to the node that is chosen, where no registry declines it. -/
theorem insert_lands {how : Selection} (ha : Agreeable w) (hu : Usable w) (hf : fields.isEmpty = false)
    (hn : node ∈ w.ids) (hnew : (w.memory node).records.contains key = false)
    (chosen : Ensures w (choose how) (fun chosen w' => chosen = node ∧ Intact w w') fun _ _ => False) :
    Ensures w (insert how key fields)
      (fun placed w' => placed = node ∧ w'.nodes = w.nodes.insert node
        { (w.memory node).write key fields with index := (w.memory node).index.insert key (KeyHash.score key) })
      fun _ _ => False := by
  unfold insert
  rw [if_neg (by simp [hf])]
  refine chosen.bind fun placed w₁ h₁ => ?_
  obtain ⟨rfl, hsame⟩ := h₁
  refine (writeNew_writes_fields w₁ placed key fields).andThen (fun _ _ hfail => ?_) fun _ w₂ h₂ => ?_
  · have hheld := hfail.2 (hsame.ids ▸ hn) (hsame.usable hu placed)
    rw [hsame.memory, hnew] at hheld
    cases hheld
  have hnodes₂ : w₂.nodes = w.nodes.insert placed ((w.memory placed).write key fields) := by
    rw [h₂.nodes, hsame.1, hsame.memory]
    rfl
  have ha₂ : Agreeable w₂ := ha.imp_left fun hreg => h₂.registry.trans (hsame.2.trans hreg)
  refine (confirm_agrees ha₂ placed key).bind fun _ w₃ hnodes₃ => ?_
  have hn₃ : w₃.nodes.get? placed = some ((w.memory placed).write key fields) := by
    rw [hnodes₃, hnodes₂, Dict.get?_insert_self]
  have hu₃ : ((w.memory placed).write key fields).obstacle = none := (Store.Memory.obstacle_write ..).trans (hu placed)
  refine (enter_indexes hn₃ hu₃).bind fun _ w₄ h₄ => ensures_pure ⟨rfl, ?_⟩
  rw [h₄.1, hnodes₃, hnodes₂, Dict.insert_insert, Store.Memory.index_write]

/-! ## Inserts in turn -/

/-- The records were dealt to the nodes in turn, and there are no others. -/
structure Dealt (ids : List NodeId) (dealt : List (String × Record)) (w : Cluster Store.Memory ρ) : Prop where
  inOrder : InOrder w
  nodes : w.ids = ids
  placed : ∀ j key fields, dealt[j]? = some (key, fields) →
    ∀ node, (w.memory node).records.get? key = if ids[j % ids.length]? = some node then some fields else none
  known : ∀ node key, (w.memory node).records.contains key = true → key ∈ dealt.map (·.1)
  size : ∀ i node, ids[i]? = some node → (w.memory node).records.size = share ids.length dealt.length i

namespace Dealt

variable {ids : List NodeId} {dealt : List (String × Record)}

/-- The node whose turn it is counts least, and those before it count more. -/
theorem chooses (h : Dealt ids dealt w) (hnode : ids[dealt.length % ids.length]? = some node) :
    Ensures w (choose .leastLoaded) (fun chosen w' => chosen = node ∧ Intact w w') fun _ _ => False := by
  have order : ∀ a b, (w.memory a).count ≤ (w.memory b).count ↔
      (w.memory a).records.size ≤ (w.memory b).records.size := fun a b =>
    (h.inOrder.indexed a).count_le_iff (h.inOrder.indexed b)
  have rounds : (w.memory node).records.size = dealt.length / ids.length := by
    rw [h.size _ _ hnode, share, if_neg (Nat.lt_irrefl _), Nat.add_zero]
  rw [← h.nodes] at hnode
  refine leastLoaded_finds_first h.inOrder.usable hnode (fun other ho => ?_) fun j hj other ho => ?_
  · obtain ⟨j, hj⟩ := List.mem_iff_getElem?.1 ho
    rw [order, rounds, h.size j other (h.nodes ▸ hj)]
    exact Nat.le_add_right ..
  · rw [h.nodes] at hj ho
    rw [← Nat.not_le, order, rounds, h.size j other ho, share, if_pos hj]
    exact Nat.not_succ_le_self _

/-- The next record, where its key is new and it came to the node whose turn it is. -/
theorem snoc (h : Dealt ids dealt w) (hnode : ids[dealt.length % ids.length]? = some node)
    (hnew : key ∉ dealt.map (·.1)) (order : InOrder w') (hids : w'.ids = w.ids)
    (hrecords : ∀ other, (w'.memory other).records =
      if node = other then (w.memory node).records.insert key fields else (w.memory other).records) :
    Dealt ids (dealt ++ [(key, fields)]) w' := by
  -- the key is new, so no node had it and one gets it
  have absent : ∀ other, (w.memory other).records.contains key = false := fun other =>
    Bool.eq_false_iff.2 fun hheld => hnew (h.known other key hheld)
  have found : ∀ other key', (w'.memory other).records.get? key' =
      if node = other ∧ key = key' then some fields else (w.memory other).records.get? key' := by
    intro other key'
    rw [hrecords]
    by_cases ho : node = other
    · subst ho
      simp [Dict.get?_insert]
    · simp [ho]
  refine ⟨order, hids.trans h.nodes, fun j key' fields' hj other => ?_, fun other key' hheld => ?_,
    fun i other ho => ?_⟩
  · rw [found]
    by_cases hlast : j = dealt.length
    · -- the new record, which no other node has
      subst hlast
      obtain ⟨rfl, rfl⟩ : key = key' ∧ fields = fields' := by simpa using hj
      rw [hnode, Dict.contains_eq_false.1 (absent other)]
      simp
    · have hlt : j < dealt.length := by
        have := (List.getElem?_eq_some_iff.1 hj).1
        rw [List.length_append, List.length_singleton] at this
        omega
      rw [List.getElem?_append_left hlt] at hj
      have hne : key ≠ key' := fun he => hnew (List.mem_map.2 ⟨_, List.mem_of_getElem? hj, he.symm⟩)
      rw [if_neg fun he => hne he.2]
      exact h.placed j key' fields' hj other
  · rw [Dict.contains, found] at hheld
    rw [List.map_append, List.mem_append]
    split at hheld
    · rename_i he
      exact .inr (by simp [he.2])
    · exact .inl (h.known other key' hheld)
  · have hplayer : i < ids.length := (List.getElem?_eq_some_iff.1 ho).1
    -- names stand once in the list, so the turn is told by the name
    have hturn : i = dealt.length % ids.length ↔ node = other := by
      have hnodup : ids.Nodup := h.nodes ▸ w.nodes.keys_nodup
      refine ⟨fun hi => ?_, fun he => ?_⟩
      · rw [hi, hnode] at ho
        exact Option.some.inj ho
      · exact (List.getElem?_inj hplayer hnodup).1 (by rw [ho, hnode, he])
    rw [hrecords, List.length_append, List.length_singleton, share_succ hplayer]
    by_cases he : node = other
    · subst he
      rw [if_pos rfl, if_pos (hturn.2 rfl), Dict.size_insert, if_neg (by simp [absent]), h.size i _ ho]
    · rw [if_neg he, if_neg fun hi => he (hturn.1 hi), h.size i other ho, Nat.add_zero]

/-- A record under a new key goes to the node whose turn it is. -/
theorem insert (h : Dealt ids dealt w) (hids : ids ≠ []) (hnew : key ∉ dealt.map (·.1))
    (hf : fields.isEmpty = false) :
    Ensures w (Cluster.insert .leastLoaded key fields) (fun _ w' => Dealt ids (dealt ++ [(key, fields)]) w')
      fun _ _ => False := by
  have hturn : dealt.length % ids.length < ids.length := Nat.mod_lt _ (List.length_pos_iff.2 hids)
  obtain ⟨node, hnode⟩ : ∃ node, ids[dealt.length % ids.length]? = some node := ⟨_, List.getElem?_eq_getElem hturn⟩
  have hn : node ∈ w.ids := h.nodes ▸ List.mem_of_getElem? hnode
  have absent : (w.memory node).records.contains key = false :=
    Bool.eq_false_iff.2 fun hheld => hnew (h.known node key hheld)
  have lands := insert_lands h.inOrder.agreeable h.inOrder.usable hf hn absent (h.chooses hnode)
  refine (lands.and (ensures_self w _)).mono (fun placed w' h' => ?_) fun _ _ h' => h'.1
  obtain ⟨⟨rfl, hnodes⟩, hrun⟩ := h'
  have order := h.inOrder.after .leastLoaded (q := .insert key fields) rfl
  rw [Coordinator.Request.after, hrun] at order
  refine h.snoc hnode hnew order (ids_of_insert hnodes hn) fun other => ?_
  rw [memory_of_insert hnodes]
  split
  · rw [Store.Memory.write, if_neg (by simp [hf]), Store.Memory.record_of_absent absent, Dict.empty_override]
  · rfl

end Dealt

end Cluster

/-! ## Runs -/

namespace Coordinator

open Cluster (Dealt)

variable {ρ : Type} [Registry ρ] {c : Coordinator Store.Memory ρ}

theorem AllNew.dealt (h : AllNew c) (ha : Cluster.Agreeable c.cluster) : Dealt c.cluster.ids [] c.cluster where
  inOrder := h.inOrder ha
  nodes := rfl
  placed j key fields hj := by cases hj
  known node key hheld := by rw [h.memory] at hheld; cases hheld
  size i node _ := by rw [h.memory, List.length_nil, share_zero]; rfl

/-- Inserts with new keys succeed, and the nodes go on taking turns. -/
theorem serveAll_deals {ids : List NodeId} (hids : ids ≠ []) {rest : List (String × Record)}
    (hfields : ∀ e ∈ rest, e.2.isEmpty = false) :
    ∀ (dealt : List (String × Record)) (c : Coordinator Store.Memory ρ), c.selection = .leastLoaded →
      ((dealt ++ rest).map (·.1)).Nodup → Dealt ids dealt c.cluster →
      (serveAll (rest.map fun e => .insert e.1 e.2) c).1 = rest.map (fun _ => .status .ok) ∧
        Dealt ids (dealt ++ rest) (serveAll (rest.map fun e => .insert e.1 e.2) c).2.cluster := by
  induction rest with
  | nil =>
    intro dealt c _ _ h
    rw [List.append_nil]
    exact ⟨rfl, h⟩
  | cons e rest ih =>
    intro dealt c hload hkeys h
    obtain ⟨key, fields⟩ := e
    have hnew : key ∉ dealt.map (·.1) := by
      rw [List.map_append, List.map_cons, List.nodup_append] at hkeys
      exact fun hmem => hkeys.2.2 key hmem key List.mem_cons_self rfl
    have one := h.insert hids hnew (hfields _ List.mem_cons_self)
    rcases hrun : Cluster.run (Cluster.insert .leastLoaded key fields) c.cluster with ⟨fault | placed, w⟩
    · exact (one.error hrun).elim
    have served : serve (.insert key fields) c = (.status .ok, { c with cluster := w }) := by
      show (Reply.status (insert key fields c).1, (insert key fields c).2) = _
      rw [insert_eq, hload, hrun]
    have others := ih (fun e he => hfields e (List.mem_cons_of_mem _ he)) (dealt ++ [(key, fields)])
      { c with cluster := w } hload (by rwa [List.append_assoc]) (one.ok hrun)
    rw [List.append_assoc] at others
    simp only [List.map_cons, serveAll, served]
    exact ⟨congrArg _ others.1, others.2⟩

/-- Inserts by load of records with fields under keys of their own, on nodes that are new, where no registry declines
one. After any number of them each has been `ok` and its record is on the node whose turn it was, in the ascending order
of the ids, and on no other; and the nodes hold as many records as each other, or one more. -/
theorem inserts_take_turns (hnew : AllNew c) (hids : c.cluster.ids ≠ []) (hload : c.selection = .leastLoaded)
    (hconfirms : c.cluster.registry = none ∨
      ∀ node key (state : ρ), (Registry.perform (.place node key) state).1 = .ok true)
    {inserts : List (String × Record)} (hkeys : (inserts.map (·.1)).Nodup)
    (hfields : ∀ e ∈ inserts, e.2.isEmpty = false) (n : Nat) :
    let dealt := inserts.take n
    let ran := serveAll (dealt.map fun e => .insert e.1 e.2) c
    let ids := c.cluster.ids
    ran.1 = dealt.map (fun _ => .status .ok) ∧ ids.Pairwise (· < ·) ∧ ran.2.cluster.ids = ids ∧
    (∀ j key fields, dealt[j]? = some (key, fields) →
      ∀ node state, ran.2.cluster.nodes.get? node = some state →
        state.records.get? key = if ids[j % ids.length]? = some node then some fields else none) ∧
    ∀ node state node' state', ran.2.cluster.nodes.get? node = some state →
      ran.2.cluster.nodes.get? node' = some state' → state.records.size ≤ state'.records.size + 1 := by
  intro dealt ran ids
  have hdealt : ∀ e ∈ dealt, e.2.isEmpty = false := fun e he => hfields e (List.mem_of_mem_take he)
  have hkeys' : (([] ++ dealt : List (String × Record)).map (·.1)).Nodup := by
    rw [List.nil_append]
    exact hkeys.sublist ((List.take_sublist n inserts).map _)
  obtain ⟨hreplies, h⟩ := serveAll_deals hids hdealt [] c hload hkeys' (hnew.dealt hconfirms)
  rw [List.nil_append] at h
  refine ⟨hreplies, c.cluster.nodes.keys_ascending, h.nodes, fun j key fields hj node state hn => ?_,
    fun node state node' state' hn hn' => ?_⟩
  · rw [← Cluster.memory_of_get? hn]
    exact h.placed j key fields hj node
  · have held : ∀ {node state}, ran.2.cluster.nodes.get? node = some state →
        ∃ i, state.records.size = share ids.length dealt.length i := by
      intro node state hn
      have hmem : node ∈ c.cluster.ids := by
        rw [← h.nodes]
        exact Dict.mem_keys.2 (Dict.contains_iff.2 ⟨state, hn⟩)
      obtain ⟨i, hi⟩ := List.mem_iff_getElem?.1 hmem
      rw [← Cluster.memory_of_get? hn]
      exact ⟨i, h.size i node hi⟩
    obtain ⟨i, hi⟩ := held hn
    obtain ⟨i', hi'⟩ := held hn'
    rw [hi, hi']
    exact share_le ..

/-- The third record goes to the first node again. -/
theorem three_inserts_take_turns :
    let fields : Record := Dict.ofList [("f", "v")]
    let inserts : List (String × Record) := [("r", fields), ("s", fields), ("t", fields)]
    let c : Coordinator Store.Memory Registry.Ledger := { pair with selection := .leastLoaded }
    let left := (serveAll ((inserts.take 3).map fun e => .insert e.1 e.2) c).2
    ∀ state, left.cluster.nodes.get? "a" = some state →
      state.records.get? "t" = some fields ∧ state.records.get? "s" = none := by
  intro fields inserts c left state hn
  have hids : c.cluster.ids = ["a", "b"] := by decide
  have hkeys : (inserts.map (·.1)).Nodup := by decide
  have taken := inserts_take_turns (c := c) pair_allNew (by decide) rfl (.inr fun _ _ _ => rfl) hkeys (by decide) 3
  obtain ⟨-, -, -, placed, -⟩ := taken
  rw [hids] at placed
  simp only [left] at hn
  exact ⟨placed 2 "t" fields rfl "a" state hn, placed 1 "s" fields rfl "a" state hn⟩

end Coordinator

end Placement
