import Placement.Proofs.Healthy

/-!
What the operations come to on memories that can be used, beside a registry that is reliable or none.

- `read_finds`: a read finds what `lookup` says.
- `scan_finds`: a scan gives the records that its reads find.
- `updateFirst_updates`: an update writes to the first node that can be used and holds the record, whatever others
  cannot.
- `update_changes`, `delete_drops`: the first node that holds the record is changed, and no other.
- `insert_adds`: what an insert that ends well has done, and when it does end well.
-/

namespace Placement.Cluster

open Registry (Reliable)

variable {ρ : Type} [Registry ρ] {R : Reliable ρ} {w w' : Cluster Store.Memory ρ} {node : NodeId} {key : String}

/-! ## One node among all -/

theorem find?_of_only {nodes : List NodeId} {p : NodeId → Bool} (hn : node ∈ nodes)
    (hp : ∀ other, p other = decide (node = other)) : nodes.find? p = some node := by
  induction nodes with
  | nil => cases hn
  | cons other rest ih =>
    rw [List.find?_cons, hp]
    by_cases ho : node = other
    · simp [ho]
    · rw [decide_eq_false ho]
      exact ih ((List.mem_cons.1 hn).resolve_left ho)

theorem findSome?_of_only {α : Type} {nodes : List NodeId} {f : NodeId → Option α} {a : Option α} (hn : node ∈ nodes)
    (hf : ∀ other, f other = if node = other then a else none) : nodes.findSome? f = a := by
  induction nodes with
  | nil => cases hn
  | cons other rest ih =>
    rw [List.findSome?_cons, hf]
    by_cases ho : node = other
    · rw [if_pos ho]
      cases a with
      | some a => rfl
      | none => exact List.findSome?_eq_none_iff.2 fun other' _ => by rw [hf]; split <;> rfl
    · rw [if_neg ho]
      exact ih ((List.mem_cons.1 hn).resolve_left ho)

/-! ## Reading -/

def offered (w : Cluster Store.Memory ρ) (key : String) (names : Option (List String)) (node : NodeId) : Option Found :=
  Found.of node (((w.memory node).record key).select names)

/-- What a read finds: what the place of the key offers if there is a registry to name it, and otherwise the first
offer of a node. -/
def lookup (R : Reliable ρ) (w : Cluster Store.Memory ρ) (key : String) (names : Option (List String)) : Option Found :=
  match R.known w with
  | none => w.ids.findSome? (w.offered key names)
  | some l => (l.placements.get? key).bind fun location =>
    if location.present then w.offered key names location.node else none

omit [Registry ρ] in
/-- A node without the record has nothing to offer. -/
theorem offered_eq_bind (w : Cluster Store.Memory ρ) (key : String) (names : Option (List String)) (node : NodeId) :
    w.offered key names node =
      ((w.memory node).records.get? key).bind fun r => Found.of node (Record.select r names) := by
  unfold offered Store.Memory.record
  cases (w.memory node).records.get? key with
  | none =>
    rw [Option.getD_none, Record.select_empty]
    rfl
  | some r => rfl

theorem map_record_of (node : NodeId) (record : Record) :
    (Found.of node record).map Found.record = (some record).filter (!·.isEmpty) := by
  rw [Found.of, Option.filter_some]
  cases Dict.isEmpty record <;> rfl

/-- A record that no node has is not found. -/
theorem lookup_of_nowhere (hr : ∀ node, (w.memory node).records.get? key = none) (names : Option (List String)) :
    lookup R w key names = none := by
  have hnone : ∀ node, w.offered key names node = none := fun node => by
    rw [offered_eq_bind, hr node]
    rfl
  unfold lookup
  cases R.known w with
  | none => exact List.findSome?_eq_none_iff.2 fun node _ => hnone node
  | some l => cases l.placements.get? key <;> simp [hnone]

/-- A record that one node has, which is then its place, is found there. -/
theorem lookup_of_only {r : Record} (hn : node ∈ w.ids)
    (hr : ∀ other, (w.memory other).records.get? key = if node = other then some r else none)
    (hp : ∀ l, R.known w = some l → l.placements.get? key = some ⟨node, true⟩) (names : Option (List String)) :
    lookup R w key names = Found.of node (Record.select r names) := by
  have hoffered : ∀ other, w.offered key names other =
      if node = other then Found.of node (Record.select r names) else none := by
    intro other
    rw [offered_eq_bind, hr]
    by_cases ho : node = other
    · subst ho
      simp
    · simp [ho]
  unfold lookup
  cases hl : R.known w with
  | none => exact findSome?_of_only hn hoffered
  | some l =>
    dsimp only
    rw [hp l hl, Option.bind_some, if_pos rfl, hoffered, if_pos rfl]

omit [Registry ρ] in
theorem Intact.offered (h : Intact w w') : w'.offered = w.offered := by
  funext key names node
  unfold Cluster.offered
  rw [h.memory]

theorem Same.lookup (h : Same R w w') : lookup R w' = lookup R w := by
  funext key names
  have hoffered : w'.offered = w.offered := by
    funext key names node
    rw [Cluster.offered, Cluster.offered, h.memory]
  unfold Cluster.lookup
  rw [h.known, h.ids, hoffered]

omit [Registry ρ] in
theorem fetch_selects (key : String) (names : Option (List String)) (hn : node ∈ w.ids) (hu : Usable w) :
    Ensures w (fetch node key names)
      (fun record w' => record = ((w.memory node).record key).select names ∧ Intact w w') fun _ _ => False := by
  unfold fetch Record.select
  cases Record.namesOf names with
  | none => exact ask_looks rfl (get?_memory hn) (hu node)
  | some names => exact ask_looks rfl (get?_memory hn) (hu node)

omit [Registry ρ] in
theorem readFirst_finds (key : String) (names : Option (List String)) {nodes : List NodeId}
    (hn : ∀ node ∈ nodes, node ∈ w.ids) (hu : Usable w) :
    Ensures w (readFirst key names [] nodes)
      (fun found w' => found = nodes.findSome? (w.offered key names) ∧ Intact w w') fun _ _ => False := by
  induction nodes generalizing w with
  | nil => exact ensures_pure ⟨rfl, .refl w⟩
  | cons node rest ih =>
    refine (fetch_selects key names (hn node List.mem_cons_self) hu).attempt_bind (fun record w₁ h₁ => ?_)
      fun _ _ hf => hf.elim
    obtain ⟨rfl, hs⟩ := h₁
    dsimp only
    rw [List.findSome?_cons, offered, Found.of]
    split
    · have rest := ih (w := w₁) (fun other ho => hs.ids ▸ hn other (List.mem_cons_of_mem _ ho)) (hs.usable hu)
      refine rest.mono (fun found w₂ h₂ => ⟨?_, hs.trans h₂.2⟩) fun _ _ hf => hf
      rw [h₂.1, hs.offered]
    · exact ensures_pure ⟨rfl, hs⟩

theorem readLocated_finds {l : Registry.Ledger} (key : String) (names : Option (List String)) (hl : R.known w = some l)
    (hp : ∀ location, l.placements.get? key = some location → location.node ∈ w.ids) (hu : Usable w) :
    Ensures w (readLocated key names)
      (fun found w' => found = ((l.placements.get? key).bind fun location =>
        if location.present then w.offered key names location.node else none) ∧ Same R w w')
      fun _ _ => False := by
  have located : Ensures w (consult (.locate key)) (fun a w' => a = l.placements.get? key ∧ Same R w w')
      fun _ _ => False := by
    refine (consult_answers _ hl (by simp) (by simp)).mono (fun a w' hw => ⟨?_, hw.2.1, ?_⟩) fun _ _ hf => hf
    · exact (Except.ok.inj hw.1).symm
    · rw [hw.2.2, hl]
      rfl
  refine located.bind fun location w₁ h₁ => ?_
  obtain ⟨rfl, hs₁⟩ := h₁
  cases hplace : l.placements.get? key with
  | none => exact ensures_pure ⟨rfl, hs₁⟩
  | some location =>
    have hn := hs₁.ids ▸ hp location hplace
    have fetched : Ensures w₁
        (if location.present then fetch location.node key names else pure Dict.empty : Op Store.Memory ρ Record)
        (fun record w' => Found.of location.node record =
          (if location.present then w.offered key names location.node else none) ∧ Same R w w') fun _ _ => False := by
      split
      · have selected := fetch_selects key names hn (hs₁.usable hu)
        refine selected.mono (fun record w₂ h₂ => ⟨?_, hs₁.trans (h₂.2.same R)⟩) fun _ _ hf => hf
        rw [h₂.1, hs₁.memory, offered]
      · exact ensures_pure ⟨rfl, hs₁⟩
    refine fetched.attempt_bind (fun record w₂ h₂ => ?_) fun _ _ hf => hf.elim
    obtain ⟨hfound, hs₂⟩ := h₂
    have released : Ensures w₂ (consult (.release location.node)) (fun _ w' => Same R w w') fun _ _ => False := by
      have hl₂ : R.known w₂ = some l := hs₂.known.trans hl
      refine (consult_answers _ hl₂ (by simp) (by simp)).mono (fun a w' hw => ⟨?_, ?_⟩) fun _ _ hf => hf
      · exact hw.2.1.trans hs₂.nodes
      · rw [hw.2.2, hl]
        rfl
    exact released.attempt_bind (fun _ w₃ hs₃ => ensures_pure ⟨hfound, hs₃⟩) fun _ _ hf => hf.elim

/-- Whatever a quiet read finds, a read tells the observer and finds it too. -/
theorem read_of_quiet {key : String} {names : Option (List String)} {found : Option Found}
    {K : Cluster Store.Memory ρ → Prop}
    (quiet : Ensures w (readQuietly key names) (fun a w' => a = found ∧ K w') fun _ _ => False)
    (hK : ∀ w' observer, K w' → K { w' with observer }) :
    Ensures w (read key names) (fun a w' => a = found ∧ K w') fun _ _ => False := by
  refine quiet.attempt_bind (fun a w₁ h₁ => ?_) fun _ _ hf => hf.elim
  obtain ⟨rfl, hkept⟩ := h₁
  refine Ensures.bind (Q := fun _ w' => K w') (ensures_report (hK _ _ hkept)) fun _ w₂ h₂ => ?_
  exact ensures_lift (fun a he => ⟨(Except.ok.inj he).symm, h₂⟩) fun _ he => by cases he

/-- Without a registry, a read finds the first offer of a node and changes nothing. -/
theorem read_finds_first (key : String) (names : Option (List String)) (hu : Usable w) (hreg : w.registry = none) :
    Ensures w (read key names) (fun found w' => found = w.ids.findSome? (w.offered key names) ∧ Intact w w')
      fun _ _ => False := by
  refine read_of_quiet (ensures_hasRegistry_bind ?_) fun _ _ h => h
  rw [hreg]
  exact readFirst_finds key names (fun _ hn => hn) hu

/-- A read finds what is there and changes nothing. -/
theorem read_finds (R : Reliable ρ) (key : String) (names : Option (List String)) (hu : Usable w)
    (hp : ∀ l location, R.known w = some l → l.placements.get? key = some location → location.node ∈ w.ids) :
    Ensures w (read key names) (fun found w' => found = lookup R w key names ∧ Same R w w') fun _ _ => False := by
  cases hreg : w.registry with
  | none =>
    have hl : R.known w = none := Reliable.known_of_none hreg
    rw [lookup, hl]
    exact (read_finds_first key names hu hreg).mono (fun _ _ h => ⟨h.1, h.2.same R⟩) fun _ _ hf => hf
  | some state =>
    have hl : R.known w = some (R.ledger state) := Reliable.known_of_some hreg
    have located := readLocated_finds key names hl (fun location => hp _ location hl) hu
    refine read_of_quiet (ensures_hasRegistry_bind ?_) fun _ _ h => ⟨h.nodes, h.known⟩
    rw [lookup, hl, hreg]
    exact located

/-! ## Scanning -/

section Scanning

variable {K : Cluster Store.Memory ρ → Prop} {names : Option (List String)} {find : String → Option Found}
  (reads : ∀ key w, K w →
    Ensures w (read key names) (fun found w' => found = find key ∧ K w') fun _ _ => False)

include reads in
/-- Keys whose reads find what `find` says give these records. -/
theorem scanKeys_finds (hw : K w) (node : NodeId) (s : Scanned) (keys : List String) :
    Ensures w (scanKeys node names s keys)
      (fun s' w' => s' = { s with records := s.records ++ keys.filterMap fun key => (find key).map Found.record } ∧ K w')
      fun _ _ => False := by
  induction keys generalizing w s with
  | nil => exact ensures_pure ⟨by simp, hw⟩
  | cons key rest ih =>
    refine (reads key w hw).attempt_bind (fun found w₁ h₁ => ?_) fun _ _ hf => hf.elim
    obtain ⟨rfl, hw₁⟩ := h₁
    rw [List.filterMap_cons]
    cases hfind : find key with
    | none => exact ih hw₁ s
    | some found =>
      refine (ih hw₁ { s with records := s.records ++ [found.record] }).mono (fun s' w' h' => ?_) fun _ _ hf => hf
      rw [List.append_assoc] at h'
      exact h'

include reads in
/-- Nodes whose windows are known give the records of the keys in these, one node after another. -/
theorem scanNodes_finds {min : Score} {count : Nat} {window : NodeId → List String} {nodes : List NodeId}
    (windows : ∀ node ∈ nodes, ∀ w, K w →
      Ensures w (ask node (.indexRange min count)) (fun keys w' => keys = window node ∧ K w') fun _ _ => False)
    (hw : K w) (s : Scanned) :
    Ensures w (scanNodes min count names s nodes)
      (fun s' w' => s' =
          { s with
            records := s.records ++
              nodes.flatMap fun node => (window node).filterMap fun key => (find key).map Found.record } ∧ K w')
      fun _ _ => False := by
  induction nodes generalizing w s with
  | nil => exact ensures_pure ⟨by simp, hw⟩
  | cons node rest ih =>
    refine (windows node List.mem_cons_self w hw).attempt_bind (fun keys w₁ h₁ => ?_) fun _ _ hf => hf.elim
    obtain ⟨rfl, hw₁⟩ := h₁
    refine (scanKeys_finds reads hw₁ node s (window node)).bind fun s₁ w₂ h₂ => ?_
    obtain ⟨rfl, hw₂⟩ := h₂
    refine (ih (fun other ho => windows other (List.mem_cons_of_mem _ ho)) hw₂ _).mono (fun s' w' h' => ?_)
      fun _ _ hf => hf
    rw [List.append_assoc] at h'
    exact h'

include reads in
/-- A scan that changes nothing that matters gives the records of the keys that the nodes list. -/
theorem scan_finds (hu : Usable w) (nodes : ∀ w', K w' → w'.nodes = w.nodes)
    (looks : ∀ w' w'', K w' → Intact w' w'' → K w'') (hw : K w) (start : String) (count : Nat) :
    Ensures w (scan start count names)
      (fun records w' => records = w.ids.flatMap (fun node =>
        ((w.memory node).range (KeyHash.score start) count).filterMap fun key => (find key).map Found.record) ∧ K w')
      fun _ _ => False := by
  have windows : ∀ node ∈ w.ids, ∀ w', K w' →
      Ensures w' (ask node (.indexRange (KeyHash.score start) count))
        (fun keys w'' => keys = (w.memory node).range (KeyHash.score start) count ∧ K w'') fun _ _ => False := by
    intro node hn w' hw'
    have hn' : w'.nodes.get? node = some (w.memory node) := by rw [nodes w' hw', get?_memory hn]
    exact (ask_looks rfl hn' (hu node)).mono (fun _ _ h' => ⟨h'.1, looks _ _ hw' h'.2⟩) fun _ _ hf => hf
  refine ensures_inspect_bind ?_
  refine (scanNodes_finds reads windows hw {}).bind fun s w₁ h₁ => ?_
  obtain ⟨rfl, hw₁⟩ := h₁
  exact ensures_pure ⟨rfl, hw₁⟩

end Scanning

/-- Without a registry, a scan gives for every key in the windows of the nodes the first offer of a node. -/
theorem scan_finds_first (start : String) (count : Nat) (names : Option (List String)) (hu : Usable w)
    (hreg : w.registry = none) :
    Ensures w (scan start count names)
      (fun records w' => records = w.ids.flatMap (fun node =>
        ((w.memory node).range (KeyHash.score start) count).filterMap fun key =>
          (w.ids.findSome? (w.offered key names)).map Found.record) ∧ Intact w w')
      fun _ _ => False := by
  have reads : ∀ key w', Intact w w' → Ensures w' (read key names)
      (fun found w'' => found = w.ids.findSome? (w.offered key names) ∧ Intact w w'') fun _ _ => False := by
    intro key w' hs
    refine (read_finds_first key names (hs.usable hu) (hs.2.trans hreg)).mono (fun found w'' h' => ?_) fun _ _ hf => hf
    rw [hs.ids, hs.offered] at h'
    exact ⟨h'.1, hs.trans h'.2⟩
  exact scan_finds reads hu (fun _ hs => hs.1) (fun _ _ hs hs' => hs.trans hs') (.refl w) start count

/-! ## Updating and deleting -/

/-- Nothing has changed, or fields were put over a record of the key. -/
def Overwritten (key : String) (fields : Record) (w w' : Cluster Store.Memory ρ) : Prop :=
  Intact w w' ∨
    ∃ node written, (w.memory node).records.contains key = true ∧ Served node (.write key fields) w written w'

def owns (w : Cluster Store.Memory ρ) (key : String) (node : NodeId) : Bool :=
  (w.memory node).obstacle.isNone && (w.memory node).records.contains key

omit [Registry ρ] in
theorem owns_iff : w.owns key node = true ↔
    (w.memory node).obstacle = none ∧ (w.memory node).records.contains key = true := by
  simp [owns]

def obstacles (w : Cluster Store.Memory ρ) (nodes : List NodeId) : List (NodeId × Fault) :=
  nodes.filterMap fun node => (w.memory node).obstacle.map fun cause => (node, .connection cause)

omit [Registry ρ] in
theorem Intact.owns (h : Intact w w') : w'.owns = w.owns := by
  funext key node
  rw [Cluster.owns, Cluster.owns, h.memory]

omit [Registry ρ] in
theorem Intact.obstacles (h : Intact w w') : w'.obstacles = w.obstacles := by
  funext nodes
  rw [Cluster.obstacles, Cluster.obstacles, h.memory]

/-- How an update ends that has these failures behind it and these nodes before it. -/
inductive Updates (key : String) (fields : Record) (w : Cluster Store.Memory ρ) (failures : List (NodeId × Fault))
    (nodes : List NodeId) : Except Fault (Option NodeId) → Cluster Store.Memory ρ → Prop
  | written {node : NodeId} {w' : Cluster Store.Memory ρ} : nodes.find? (w.owns key) = some node →
    w'.nodes = w.nodes.insert node ((w.memory node).write key fields) → w'.registry = w.registry →
      Updates key fields w failures nodes (.ok (some node)) w'
  | unheld {w' : Cluster Store.Memory ρ} : nodes.find? (w.owns key) = none → Intact w w' →
    Updates key fields w failures nodes (Fault.outcome (failures ++ w.obstacles nodes) none) w'

omit [Registry ρ] in
/-- Behind a node that is passed over, an update goes on with what that node said. -/
theorem Updates.behind {w₁ : Cluster Store.Memory ρ} {fields : Record} {failures : List (NodeId × Fault)}
    {rest : List NodeId} {outcome : Except Fault (Option NodeId)} (hs : Intact w w₁) (hno : w.owns key node = false)
    (h : Updates key fields w₁ (failures ++ w.obstacles [node]) rest outcome w') :
    Updates key fields w failures (node :: rest) outcome w' := by
  have hfind : (node :: rest).find? (w.owns key) = rest.find? (w.owns key) := List.find?_cons_of_neg (by simp [hno])
  have hfailures : failures ++ w.obstacles [node] ++ w.obstacles rest = failures ++ w.obstacles (node :: rest) := by
    rw [List.append_assoc, obstacles, obstacles, ← List.filterMap_append]
    rfl
  cases h with
  | written hf hnodes hreg =>
    rw [hs.owns, ← hfind] at hf
    exact .written hf (by rw [hnodes, hs.1, hs.memory]) (hreg.trans hs.2)
  | unheld hf hs' =>
    rw [hs.owns, ← hfind] at hf
    rw [hs.obstacles, hfailures]
    exact .unheld hf (hs.trans hs')

omit [Registry ρ] in
/-- An update writes to the first node that can be used and holds the record. -/
theorem updateFirst_updates (key : String) (fields : Record) {nodes : List NodeId} (hn : ∀ node ∈ nodes, node ∈ w.ids)
    (failures : List (NodeId × Fault)) :
    Ensures w (updateFirst key fields failures nodes) (fun updated => Updates key fields w failures nodes (.ok updated))
      fun fault => Updates key fields w failures nodes (.error fault) := by
  induction nodes generalizing w failures with
  | nil =>
    have unheld : Updates key fields w failures [] (Fault.outcome (failures ++ w.obstacles []) none) w :=
      .unheld rfl (.refl w)
    rw [show failures ++ w.obstacles [] = failures from List.append_nil failures] at unheld
    exact ensures_unlessFailed unheld
  | cons node rest ih =>
    have hnode := hn node List.mem_cons_self
    -- behind a node that does not own the record, the rest of the walk goes on with what that node said
    have goesOn : ∀ {w₁ : Cluster Store.Memory ρ} {said : List (NodeId × Fault)}, Intact w w₁ →
        w.owns key node = false → w.obstacles [node] = said →
        Ensures w₁ (updateFirst key fields (failures ++ said) rest)
          (fun updated => Updates key fields w failures (node :: rest) (.ok updated))
          fun fault => Updates key fields w failures (node :: rest) (.error fault) := by
      rintro w₁ _ hs hno rfl
      refine (ih (fun other ho => hs.ids ▸ hn other (List.mem_cons_of_mem _ ho)) _).mono ?_ ?_
      · exact fun _ _ h => h.behind hs hno
      · exact fun _ _ h => h.behind hs hno
    cases ho : (w.memory node).obstacle with
    | some cause =>
      refine (ask_refused (by simp) (get?_memory hnode) ho).attempt_bind (fun _ _ hf => hf.elim) fun fault w₁ h₁ => ?_
      obtain ⟨rfl, hs⟩ := h₁
      exact goesOn hs (by simp [owns, ho]) (by simp [obstacles, ho])
    | none =>
      refine (ask_looks rfl (get?_memory hnode) ho).attempt_bind (fun holds w₁ h₁ => ?_) fun _ _ hf => hf.elim
      obtain ⟨hholds, hs⟩ := h₁
      have howns : w.owns key node = holds := by
        rw [hholds, owns, ho]
        rfl
      cases holds with
      | false =>
        have hsaid : w.obstacles [node] = [] := by simp [obstacles, ho]
        have rest := goesOn hs howns hsaid
        rwa [List.append_nil] at rest
      | true =>
        have hn₁ : w₁.nodes.get? node = some (w.memory node) := by rw [hs.1, get?_memory hnode]
        refine (ask_serves (.write key fields) hn₁ ho).andThen (fun _ _ hf => hf.elim) fun _ w₂ h₂ => ensures_pure ?_
        refine .written (List.find?_cons_of_pos howns) ?_ (h₂.2.2.trans hs.2)
        rw [h₂.2.1, hs.1]
        rfl

omit [Registry ρ] in
/-- Whatever an update comes to, it has written to a node that holds the record, if to any. -/
theorem updateFirst_writes (key : String) (fields : Record) {nodes : List NodeId} (hn : ∀ node ∈ nodes, node ∈ w.ids)
    (failures : List (NodeId × Fault)) :
    Ensures w (updateFirst key fields failures nodes) (fun _ w' => Overwritten key fields w w')
      fun _ w' => Overwritten key fields w w' := by
  have overwritten : ∀ {outcome w'}, Updates key fields w failures nodes outcome w' → Overwritten key fields w w' := by
    rintro _ w' (⟨hf, hnodes, hreg⟩ | ⟨-, hs⟩)
    · obtain ⟨hu, hheld⟩ := owns_iff.1 (List.find?_some hf)
      exact .inr ⟨_, _, hheld, hn _ (List.mem_of_find?_eq_some hf), hu, rfl, hnodes, hreg⟩
    · exact .inl hs
  exact (updateFirst_updates key fields hn failures).mono (fun _ _ => overwritten) fun _ _ => overwritten

/-- An update changes the first node that holds the record, if one does. -/
theorem updateFirst_changes (R : Reliable ρ) (key : String) (fields : Record) {nodes : List NodeId}
    (hn : ∀ node ∈ nodes, node ∈ w.ids) (hu : Usable w) :
    Ensures w (updateFirst key fields [] nodes)
      (fun updated w' => updated = nodes.find? (fun node => (w.memory node).records.contains key) ∧
        R.known w' = R.known w ∧
        w'.nodes = match updated with
          | none => w.nodes
          | some node => w.nodes.insert node ((w.memory node).write key fields))
      fun _ _ => False := by
  have howns : w.owns key = fun node => (w.memory node).records.contains key := by
    funext node
    rw [owns, hu node]
    rfl
  have hobstacles : w.obstacles nodes = [] := List.filterMap_eq_nil_iff.2 fun node _ => by rw [hu node]; rfl
  have hnone : Fault.outcome ([] ++ w.obstacles nodes) (none : Option NodeId) = .ok none := by
    rw [hobstacles]
    rfl
  refine (updateFirst_updates key fields hn []).mono (fun updated w' h => ?_) fun fault w' h => ?_
  · rw [← howns]
    generalize ho : Except.ok updated = outcome at h
    cases h with
    | written hf hnodes hreg =>
      cases ho
      exact ⟨hf.symm, Reliable.known_of_registry hreg, hnodes⟩
    | unheld hf hs =>
      cases ho.trans hnone
      exact ⟨hf.symm, (hs.same R).known, hs.1⟩
  · generalize ho : Except.error fault = outcome at h
    cases h with
    | written => cases ho
    | unheld => cases ho.trans hnone

/-- A delete drops the record, with its index entry, from the first node that holds it, if one does, as long as every
node has index entries for its records and for no others. -/
theorem deleteFirst_drops (R : Reliable ρ) (key : String) {nodes : List NodeId} (hn : ∀ node ∈ nodes, node ∈ w.ids)
    (hu : Usable w) (hi : ∀ node, (w.memory node).index.contains key = (w.memory node).records.contains key) :
    Ensures w (deleteFirst key [] nodes)
      (fun deleted w' => deleted = nodes.find? (fun node => (w.memory node).records.contains key) ∧
        R.known w' = R.known w ∧
        w'.nodes = match deleted with
          | none => w.nodes
          | some node => w.nodes.insert node
            { w.memory node with
              records := (w.memory node).records.erase key, index := (w.memory node).index.erase key })
      fun _ _ => False := by
  induction nodes generalizing w with
  | nil => exact ensures_pure ⟨rfl, rfl, rfl⟩
  | cons node rest ih =>
    have hnode := hn node List.mem_cons_self
    have dropped := ask_serves (.removeIndexed key) (get?_memory hnode) (hu node)
    refine dropped.attempt_bind (fun both w₁ h₁ => ?_) fun _ _ hf => hf.elim
    obtain ⟨rfl, hnodes, hreg⟩ := h₁
    rw [Store.Memory.serve, hi, Bool.and_self]
    have hknown : R.known w₁ = R.known w := Reliable.known_of_registry hreg
    rw [List.find?_cons]
    cases hheld : (w.memory node).records.contains key with
    | false =>
      -- The node had neither, so asking it has changed nothing.
      have hsame : Same R w w₁ := by
        refine ⟨?_, hknown⟩
        rw [hnodes, Store.Memory.serve_removeIndexed_of_absent hheld ((hi node).trans hheld),
          Dict.insert_of_get? (get?_memory hnode)]
      have rest := ih (w := w₁) (fun other ho => hsame.ids ▸ hn other (List.mem_cons_of_mem _ ho)) (hsame.usable hu)
        (by rw [hsame.memory]; exact hi)
      rw [hsame.memory, hsame.nodes, hsame.known] at rest
      exact rest
    | true => exact ensures_pure ⟨rfl, hknown, hnodes⟩

theorem update_changes (R : Reliable ρ) (key : String) (fields : Record) (hu : Usable w) :
    Ensures w (update key fields)
      (fun updated w' => updated = w.ids.find? (fun node => (w.memory node).records.contains key) ∧
        R.known w' = R.known w ∧
        w'.nodes = match updated with
          | none => w.nodes
          | some node => w.nodes.insert node ((w.memory node).write key fields))
      fun _ _ => False :=
  updateFirst_changes R key fields (fun _ hn => hn) hu

/-- A delete makes the registry forget the place that it deleted from, and no other. -/
theorem delete_drops (R : Reliable ρ) (key : String) (hu : Usable w)
    (hi : ∀ node, (w.memory node).index.contains key = (w.memory node).records.contains key) :
    Ensures w (delete key)
      (fun deleted w' => deleted = w.ids.find? (fun node => (w.memory node).records.contains key) ∧
        match deleted with
          | none => Same R w w'
          | some node =>
            w'.nodes = w.nodes.insert node
                { w.memory node with
                  records := (w.memory node).records.erase key, index := (w.memory node).index.erase key } ∧
              R.known w' = (R.known w).map fun l => (Registry.Ledger.perform (.withdraw node key) l).2)
      fun _ _ => False := by
  refine (deleteFirst_drops R key (fun _ hn => hn) hu hi).bind fun deleted w₁ h₁ => ?_
  obtain ⟨hfirst, hknown, hnodes⟩ := h₁
  cases deleted with
  | none => exact ensures_pure ⟨hfirst, hnodes, hknown⟩
  | some node =>
    refine ensures_hasRegistry_bind ?_
    cases hreg : w₁.registry with
    | none =>
      refine ensures_pure ⟨hfirst, hnodes, ?_⟩
      rw [← hknown, Reliable.known_of_none hreg]
      rfl
    | some state =>
      have hl : R.known w₁ = some (R.ledger state) := Reliable.known_of_some hreg
      refine (consult_answers (.withdraw node key) hl (by simp) (by simp)).bind fun _ w₂ h₂ => ensures_pure ?_
      refine ⟨hfirst, h₂.2.1.trans hnodes, ?_⟩
      rw [h₂.2.2, ← hknown, hl]
      rfl

/-! ## Inserting -/

structure Ready (how : Selection) (key : String) (fields : Record) (w : Cluster Store.Memory ρ) : Prop where
  fields : fields.isEmpty = false
  usable : Usable w
  nodes : w.ids ≠ []
  registry : how = .registry → w.registry.isSome = true
  fresh : ∀ node, (w.memory node).records.contains key = false

/-- The node has got the record and its index entry, and the registry the place, if there is a registry. -/
structure Added (R : Reliable ρ) (node : NodeId) (key : String) (fields : Record) (w w' : Cluster Store.Memory ρ) :
    Prop where
  member : node ∈ w.ids
  usable : (w.memory node).obstacle = none
  created : ((w.memory node).record key).created fields = fields.size
  nodes : w'.nodes = w.nodes.insert node
    { (w.memory node).write key fields with index := (w.memory node).index.insert key (KeyHash.score key) }
  known : R.known w' = (R.known w).map fun l => (Registry.Ledger.perform (.place node key) l).2

omit [Registry ρ] in
/-- A write that is answered with the number of fields given has written them. One that is not has changed nothing, or
has put them over an older record. -/
theorem writeNew_writes_fields (w : Cluster Store.Memory ρ) (node : NodeId) (key : String) (fields : Record) :
    Ensures w (writeNew node key fields) (fun _ w' => Served node (.write key fields) w fields.size w')
      fun _ w' => Overwritten key fields w w' ∧
        (node ∈ w.ids → (w.memory node).obstacle = none → (w.memory node).records.contains key = true) := by
  refine (ask_served (by simp) w node).andThen (fun _ w₁ h₁ => ?_) fun written w₁ h₁ => ?_
  · exact ⟨.inl h₁.1, fun hmem hu => absurd hu (h₁.2 hmem)⟩
  split
  · rename_i hne
    have hheld : (w.memory node).records.contains key = true := by
      cases hheld : (w.memory node).records.contains key with
      | true => rfl
      | false =>
        rw [h₁.answer, Store.Memory.serve, Store.Memory.record_of_absent hheld, Record.created_empty] at hne
        exact absurd rfl hne
    exact ensures_throw ⟨.inr ⟨node, written, hheld, h₁⟩, fun _ _ => hheld⟩
  · rename_i he
    exact ensures_pure (Decidable.not_not.1 he ▸ h₁)

theorem confirm_places (R : Reliable ρ) (w : Cluster Store.Memory ρ) (node : NodeId) (key : String) :
    Ensures w (confirm node key)
      (fun _ w' => w'.nodes = w.nodes ∧
        R.known w' = (R.known w).map fun l => (Registry.Ledger.perform (.place node key) l).2)
      fun _ _ => False := by
  refine ensures_hasRegistry_bind ?_
  cases hreg : w.registry with
  | none =>
    refine ensures_pure ⟨rfl, ?_⟩
    rw [Reliable.known_of_none hreg]
    rfl
  | some state =>
    have hl : R.known w = some (R.ledger state) := Reliable.known_of_some hreg
    have placed := consult_answers (.place node key) hl (by simp) (by simp)
    refine placed.attempt_bind (fun confirmed w₁ h₁ => ?_) fun _ _ hf => hf.elim
    obtain ⟨hconfirmed, hnodes, hknown⟩ := h₁
    cases hconfirmed
    refine ensures_pure ⟨hnodes, ?_⟩
    rw [hknown, hl]
    rfl

theorem enter_indexes {m : Store.Memory} (hn : w.nodes.get? node = some m) (hu : m.obstacle = none) :
    Ensures w (enter node key)
      (fun _ w' => w'.nodes = w.nodes.insert node { m with index := m.index.insert key (KeyHash.score key) } ∧
        w'.registry = w.registry)
      fun _ _ => False := by
  have indexed := ask_serves (.indexAdd (KeyHash.score key) key) hn hu
  exact indexed.attempt_bind (fun _ w₁ h₁ => ensures_pure h₁.2) fun _ _ hf => hf.elim

/-- An insert without fields, or one that is to ask a registry where there is none, fails and has done nothing. -/
theorem insert_refused (key : String) {how : Selection} {fields : Record}
    (h : fields.isEmpty = true ∨ how = .registry ∧ w.registry = none) :
    Ensures w (insert how key fields) (fun _ _ => False) fun _ w' => w' = w := by
  unfold insert
  split
  · exact ensures_throw rfl
  rename_i he
  obtain ⟨rfl, hr⟩ := h.resolve_left he
  have refused : Ensures w (choose .registry) (fun _ _ => False) fun _ w' => w' = w := by
    have suggested : Ensures w suggested (fun _ _ => False) fun _ w' => w' = w := by
      refine ensures_inspect_bind ?_
      have absent : Ensures w (consult (.suggest w.ids)) (fun _ _ => False) fun _ w' => w' = w :=
        ensures_consult (fun _ _ _ hs _ => by rw [hr] at hs; cases hs) (fun _ _ _ hs _ => by rw [hr] at hs; cases hs)
          fun _ => rfl
      exact absent.bind fun _ _ hf => hf.elim
    refine ensures_inspect_bind ?_
    dsimp only
    split
    · exact ensures_throw rfl
    · exact suggested
  exact refused.bind fun _ _ hf => hf.elim

/-- An insert that ends well has added the record to one node, and one that is ready ends well. -/
theorem insert_adds (R : Reliable ρ) (w : Cluster Store.Memory ρ) (how : Selection) (key : String) (fields : Record) :
    Ensures w (insert how key fields) (fun node w' => fields.isEmpty = false ∧ Added R node key fields w w')
      fun _ _ => ¬ Ready how key fields w := by
  unfold insert
  split
  · rename_i he
    refine ensures_throw fun hready => ?_
    rw [hready.fields] at he
    cases he
  rename_i he
  -- a choice may fail where the cluster is not ready, and then nothing is to be shown of it
  have chosen : Ensures w (choose how) (fun node w' => Same R w w' ∧ (Ready how key fields w → node ∈ w.ids))
      fun _ _ => ¬ Ready how key fields w := by
    by_cases hready : Ready how key fields w
    · refine (choose_finds R hready.usable hready.nodes hready.registry).mono (fun _ _ hw => ?_) fun _ _ hf => hf.elim
      exact ⟨hw.2, fun _ => hw.1⟩
    · have kept := (permits_same R).choose rfl (fun _ => rfl) how w
      exact kept.mono (fun _ _ hs => ⟨hs, fun h => absurd h hready⟩) fun _ _ _ => hready
  refine chosen.bind fun node w₁ h₁ => ?_
  obtain ⟨hs, hmem⟩ := h₁
  refine (writeNew_writes_fields w₁ node key fields).andThen (fun _ _ hfail hready => ?_) fun _ w₂ h₂ => ?_
  · have hheld := hfail.2
    rw [hs.memory, hs.ids] at hheld
    have hheld := hheld (hmem hready) (hready.usable node)
    rw [hready.fresh] at hheld
    cases hheld
  obtain ⟨hmem, hu, hcreated, hnodes₂, hreg₂⟩ := h₂
  rw [hs.ids] at hmem
  rw [hs.memory] at hu hcreated hnodes₂
  rw [hs.nodes, Store.Memory.serve] at hnodes₂
  refine (confirm_places R w₂ node key).andThen (fun _ _ hf => hf.elim) fun _ w₃ h₃ => ?_
  obtain ⟨hnodes₃, hknown₃⟩ := h₃
  have hn₃ : w₃.nodes.get? node = some ((w.memory node).write key fields) := by
    rw [hnodes₃, hnodes₂, Dict.get?_insert_self]
  have hu₃ : ((w.memory node).write key fields).obstacle = none := (Store.Memory.obstacle_write ..).trans hu
  refine (enter_indexes hn₃ hu₃).andThen (fun _ _ hf => hf.elim) fun _ w₄ h₄ => ensures_pure ?_
  refine ⟨Bool.eq_false_iff.2 he, hmem, hu, hcreated.symm, ?_, ?_⟩
  · rw [h₄.1, hnodes₃, hnodes₂, Dict.insert_insert, Store.Memory.index_write]
  · rw [Reliable.known_of_registry h₄.2, hknown₃, Reliable.known_of_registry hreg₂, hs.known]

end Placement.Cluster
