import Placement.Proofs.Outcome
import Placement.Proofs.Windows

/-!
A scan gathers the windows of the indexes.

Each key that a node lists is read from wherever its record is, so what a scan gives for a node depends on its index
and on the records of all nodes. Where every key has its record on one node at most, and the registry names it if there
is one, that is the records of the window, key by key.

- `lookup_held`: a read finds the record of the key, whichever way it looks.
- `scan_gathers_windows`: what a scan gives.
-/

namespace Placement.Cluster

open Registry (Reliable)
open Store.Memory (Window)

variable {ρ : Type} {w : Cluster Store.Memory ρ} {node : NodeId} {key : String}

/-! ## Where records are -/

def held (w : Cluster Store.Memory ρ) (key : String) : Option Record :=
  w.ids.findSome? fun node => (w.memory node).records.get? key

/-- Every key has its record on one node at most. -/
def SinglyHeld (w : Cluster Store.Memory ρ) : Prop :=
  ∀ key node node', (w.memory node).records.contains key = true → (w.memory node').records.contains key = true →
    node = node'

/-- The ledger has each key that is held on its node, and no other key. -/
structure Charted (l : Registry.Ledger) (w : Cluster Store.Memory ρ) : Prop where
  held : ∀ node key, (w.memory node).records.contains key = true → l.placements.get? key = some ⟨node, true⟩
  only : ∀ key, l.placements.contains key = true → ∃ node, (w.memory node).records.contains key = true

/-- What holds of all keys on the nodes holds of all keys that are held. -/
theorem forall_held {P : NodeId → String → Prop}
    (h : ∀ node ∈ w.ids, ∀ key ∈ (w.memory node).records.keys, P node key) (node : NodeId) (key : String)
    (hk : (w.memory node).records.contains key = true) : P node key :=
  h node (mem_ids_of_held hk) key (Dict.mem_keys.2 hk)

/-- A ledger has one place for a key, so a key that is held has one holder. -/
theorem Charted.singlyHeld {l : Registry.Ledger} (h : Charted l w) : SinglyHeld w := by
  intro key node node' hk hk'
  have hnode := h.held node key hk
  rw [h.held node' key hk'] at hnode
  cases hnode
  rfl

/-- A key has its record on one node, or on none. -/
theorem SinglyHeld.cases (h : SinglyHeld w) (key : String) :
    (∃ node ∈ w.ids, ∃ r, ∀ other, (w.memory other).records.get? key = if node = other then some r else none) ∨
      ∀ node, (w.memory node).records.get? key = none := by
  by_cases hheld : ∃ node, (w.memory node).records.contains key = true
  · obtain ⟨node, hk⟩ := hheld
    obtain ⟨r, hr⟩ := Dict.contains_iff.1 hk
    refine .inl ⟨node, mem_ids_of_held hk, r, fun other => ?_⟩
    split
    · rename_i he
      rw [← he, hr]
    · rename_i hne
      exact Dict.contains_eq_false.1 (Bool.eq_false_iff.2 fun ho => hne (h key node other hk ho))
  · refine .inr fun node => Dict.contains_eq_false.1 (Bool.eq_false_iff.2 fun hk => hheld ⟨node, hk⟩)

variable [Registry ρ] {R : Reliable ρ}

/-- A read finds the asked-for part of the record of the key, unless that has no fields. -/
theorem lookup_held (h : SinglyHeld w) (hl : ∀ l, R.known w = some l → Charted l w) (key : String)
    (names : Option (List String)) :
    (lookup R w key names).map Found.record = ((w.held key).map (·.select names)).filter (!·.isEmpty) := by
  rcases h.cases key with ⟨node, hn, r, hr⟩ | hr
  · have hplace : ∀ l, R.known w = some l → l.placements.get? key = some ⟨node, true⟩ := fun l hknown =>
      (hl l hknown).held node key (Dict.contains_iff.2 ⟨r, by rw [hr, if_pos rfl]⟩)
    rw [lookup_of_only hn hr hplace, map_record_of, held, findSome?_of_only hn hr]
    rfl
  · rw [lookup_of_nowhere hr, held, List.findSome?_eq_none_iff.2 fun node _ => hr node]
    rfl

/-! ## Scanning -/

def gathered (w : Cluster Store.Memory ρ) (names : Option (List String)) (count : Nat)
    (entries : List (String × Score)) : List Record :=
  (entries.take count).filterMap fun e => ((w.held e.1).map (·.select names)).filter (!·.isEmpty)

/-- What a scan gives: node by node the records at the beginning of the window. -/
structure Gathers (w : Cluster Store.Memory ρ) (min : Score) (count : Nat) (names : Option (List String))
    (window : NodeId → List (String × Score)) (records : List Record) : Prop where
  ascending : w.ids.Pairwise (· < ·)
  windows : ∀ node, Window (w.memory node).index min (window node)
  records : records = w.ids.flatMap fun node => w.gathered names count (window node)
  /-- No node adds more than so many records, and none of them twice. -/
  bounded : ∀ node, (w.gathered names count (window node)).length ≤ count
  once : ∀ node, ((window node).map (·.1)).Nodup

theorem scan_gathers (R : Reliable ρ) (hu : Usable w) (h : SinglyHeld w) (hl : ∀ l, R.known w = some l → Charted l w)
    (start : String) (count : Nat) (names : Option (List String)) {window : NodeId → List (String × Score)}
    (hwindow : ∀ node, Window (w.memory node).index (KeyHash.score start) (window node)) :
    Ensures w (scan start count names)
      (fun records _ => records = w.ids.flatMap fun node => w.gathered names count (window node)) fun _ _ => False := by
  -- every place that the ledger has is a node that holds the key
  have hp : ∀ l location key, R.known w = some l → l.placements.get? key = some location → location.node ∈ w.ids := by
    intro l location key hknown hplace
    obtain ⟨node, hk⟩ := (hl l hknown).only key (Dict.contains_iff.2 ⟨location, hplace⟩)
    have hnode := (hl l hknown).held node key hk
    rw [hplace] at hnode
    cases hnode
    exact mem_ids_of_held hk
  have reads : ∀ key w', Same R w w' → Ensures w' (read key names)
      (fun found w'' => found = lookup R w key names ∧ Same R w w'') fun _ _ => False := by
    intro key w' hs
    have hfinds := read_finds R key names (hs.usable hu) fun l location hknown hplace => by
      rw [hs.ids]
      exact hp l location key (hs.known ▸ hknown) hplace
    exact hfinds.mono (fun found w'' hf => ⟨hs.lookup ▸ hf.1, hs.trans hf.2⟩) fun _ _ hf => hf
  have hscan := scan_finds reads hu (fun _ hs => hs.nodes) (fun _ _ hs hs' => hs.trans (hs'.same R)) (.refl R w) start
    count
  refine hscan.mono (fun records _ hrecords => ?_) fun _ _ hf => hf
  rw [hrecords.1]
  refine List.flatMap_congr fun node _ => ?_
  rw [(hwindow node).range, List.filterMap_map, gathered]
  exact List.filterMap_congr fun e _ => lookup_held h hl e.1 names

/-- On nodes that can be used, each key on one of them at most, and with a registry that knows where, or none, a scan
gives the records of the windows. -/
theorem scan_gathers_windows (R : Reliable ρ) (hu : Usable w) (h : SinglyHeld w)
    (hl : ∀ l, R.known w = some l → Charted l w) (start : String) (count : Nat) (names : Option (List String)) :
    ∃ window records w', run (scan start count names) w = (.ok records, w') ∧
      Gathers w (KeyHash.score start) count names window records := by
  let window := fun node =>
    ((w.memory node).index.toList.filter fun e => e.2.atLeast (KeyHash.score start)).mergeSort Store.Memory.entryLe
  have hwindow : ∀ node, Window (w.memory node).index (KeyHash.score start) (window node) := fun node =>
    Store.Memory.window_mergeSort ..
  have hscan := scan_gathers R hu h hl start count names hwindow
  rcases hrun : run (scan start count names) w with ⟨fault | records, w'⟩
  · exact (hscan.error hrun).elim
  refine ⟨window, records, w', rfl, w.nodes.keys_ascending, hwindow, hscan.ok hrun, fun node => ?_, fun node =>
    (hwindow node).keys_nodup⟩
  exact Nat.le_trans (List.length_filterMap_le ..) (List.length_take_le ..)

def crossed : Cluster Store.Memory Registry.Ledger where
  nodes := Dict.ofList [
    ("a", {
      records := Dict.ofList [("x", Dict.ofList [("f", "1")]), ("z", Dict.ofList [("g", "2")])]
      index := Dict.ofList [("y", .zero), ("x", .zero), ("gone", .infinity), ("z", .nan)] }),
    ("b", {
      records := Dict.ofList [("y", Dict.ofList [("f", "3"), ("g", "4")])]
      index := Dict.ofList [("x", .infinity), ("y", .negativeZero)] })]
  registry := some { placements := Dict.ofList [("x", ⟨"a", true⟩), ("y", ⟨"b", true⟩), ("z", ⟨"a", true⟩)] }

theorem crossed_charted :
    Charted { placements := Dict.ofList [("x", ⟨"a", true⟩), ("y", ⟨"b", true⟩), ("z", ⟨"a", true⟩)] } crossed where
  held := forall_held (by decide)
  only key hk := by
    have hkeys : ∀ key ∈ ["x", "y", "z"], ∃ node ∈ crossed.ids, (crossed.memory node).records.contains key = true := by
      decide
    obtain ⟨node, -, hheld⟩ := hkeys key (Dict.mem_keys.2 hk)
    exact ⟨node, hheld⟩

/-- The first two entries of either node are read, the tie by key, each from the node that has its record. -/
theorem crossed_windows_are_gathered :
    ∃ w', run (scan "user1" 2 (some ["f"])) crossed =
      (.ok [Dict.ofList [("f", "1")], Dict.ofList [("f", "3")], Dict.ofList [("f", "3")], Dict.ofList [("f", "1")]],
        w') := by
  have husable : Usable crossed := usable_of_ids (by decide)
  obtain ⟨window, records, w', hrun, hg⟩ := scan_gathers_windows Reliable.self husable crossed_charted.singlyHeld
    (fun l hl => by cases hl; exact crossed_charted) "user1" 2 (some ["f"])
  have ha : Window (crossed.memory "a").index (KeyHash.score "user1") [("x", .zero), ("y", .zero), ("gone", .infinity)] :=
    Store.Memory.window_of_perm (by decide) (by decide +kernel)
  have hb : Window (crossed.memory "b").index (KeyHash.score "user1") [("y", .negativeZero), ("x", .infinity)] :=
    Store.Memory.window_of_perm (by decide) (by decide +kernel)
  refine ⟨w', ?_⟩
  rw [hrun, hg.records, show crossed.ids = ["a", "b"] from rfl, List.flatMap_cons, List.flatMap_cons, List.flatMap_nil,
    (hg.windows "a").unique ha, (hg.windows "b").unique hb]
  rfl

end Placement.Cluster
