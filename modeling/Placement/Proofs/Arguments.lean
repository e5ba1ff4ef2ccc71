import Mathlib.Data.List.Induction
import Placement.CommandLine.Run
import Placement.Proofs.Balance

/-!
Records from the arguments of commands, printed again.

An argument gives a field: its name before the first equals sign and its value behind it. Of several arguments with one
name the last counts. What an insert takes from its arguments is what a read after it prints, all of it or the part that
is named, as long as there is a node and a way to choose one.

- `fieldPair?_eq_some_iff`: what an argument gives.
- `get?_ofList_iff`: what several arguments give together.
- `insert_places`: where the record of an insert is then.
- `arguments_are_printed`: what the two commands print.
-/

namespace Placement

/-- Of two pairs with one key the later wins. -/
theorem Dict.ofList_concat {β : Type} (l : List (String × β)) (e : String × β) :
    Dict.ofList (l ++ [e]) = (Dict.ofList l).insert e.1 e.2 := by
  simp [Dict.ofList]

theorem Dict.isEmpty_ofList {β : Type} (l : List (String × β)) : (Dict.ofList l).isEmpty = l.isEmpty := by
  rcases List.eq_nil_or_concat l with rfl | ⟨l, e, rfl⟩
  · rfl
  · rw [List.concat_eq_append, Dict.ofList_concat, Dict.isEmpty_eq_false.mpr ⟨e.1, by simp [Dict.contains_insert]⟩]
    simp

/-! ## Arguments -/

namespace CommandLine

/-- The argument gives the field the value: an equals sign between the two, and none in the name, which is not empty. -/
structure Gives (raw name value : String) : Prop where
  written : raw.toList = name.toList ++ '=' :: value.toList
  named : name ≠ ""
  first : '=' ∉ name.toList

theorem splitPair?_eq_some_iff {cs name value : List Char} :
    splitPair? cs = some (name, value) ↔ cs = name ++ '=' :: value ∧ '=' ∉ name := by
  induction cs generalizing name with
  | nil => simp [splitPair?]
  | cons c rest ih =>
    by_cases hc : c = '='
    · subst hc
      cases name with
      | nil => simp [splitPair?, eq_comm]
      | cons d name =>
        have hno : ¬ ('=' :: rest = d :: name ++ '=' :: value ∧ '=' ∉ d :: name) := by
          rintro ⟨hall, hname⟩
          obtain ⟨rfl, -⟩ := List.cons.inj hall
          exact hname List.mem_cons_self
        simp only [hno, iff_false]
        simp [splitPair?]
    · have hsplit : splitPair? (c :: rest) = (splitPair? rest).map fun found => (c :: found.1, found.2) := by
        rw [splitPair?]
        exact hc
      cases name with
      | nil => simp [hsplit, hc]
      | cons d name =>
        have hcons : splitPair? (c :: rest) = some (d :: name, value) ↔
            c = d ∧ splitPair? rest = some (name, value) := by
          rw [hsplit]
          cases splitPair? rest with
          | none => simp
          | some found => simp [Prod.ext_iff, and_assoc]
        rw [hcons, ih]
        constructor
        · rintro ⟨rfl, rfl, hname⟩
          exact ⟨rfl, by simp [hname, Ne.symm hc]⟩
        · rintro ⟨hall, hname⟩
          obtain ⟨rfl, rfl⟩ := List.cons.inj hall
          exact ⟨rfl, rfl, fun h => hname (List.mem_cons_of_mem _ h)⟩

theorem fieldPair?_eq_some_iff {raw name value : String} :
    fieldPair? raw = some (name, value) ↔ Gives raw name value := by
  constructor
  · intro h
    obtain ⟨⟨left, right⟩, hsplit, hrest⟩ := Option.bind_eq_some_iff.mp h
    obtain ⟨hraw, hfirst⟩ := splitPair?_eq_some_iff.mp hsplit
    dsimp only at hrest
    split at hrest
    · cases hrest
    · rename_i hempty
      cases hrest
      refine ⟨by simpa using hraw, ?_, by simpa using hfirst⟩
      rintro hname
      rw [String.ofList_eq_empty_iff] at hname
      exact hempty (by simp [hname])
  · intro h
    have hsplit := splitPair?_eq_some_iff.mpr ⟨h.written, h.first⟩
    simp [fieldPair?, hsplit, h.named]

/-- An argument is a field if it has an equals sign and does not start with one. -/
theorem isSome_fieldPair?_iff (raw : String) :
    (fieldPair? raw).isSome = true ↔ '=' ∈ raw.toList ∧ raw.toList.head? ≠ some '=' := by
  constructor
  · intro h
    obtain ⟨⟨name, value⟩, hpair⟩ := Option.isSome_iff_exists.mp h
    obtain ⟨hraw, hname, hfirst⟩ := fieldPair?_eq_some_iff.mp hpair
    rw [hraw]
    refine ⟨by simp, fun hhead => ?_⟩
    cases hn : name.toList with
    | nil => exact hname (by simpa using hn)
    | cons c rest =>
      rw [hn] at hhead hfirst
      obtain rfl : c = '=' := by simpa using hhead
      simp at hfirst
  · rintro ⟨hmem, hhead⟩
    obtain ⟨name, value, hraw, hfirst⟩ := List.eq_append_cons_of_mem hmem
    refine Option.isSome_iff_exists.mpr
      ⟨(String.ofList name, String.ofList value), fieldPair?_eq_some_iff.mpr ⟨?_, ?_, ?_⟩⟩
    · simpa using hraw
    · rintro hname
      rw [String.ofList_eq_empty_iff] at hname
      rw [hraw, hname] at hhead
      exact hhead rfl
    · simpa using hfirst

/-- Of the arguments that give the field a value, the last gives it this one. -/
def GivesLast (raws : List String) (name value : String) : Prop :=
  ∃ before raw after, raws = before ++ raw :: after ∧ Gives raw name value ∧
    ∀ later ∈ after, ∀ value', ¬ Gives later name value'

/-- A further argument counts for the field it gives, and for no other. -/
theorem givesLast_concat {raws : List String} {raw name value : String} :
    GivesLast (raws ++ [raw]) name value ↔
      Gives raw name value ∨ (∀ value', ¬ Gives raw name value') ∧ GivesLast raws name value := by
  constructor
  · rintro ⟨before, given, after, hall, hgives, hlater⟩
    rcases List.eq_nil_or_concat after with rfl | ⟨after, last, rfl⟩
    · obtain ⟨-, hlast⟩ := List.append_inj' hall rfl
      cases hlast
      exact .inl hgives
    · rw [List.concat_eq_append, ← List.cons_append, ← List.append_assoc] at hall
      obtain ⟨rfl, hlast⟩ := List.append_inj' hall rfl
      cases hlast
      exact .inr ⟨hlater raw (by simp), before, given, after, rfl, hgives, fun later h => hlater later (by simp [h])⟩
  · rintro (hgives | ⟨hnot, before, given, after, rfl, hgives, hlater⟩)
    · exact ⟨raws, raw, [], rfl, hgives, by simp⟩
    · refine ⟨before, given, after ++ [raw], by simp, hgives, fun later h => ?_⟩
      rcases List.mem_append.mp h with h | h
      · exact hlater later h
      · rwa [List.mem_singleton.mp h]

/-- Several arguments together give each field the value of the last one for it. -/
theorem get?_ofList_iff {raws : List String} {fields : List (String × String)} (h : raws.mapM fieldPair? = some fields)
    (name value : String) : (Dict.ofList fields).get? name = some value ↔ GivesLast raws name value := by
  induction raws using List.reverseRecOn generalizing fields with
  | nil =>
    cases h
    simp [Dict.ofList, GivesLast]
  | append_singleton raws raw ih =>
    have hsplit : ∃ earlier last, raws.mapM fieldPair? = some earlier ∧ fieldPair? raw = some last ∧
        fields = earlier ++ [last] := by
      rw [List.mapM_append] at h
      cases hearlier : raws.mapM fieldPair? with
      | none => simp [hearlier] at h
      | some earlier =>
        cases hlast : fieldPair? raw with
        | none => simp [hearlier, hlast] at h
        | some last => exact ⟨earlier, last, rfl, rfl, by simpa [hearlier, hlast, eq_comm] using h⟩
    obtain ⟨earlier, ⟨name', value'⟩, hearlier, hpair, rfl⟩ := hsplit
    have hgives : ∀ n v, Gives raw n v ↔ name' = n ∧ value' = v := fun n v => by
      rw [← fieldPair?_eq_some_iff, hpair, Option.some.injEq, Prod.mk.injEq]
    rw [givesLast_concat, ← ih hearlier, hgives, Dict.ofList_concat, Dict.get?_insert]
    by_cases hn : name' = name
    · simp [hn, hgives]
    · simp [hn, hgives]

/-- Arguments that are all fields give their fields. -/
theorem mapM_fieldPair? {raws : List String} (h : ∀ raw ∈ raws, (fieldPair? raw).isSome = true) :
    ∃ fields, raws.mapM fieldPair? = some fields ∧ fields.length = raws.length := by
  induction raws with
  | nil => exact ⟨[], rfl, rfl⟩
  | cons raw rest ih =>
    obtain ⟨pair, hpair⟩ := Option.isSome_iff_exists.mp (h raw List.mem_cons_self)
    obtain ⟨fields, hfields, hlength⟩ := ih fun raw' h' => h raw' (List.mem_cons_of_mem _ h')
    exact ⟨pair :: fields, by simp [hpair, hfields], by simp [hlength]⟩

end CommandLine

/-! ## Inserts and reads -/

namespace Cluster

variable {ρ : Type} [Registry ρ] {w : Cluster Store.Memory ρ} {node : NodeId} {key : String} {how : Selection}
  {fields : Record}

/-- The node has the record, and no other node has one under its key. -/
structure OnlyOn (w : Cluster Store.Memory ρ) (node : NodeId) (key : String) (r : Record) : Prop where
  member : node ∈ w.ids
  held : ∀ other, (w.memory other).records.get? key = if node = other then some r else none

/-- Where there is no registry, what is chosen otherwise than by one gets the new record, and there is no other. -/
theorem insert_places (hu : Usable w) (hreg : w.registry = none) (hne : w.ids ≠ []) (hq : how ≠ .registry)
    (hf : fields.isEmpty = false) (hnew : ∀ node, (w.memory node).records.contains key = false) :
    Ensures w (insert how key fields)
      (fun node w' => OnlyOn w' node key fields ∧ Usable w' ∧ w'.registry = none) fun _ _ => False := by
  have chosen := choose_quietly hu hne hq
  rcases hrun : run (choose how) w with ⟨fault | node, w₁⟩
  · exact (chosen.error hrun).elim
  obtain ⟨hn, hsame⟩ := chosen.ok hrun
  have lands := insert_lands (.inl hreg) hu hf hn (hnew node) (by rw [Ensures, hrun]; exact ⟨rfl, hsame⟩)
  refine (lands.and (ensures_self w _)).mono (fun placed w' h' => ?_) fun _ _ h' => h'.1
  obtain ⟨⟨rfl, hnodes⟩, hinserted⟩ := h'
  have unregistered := (Coordinator.Request.insert key fields).stays_within permits_unregistered how w (fun _ _ => trivial)
    (fun _ _ => trivial) (fun _ => ⟨trivial, trivial⟩) hreg
  rw [Coordinator.Request.after, hinserted] at unregistered
  refine ⟨⟨by rwa [ids_of_insert hnodes hn], fun other => ?_⟩, fun other => ?_, unregistered⟩
  · rw [memory_of_insert hnodes]
    split
    · simp [Store.Memory.get?_write, hf, Store.Memory.record_of_absent (hnew placed), Dict.empty_override]
    · exact Dict.contains_eq_false.1 (hnew other)
  · rw [memory_of_insert hnodes]
    split
    · exact (Store.Memory.obstacle_write ..).trans (hu placed)
    · exact hu other

/-- Without a registry, the only record under a key is what a read of the key finds. -/
theorem read_finds_only {r : Record} (hu : Usable w) (hreg : w.registry = none) (h : OnlyOn w node key r)
    (names : Option (List String)) :
    Ensures w (read key names) (fun found _ => found = Found.of node (r.select names)) fun _ _ => False := by
  refine (read_finds_first key names hu hreg).mono (fun found _ h' => ?_) fun _ _ hf => hf
  rw [h'.1]
  refine findSome?_of_only h.member fun other => ?_
  rw [offered_eq_bind, h.held]
  by_cases ho : node = other
  · subst ho
    simp
  · simp [ho]

/-- Without a node to choose, or a registry that is to choose, nothing is inserted and nothing changes. -/
theorem insert_unplaced (hreg : w.registry = none) (h : w.ids = [] ∨ how = .registry) (key : String) (fields : Record) :
    Ensures w (insert how key fields) (fun _ _ => False) fun _ w' => w' = w := by
  by_cases hq : how = .registry
  · exact insert_refused key (.inr ⟨hq, hreg⟩)
  unfold insert
  split
  · exact ensures_throw rfl
  have refused : Ensures w (choose how) (fun _ _ => False) fun _ w' => w' = w := by
    refine ensures_inspect_bind ?_
    rw [if_pos (by simpa using h.resolve_right hq)]
    exact ensures_throw rfl
  exact refused.bind fun _ _ hf => hf.elim

end Cluster

namespace CommandLine

variable {ρ : Type} [Registry ρ] {c : Coordinator Store.Memory ρ} {node : NodeId} {key : String}

theorem run_insert_eq (key : String) (fields : List (String × String)) (c : Coordinator Store.Memory ρ) :
    run (.insert key fields) c =
      (.ofStatus (Coordinator.insert key (Dict.ofList fields) c).1 [("key", .text key)],
        (Coordinator.insert key (Dict.ofList fields) c).2) := rfl

/-- An insert that finds no node prints an error. -/
theorem run_insert_unplaced (hreg : c.cluster.registry = none) (h : c.cluster.ids = [] ∨ c.selection = .registry)
    (key : String) (fields : List (String × String)) :
    run (.insert key fields) c = (.ofStatus .error [("key", .text key)], c) := by
  have unplaced := Cluster.insert_unplaced hreg h key (Dict.ofList fields)
  rw [run_insert_eq, Coordinator.insert_eq]
  rcases hrun : Cluster.run (Cluster.insert c.selection key (Dict.ofList fields)) c.cluster with ⟨fault | node, w'⟩
  · rw [unplaced.error hrun]
  · exact (unplaced.ok hrun).elim

/-- Any other insert of fields under a key that is not held prints no error, and its record is then the only one. -/
theorem run_insert_places (hu : c.cluster.Usable) (hreg : c.cluster.registry = none)
    (hplaced : ¬ (c.cluster.ids = [] ∨ c.selection = .registry))
    (hnew : ∀ node, (c.cluster.memory node).records.contains key = false) {fields : List (String × String)}
    (hf : (Dict.ofList fields).isEmpty = false) :
    let inserted := run (.insert key fields) c
    inserted.1 = .ofStatus .ok [("key", .text key)] ∧ inserted.2.cluster.Usable ∧ inserted.2.cluster.registry = none ∧
      ∃ node, inserted.2.cluster.OnlyOn node key (Dict.ofList fields) := by
  intro inserted
  obtain ⟨hne, hq⟩ := not_or.mp hplaced
  have places := Cluster.insert_places hu hreg hne hq hf hnew
  have hinserted : inserted = _ := run_insert_eq key fields c
  rw [Coordinator.insert_eq] at hinserted
  rcases hrun : Cluster.run (Cluster.insert c.selection key (Dict.ofList fields)) c.cluster with ⟨fault | node, w'⟩
  · exact (places.error hrun).elim
  · obtain ⟨honly, hu', hreg'⟩ := places.ok hrun
    rw [hinserted, hrun]
    exact ⟨rfl, hu', hreg', node, honly⟩

/-- A read of the only record under a key prints what it selects of it, unless that is nothing. -/
theorem run_read_of_only {r : Record} (hu : c.cluster.Usable) (hreg : c.cluster.registry = none)
    (h : c.cluster.OnlyOn node key r) (names : List String) :
    (run (.read key names) c).1 =
      .ofStatus (if (r.select (filter names)).isEmpty then .notFound else .ok)
        [("fields", .ofRecord (r.select (filter names))), ("key", .text key)] := by
  have finds := Cluster.read_finds_only hu hreg h (filter names)
  show Result.ofStatus (Coordinator.read key (filter names) Dict.empty c).1.1
    [("fields", .ofRecord (Coordinator.read key (filter names) Dict.empty c).1.2), ("key", .text key)] = _
  rw [Coordinator.read_eq]
  rcases hrun : Cluster.run (Cluster.read key (filter names)) c.cluster with ⟨fault | found, w'⟩
  · exact (finds.error hrun).elim
  · rw [finds.ok hrun, Found.of]
    cases hempty : Dict.isEmpty (Record.select r (filter names)) with
    | true => simp [Dict.isEmpty_iff.1 hempty]
    | false => simp [Dict.empty_override]

/-- An argument is taken for a field if it has an equals sign that is not its first character, and gives the field
what stands behind the first one. On memories that can be used and have no record under a key, without a registry, an
insert of such arguments under the key prints `OK`, and a read after it prints all fields, each with its last value,
or those of them that are named; if it has none of these, it prints `NOT_FOUND`, which is no failure. An insert only
fails if there is no node, or a registry is to choose one, and then nothing has changed. -/
theorem arguments_are_printed :
    (∀ raw : String, (fieldPair? raw).isSome = true ↔ '=' ∈ raw.toList ∧ raw.toList.head? ≠ some '=') ∧
    (∀ raw name value, fieldPair? raw = some (name, value) ↔ Gives raw name value) ∧
    ∀ (c : Coordinator Store.Memory ρ) (key : String) (raws : List String),
      c.cluster.Usable → c.cluster.registry = none →
      (∀ node, (c.cluster.memory node).records.contains key = false) →
      raws ≠ [] → (∀ raw ∈ raws, (fieldPair? raw).isSome = true) →
      ∃ fields, raws.mapM fieldPair? = some fields ∧
        let inserted := run (.insert key fields) c
        let reads := fun names => (run (.read key names) inserted.2).1
        if c.cluster.ids = [] ∨ c.selection = .registry then
          inserted = ({ succeeded := false, printed := [.object [("key", .text key), ("status", .text "ERROR")]] }, c)
        else
          inserted.1 = { succeeded := true, printed := [.object [("key", .text key), ("status", .text "OK")]] } ∧
          ∃ r : Record, (∀ name value, r.get? name = some value ↔ GivesLast raws name value) ∧
            reads [] =
              { succeeded := true
                printed := [.object [("fields", .ofRecord r), ("key", .text key), ("status", .text "OK")]] } ∧
            ∀ names, names ≠ [] → reads names =
              { succeeded := true
                printed := [.object [("fields", .ofRecord (r.restrict names)), ("key", .text key),
                  ("status", .text (if (r.restrict names).isEmpty then "NOT_FOUND" else "OK"))]] } := by
  refine ⟨isSome_fieldPair?_iff, fun _ _ _ => fieldPair?_eq_some_iff, fun c key raws hu hreg hnew hraws hall => ?_⟩
  obtain ⟨fields, hfields, hlength⟩ := mapM_fieldPair? hall
  refine ⟨fields, hfields, ?_⟩
  intro inserted reads
  split
  · rename_i hunplaced
    exact run_insert_unplaced hreg hunplaced key fields
  rename_i hplaced
  have hf : (Dict.ofList fields).isEmpty = false := by
    rw [Dict.isEmpty_ofList, List.isEmpty_eq_false_iff]
    rintro rfl
    exact hraws (List.eq_nil_of_length_eq_zero hlength.symm)
  -- the new record is on one node only, so every read finds that one
  obtain ⟨hstatus, hu', hreg', node, honly⟩ := run_insert_places hu hreg hplaced hnew hf
  have printed := run_read_of_only hu' hreg' honly
  refine ⟨hstatus, Dict.ofList fields, get?_ofList_iff hfields, ?_, fun names hnames => ?_⟩
  · show (run (.read key []) inserted.2).1 = _
    rw [printed []]
    show Result.ofStatus (if (Dict.ofList fields).isEmpty then _ else _) _ = _
    rw [hf]
    rfl
  · have hselect : Record.select (Dict.ofList fields) (filter names) = (Dict.ofList fields).restrict names := by
      cases names with
      | nil => exact absurd rfl hnames
      | cons name rest => rfl
    show (run (.read key names) inserted.2).1 = _
    rw [printed names, hselect]
    cases ((Dict.ofList fields).restrict names).isEmpty <;> rfl

def unequal : Coordinator Store.Memory Registry.Ledger where
  cluster.nodes :=
    Dict.ofList [("a", {}), ("b", { records := Dict.ofList [("j", Dict.ofList [("f", "u")])] })]
  selection := .leastLoaded

theorem unequal_usable : unequal.cluster.Usable := Cluster.usable_of_ids (by decide)

theorem unequal_unheld (node : NodeId) : (unequal.cluster.memory node).records.contains "k" = false := by
  by_contra h
  have hn := Cluster.mem_ids_of_held (by simpa using h)
  have habsent : ∀ node ∈ unequal.cluster.ids, (unequal.cluster.memory node).records.contains "k" = false := by decide
  exact h (habsent node hn)

/-- The second value of a field counts, also if it is empty, and an equals sign may be part of a value. -/
theorem a_field_is_given_twice :
    ∃ fields, ["f=v", "g=a=b", "f="].mapM fieldPair? = some fields ∧
      let inserted := run (.insert "k" fields) unequal
      inserted.1.succeeded = true ∧
      ∃ r : Record, r.get? "f" = some "" ∧ r.get? "g" = some "a=b" ∧
        (run (.read "k" []) inserted.2).1.printed =
          [.object [("fields", .ofRecord r), ("key", .text "k"), ("status", .text "OK")]] ∧
        (run (.read "k" ["h"]) inserted.2).1.printed =
          [.object [("fields", .ofRecord (r.restrict ["h"])), ("key", .text "k"), ("status", .text "NOT_FOUND")]] := by
  obtain ⟨-, -, printed⟩ := arguments_are_printed (ρ := Registry.Ledger)
  obtain ⟨fields, hfields, h⟩ :=
    printed unequal "k" ["f=v", "g=a=b", "f="] unequal_usable rfl unequal_unheld (by decide) (by decide)
  dsimp only at h
  rw [if_neg (by decide)] at h
  obtain ⟨hinserted, r, hgiven, hall, hnamed⟩ := h
  have hnone : r.restrict ["h"] = Dict.empty := by
    refine Dict.ext_get? fun name => Option.eq_none_iff_forall_ne_some.mpr fun value hvalue => ?_
    rw [Dict.get?_restrict] at hvalue
    split at hvalue
    · rename_i hname
      obtain rfl := List.mem_singleton.mp hname
      obtain ⟨before, raw, after, hraws, hgives, -⟩ := (hgiven _ _).mp hvalue
      have hmem : raw ∈ ["f=v", "g=a=b", "f="] := hraws ▸ by simp
      have hwritten := hgives.written
      simp only [List.mem_cons, List.not_mem_nil, or_false] at hmem
      rcases hmem with rfl | rfl | rfl <;> simp at hwritten
    · cases hvalue
  refine ⟨fields, hfields, by rw [hinserted], r, ?_, ?_, by rw [hall], ?_⟩
  · exact (hgiven _ _).mpr ⟨["f=v", "g=a=b"], "f=", [], rfl, ⟨by decide, by decide, by decide⟩, by simp⟩
  · refine (hgiven _ _).mpr ⟨["f=v"], "g=a=b", ["f="], rfl, ⟨by decide, by decide, by decide⟩, ?_⟩
    intro later hlater value' hgives
    obtain rfl := List.mem_singleton.mp hlater
    have hwritten := hgives.written
    simp at hwritten
  · rw [hnamed ["h"] (by simp), hnone]
    rfl

/-- Where a registry is to choose and there is none, an argument is inserted nowhere. -/
theorem a_choice_by_nobody :
    let c : Coordinator Store.Memory Registry.Ledger := { unequal with selection := .registry }
    c.cluster.Usable ∧ c.cluster.registry = none ∧ c.cluster.ids ≠ [] ∧
      (∀ node, (c.cluster.memory node).records.contains "k" = false) ∧ ["f=v"].mapM fieldPair? = some [("f", "v")] ∧
      (run (.insert "k" [("f", "v")]) c).1 =
        { succeeded := false, printed := [.object [("key", .text "k"), ("status", .text "ERROR")]] } :=
  ⟨unequal_usable, rfl, by decide, unequal_unheld, rfl, rfl⟩

end CommandLine

end Placement
