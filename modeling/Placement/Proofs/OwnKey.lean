import Placement.Proofs.Keyspaces
import Placement.Proofs.Session
import Placement.Registry.Ledger

/-!
What becomes of the other keys.

On a server, records and the index share one keyspace, and any text may be the key of a record, that of the index too. A
hash and a sorted set do not get in each other's way as long as commands are meant for the one or the other. Dropping a
key is not: under the key of the index it drops the index, with the entries of all keys.

- `Keyspace.serve_apart`, `Keyspace.serve_drops_index`: one call.
- `Cluster.permits_apart`, `Cluster.insert_index_kept`: the steps of an operation, and the one insert that needs more.
- `other_keys_stay`: calls and requests, for every key.
- `a_delete_drops_the_index`: what a client may run into.
-/

namespace Placement

namespace Store

def Call.changes? : Call → Option String
  | .write key _ | .remove key | .indexAdd _ key | .removeIndexed key => some key
  | _ => none

def Call.drops : Call → Bool
  | .remove _ | .removeIndexed _ => true
  | _ => false

def Call.reads? : Call → Option String
  | .fetch key | .fetchFields key _ | .holds key => some key
  | _ => none

namespace Redis

namespace Keyspace

def index (s : Keyspace) : Dict Score := (s.sorted? indexKey).getD Dict.empty

def record? (s : Keyspace) (key : String) : Option Record :=
  match s.values.get? key with
  | some (.hash fields) => some fields
  | _ => none

/-- Nothing but the key has another record or another place in the index. -/
structure Apart (key : String) (s s' : Keyspace) : Prop where
  values : ∀ other, other ≠ key → other ≠ indexKey → s'.values.get? other = s.values.get? other
  records : ∀ other, other ≠ key → s'.record? other = s.record? other
  entries : ∀ other, other ≠ key → s'.index.get? other = s.index.get? other

variable {key : String} {s s' s'' : Keyspace}

theorem Apart.refl (key : String) (s : Keyspace) : Apart key s s := ⟨fun _ _ _ => rfl, fun _ _ => rfl, fun _ _ => rfl⟩

theorem Apart.trans (h : Apart key s s') (h' : Apart key s' s'') : Apart key s s'' where
  values other hk hi := (h'.values other hk hi).trans (h.values other hk hi)
  records other hk := (h'.records other hk).trans (h.records other hk)
  entries other hk := (h'.entries other hk).trans (h.entries other hk)

theorem index_congr (h : s'.values.get? indexKey = s.values.get? indexKey) : s'.index = s.index := by
  rw [index, index, sorted?, sorted?, h]

theorem record?_congr {other : String} (h : s'.values.get? other = s.values.get? other) :
    s'.record? other = s.record? other := by
  rw [record?, record?, h]

/-- Where all other keys hold the same, they are apart. -/
theorem Apart.of_others (h : ∀ other, other ≠ key → s'.values.get? other = s.values.get? other)
    (hindex : ∀ other, other ≠ key → s'.index.get? other = s.index.get? other) : Apart key s s' :=
  ⟨fun other hk _ => h other hk, fun other hk => record?_congr (h other hk), hindex⟩

theorem Apart.of_values (h : s'.values = s.values) (key : String) : Apart key s s' :=
  .of_others (fun other _ => by rw [h]) fun other _ => congrArg (·.get? other) (index_congr (by rw [h]))

theorem index_of_sorted? {members : Dict Score} (h : s.sorted? indexKey = some members) : s.index = members := by
  rw [index, h]
  rfl

/-- Where the key of the index holds a hash, or nothing, there is no index. -/
theorem index_of_hash? {fields : Record} (h : s.hash? indexKey = some fields) : s.index = Dict.empty := by
  unfold hash? at h
  unfold index sorted?
  cases hv : s.values.get? indexKey with
  | none => rfl
  | some value =>
    cases value with
    | hash fields => rfl
    | sorted members =>
      rw [hv] at h
      cases h

theorem sorted?_setSorted (members : Dict Score) (s : Keyspace) :
    (s.setSorted indexKey members).sorted? indexKey = some members := by
  unfold sorted? setSorted
  cases he : members.isEmpty with
  | true =>
    obtain rfl := Dict.isEmpty_iff.1 he
    simp [Dict.get?_erase]
  | false => simp

theorem index_setSorted (members : Dict Score) (s : Keyspace) : (s.setSorted indexKey members).index = members :=
  index_of_sorted? (sorted?_setSorted members s)

theorem get?_setSorted {other : String} (h : other ≠ indexKey) (members : Dict Score) (s : Keyspace) :
    (s.setSorted indexKey members).values.get? other = s.values.get? other := by
  unfold setSorted
  dsimp only
  split
  · rw [Dict.get?_erase, if_neg (Ne.symm h)]
  · rw [Dict.get?_insert, if_neg (Ne.symm h)]

theorem record?_of_sorted? {members : Dict Score} (h : s.sorted? indexKey = some members) :
    s.record? indexKey = none := by
  unfold sorted? at h
  unfold record?
  cases hv : s.values.get? indexKey with
  | none => rfl
  | some value =>
    cases value with
    | sorted members => rfl
    | hash fields =>
      rw [hv] at h
      cases h

/-- Changing one entry of the index leaves the others, and all records. -/
theorem setSorted_apart {members members' : Dict Score} (hs : s.sorted? indexKey = some members)
    (h : ∀ other, other ≠ key → members'.get? other = members.get? other) :
    Apart key s (s.setSorted indexKey members') where
  values _ _ hi := get?_setSorted hi members' s
  records other _ := by
    by_cases hi : other = indexKey
    · subst hi
      rw [record?_of_sorted? hs, record?_of_sorted? (sorted?_setSorted members' s)]
    · exact record?_congr (get?_setSorted hi members' s)
  entries other ho := by rw [index_setSorted, index_of_sorted? hs, h other ho]

/-! ## Single commands -/

/-- Fields go into a hash only, so they cannot get at the index. -/
theorem setFields_apart (key : String) (fields : Record) (s : Keyspace) :
    Apart key s (execute (.setFields key fields) s).2 := by
  simp only [execute]
  cases hh : s.hash? key with
  | none => exact .refl key s
  | some old =>
    refine .of_others (fun other hk => ?_) fun other _ => ?_
    · simp [Dict.get?_insert, Ne.symm hk]
    · by_cases hi : key = indexKey
      · subst hi
        rw [index_of_hash? hh]
        simp [index, sorted?]
      · rw [index_congr]
        simp [Dict.get?_insert, hi]

theorem delete_apart (hk : key ≠ indexKey) (s : Keyspace) : Apart key s (execute (.delete key) s).2 := by
  refine .of_others (fun other ho => ?_) fun other _ => ?_
  · simp [execute, Dict.get?_erase, Ne.symm ho]
  · rw [index_congr]
    simp [execute, Dict.get?_erase, hk]

theorem rank_apart (score : Score) (key : String) (s : Keyspace) : Apart key s (execute (.rank score key) s).2 := by
  simp only [execute]
  cases hs : s.sorted? indexKey with
  | none => exact .refl key s
  | some members =>
    refine setSorted_apart hs fun other ho => ?_
    rw [Dict.get?_insert, if_neg (Ne.symm ho)]

theorem unrank_apart (key : String) (s : Keyspace) : Apart key s (execute (.unrank key) s).2 := by
  simp only [execute]
  cases hs : s.sorted? indexKey with
  | none => exact .refl key s
  | some members =>
    refine setSorted_apart hs fun other ho => ?_
    rw [Dict.get?_erase, if_neg (Ne.symm ho)]

/-! ## Calls -/

/-- A call leaves the records and the entries of other keys, unless it drops the key of the index itself. -/
theorem serve_apart {call : Store.Call} (hc : call.changes? = some key) (h : call.drops = false ∨ key ≠ indexKey)
    (s : Keyspace) : Apart key s (serve .usual call s).2 := by
  cases call with
  | write key' fields =>
    cases hc
    simp only [serve]
    split
    · exact .refl key s
    · exact setFields_apart key fields s
  | indexAdd score key' =>
    cases hc
    exact rank_apart score key s
  | remove key' =>
    cases hc
    exact delete_apart (h.resolve_left (by simp [Call.drops])) s
  | removeIndexed key' =>
    cases hc
    exact (delete_apart (h.resolve_left (by simp [Call.drops])) s).trans (unrank_apart key _)
  | _ => cases hc

/-- One that does drops the index with all of its entries, and leaves the records. -/
theorem serve_drops_index {call : Store.Call} (hc : call.changes? = some indexKey) (h : call.drops = true)
    (s : Keyspace) :
    (serve .usual call s).2.index = Dict.empty ∧
      ∀ other, other ≠ indexKey → (serve .usual call s).2.values.get? other = s.values.get? other := by
  have hdropped : (execute (.delete indexKey) s).2.sorted? indexKey = some Dict.empty := by
    simp [execute, sorted?, Dict.get?_erase]
  have hothers : ∀ other, other ≠ indexKey →
      (execute (.delete indexKey) s).2.values.get? other = s.values.get? other := fun other ho => by
    simp [execute, Dict.get?_erase, Ne.symm ho]
  cases call with
  | remove key' =>
    cases hc
    exact ⟨index_of_sorted? hdropped, hothers⟩
  | removeIndexed key' =>
    cases hc
    have hunrank : ∀ s' : Keyspace, s'.sorted? indexKey = some Dict.empty →
        (execute (.unrank indexKey) s').2 = s'.setSorted indexKey (Dict.empty.erase indexKey) := fun s' hs' => by
      simp only [execute, hs']
    rw [show (serve .usual (.removeIndexed indexKey) s).2 = _ from hunrank _ hdropped]
    refine ⟨index_setSorted _ _, fun other ho => ?_⟩
    rw [get?_setSorted ho]
    exact hothers other ho
  | write key' fields => cases h
  | indexAdd score key' => cases h
  | _ => cases hc

/-- Either way no other record is changed. -/
theorem serve_records {call : Store.Call} (hc : call.changes? = some key) (s : Keyspace) {other : String}
    (ho : other ≠ key) : (serve .usual call s).2.record? other = s.record? other := by
  by_cases h : call.drops = false ∨ key ≠ indexKey
  · exact (serve_apart hc h s).records other ho
  · rw [not_or, Bool.not_eq_false, not_not] at h
    obtain ⟨hdrops, rfl⟩ := h
    exact record?_congr ((serve_drops_index hc hdrops s).2 other ho)

/-- Where fields could be put under the key of the index, there is no index. -/
theorem index_of_written {fields : Record} (hf : fields.isEmpty = false) {s : Keyspace} {written : Nat}
    (h : (serve .usual (.write indexKey fields) s).1 = .ok written) :
    (serve .usual (.write indexKey fields) s).2.index = Dict.empty := by
  simp only [serve, hf, Bool.false_eq_true, if_false, command, execute] at h ⊢
  cases hh : s.hash? indexKey with
  | none =>
    rw [hh] at h
    cases h
  | some old => simp [index, sorted?]

/-- Calls that only look change nothing. -/
theorem serve_looks {call : Store.Call} (hl : call.looks = true) (s : Keyspace) : (serve .usual call s).2 = s := by
  cases call with
  | fetch key =>
    simp only [serve, command, execute]
    cases s.hash? key <;> rfl
  | fetchFields key names =>
    simp only [serve, command, execute]
    split
    · rfl
    · cases s.hash? key <;> rfl
  | indexRange min count =>
    simp only [serve, command, execute]
    split
    · rfl
    · cases s.sorted? indexKey <;> rfl
  | holds key => rfl
  | count => rfl
  | _ => cases hl

/-- What is read of a record is decided by what its key holds. -/
theorem serve_reads {call : Store.Call} (hc : call.reads? = some key)
    (h : s'.values.get? key = s.values.get? key) : (serve .usual call s').1 = (serve .usual call s).1 := by
  have hhash : s'.hash? key = s.hash? key := by rw [hash?, hash?, h]
  cases call with
  | fetch key' =>
    cases hc
    simp only [serve, command, execute, hhash]
    cases s.hash? key <;> rfl
  | fetchFields key' names =>
    cases hc
    simp only [serve, command, execute, hhash]
    split
    · rfl
    · cases s.hash? key <;> rfl
  | holds key' =>
    cases hc
    have hcontains : s'.values.contains key = s.values.contains key := by rw [Dict.contains, Dict.contains, h]
    simp only [serve, command, execute, hcontains]
  | _ => cases hc

/-- An entry is in every window that is as large as the index and starts at or below its score. -/
theorem mem_range {members : Dict Score} {score min : Score} {count : Nat} (h : members.get? key = some score)
    (hmin : score.atLeast min = true) (hcount : members.size ≤ count) : key ∈ range members min count := by
  have hall : ((members.toList.filter fun e => e.2.atLeast min).mergeSort memberLe).length ≤ count := by
    rw [List.length_mergeSort]
    exact Nat.le_trans (List.length_filter_le ..) hcount
  rw [range, List.take_of_length_le hall]
  have hmem : (key, score) ∈ members.toList.filter fun e => e.2.atLeast min :=
    List.mem_filter.2 ⟨Dict.mem_toList.2 h, hmin⟩
  exact List.mem_map.2 ⟨(key, score), List.mem_mergeSort.2 hmem, rfl⟩

/-- So a call for such a window lists the key. -/
theorem serve_indexRange {score min : Score} {count : Nat} (h : s.index.get? key = some score)
    (hmin : score.atLeast min = true) (hcount : s.index.size ≤ Nat.min count Command.greatestCount) :
    ∃ keys, (serve .usual (.indexRange min count) s).1 = .ok keys ∧ key ∈ keys := by
  obtain ⟨members, hs⟩ : ∃ members, s.sorted? indexKey = some members := by
    cases hs : s.sorted? indexKey with
    | some members => exact ⟨members, rfl⟩
    | none =>
      rw [index, hs] at h
      cases h
  rw [index_of_sorted? hs] at h hcount
  have hzero : count ≠ 0 := by
    rintro rfl
    have hempty : members.entries = [] := List.eq_nil_of_length_eq_zero (Nat.le_zero.1 hcount)
    rw [Dict.get?, hempty] at h
    cases h
  refine ⟨range members min (Nat.min count Command.greatestCount), ?_, mem_range h hmin hcount⟩
  rw [serve, if_neg hzero]
  simp only [command, execute, hs]
  rw [Readers.usual_faithful.texts]
  rfl

end Keyspace

namespace Node

variable {n : Node Keyspace} {key : String}

/-- A call keeps a node open that is open, and closed one that is closed; what it does to the keyspace is what is served
from that, or nothing. -/
theorem perform_leaves {call : Store.Call} (hc : call ≠ .close) (n : Node Keyspace) :
    (n.link ≠ .closed ∧ (Store.perform call n).2.link ≠ .closed ∧
        (Store.perform call n).2.server.values = (Keyspace.serve .usual call n.server).2.values) ∨
      n.link = .closed ∧ (Store.perform call n).2.link = .closed ∧ (Store.perform call n).2.server = n.server := by
  by_cases h : n.link = .closed
  · obtain ⟨hserver, hlink⟩ := perform_closed h call
    exact .inr ⟨h, hlink, hserver⟩
  · have hanswers := perform_keyspace h hc
    exact .inl ⟨h, hanswers.link, hanswers.values⟩

theorem perform_apart {call : Store.Call} (hc : call.changes? = some key) (h : call.drops = false ∨ key ≠ indexKey)
    (n : Node Keyspace) : Keyspace.Apart key n.server (Store.perform call n).2.server := by
  have hclose : call ≠ .close := by
    rintro rfl
    cases hc
  rcases perform_leaves hclose n with ⟨-, -, hvalues⟩ | ⟨-, -, hserver⟩
  · exact (Keyspace.serve_apart hc h n.server).trans (.of_values hvalues key)
  · exact .of_values (congrArg _ hserver) key

end Node

end Redis

end Store

namespace Cluster

open Store.Redis

variable {ρ : Type} [Registry ρ] {w w' w'' : Cluster (Node Keyspace) ρ} {key : String}

/-- On every node nothing but the key has another record or another place in the index, and no node was closed. -/
def KeptApart (key : String) (w w' : Cluster (Node Keyspace) ρ) : Prop :=
  ∀ node n, w.nodes.get? node = some n → ∃ n', w'.nodes.get? node = some n' ∧
    Keyspace.Apart key n.server n'.server ∧ (n'.link = .closed ↔ n.link = .closed)

omit [Registry ρ] in
theorem KeptApart.of_nodes (h : w'.nodes = w.nodes) (key : String) : KeptApart key w w' :=
  fun node n hn => ⟨n, by rw [h, hn], .refl key _, .rfl⟩

omit [Registry ρ] in
theorem KeptApart.trans (h : KeptApart key w w') (h' : KeptApart key w' w'') : KeptApart key w w'' := by
  intro node n hn
  obtain ⟨n₁, hn₁, hapart₁, hlink₁⟩ := h node n hn
  obtain ⟨n₂, hn₂, hapart₂, hlink₂⟩ := h' node n₁ hn₁
  exact ⟨n₂, hn₂, hapart₁.trans hapart₂, hlink₂.trans hlink₁⟩

/-- The calls that keep to a key. -/
def KeepsTo (key : String) (call : Store.Call) : Prop :=
  call.looks = true ∨ call.changes? = some key ∧ (call.drops = false ∨ key ≠ indexKey)

omit [Registry ρ] in
/-- A call that keeps apart on its node does so in the cluster. -/
theorem ask_kept {call : Store.Call} {node : NodeId} (hclose : call ≠ .close)
    (h : ∀ n, w.nodes.get? node = some n → Keyspace.Apart key n.server (Store.perform call n).2.server) :
    Ensures w (ask node call) (fun _ w' => KeptApart key w w') fun _ w' => KeptApart key w w' := by
  have answered : ∀ n answer, w.nodes.get? node = some n →
      KeptApart key w (w.answered node call answer (Store.perform call n).2) := by
    intro n answer hn other n₁ hother
    by_cases ho : node = other
    · subst ho
      obtain rfl : n = n₁ := Option.some.inj (hn.symm.trans hother)
      refine ⟨_, Dict.get?_insert_self .., h n hn, ?_⟩
      rcases Node.perform_leaves hclose n with ⟨hopen, hopen', -⟩ | ⟨hclosed, hclosed', -⟩
      · exact iff_of_false hopen' hopen
      · exact iff_of_true hclosed' hclosed
    · exact ⟨n₁, by simp [Cluster.answered, Dict.get?_insert, ho, hother], .refl key _, .rfl⟩
  refine ensures_ask (fun n a n' hn hp => ?_) (fun n fault n' hn hp => ?_) fun _ => .of_nodes rfl key
  · have h := answered n (.ok a) hn
    rwa [hp] at h
  · have h := answered n (.error fault) hn
    rwa [hp] at h

omit [Registry ρ] in
theorem ask_apart {call : Store.Call} (hc : KeepsTo key call) (node : NodeId) (w : Cluster (Node Keyspace) ρ) :
    Ensures w (ask node call) (fun _ w' => KeptApart key w w') fun _ w' => KeptApart key w w' := by
  have hclose : call ≠ .close := by
    rintro rfl
    rcases hc with hl | ⟨hk, -⟩
    · cases hl
    · cases hk
  refine ask_kept hclose fun n _ => ?_
  rcases hc with hl | ⟨hk, hi⟩
  · rcases Node.perform_leaves hclose n with ⟨-, -, hvalues⟩ | ⟨-, -, hserver⟩
    · rw [Keyspace.serve_looks hl] at hvalues
      exact .of_values hvalues key
    · exact .of_values (congrArg _ hserver) key
  · exact Node.perform_apart hk hi n

theorem consult_kept (key : String) (call : Registry.Call) (w : Cluster (Node Keyspace) ρ) :
    Ensures w (consult call) (fun _ w' => KeptApart key w w') fun _ w' => KeptApart key w w' :=
  ensures_advised (fun _ _ _ => .of_nodes rfl key) fun _ => .of_nodes rfl key

theorem permits_apart (key : String) :
    Permits (KeptApart (ρ := ρ) key) (KeepsTo key) fun _ => True where
  refl _ := .of_nodes rfl key
  trans := KeptApart.trans
  ask node _ hc w := ask_apart hc node w
  consult call _ w := consult_kept key call w
  draw _ _ := ensures_draw (.of_nodes rfl key)
  report _ _ := ensures_report (.of_nodes rfl key)

/-! ## Inserting under the key of the index

A hash is written there only where there is no index yet. So when the insert takes it back, there is no entry but its
own to be lost. -/

/-- As far as the node is open, its index has no entry but one for its own key. -/
def Lone (node : NodeId) (w : Cluster (Node Keyspace) ρ) : Prop :=
  ∃ n, w.nodes.get? node = some n ∧
    (n.link ≠ .closed → ∀ other, other ≠ indexKey → n.server.index.get? other = none)

variable {node : NodeId}

omit [Registry ρ] in
theorem Lone.kept (h : Lone node w) (hw : KeptApart indexKey w w') : Lone node w' := by
  obtain ⟨n, hn, hlone⟩ := h
  obtain ⟨n', hn', hapart, hlink⟩ := hw node n hn
  refine ⟨n', hn', fun hopen other ho => ?_⟩
  rw [hapart.entries other ho]
  exact hlone (fun hclosed => hopen (hlink.2 hclosed)) other ho

omit [Registry ρ] in
theorem takeBack_kept (h : Lone node w) :
    Ensures w (takeBack node indexKey) (fun _ w' => KeptApart indexKey w w') fun _ _ => False := by
  have removed : Ensures w (ask node (.remove indexKey)) (fun _ w' => KeptApart indexKey w w')
      fun _ w' => KeptApart indexKey w w' := by
    refine ask_kept (by simp) fun n hn => ?_
    obtain ⟨n₁, hn₁, hlone⟩ := h
    obtain rfl : n = n₁ := Option.some.inj (hn.symm.trans hn₁)
    have hcall : Store.Call.remove indexKey ≠ .close := by simp
    rcases Node.perform_leaves hcall n with ⟨hopen, -, hvalues⟩ | ⟨-, -, hserver⟩
    · have hdrops : (Store.Call.remove indexKey).drops = true := rfl
      obtain ⟨hindex, hrecords⟩ := Keyspace.serve_drops_index rfl hdrops n.server
      refine .trans ?_ (.of_values hvalues _)
      refine .of_others hrecords fun other ho => ?_
      -- the index is dropped here as well, but there was no entry of another key in it
      rw [hindex, hlone hopen other ho]
      rfl
    · exact .of_values (congrArg _ hserver) _
  exact removed.attempt_bind (fun _ _ hw => ensures_pure hw) fun _ _ hw => ensures_pure hw

omit [Registry ρ] in
/-- A write that is served has put a hash under the key of the index, so there is no index. -/
theorem writeNew_lone {fields : Record} (hf : fields.isEmpty = false) (node : NodeId) (w : Cluster (Node Keyspace) ρ) :
    Ensures w (writeNew node indexKey fields) (fun _ w' => KeptApart indexKey w w' ∧ Lone node w')
      fun _ w' => KeptApart indexKey w w' := by
  have kept : Ensures w (ask node (.write indexKey fields)) (fun _ w' => KeptApart indexKey w w')
      fun _ w' => KeptApart indexKey w w' := ask_apart (.inr ⟨rfl, .inl rfl⟩) node w
  have lone : Ensures w (ask node (.write indexKey fields)) (fun _ w' => Lone node w') fun _ _ => True := by
    refine ensures_ask (fun n a n' hn hp => ⟨n', Dict.get?_insert_self .., fun hopen other _ => ?_⟩)
      (fun _ _ _ _ _ => trivial) fun _ => trivial
    have hcall : Store.Call.write indexKey fields ≠ .close := by simp
    rcases Node.perform_leaves hcall n with ⟨hn', -⟩ | ⟨-, hclosed, -⟩
    · have hanswers := Node.perform_keyspace hn' hcall
      rw [hp] at hanswers
      have hempty := Keyspace.index_of_written hf hanswers.answer.symm
      have hindex : n'.server.index = (Keyspace.serve .usual (.write indexKey fields) n.server).2.index :=
        Keyspace.index_congr (congrArg (·.get? indexKey) hanswers.values)
      rw [hindex, hempty]
      rfl
    · rw [hp] at hclosed
      exact absurd hclosed hopen
  refine (kept.and lone).andThen (fun _ _ h => h.1) fun written w₁ h₁ => ?_
  split
  · exact ensures_throw h₁.1
  · exact ensures_pure h₁

omit [Registry ρ] in
theorem undone_kept (h : Lone node w) (hw : KeptApart indexKey w w') (fault : Fault) :
    Ensures w' (do takeBack node indexKey; throw fault : Op (Node Keyspace) ρ Unit)
      (fun _ w'' => KeptApart indexKey w w'') fun _ w'' => KeptApart indexKey w w'' := by
  refine (takeBack_kept (h.kept hw)).andThen (fun _ _ hf => hf.elim) fun _ w₁ h₁ => ?_
  exact ensures_throw (hw.trans h₁)

theorem confirm_kept (h : Lone node w) :
    Ensures w (confirm node indexKey) (fun _ w' => KeptApart indexKey w w') fun _ w' => KeptApart indexKey w w' := by
  refine ensures_hasRegistry_bind ?_
  cases w.registry.isSome with
  | false => exact ensures_pure (.of_nodes rfl _)
  | true =>
    refine (consult_kept indexKey (.place node indexKey) w).attempt_bind (fun confirmed w₁ h₁ => ?_)
      fun fault w₁ h₁ => undone_kept h h₁ fault
    cases confirmed with
    | true => exact ensures_pure h₁
    | false => exact undone_kept h h₁ _

theorem enter_kept (h : Lone node w) :
    Ensures w (enter node indexKey) (fun _ w' => KeptApart indexKey w w') fun _ w' => KeptApart indexKey w w' := by
  have entered : Ensures w (ask node (.indexAdd (KeyHash.score indexKey) indexKey))
      (fun _ w' => KeptApart indexKey w w') fun _ w' => KeptApart indexKey w w' :=
    ask_apart (.inr ⟨rfl, .inl rfl⟩) node w
  refine entered.attempt_bind (fun _ w₁ h₁ => ensures_pure h₁) fun fault w₁ h₁ => ensures_hasRegistry_bind ?_
  cases w₁.registry.isSome with
  | false => exact undone_kept h h₁ fault
  | true =>
    exact (consult_kept indexKey (.withdraw node indexKey) w₁).attempt_bind
      (fun _ w₂ h₂ => undone_kept h (h₁.trans h₂) fault) fun _ w₂ h₂ => undone_kept h (h₁.trans h₂) fault

theorem insert_index_kept (how : Selection) (fields : Record) (w : Cluster (Node Keyspace) ρ) :
    Ensures w (insert how indexKey fields) (fun _ w' => KeptApart indexKey w w')
      fun _ w' => KeptApart indexKey w w' := by
  unfold insert
  split
  · exact ensures_throw (.of_nodes rfl _)
  rename_i hf
  -- a write that is served has put a hash under the key, so what is taken back behind it is no index
  refine ((permits_apart indexKey).choose (.inl rfl) (fun _ => trivial) how w).bind fun node w₁ h₁ => ?_
  refine (writeNew_lone (Bool.eq_false_iff.2 hf) node w₁).andThen (fun _ _ h₂ => h₁.trans h₂) fun _ w₂ h₂ => ?_
  refine (confirm_kept h₂.2).andThen (fun _ _ h₃ => (h₁.trans h₂.1).trans h₃) fun _ w₃ h₃ => ?_
  have h := (h₁.trans h₂.1).trans h₃
  refine (enter_kept (h₂.2.kept h₃)).andThen (fun _ _ h₄ => h.trans h₄) fun _ w₄ h₄ => ?_
  exact ensures_pure (h.trans h₄)

end Cluster

namespace Coordinator

open Store.Redis

variable {ρ : Type} [Registry ρ]

def Request.changes? : Request → Option String
  | .insert key _ | .update key _ | .delete key => some key
  | _ => none

/-- A request keeps to its key on every node, unless it deletes the key of the index. -/
theorem serve_kept {q : Request} {key : String} (hq : q.changes? = some key) (h : q ≠ .delete indexKey)
    (c : Coordinator (Node Keyspace) ρ) : Cluster.KeptApart key c.cluster (serve q c).2.cluster := by
  have hR := Cluster.permits_apart (ρ := ρ) key
  rw [serve_eq]
  cases q with
  | insert key' fields =>
    cases hq
    by_cases hk : key = indexKey
    · subst hk
      exact (Cluster.insert_index_kept c.selection fields c.cluster).left
    · refine (hR.insert (.inl rfl) (fun _ => trivial) c.selection key fields ?_ (fun _ => trivial) ?_
        (fun _ => trivial) ?_ c.cluster).left
      · exact .inr ⟨rfl, .inl rfl⟩
      · exact .inr ⟨rfl, .inl rfl⟩
      · exact .inr ⟨rfl, .inr hk⟩
  | update key' fields =>
    cases hq
    exact (hR.update key fields (.inl rfl) (.inr ⟨rfl, .inl rfl⟩) c.cluster).left
  | delete key' =>
    cases hq
    have hk : key ≠ indexKey := fun he => h (by rw [he])
    exact (hR.delete key (.inr ⟨rfl, .inr hk⟩) (fun _ => trivial) c.cluster).left
  | _ => cases hq

end Coordinator

namespace Store.Redis

/-- What a scan asks of a node about a key is answered as before: the key is listed from its score upward, where the
window is large enough for every entry, and reads of its record find what they found. -/
structure StillScanned (key : String) (n n' : Node Keyspace) : Prop where
  listed : ∀ (score min : Score) (count : Nat), n.server.index.get? key = some score → score.atLeast min = true →
    n'.server.index.size ≤ Nat.min count Command.greatestCount →
    ∃ keys, (Store.perform (.indexRange min count) n').1 = .ok keys ∧ key ∈ keys
  reads : key ≠ indexKey → ∀ call : Store.Call, call.reads? = some key →
    (Store.perform call n').1 = (Store.perform call n).1

theorem Keyspace.Apart.stillScanned {key other : String} {n n' : Node Keyspace} (h : Apart key n.server n'.server)
    (hopen : n.link ≠ .closed) (hopen' : n'.link ≠ .closed) (ho : other ≠ key) : StillScanned other n n' where
  listed score min count hs hmin hcount := by
    rw [← h.entries other ho] at hs
    obtain ⟨keys, hkeys, hmem⟩ := serve_indexRange hs hmin hcount
    exact ⟨keys, (Node.perform_keyspace hopen' (by simp)).answer.trans hkeys, hmem⟩
  reads hi call hc := by
    have hclose : call ≠ .close := by
      rintro rfl
      cases hc
    rw [(Node.perform_keyspace hopen' hclose).answer, (Node.perform_keyspace hopen hclose).answer]
    exact serve_reads hc (h.values other ho hi)

/-- What is written, indexed or dropped under a key leaves the records of other keys, and their places in the index
unless the index itself is dropped under its own key; then all of them are lost. So a coordinator that inserts, updates
or deletes a record, other than by deleting the key of the index, takes no other key from the scans of any node. -/
theorem other_keys_stay {ρ : Type} [Registry ρ] (key : String) :
    (∀ (n : Node Keyspace) (call : Store.Call), call.changes? = some key →
      (∀ other, other ≠ key → (Store.perform call n).2.server.record? other = n.server.record? other) ∧
      (call.drops = false ∨ key ≠ indexKey → ∀ other, other ≠ key →
        (Store.perform call n).2.server.index.get? other = n.server.index.get? other) ∧
      (call.drops = true → key = indexKey → n.link ≠ .closed →
        (Store.perform call n).2.server.index = Dict.empty)) ∧
    ∀ (c : Coordinator (Node Keyspace) ρ) (q : Coordinator.Request), q.changes? = some key → q ≠ .delete indexKey →
      ∀ node n, c.cluster.nodes.get? node = some n →
        ∃ n', (Coordinator.serve q c).2.cluster.nodes.get? node = some n' ∧ Keyspace.Apart key n.server n'.server ∧
          ∀ other, other ≠ key → n.link ≠ .closed → StillScanned other n n' := by
  refine ⟨fun n call hc => ?_, fun c q hq hdelete node n hn => ?_⟩
  · have hclose : call ≠ .close := by
      rintro rfl
      cases hc
    refine ⟨fun other ho => ?_, fun h other ho => (Node.perform_apart hc h n).entries other ho, ?_⟩
    · rcases Node.perform_leaves hclose n with ⟨-, -, hvalues⟩ | ⟨-, -, hserver⟩
      · rw [Keyspace.record?_congr (congrArg (·.get? other) hvalues)]
        exact Keyspace.serve_records hc n.server ho
      · rw [hserver]
    · rintro hdrops rfl hopen
      have hvalues := (Node.perform_keyspace hopen hclose).values
      rw [Keyspace.index_congr (congrArg (·.get? indexKey) hvalues)]
      exact (Keyspace.serve_drops_index hc hdrops n.server).1
  · obtain ⟨n', hn', hapart, hlink⟩ := Coordinator.serve_kept hq hdelete c node n hn
    refine ⟨n', hn', hapart, fun other ho hopen => ?_⟩
    exact hapart.stillScanned hopen (fun hclosed => hopen (hlink.1 hclosed)) ho

def listed : Node Keyspace where
  server :=
    { values := Dict.ofList [("user1", .hash (Dict.ofList [("f", "v")])),
        (indexKey, .sorted (Dict.ofList [("user1", KeyHash.score "user1")]))] }
  endpoint := { host := "localhost", port := 6379 }
  patience := 1000

/-- Deleting the key of the index finds no such record, and drops the index: a scan finds nothing any more. -/
theorem a_delete_drops_the_index :
    let c : Coordinator (Node Keyspace) Registry.Ledger := { cluster := { nodes := Dict.ofList [("a", listed)] } }
    (Coordinator.scan "user1" 1 none [] c).1 = (.ok, [Dict.ofList [("f", "v")]]) ∧
      (Coordinator.delete indexKey c).1 = .error ∧
      (Coordinator.scan "user1" 1 none [] (Coordinator.delete indexKey c).2).1 = (.ok, []) := by
  decide +kernel

end Store.Redis

end Placement
