/-!
Dictionaries from texts to values, held in ascending key order.

Fields of a record, records of a node, placements of a registry and the nodes of a pool all are such
dictionaries. The order is that of the code points, which is also the order of the UTF-8 bytes, so a
walk over a dictionary meets its keys in one fixed order whatever was put in first.

- `Dict.ext_get?`: a dictionary is what its look-ups answer.
- `Dict.get?_insert`, `Dict.get?_erase`, `Dict.get?_filter`, `Dict.get?_map`, `Dict.get?_override`: each
  operation by its look-ups.
- `Dict.keys_ascending`: the walk is strictly ascending.
- `Dict.insert_of_get?`, `Dict.erase_of_get?`: what is there already, or is not there, makes no change.
- `Dict.ofList_toList`, `Dict.ofList_found`: a dictionary, or a part of it, from its pairs.
-/

namespace Placement

universe u v

/-- Values under text keys, each key once, in ascending order. -/
structure Dict (β : Type u) where
  entries : List (String × β)
  ascending : entries.Pairwise (fun a b => a.1 < b.1) := by simp

namespace Dict

variable {β : Type u} {γ : Type v}

instance [DecidableEq β] : DecidableEq (Dict β) := fun a b =>
  if h : a.entries = b.entries then
    .isTrue (by cases a; cases b; simp_all)
  else
    .isFalse fun e => h (e ▸ rfl)

instance [Repr β] : Repr (Dict β) := ⟨fun d n => reprPrec d.entries n⟩

def empty : Dict β := { entries := [] }

instance : EmptyCollection (Dict β) := ⟨empty⟩
instance : Inhabited (Dict β) := ⟨empty⟩

/-- The value of the first entry with the key. -/
def find (k : String) : List (String × β) → Option β
  | [] => none
  | e :: rest => if e.1 = k then some e.2 else find k rest

/-- Puts a pair where ascending order wants it, in place of an entry with the same key. -/
def place (k : String) (v : β) : List (String × β) → List (String × β)
  | [] => [(k, v)]
  | e :: rest =>
    if k < e.1 then (k, v) :: e :: rest
    else if e.1 < k then e :: place k v rest
    else (k, v) :: rest

theorem mem_place {k : String} {v : β} {x : String × β} {l : List (String × β)} (h : x ∈ place k v l) :
    x = (k, v) ∨ x ∈ l := by
  induction l with
  | nil => simp_all [place]
  | cons e rest ih =>
    unfold place at h
    split at h
    · simpa using h
    · split at h
      · rcases List.mem_cons.1 h with h | h
        · exact .inr (by simp [h])
        · rcases ih h with h | h
          · exact .inl h
          · exact .inr (List.mem_cons_of_mem _ h)
      · rcases List.mem_cons.1 h with h | h
        · exact .inl h
        · exact .inr (List.mem_cons_of_mem _ h)

theorem place_ascending (k : String) (v : β) {l : List (String × β)}
    (h : l.Pairwise (fun a b => a.1 < b.1)) : (place k v l).Pairwise (fun a b => a.1 < b.1) := by
  induction l with
  | nil => simp [place]
  | cons e rest ih =>
    obtain ⟨hlt, hrest⟩ := List.pairwise_cons.1 h
    unfold place
    split
    · rename_i hk
      refine List.pairwise_cons.2 ⟨fun x hx => ?_, h⟩
      rcases List.mem_cons.1 hx with rfl | hx
      · exact hk
      · exact String.lt_trans hk (hlt x hx)
    · rename_i hk
      split
      · rename_i hk'
        refine List.pairwise_cons.2 ⟨fun x hx => ?_, ih hrest⟩
        rcases mem_place hx with rfl | hx
        · exact hk'
        · exact hlt x hx
      · rename_i hk'
        have : k = e.1 := String.le_antisymm (String.not_lt.1 hk') (String.not_lt.1 hk)
        exact List.pairwise_cons.2 ⟨fun x hx => this ▸ hlt x hx, hrest⟩

def get? (d : Dict β) (k : String) : Option β := find k d.entries

def contains (d : Dict β) (k : String) : Bool := (d.get? k).isSome

def insert (d : Dict β) (k : String) (v : β) : Dict β := ⟨place k v d.entries, place_ascending k v d.ascending⟩

def filter (p : String → β → Bool) (d : Dict β) : Dict β :=
  ⟨d.entries.filter fun e => p e.1 e.2, d.ascending.filter _⟩

def erase (d : Dict β) (k : String) : Dict β := d.filter fun k' _ => k' != k

def restrict (d : Dict β) (names : List String) : Dict β := d.filter fun k _ => names.contains k

/-- The dictionary of the pairs; of two with one key the later wins. -/
def ofList (l : List (String × β)) : Dict β := l.foldl (fun d e => d.insert e.1 e.2) empty

def override (d e : Dict β) : Dict β := e.entries.foldl (fun d x => d.insert x.1 x.2) d

def map (f : String → β → γ) (d : Dict β) : Dict γ :=
  ⟨d.entries.map fun e => (e.1, f e.1 e.2), by
    have h := d.ascending
    rw [List.pairwise_map]
    exact h⟩

def toList (d : Dict β) : List (String × β) := d.entries

def keys (d : Dict β) : List String := d.entries.map (·.1)

def values (d : Dict β) : List β := d.entries.map (·.2)

def size (d : Dict β) : Nat := d.entries.length

def isEmpty (d : Dict β) : Bool := d.entries.isEmpty

/-! ## What look-ups answer -/

theorem find_eq_none_of_lt {k : String} {l : List (String × β)} (h : ∀ x ∈ l, k < x.1) : find k l = none := by
  induction l with
  | nil => rfl
  | cons e rest ih =>
    have hk : e.1 ≠ k := fun he => String.lt_irrefl k (by simpa [he] using h e (by simp))
    simp [find, hk, ih fun x hx => h x (List.mem_cons_of_mem _ hx)]

theorem find_place (k k' : String) (v : β) (l : List (String × β)) (h : l.Pairwise (fun a b => a.1 < b.1)) :
    find k' (place k v l) = if k = k' then some v else find k' l := by
  induction l with
  | nil => simp [place, find]
  | cons e rest ih =>
    obtain ⟨hlt, hrest⟩ := List.pairwise_cons.1 h
    unfold place
    split
    · simp [find]
    · rename_i hk
      split
      · rename_i hk'
        have hne : e.1 ≠ k := fun he => String.lt_irrefl k (he ▸ hk')
        by_cases hek : e.1 = k'
        · subst hek
          simp [find, Ne.symm hne]
        · simp [find, hek, ih hrest]
      · rename_i hk'
        have : k = e.1 := String.le_antisymm (String.not_lt.1 hk') (String.not_lt.1 hk)
        by_cases hkk : k = k'
        · simp [find, hkk]
        · simp [find, hkk, this ▸ hkk]

@[simp, grind =] theorem get?_empty (k : String) : (empty : Dict β).get? k = none := rfl

@[grind =] theorem get?_insert (d : Dict β) (k k' : String) (v : β) :
    (d.insert k v).get? k' = if k = k' then some v else d.get? k' :=
  find_place k k' v d.entries d.ascending

@[simp] theorem get?_insert_self (d : Dict β) (k : String) (v : β) : (d.insert k v).get? k = some v := by
  simp [get?_insert]

theorem find_filter (p : String → β → Bool) (k : String) (l : List (String × β))
    (h : l.Pairwise (fun a b => a.1 < b.1)) :
    find k (l.filter fun e => p e.1 e.2) = (find k l).filter (p k) := by
  induction l with
  | nil => rfl
  | cons e rest ih =>
    obtain ⟨hlt, hrest⟩ := List.pairwise_cons.1 h
    by_cases hk : e.1 = k
    · subst hk
      by_cases hp : p e.1 e.2
      · simp [find, hp, Option.filter]
      · have : find e.1 (rest.filter fun x => p x.1 x.2) = none :=
          find_eq_none_of_lt fun x hx => hlt x (List.mem_filter.1 hx).1
        simp [find, hp, this, Option.filter]
    · by_cases hp : p e.1 e.2 <;> simp [find, hp, hk, ih hrest]

@[grind =] theorem get?_filter (p : String → β → Bool) (d : Dict β) (k : String) :
    (d.filter p).get? k = (d.get? k).filter (p k) :=
  find_filter p k d.entries d.ascending

@[grind =] theorem get?_erase (d : Dict β) (k k' : String) :
    (d.erase k).get? k' = if k = k' then none else d.get? k' := by
  rw [erase, get?_filter]
  by_cases h : k = k'
  · cases hd : d.get? k' <;> simp [h]
  · have : (k' != k) = true := by simp [Ne.symm h]
    cases hd : d.get? k' <;> simp [h, this]

@[grind =] theorem get?_restrict (d : Dict β) (names : List String) (k : String) :
    (d.restrict names).get? k = if k ∈ names then d.get? k else none := by
  rw [restrict, get?_filter]
  by_cases h : k ∈ names <;> cases hd : d.get? k <;> simp [h]

@[grind =] theorem get?_map (f : String → β → γ) (d : Dict β) (k : String) :
    (d.map f).get? k = (d.get? k).map (f k) := by
  obtain ⟨l, h⟩ := d
  show find k (l.map _) = (find k l).map _
  clear h
  induction l with
  | nil => rfl
  | cons e rest ih =>
    by_cases hk : e.1 = k
    · subst hk; simp [find]
    · simpa [find, hk] using ih

theorem get?_foldl_insert (l : List (String × β)) (h : l.Pairwise (fun a b => a.1 < b.1)) (d : Dict β) (k : String) :
    (l.foldl (fun d x => d.insert x.1 x.2) d).get? k = (find k l).or (d.get? k) := by
  induction l generalizing d with
  | nil => simp [find]
  | cons e rest ih =>
    obtain ⟨hlt, hrest⟩ := List.pairwise_cons.1 h
    rw [List.foldl_cons, ih hrest, get?_insert]
    by_cases hk : e.1 = k
    · subst hk
      simp [find, find_eq_none_of_lt hlt]
    · simp [find, hk]

@[grind =] theorem get?_override (d e : Dict β) (k : String) :
    (d.override e).get? k = (e.get? k).or (d.get? k) :=
  get?_foldl_insert e.entries e.ascending d k

theorem find_eq_some_of_mem {k : String} {v : β} {l : List (String × β)}
    (h : l.Pairwise (fun a b => a.1 < b.1)) (hm : (k, v) ∈ l) : find k l = some v := by
  induction l with
  | nil => cases hm
  | cons e rest ih =>
    obtain ⟨hlt, hrest⟩ := List.pairwise_cons.1 h
    rcases List.mem_cons.1 hm with rfl | hm
    · simp [find]
    · have hne : e.1 ≠ k := fun he => String.lt_irrefl k (by simpa [he] using hlt _ hm)
      simp [find, hne, ih hrest hm]

theorem mem_of_find_eq_some {k : String} {v : β} {l : List (String × β)} (h : find k l = some v) : (k, v) ∈ l := by
  induction l with
  | nil => cases h
  | cons e rest ih =>
    by_cases hk : e.1 = k
    · simp [find, hk] at h
      simp [← h, ← hk]
    · simp [find, hk] at h
      exact List.mem_cons_of_mem _ (ih h)

theorem mem_toList {d : Dict β} {k : String} {v : β} : (k, v) ∈ d.toList ↔ d.get? k = some v :=
  ⟨find_eq_some_of_mem d.ascending, mem_of_find_eq_some⟩

theorem mem_keys {d : Dict β} {k : String} : k ∈ d.keys ↔ d.contains k = true := by
  constructor
  · intro h
    obtain ⟨e, he, rfl⟩ := List.mem_map.1 h
    have : d.get? e.1 = some e.2 := mem_toList.1 he
    simp [contains, this]
  · intro h
    obtain ⟨v, hv⟩ := Option.isSome_iff_exists.1 h
    exact List.mem_map.2 ⟨(k, v), mem_toList.2 hv, rfl⟩

/-- A walk meets the keys in strictly ascending order. -/
theorem keys_ascending (d : Dict β) : d.keys.Pairwise (· < ·) := by
  rw [keys, List.pairwise_map]
  exact d.ascending

@[simp] theorem keys_map (f : String → β → γ) (d : Dict β) : (d.map f).keys = d.keys := by
  simp [keys, map]

theorem isEmpty_iff {d : Dict β} : d.isEmpty = true ↔ d = empty := by
  obtain ⟨l, h⟩ := d
  cases l <;> simp [isEmpty, empty]

theorem entries_ext {l m : List (String × β)} (hl : l.Pairwise (fun a b => a.1 < b.1))
    (hm : m.Pairwise (fun a b => a.1 < b.1)) (h : ∀ k, find k l = find k m) : l = m := by
  induction l generalizing m with
  | nil =>
    cases m with
    | nil => rfl
    | cons e rest => simpa [find] using h e.1
  | cons a as ih =>
    cases m with
    | nil => simpa [find] using h a.1
    | cons b bs =>
      obtain ⟨ha, has⟩ := List.pairwise_cons.1 hl
      obtain ⟨hb, hbs⟩ := List.pairwise_cons.1 hm
      have hab : (a.1, a.2) ∈ b :: bs := mem_of_find_eq_some (by rw [← h]; simp [find])
      have hba : (b.1, b.2) ∈ a :: as := mem_of_find_eq_some (by rw [h]; simp [find])
      have hhead : a = b := by
        rcases List.mem_cons.1 hab with hab | hab
        · exact hab
        · rcases List.mem_cons.1 hba with hba | hba
          · exact hba.symm
          · exact absurd (String.lt_trans (hb _ hab) (ha _ hba)) (String.lt_irrefl _)
      subst hhead
      refine congrArg _ (ih has hbs fun k => ?_)
      by_cases hk : a.1 = k
      · subst hk
        rw [find_eq_none_of_lt ha, find_eq_none_of_lt hb]
      · simpa [find, hk] using h k

/-- A dictionary is what its look-ups answer. -/
theorem ext_get? {d e : Dict β} (h : ∀ k, d.get? k = e.get? k) : d = e := by
  obtain ⟨l, hl⟩ := d
  obtain ⟨m, hm⟩ := e
  have : l = m := entries_ext hl hm h
  subst this
  rfl

/-! ## Keys that have a value -/

theorem contains_iff {d : Dict β} {k : String} : d.contains k = true ↔ ∃ v, d.get? k = some v :=
  Option.isSome_iff_exists

theorem contains_eq_false {d : Dict β} {k : String} : d.contains k = false ↔ d.get? k = none := by
  simp [contains]

@[simp] theorem contains_empty (k : String) : (empty : Dict β).contains k = false := rfl

theorem contains_insert (d : Dict β) (k k' : String) (v : β) :
    (d.insert k v).contains k' = (decide (k = k') || d.contains k') := by
  by_cases h : k = k' <;> simp [contains, get?_insert, h]

theorem contains_erase (d : Dict β) (k k' : String) :
    (d.erase k).contains k' = (!decide (k = k') && d.contains k') := by
  by_cases h : k = k' <;> simp [contains, get?_erase, h]

theorem isEmpty_eq_false {d : Dict β} : d.isEmpty = false ↔ ∃ k, d.contains k = true := by
  obtain ⟨l, h⟩ := d
  cases l with
  | nil => simp [isEmpty, contains, get?, find]
  | cons e rest => exact ⟨fun _ => ⟨e.1, by simp [contains, get?, find]⟩, fun _ => rfl⟩

theorem keys_nodup (d : Dict β) : d.keys.Nodup :=
  d.keys_ascending.imp fun {a b} (h : a < b) (e : a = b) => String.lt_irrefl b (e ▸ h)

/-- The keys are in order, so it is enough to know which they are. -/
theorem keys_eq_mergeSort {d : Dict β} {keys : List String} (hnodup : keys.Nodup)
    (h : ∀ k, k ∈ d.keys ↔ k ∈ keys) : d.keys = keys.mergeSort := by
  have hperm : d.keys.Perm keys.mergeSort :=
    ((List.perm_ext_iff_of_nodup d.keys_nodup hnodup).2 h).trans (List.mergeSort_perm ..).symm
  have hsorted : keys.mergeSort.Pairwise (fun a b => decide (a ≤ b) = true) :=
    List.pairwise_mergeSort
      (fun a b c hab hbc => by simpa using String.le_trans (by simpa using hab) (by simpa using hbc))
      (fun a b => by simpa using String.le_total a b) _
  refine hperm.eq_of_pairwise (fun a b _ _ hab hba => String.le_antisymm hab hba) ?_ (hsorted.imp of_decide_eq_true)
  exact d.keys_ascending.imp fun hlt => String.not_lt.1 (String.lt_asymm hlt)

/-- A new value under an old key adds no key. -/
theorem keys_insert {d : Dict β} {k : String} (h : d.contains k = true) (v : β) : (d.insert k v).keys = d.keys := by
  obtain ⟨v', hv⟩ := contains_iff.1 h
  have hsame : (d.insert k v).map (fun _ _ => ()) = d.map fun _ _ => () :=
    ext_get? fun k' => by
      rw [get?_map, get?_map, get?_insert]
      split
      · rename_i hk
        rw [← hk, hv]
        rfl
      · rfl
  rw [← keys_map (fun _ _ => ()) (d.insert k v), hsame, keys_map]

theorem length_keys (d : Dict β) : d.keys.length = d.size := by
  simp [keys, size]

@[simp] theorem size_map (f : String → β → γ) (d : Dict β) : (d.map f).size = d.size := by
  simp [size, map]

theorem length_place (k : String) (v : β) {l : List (String × β)} (h : l.Pairwise (fun a b => a.1 < b.1)) :
    (place k v l).length = if (find k l).isSome then l.length else l.length + 1 := by
  induction l with
  | nil => rfl
  | cons e rest ih =>
    obtain ⟨hlt, hrest⟩ := List.pairwise_cons.1 h
    unfold place
    split
    · rename_i hk
      have hnone : find k (e :: rest) = none :=
        find_eq_none_of_lt fun x hx => by
          rcases List.mem_cons.1 hx with rfl | hx
          · exact hk
          · exact String.lt_trans hk (hlt x hx)
      simp [hnone]
    · split
      · rename_i hk
        have hne : e.1 ≠ k := fun he => String.lt_irrefl k (he ▸ hk)
        rw [List.length_cons, ih hrest, find, if_neg hne]
        split <;> rfl
      · rename_i hk hk'
        have he : e.1 = k := String.le_antisymm (String.not_lt.1 hk) (String.not_lt.1 hk')
        simp [find, he]

/-- A new key makes the dictionary larger by one. -/
theorem size_insert (d : Dict β) (k : String) (v : β) :
    (d.insert k v).size = if d.contains k then d.size else d.size + 1 :=
  length_place k v d.ascending

/-- Pairs with different keys add as many keys as there are new ones among theirs. -/
theorem size_foldl_insert {l : List (String × β)} (h : l.Pairwise (fun a b => a.1 < b.1)) (d : Dict β) :
    (l.foldl (fun d e => d.insert e.1 e.2) d).size = d.size + (l.filter fun e => !d.contains e.1).length := by
  induction l generalizing d with
  | nil => rfl
  | cons e rest ih =>
    obtain ⟨hlt, hrest⟩ := List.pairwise_cons.1 h
    have hfilter : (rest.filter fun x => !(d.insert e.1 e.2).contains x.1) = rest.filter fun x => !d.contains x.1 := by
      refine List.filter_congr fun x hx => ?_
      have hne : e.1 ≠ x.1 := fun he => String.lt_irrefl e.1 (he ▸ hlt x hx)
      rw [contains_insert, decide_eq_false hne, Bool.false_or]
    rw [List.foldl_cons, ih hrest, hfilter, size_insert, List.filter_cons]
    cases d.contains e.1 with
    | true => rfl
    | false => simp; omega

theorem size_insert_le (d : Dict β) (k : String) (v : β) : (d.insert k v).size ≤ d.size + 1 := by
  rw [size_insert]
  split <;> omega

theorem size_erase_le (d : Dict β) (k : String) : (d.erase k).size ≤ d.size := List.length_filter_le ..

/-- Putting a value where it is already changes nothing. -/
theorem insert_of_get? {d : Dict β} {k : String} {v : β} (h : d.get? k = some v) : d.insert k v = d :=
  ext_get? fun k' => by
    rw [get?_insert]
    split
    · rename_i hk; rw [← hk, h]
    · rfl

theorem insert_insert (d : Dict β) (k : String) (v v' : β) : (d.insert k v).insert k v' = d.insert k v' :=
  ext_get? fun k' => by
    by_cases h : k = k' <;> simp [get?_insert, h]

/-- Values under different keys can be put in either order. -/
theorem insert_comm (d : Dict β) {k k' : String} (h : k ≠ k') (v v' : β) :
    (d.insert k v).insert k' v' = (d.insert k' v').insert k v :=
  ext_get? fun key => by
    simp only [get?_insert]
    by_cases hk : k = key
    · subst hk
      simp [h.symm]
    · simp [hk]

theorem erase_insert (d : Dict β) (k : String) (v : β) : (d.insert k v).erase k = d.erase k :=
  ext_get? fun k' => by
    by_cases h : k = k' <;> simp [get?_insert, get?_erase, h]

/-- Leaving out a key that has no value changes nothing. -/
theorem erase_of_get? {d : Dict β} {k : String} (h : d.get? k = none) : d.erase k = d :=
  ext_get? fun k' => by
    rw [get?_erase]
    split
    · rename_i hk; rw [← hk, h]
    · rfl

theorem override_empty (d : Dict β) : d.override empty = d := rfl

theorem empty_override (d : Dict β) : (empty : Dict β).override d = d :=
  ext_get? fun k => by simp [get?_override]

/-- The pairs of a dictionary make it up again. -/
theorem ofList_toList (d : Dict β) : ofList d.toList = d := empty_override d

/-- What names find in a dictionary, repeated ones as well, makes up the part of it that they name. -/
theorem ofList_found (d : Dict β) (names : List String) :
    ofList (names.filterMap fun name => (d.get? name).map fun v => (name, v)) = d.restrict names := by
  have inserted : ∀ (names : List String) (before : Dict β) (k : String),
      ((names.filterMap fun name => (d.get? name).map fun v => (name, v)).foldl
          (fun d e => d.insert e.1 e.2) before).get? k =
        if k ∈ names then (d.get? k).or (before.get? k) else before.get? k := by
    intro names
    induction names with
    | nil => simp
    | cons name rest ih =>
      intro before k
      by_cases hk : name = k
      · subst hk
        cases hd : d.get? name with
        | none => simp [hd, ih]
        | some v => simp [hd, ih]
      · cases hd : d.get? name with
        | none => simp [hd, ih, Ne.symm hk]
        | some v => simp [hd, ih, get?_insert, hk, Ne.symm hk]
  refine ext_get? fun k => ?_
  rw [ofList, inserted names empty k, get?_restrict, get?_empty, Option.or_none]

end Dict

end Placement
