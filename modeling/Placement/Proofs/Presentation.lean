import Placement.Json.Fields

/-!
What readers of structures do not look at in a document.

A structure is read from the members of an object by their names. So it does not matter in which order they stand, which
others stand between them, and whether a field that has the value it has anyway is there at all. It does matter that no
field is there twice. A `Shape` says what is known of a document, down to the fields of its fields, and with it which
documents differ only in what does not matter.

- `members?_cases`: what the members of an object come to, by their names only.
- `Restyled.sameFields`: restyled objects have the same fields, restyled.
- `Repeats.members?`: what comes of an object with a repeated field.
- `respects_fields`: readers of structures that look at nothing else.
-/

namespace Placement.Json.Document

/-! ## Members by their names -/

/-- The names are texts, and none of the known ones stands twice. -/
structure WellNamed (known : List String) (names : List (Option String)) : Prop where
  texts : none ∉ names
  once : ∀ name ∈ known, names.count (some name) ≤ 1

variable {known : List String} {members members' : List (Option String × Document)} {name : String} {d d' d'' : Document}

theorem wellNamed_cons_iff {names : List (Option String)} :
    WellNamed known (some name :: names) ↔ WellNamed known names ∧ (name ∈ known → some name ∉ names) := by
  constructor
  · intro h
    refine ⟨⟨fun hn => h.texts (List.mem_cons_of_mem _ hn), fun other ho => ?_⟩, fun hk hmem => ?_⟩
    · exact Nat.le_trans (List.count_le_count_cons ..) (h.once other ho)
    · have honce := h.once name hk
      rw [List.count_cons_self] at honce
      have hpos := List.count_pos_iff.mpr hmem
      omega
  · rintro ⟨h, hnew⟩
    refine ⟨by simpa using h.texts, fun other ho => ?_⟩
    rw [List.count_cons]
    split
    · rename_i he
      obtain rfl : name = other := by simpa using he
      exact Nat.le_of_eq (congrArg (· + 1) (List.count_eq_zero.mpr (hnew ho)))
    · exact h.once other ho

/-- The members are well named, and then their fields are the members that have known names; or nothing comes of them.
-/
theorem members?_cases (known : List String) (members : List (Option String × Document)) :
    (∃ fields, members? known members = some fields ∧ WellNamed known (members.map (·.1)) ∧
      ∀ name d, fields.get? name = some d ↔ name ∈ known ∧ (some name, d) ∈ members) ∨
    members? known members = none ∧ ¬ WellNamed known (members.map (·.1)) := by
  induction members with
  | nil => exact .inl ⟨Dict.empty, rfl, ⟨by simp, by simp⟩, by simp⟩
  | cons m members ih =>
    obtain ⟨_ | name, d⟩ := m
    · exact .inr ⟨rfl, fun h => h.texts List.mem_cons_self⟩
    rw [List.map_cons, wellNamed_cons_iff]
    rcases ih with ⟨fields, hfields, hwell, hget⟩ | ⟨hnone, hill⟩
    · have hmembers : members? known ((some name, d) :: members) =
          if known.contains name then if fields.contains name then none else some (fields.insert name d)
          else some fields := by simp [members?, hfields]
      rw [hmembers]
      by_cases hk : name ∈ known
      · have hcontains : fields.contains name = true ↔ some name ∈ members.map (·.1) := by
          simp [Dict.contains_iff, hget, hk]
        rw [if_pos (by simpa using hk)]
        by_cases hheld : some name ∈ members.map (·.1)
        · exact .inr ⟨if_pos (hcontains.mpr hheld), fun h => h.2 hk hheld⟩
        · refine .inl ⟨fields.insert name d, if_neg fun h => hheld (hcontains.mp h), ⟨hwell, fun _ => hheld⟩, ?_⟩
          intro other d'
          rw [Dict.get?_insert]
          split
          · rename_i he
            subst he
            have hnew : (some name, d') ∉ members := fun h => hheld (List.mem_map.mpr ⟨_, h, rfl⟩)
            simp [hk, hnew, eq_comm]
          · rename_i hne
            simp [hget, Ne.symm hne]
      · refine .inl ⟨fields, if_neg (by simpa using hk), ⟨hwell, fun h => absurd h hk⟩, fun other d' => ?_⟩
        rw [hget, List.mem_cons]
        refine and_congr_right fun ho => (or_iff_right ?_).symm
        rintro he
        cases he
        exact hk ho
    · exact .inr ⟨by simp [members?, hnone], fun h => hill h.1⟩

theorem members?_eq_none_iff : members? known members = none ↔ ¬ WellNamed known (members.map (·.1)) := by
  rcases members?_cases known members with ⟨fields, hfields, hwell, -⟩ | ⟨hnone, hill⟩
  · simp [hfields, hwell]
  · simp [hnone, hill]

theorem wellNamed_of_members? {fields : Dict Document} (h : members? known members = some fields) :
    WellNamed known (members.map (·.1)) := by
  rcases members?_cases known members with ⟨-, -, hwell, -⟩ | ⟨hnone, -⟩
  · exact hwell
  · rw [h] at hnone
    cases hnone

/-- The field of a known name is the member that has it. -/
theorem get?_members? {fields : Dict Document} (h : members? known members = some fields) :
    fields.get? name = some d ↔ name ∈ known ∧ (some name, d) ∈ members := by
  rcases members?_cases known members with ⟨fields', hfields, -, hget⟩ | ⟨hnone, -⟩
  · rw [h] at hfields
    cases hfields
    exact hget name d
  · rw [h] at hnone
    cases hnone

/-- A field is missing where no member has its name. -/
theorem get?_members?_eq_none_iff {fields : Dict Document} (h : members? known members = some fields) :
    fields.get? name = none ↔ (name ∈ known → some name ∉ members.map (·.1)) := by
  simp only [Option.eq_none_iff_forall_ne_some, ne_eq, get?_members? h]
  constructor
  · intro hnone hk hmem
    obtain ⟨⟨_, d⟩, hd, rfl⟩ := List.mem_map.mp hmem
    exact hnone d ⟨hk, hd⟩
  · rintro hnone d ⟨hk, hd⟩
    exact hnone hk (List.mem_map.mpr ⟨_, hd, rfl⟩)

/-! ## Restyling -/

/-- What is known of a document: nothing, that no member of it is passed over, or the names of the fields it has as an
object. A field may have a value that it also has when it is left out, and has a shape itself. -/
inductive Shape
  | any
  | whole
  | fields (known : List (String × Option Document × Shape))

namespace Shape

def names : Shape → List String
  | any | whole => []
  | fields known => known.map (·.1)

def passesOver : Shape → String → Bool
  | any, _ => true
  | whole, _ => false
  | fields known, name => !(known.map (·.1)).contains name

def field (s : Shape) (name : String) : Option Document × Shape :=
  match s with
  | any => (none, any)
  | whole => (none, whole)
  | fields known => ((known.find? (·.1 == name)).map (·.2)).getD (none, any)

end Shape

/-- The second document says what the first does, where this shape is all that matters. -/
inductive Restyled : Shape → Document → Document → Prop
  | refl (s : Shape) (d : Document) : Restyled s d d
  | trans {s : Shape} {d d' d'' : Document} : Restyled s d d' → Restyled s d' d'' → Restyled s d d''
  /-- Members change places. -/
  | permute (s : Shape) {members members' : List (Option String × Document)} : members.Perm members' →
      Restyled s (.object members) (.object members')
  /-- There is a further member, one that is passed over. -/
  | insert {s : Shape} {name : String} (before : List (Option String × Document)) (d : Document)
      (after : List (Option String × Document)) : s.passesOver name = true →
      Restyled s (.object (before ++ after)) (.object (before ++ (some name, d) :: after))
  /-- A field that has the value it also has when it is left out is left out. -/
  | leaveOut {s : Shape} {name : String} (before : List (Option String × Document)) {d : Document}
      (after : List (Option String × Document)) : (s.field name).1 = some d →
      some name ∉ (before ++ after).map (·.1) →
      Restyled s (.object (before ++ (some name, d) :: after)) (.object (before ++ after))
  /-- The value of a member is restyled. -/
  | member {s : Shape} (before : List (Option String × Document)) {name : String} {d d' : Document}
      (after : List (Option String × Document)) : Restyled (s.field name).2 d d' →
      Restyled s (.object (before ++ (some name, d) :: after)) (.object (before ++ (some name, d') :: after))
  /-- An item is restyled. -/
  | item (before : List Document) {d d' : Document} (after : List Document) : Restyled .any d d' →
      Restyled .any (.array (before ++ d :: after)) (.array (before ++ d' :: after))

/-- A field is there twice, in the object or in one of its fields. -/
inductive Repeats : Shape → Document → Prop
  | here {s : Shape} {name : String} (before : List (Option String × Document)) (d : Document)
      (between : List (Option String × Document)) (d' : Document) (after : List (Option String × Document)) :
      name ∈ s.names → Repeats s (.object (before ++ (some name, d) :: (between ++ (some name, d') :: after)))
  | inside {s : Shape} {name : String} {members : List (Option String × Document)} {d : Document} : name ∈ s.names →
      (some name, d) ∈ members → Repeats (s.field name).2 d → Repeats s (.object members)

/-! ## Fields of restyled objects -/

variable {s : Shape}

/-- The field is there in both, restyled, or in none, or it is left out where it need not be there. -/
inductive FieldRestyled (s : Shape) (name : String) : Option Document → Option Document → Prop
  | absent : FieldRestyled s name none none
  | kept {d d' : Document} : Restyled (s.field name).2 d d' → FieldRestyled s name (some d) (some d')
  | omitted {d d' : Document} : (s.field name).1 = some d' → Restyled (s.field name).2 d d' →
      FieldRestyled s name (some d) none

theorem FieldRestyled.trans {o o' o'' : Option Document} (h : FieldRestyled s name o o')
    (h' : FieldRestyled s name o' o'') : FieldRestyled s name o o'' := by
  cases h with
  | absent => exact h'
  | kept hr =>
    cases h' with
    | kept hr' => exact .kept (hr.trans hr')
    | omitted hd hr' => exact .omitted hd (hr.trans hr')
  | omitted hd hr =>
    cases h'
    exact .omitted hd hr

def SameFields (s : Shape) (f f' : Option (Dict Document)) : Prop :=
  (f = none ∧ f' = none) ∨
    ∃ fields fields', f = some fields ∧ f' = some fields' ∧
      ∀ name, FieldRestyled s name (fields.get? name) (fields'.get? name)

theorem SameFields.trans {f f' f'' : Option (Dict Document)} (h : SameFields s f f') (h' : SameFields s f' f'') :
    SameFields s f f'' := by
  rcases h with ⟨rfl, rfl⟩ | ⟨fields, fields', rfl, rfl, hsame⟩
  · exact h'
  · rcases h' with ⟨hnone, -⟩ | ⟨_, fields'', he, rfl, hsame'⟩
    · cases hnone
    · cases he
      exact .inr ⟨fields, fields'', rfl, rfl, fun name => (hsame name).trans (hsame' name)⟩

/-- Members have the same fields if their names are as good and every field of the one is a member of the other, or is
left out there. -/
theorem sameFields_of_members
    (hnames : WellNamed s.names (members.map (·.1)) ↔ WellNamed s.names (members'.map (·.1)))
    (hthere : ∀ name d, (some name, d) ∈ members → (∃ d', (some name, d') ∈ members' ∧ Restyled (s.field name).2 d d') ∨
      some name ∉ members'.map (·.1) ∧ (s.field name).1 = some d)
    (hback : ∀ name ∈ s.names, some name ∈ members'.map (·.1) → some name ∈ members.map (·.1)) :
    SameFields s (members? s.names members) (members? s.names members') := by
  cases hf : members? s.names members with
  | none => exact .inl ⟨rfl, members?_eq_none_iff.mpr ((not_congr hnames).mp (members?_eq_none_iff.mp hf))⟩
  | some fields =>
    cases hf' : members? s.names members' with
    | none =>
      have hnone := members?_eq_none_iff.mpr ((not_congr hnames).mpr (members?_eq_none_iff.mp hf'))
      rw [hf] at hnone
      cases hnone
    | some fields' =>
      refine .inr ⟨fields, fields', rfl, rfl, fun name => ?_⟩
      cases hd : fields.get? name with
      | none =>
        have hd' : fields'.get? name = none := (get?_members?_eq_none_iff hf').mpr fun hk hmem =>
          (get?_members?_eq_none_iff hf).mp hd hk (hback name hk hmem)
        rw [hd']
        exact .absent
      | some d =>
        obtain ⟨hk, hmem⟩ := (get?_members? hf).mp hd
        rcases hthere name d hmem with ⟨d', hmem', hr⟩ | ⟨hgone, hdefault⟩
        · rw [(get?_members? hf').mpr ⟨hk, hmem'⟩]
          exact .kept hr
        · rw [(get?_members?_eq_none_iff hf').mpr fun _ => hgone]
          exact .omitted hdefault (.refl _ d)

/-- A further name that is not known makes names no worse. -/
theorem wellNamed_insert_iff {before after : List (Option String)} (hname : name ∉ known) :
    WellNamed known (before ++ after) ↔ WellNamed known (before ++ some name :: after) := by
  have hcount : ∀ other ∈ known,
      (before ++ some name :: after).count (some other) = (before ++ after).count (some other) := by
    intro other ho
    have hne : some name ≠ some other := fun he => hname (Option.some.inj he ▸ ho)
    simp [List.count_append, hne]
  constructor
  · exact fun h => ⟨by simpa using h.texts, fun other ho => by rw [hcount other ho]; exact h.once other ho⟩
  · exact fun h => ⟨by simpa using h.texts, fun other ho => by rw [← hcount other ho]; exact h.once other ho⟩

/-- A further name that is new makes names no worse. -/
theorem wellNamed_new_iff {before after : List (Option String)} (hname : some name ∉ before ++ after) :
    WellNamed known (before ++ some name :: after) ↔ WellNamed known (before ++ after) := by
  have hcount : ∀ other, (before ++ some name :: after).count (some other) =
      (before ++ after).count (some other) + if name = other then 1 else 0 := by
    intro other
    simp [List.count_append, List.count_cons, Nat.add_assoc]
  constructor
  · refine fun h => ⟨by simpa using h.texts, fun other ho => ?_⟩
    have honce := h.once other ho
    rw [hcount] at honce
    omega
  · refine fun h => ⟨by simpa using h.texts, fun other ho => ?_⟩
    rw [hcount]
    split
    · rename_i he
      rw [← he]
      exact Nat.le_of_eq (congrArg (· + 1) (List.count_eq_zero.mpr hname))
    · exact h.once other ho

theorem WellNamed.perm {names names' : List (Option String)} (h : WellNamed known names) (hp : names.Perm names') :
    WellNamed known names' where
  texts hn := h.texts (hp.mem_iff.mpr hn)
  once name hk := by
    rw [← hp.count_eq]
    exact h.once name hk

/-- Restyled objects have the same fields, restyled. -/
theorem Restyled.sameFields {known : List (String × Option Document × Shape)}
    (h : Restyled (.fields known) d d') :
    d = d' ∨ ∃ members members', d = .object members ∧ d' = .object members' ∧
      SameFields (.fields known) (members? (known.map (·.1)) members) (members? (known.map (·.1)) members') := by
  generalize hs : Shape.fields known = s at h
  have hknown : known.map (·.1) = s.names := by rw [← hs]; rfl
  rw [hknown]
  induction h with
  | refl => exact .inl rfl
  | trans _ _ ih ih' =>
    rcases ih hs hknown with rfl | ⟨members, members', rfl, rfl, hsame⟩
    · exact ih' hs hknown
    · rcases ih' hs hknown with rfl | ⟨members'', members₃, he, rfl, hsame'⟩
      · exact .inr ⟨members, members', rfl, rfl, hsame⟩
      · cases he
        exact .inr ⟨members, members₃, rfl, rfl, hsame.trans hsame'⟩
  | permute s hp =>
    refine .inr ⟨_, _, rfl, rfl, sameFields_of_members ?_ (fun name d hd => .inl ⟨d, hp.mem_iff.mp hd, .refl _ d⟩) ?_⟩
    · exact ⟨fun h => h.perm (hp.map _), fun h => h.perm (hp.map _).symm⟩
    · exact fun name _ hn => (hp.map _).mem_iff.mpr hn
  | @insert s name before d after hover =>
    have hname : name ∉ s.names := by
      subst hs
      simpa [Shape.passesOver, Shape.names] using hover
    refine .inr ⟨_, _, rfl, rfl, sameFields_of_members ?_ (fun other d' hd' => .inl ⟨d', ?_, .refl _ d'⟩) ?_⟩
    · rw [List.map_append, List.map_append, List.map_cons]
      exact wellNamed_insert_iff hname
    · rcases List.mem_append.mp hd' with hd' | hd' <;> simp [hd']
    · intro other ho hmem
      have hne : other ≠ name := fun he => hname (he ▸ ho)
      simpa [hne] using hmem
  | @leaveOut s name before d after hdefault hnew =>
    refine .inr ⟨_, _, rfl, rfl, sameFields_of_members ?_ (fun other d' hd' => ?_) ?_⟩
    · rw [List.map_append, List.map_append, List.map_cons] at *
      exact wellNamed_new_iff hnew
    · have hd'' : (some other, d') = (some name, d) ∨ (some other, d') ∈ before ++ after := by
        simpa [or_left_comm] using hd'
      rcases hd'' with he | hd''
      · cases he
        exact .inr ⟨hnew, hdefault⟩
      · exact .inl ⟨d', hd'', .refl _ d'⟩
    · intro other _ hmem
      rw [List.map_append, List.mem_append] at hmem
      rcases hmem with hmem | hmem <;> simp [hmem]
  | @member s before name d d' after hr =>
    refine .inr ⟨_, _, rfl, rfl, sameFields_of_members (by simp) (fun other d'' hd'' => .inl ?_) (by simp)⟩
    have hcases : (some other, d'') = (some name, d) ∨ (some other, d'') ∈ before ++ after := by
      simpa [or_left_comm] using hd''
    rcases hcases with he | hkept
    · cases he
      exact ⟨d', by simp, hr⟩
    · refine ⟨d'', ?_, .refl _ d''⟩
      rcases List.mem_append.mp hkept with hkept | hkept <;> simp [hkept]
  | item => cases hs

/-! ## Repeated fields -/

theorem not_repeats (h : s.names = []) : ¬ Repeats s d := by
  intro hr
  have hmem : ∃ name, name ∈ s.names := by
    cases hr with
    | here _ _ _ _ _ hname => exact ⟨_, hname⟩
    | inside hname _ _ => exact ⟨_, hname⟩
  simp [h] at hmem

theorem not_repeats_any : ¬ Repeats .any d := not_repeats rfl

theorem Repeats.eq_object (h : Repeats s d) : ∃ members, d = .object members := by
  cases h <;> exact ⟨_, rfl⟩

/-- Nothing comes of the members, or one of the fields has a repeated field. -/
theorem Repeats.members? (h : Repeats s (.object members)) :
    Document.members? s.names members = none ∨
      ∃ fields name d, Document.members? s.names members = some fields ∧ name ∈ s.names ∧ fields.get? name = some d ∧
        Repeats (s.field name).2 d := by
  cases h with
  | @here s name before d between d' after hname =>
    refine .inl (members?_eq_none_iff.mpr fun h => ?_)
    have honce := h.once name hname
    simp only [List.map_append, List.map_cons, List.count_append, List.count_cons_self] at honce
    omega
  | @inside s name members d hname hmem hr =>
    cases hf : Document.members? s.names members with
    | none => exact .inl rfl
    | some fields => exact .inr ⟨fields, name, d, rfl, hname, (get?_members? hf).mpr ⟨hname, hmem⟩, hr⟩

/-! ## Readers -/

/-- The reader takes restyled documents for the same, and none in which a field is repeated. -/
structure Respects {α : Type} (read : Document → Option α) (s : Shape) : Prop where
  restyled : ∀ {d d'}, Restyled s d d' → read d' = read d
  repeated : ∀ {d}, Repeats s d → read d = none

variable {α β : Type} {read : Document → Option α}

/-- What is the same for all objects and for all arrays is the same for restyled documents. -/
theorem Restyled.congr {f : Document → β} (h : Restyled s d d')
    (objects : ∀ members members', f (.object members) = f (.object members'))
    (arrays : ∀ items items', f (.array items) = f (.array items')) : f d' = f d := by
  induction h with
  | refl => rfl
  | trans _ _ ih ih' => exact ih'.trans ih
  | item => exact arrays _ _
  | _ => exact objects _ _

/-- A reader that tells no object from another, and no array, respects every style. -/
theorem respects_any (objects : ∀ members members', read (.object members) = read (.object members'))
    (arrays : ∀ items items', read (.array items) = read (.array items')) : Respects read .any where
  restyled h := h.congr objects arrays
  repeated h := absurd h not_repeats_any

theorem respects_bool : Respects bool? .any := respects_any (fun _ _ => rfl) fun _ _ => rfl

theorem respects_text : Respects text? .any := respects_any (fun _ _ => rfl) fun _ _ => rfl

theorem respects_nat (bound : Nat) : Respects (nat? bound) .any := respects_any (fun _ _ => rfl) fun _ _ => rfl

theorem respects_list (hread : Respects read .any) : Respects (list? read) .any where
  restyled h := by
    generalize hs : Shape.any = s at h
    induction h with
    | refl => rfl
    | trans _ _ ih ih' => exact (ih' hs).trans (ih hs)
    | item before after h =>
      show (before ++ _ :: after).mapM read = (before ++ _ :: after).mapM read
      rw [List.mapM_append, List.mapM_append, List.mapM_cons, List.mapM_cons, hread.restyled h]
    | _ => rfl
  repeated h := absurd h not_repeats_any

/-- Where no member is passed over, members only change places, or are restyled themselves. -/
theorem Restyled.congr_whole {f : Document → β} (h : Restyled .whole d d')
    (places : ∀ members members' : List (Option String × Document), members.Perm members' →
      f (.object members') = f (.object members))
    (values : ∀ before name after d d', Restyled .whole d d' →
      f (.object (before ++ (some name, d') :: after)) = f (.object (before ++ (some name, d) :: after))) :
    f d' = f d := by
  generalize hs : Shape.whole = s at h
  induction h with
  | refl => rfl
  | trans _ _ ih ih' => exact (ih' hs).trans (ih hs)
  | permute s hp => exact places _ _ hp
  | insert _ _ _ hover =>
    subst hs
    cases hover
  | leaveOut _ _ hdefault =>
    subst hs
    cases hdefault
  | member before after hr =>
    subst hs
    exact values _ _ _ _ _ hr
  | item => cases hs

theorem Restyled.isNothing_eq (h : Restyled .whole d d') : d'.isNothing = d.isNothing := by
  have object : ∀ members : List (Option String × Document), isNothing (.object members) = members.isEmpty := by
    intro members
    cases members <;> rfl
  refine h.congr_whole (fun members members' hp => ?_) fun before name after d d' _ => ?_
  · rw [object, object, hp.isEmpty_eq]
  · rw [object, object]
    cases before <;> rfl

theorem Restyled.null_iff (h : Restyled s d d') : d' = .null ↔ d = .null := by
  have hnull : (d' = .null) = (d = .null) :=
    h.congr (f := (· = .null)) (fun _ _ => by simp) fun _ _ => by simp
  rw [hnull]

theorem optional?_some (h : d ≠ .null) : optional? read (some d) = (read d).map some := by
  unfold optional?
  split
  · rename_i he
    cases he
  · rename_i he
    exact absurd (Option.some.inj he) h
  · rename_i he
    rw [Option.some.inj he]

namespace FieldRestyled

variable {o o' : Option Document}

/-- A field that has to be there. -/
theorem bind (h : FieldRestyled s name o o') (hread : Respects read (s.field name).2)
    (hdefault : (s.field name).1 = none) : o'.bind read = o.bind read := by
  cases h with
  | absent => rfl
  | kept h => exact hread.restyled h
  | omitted hd _ =>
    rw [hdefault] at hd
    cases hd

/-- A field that is null when it is left out. -/
theorem optional? (h : FieldRestyled s name o o') (hread : Respects read (s.field name).2)
    (hdefault : (s.field name).1 = some .null) : Document.optional? read o' = Document.optional? read o := by
  cases h with
  | absent => rfl
  | @kept d d' h =>
    by_cases hd : d = .null
    · rw [h.null_iff.mpr hd, hd]
    · rw [optional?_some hd, optional?_some fun hd' => hd (h.null_iff.mp hd'), hread.restyled h]
  | omitted hd h =>
    rw [hdefault] at hd
    cases hd
    rw [h.null_iff.mp rfl]
    rfl

/-- A field that has a value when it is left out. -/
theorem defaulted? {value : α} {d₀ : Document} (h : FieldRestyled s name o o') (hread : Respects read (s.field name).2)
    (hdefault : (s.field name).1 = some d₀) (hvalue : read d₀ = some value) :
    Document.defaulted? read value o' = Document.defaulted? read value o := by
  cases h with
  | absent => rfl
  | kept h => exact hread.restyled h
  | @omitted d d' hd h =>
    rw [hdefault] at hd
    cases hd
    show some value = read d
    rw [← hread.restyled h, hvalue]

end FieldRestyled

/-- A reader of objects by their fields respects the shape of a structure, if it does so field by field. -/
theorem respects_fields {known : List (String × Option Document × Shape)} {build : Dict Document → Option α}
    (hread : ∀ members, read (.object members) = (members? (known.map (·.1)) members).bind build)
    (hsame : ∀ fields fields', (∀ name, FieldRestyled (.fields known) name (fields.get? name) (fields'.get? name)) →
      build fields' = build fields)
    (hrepeated : ∀ fields name d, name ∈ known.map (·.1) → fields.get? name = some d →
      Repeats (Shape.field (.fields known) name).2 d → build fields = none) : Respects read (.fields known) where
  restyled h := by
    rcases h.sameFields with rfl | ⟨members, members', rfl, rfl, ⟨hf, hf'⟩ | ⟨fields, fields', hf, hf', hrestyled⟩⟩
    · rfl
    · rw [hread, hread, hf, hf']
    · rw [hread, hread, hf, hf', Option.bind_some, Option.bind_some, hsame fields fields' hrestyled]
  repeated h := by
    obtain ⟨members, rfl⟩ := h.eq_object
    rw [hread]
    show (Document.members? (Shape.names (.fields known)) members).bind build = none
    rcases h.members? with hnone | ⟨fields, name, d, hf, hname, hd, hr⟩
    · rw [hnone, Option.bind_none]
    · rw [hf, Option.bind_some, hrepeated fields name d hname hd hr]

end Placement.Json.Document
