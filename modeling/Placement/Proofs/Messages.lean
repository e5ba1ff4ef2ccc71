import Placement.Proofs.Envelopes
import Placement.Proofs.Presentation

/-!
What messages of the registry say, however they are presented.

A message is the text of a document, and another text of the same document, with white space elsewhere or texts
escaped otherwise, is the same message. So is a restyled document: with its members in another order, other members
between them, or without the fields that need not be there. A command goes on being read as long as the whole of its
message is a value, which a member with no meaning can prevent; a reply is not even looked at there. A repeated field
or text behind the message make it none.

- `Reply.respects`: replies.
- `Envelope.ofDocument?_restyled`: commands.
- `presentation_is_ignored`: the texts of both.
-/

namespace Placement.Registry

open Json (Document)
open Json.Document (Shape Restyled Repeats Respects SameFields FieldRestyled Written)
open Utf8 (Symbol)

/-! ## Replies -/

def Lookup.shape : Shape := .fields [("node_id", some .null, .any), ("exists", some (.bool false), .any)]

theorem Lookup.respects : Respects Lookup.ofDocument? Lookup.shape := by
  refine Document.respects_fields (fun d => rfl) (fun fields fields' h => ?_) fun fields name d hname _ hr => ?_
  · have node := (h "node_id").optional? Document.respects_text rfl
    have hfalse : Document.bool? (.bool false) = some false := rfl
    have there := (h "exists").defaulted? Document.respects_bool rfl hfalse
    simp only [node, there]
  · simp only [List.map_cons, List.map_nil, List.mem_cons, List.not_mem_nil, or_false] at hname
    rcases hname with rfl | rfl <;> exact absurd hr Document.not_repeats_any

def Reply.shape (result : Shape) : Shape :=
  .fields [("success", none, .any), ("result", some .null, result), ("error", some .null, .any)]

variable {α : Type} {read : Document → Option α} {s : Shape} {d d' : Document}

/-- A reply is read alike from restyled documents if its result is. -/
theorem Reply.respects (hread : Respects read s) : Respects (Reply.ofDocument? read) (Reply.shape s) := by
  refine Document.respects_fields (fun d => rfl) (fun fields fields' h => ?_) fun fields name d hname hd hr => ?_
  · have success := (h "success").bind Document.respects_bool rfl
    have result := (h "result").optional? hread rfl
    have reason := (h "error").optional? Document.respects_text rfl
    simp only [Option.bind_eq_bind, ← Option.bind_assoc, success, result, reason]
  · simp only [List.map_cons, List.map_nil, List.mem_cons, List.not_mem_nil, or_false] at hname
    rcases hname with rfl | rfl | rfl
    · exact absurd hr Document.not_repeats_any
    · -- a result with a repeated field is an object, and not null
      obtain ⟨members, rfl⟩ := hr.eq_object
      have hnotnull : Document.object members ≠ .null := nofun
      have hnone : Document.optional? read (fields.get? "result") = none := by
        rw [hd, Document.optional?_some hnotnull, hread.repeated hr]
        rfl
      simp [hnone]
    · exact absurd hr Document.not_repeats_any

inductive ReadsResult : {α : Type} → (Document → Option α) → Shape → Prop
  | bool : ReadsResult Document.bool? .any
  | text : ReadsResult Document.text? .any
  | lookup : ReadsResult Lookup.ofDocument? Lookup.shape

theorem ReadsResult.respects (h : ReadsResult read s) : Respects read s := by
  cases h with
  | bool => exact Document.respects_bool
  | text => exact Document.respects_text
  | lookup => exact Lookup.respects

/-! ## Commands -/

/-- Members are values if their names are texts and what they hold are values. -/
theorem isSome_ofMembers?_iff {levels : Nat} {members : List (Option String × Document)} :
    (Json.ofMembers? levels members).isSome = true ↔
      ∀ m ∈ members, m.1.isSome = true ∧ (Json.ofDocument? levels m.2).isSome = true := by
  induction members with
  | nil => simp [Json.ofMembers?]
  | cons m members ih =>
    obtain ⟨_ | name, d⟩ := m
    · simp [Json.ofMembers?]
    · rw [List.forall_mem_cons, ← ih]
      cases hd : Json.ofDocument? levels d <;> cases hm : Json.ofMembers? levels members <;>
        simp [Json.ofMembers?, hd, hm]

def Command.fieldNames (name : String) : List String :=
  match name with
  | "insert_tuple" => ["node_id", "tuple_id"]
  | "delete_tuple" => ["node_id", "tuple_id"]
  | "locate_tuple" => ["tuple_id"]
  | "release_capacity" => ["node_id"]
  | "suggest_node" => ["nodes"]
  | _ => []

def Command.shape (name : String) : Shape := .fields ((fieldNames name).map fun field => (field, none, .any))

/-- Which arguments there are depends on the name of the command. -/
def Envelope.shape (name : String) : Shape :=
  .fields [("version", none, .any), ("op", none, .whole), ("args", none, Command.shape name)]

theorem isSome_ofDocument?_of_nat? {bound n levels : Nat} (h : d.nat? bound = some n) :
    (Json.ofDocument? levels d).isSome = true := by
  cases d with
  | number numeral =>
    cases hint : numeral.int? with
    | none => simp [Document.nat?, hint] at h
    | some i => simp [Json.ofDocument?, Numeral.value?, hint]
  | _ => cases h

namespace Command

theorem names_shape (name : String) : (shape name).names = fieldNames name := by
  simp [shape, Shape.names, Function.comp_def]

theorem field_shape (name field : String) : (shape name).field field = (none, .any) := by
  show ((((fieldNames name).map fun field => (field, none, Shape.any)).find? (·.1 == field)).map (·.2)).getD _ = _
  rw [List.find?_map]
  cases List.find? _ (fieldNames name) <;> rfl

def ofFields? (name : String) (fields : Dict Document) : Option Command :=
  match name with
  | "insert_tuple" => do return place (← (← fields.get? "node_id").text?) (← (← fields.get? "tuple_id").text?)
  | "delete_tuple" => do return withdraw (← (← fields.get? "node_id").text?) (← (← fields.get? "tuple_id").text?)
  | "locate_tuple" => do return locate (← (← fields.get? "tuple_id").text?)
  | "release_capacity" => do return release (← (← fields.get? "node_id").text?)
  | "suggest_node" => do return suggest (← (← fields.get? "nodes").list? Document.text?)
  | _ => none

theorem ofParts?_eq (name : String) (arguments : List (Option String × Document)) :
    ofParts? name arguments = (Document.members? (fieldNames name) arguments).bind (ofFields? name) := by
  unfold ofParts?
  split
  case h_6 =>
    have hnone : ofFields? name = fun _ => none := by
      funext fields
      unfold ofFields?
      split <;> first | rfl | contradiction
    rw [hnone, Option.bind_fun_none]
  all_goals rfl

def ofArguments? (name : String) : Document → Option Command
  | .object arguments => ofParts? name arguments
  | _ => none

theorem respects (name : String) : Respects (ofArguments? name) (shape name) := by
  have field : ∀ {β : Type} {read : Document → Option β} {fields fields' : Dict Document} {name' : String},
      Respects read .any → FieldRestyled (shape name) name' (fields.get? name') (fields'.get? name') →
      (fields'.get? name').bind read = (fields.get? name').bind read := by
    intro β read fields fields' name' hread h
    have hfield := field_shape name name'
    exact h.bind (by rwa [hfield]) (by rw [hfield])
  have hread : ∀ members, ofArguments? name (.object members) =
      (Document.members? (shape name).names members).bind (ofFields? name) := fun members => by
    rw [names_shape, ← ofParts?_eq]
    rfl
  refine Document.respects_fields hread (fun fields fields' h => ?_) fun fields name' d _ _ hr => ?_
  · have texts : ∀ name', (fields'.get? name').bind Document.text? = (fields.get? name').bind Document.text? :=
      fun name' => field Document.respects_text (h name')
    have lists : ∀ name', (fields'.get? name').bind (Document.list? Document.text?) =
        (fields.get? name').bind (Document.list? Document.text?) :=
      fun name' => field (Document.respects_list Document.respects_text) (h name')
    unfold ofFields?
    split <;> simp only [Option.bind_eq_bind, ← Option.bind_assoc, texts, lists]
  · have hany : Repeats ((shape name).field name').2 d := hr
    rw [field_shape] at hany
    exact absurd hany Document.not_repeats_any

/-- The name that a command is read by is its own. -/
theorem name_of_ofArguments? {name : String} {c : Command} (h : ofArguments? name d = some c) : c.name = name := by
  have step : ∀ {β : Type} {o : Option β} {f : β → Option Command} {name : String},
      (∀ b, f b = some c → c.name = name) → o.bind f = some c → c.name = name := by
    intro β o f name hf h
    obtain ⟨b, -, hb⟩ := Option.bind_eq_some_iff.mp h
    exact hf b hb
  cases d with
  | object arguments =>
    have hparts : ofParts? name arguments = some c := h
    rw [ofParts?_eq] at hparts
    refine step (fun fields hfields => ?_) hparts
    unfold ofFields? at hfields
    split at hfields
    · exact step (fun _ => step fun _ => step fun _ => step fun _ h => by cases h; rfl) hfields
    · exact step (fun _ => step fun _ => step fun _ => step fun _ h => by cases h; rfl) hfields
    · exact step (fun _ => step fun _ h => by cases h; rfl) hfields
    · exact step (fun _ => step fun _ h => by cases h; rfl) hfields
    · exact step (fun _ => step fun _ h => by cases h; rfl) hfields
    · cases hfields
  | _ => cases h

end Command

namespace Envelope

theorem name?_object {name : String} {members : List (Option String × Document)} :
    name? (.object members) = some name ↔ ∃ d, members = [(some name, d)] ∧ d.isNothing = true := by
  constructor
  · intro h
    unfold name? at h
    split at h
    · rename_i he
      cases he
    · rename_i other d he
      cases he
      split at h
      · cases h
        exact ⟨d, rfl, ‹_›⟩
      · cases h
    · cases h
  · rintro ⟨d, rfl, hd⟩
    exact if_pos hd

example : name? (.object [(some "locate_tuple", .null)]) = some "locate_tuple" := rfl

/-- Nothing is passed over in the name of a command. -/
theorem respects_name : Respects name? .whole where
  restyled h := by
    refine h.congr_whole (fun members members' hp => Option.ext fun name => ?_)
      fun before other after d d' hr => Option.ext fun name => ?_
    · rw [name?_object, name?_object]
      refine exists_congr fun d => and_congr_left fun _ => ?_
      exact ⟨fun he => List.perm_singleton.1 (he ▸ hp), fun he => List.singleton_perm.1 (he ▸ hp) ▸ rfl⟩
    · rw [name?_object, name?_object]
      cases before with
      | cons => simp
      | nil =>
        cases after with
        | cons => simp
        | nil =>
          constructor
          · rintro ⟨_, ⟨⟩, hd⟩
            exact ⟨d, rfl, hr.isNothing_eq ▸ hd⟩
          · rintro ⟨_, ⟨⟩, hd⟩
            exact ⟨d', rfl, hr.isNothing_eq.symm ▸ hd⟩
  repeated h := absurd h (Document.not_repeats rfl)

def ofFields? (fields : Dict Document) : Option Envelope := do
  let version ← (fields.get? "version").bind (Document.nat? Word.values32)
  let name ← (fields.get? "op").bind name?
  let command ← (fields.get? "args").bind (Command.ofArguments? name)
  return { version := UInt32.ofNat version, command }

def fieldNames : List String := ["version", "op", "args"]

theorem ofFields?_eq_some_iff {fields : Dict Document} {e : Envelope} :
    ofFields? fields = some e ↔ ∃ version, (fields.get? "version").bind (Document.nat? Word.values32) = some version ∧
      (fields.get? "op").bind name? = some e.command.name ∧
      (fields.get? "args").bind (Command.ofArguments? e.command.name) = some e.command ∧
      e.version = UInt32.ofNat version := by
  constructor
  · intro h
    obtain ⟨version, hversion, h₁⟩ := Option.bind_eq_some_iff.mp h
    obtain ⟨name, hname, h₂⟩ := Option.bind_eq_some_iff.mp h₁
    obtain ⟨command, hcommand, h₃⟩ := Option.bind_eq_some_iff.mp h₂
    cases h₃
    obtain ⟨args, -, hargs⟩ := Option.bind_eq_some_iff.mp hcommand
    have hnamed := Command.name_of_ofArguments? hargs
    exact ⟨version, hversion, by rw [hnamed]; exact hname, by rw [hnamed]; exact hcommand, rfl⟩
  · rintro ⟨version, hversion, hname, hcommand, he⟩
    rw [ofFields?, hversion, Option.bind_eq_bind, Option.bind_some, hname, Option.bind_eq_bind, Option.bind_some,
      hcommand, Option.bind_eq_bind, Option.bind_some, ← he]
    rfl

/-- A message is read as its fields say, if everything in it but the version is a value. -/
theorem ofDocument?_object (members : List (Option String × Document)) :
    ofDocument? (.object members) =
      ((Document.members? fieldNames members).bind ofFields?).filter fun _ => restIsStrict members := by
  show (Document.members? fieldNames members >>= _) = _
  cases Document.members? fieldNames members with
  | none => rfl
  | some fields =>
    rw [Option.bind_eq_bind, Option.bind_some, Option.bind_some, ofFields?]
    rcases fields.get? "version" with _ | version
    · rfl
    rcases hversion : version.nat? Word.values32 with _ | n
    · simp [hversion]
    rcases fields.get? "op" with _ | op
    · simp [hversion]
    rcases hop : name? op with _ | name
    · simp [hversion, hop]
    rcases fields.get? "args" with _ | args
    · simp [hversion, hop]
    cases args with
    | object arguments =>
      rcases hcommand : Command.ofParts? name arguments with _ | command
      · simp [hversion, hop, hcommand, Command.ofArguments?]
      · cases restIsStrict members <;> simp [hversion, hop, hcommand, Command.ofArguments?, Option.filter]
    | _ => simp [hversion, hop, Command.ofArguments?]

/-- Where the version is a number, everything in the message is a value if the rest of it is. -/
theorem restIsStrict_iff {members : List (Option String × Document)} {fields : Dict Document} {version : Nat}
    (hf : Document.members? fieldNames members = some fields)
    (hversion : (fields.get? "version").bind (Document.nat? Word.values32) = some version) :
    restIsStrict members = true ↔ (Json.ofDocument? Json.levels (.object members)).isSome = true := by
  have htexts : ∀ m ∈ members, m.1.isSome = true := fun m hm => by
    rw [Option.isSome_iff_ne_none]
    exact fun hnone => (Document.wellNamed_of_members? hf).texts (hnone ▸ List.mem_map_of_mem hm)
  have hnumber : ∀ d, (some "version", d) ∈ members → (Json.ofDocument? (Json.levels - 1) d).isSome = true := by
    intro d hd
    rw [(Document.get?_members? hf).mpr ⟨by decide, hd⟩, Option.bind_some] at hversion
    exact isSome_ofDocument?_of_nat? hversion
  have hwhole : (Json.ofDocument? Json.levels (.object members)).isSome =
      (Json.ofMembers? (Json.levels - 1) members).isSome := by
    rw [Json.ofDocument?, if_neg (by decide), Option.isSome_map]
  rw [hwhole, isSome_ofMembers?_iff, restIsStrict, List.all_eq_true]
  refine forall₂_congr fun m hm => ?_
  obtain ⟨name, d⟩ := m
  have htext := htexts _ hm
  by_cases hname : name = some "version"
  · subst hname
    simp [hnumber d hm]
  · simp [hname, htext]

theorem ofDocument?_eq_some_iff {members : List (Option String × Document)} {e : Envelope} :
    ofDocument? (.object members) = some e ↔ (Document.members? fieldNames members).bind ofFields? = some e ∧
      (Json.ofDocument? Json.levels (.object members)).isSome = true := by
  rw [ofDocument?_object, Option.filter_eq_some_iff]
  refine and_congr_right fun h => ?_
  obtain ⟨fields, hf, hfields⟩ := Option.bind_eq_some_iff.mp h
  obtain ⟨version, hversion, -⟩ := ofFields?_eq_some_iff.mp hfields
  exact restIsStrict_iff hf hversion

theorem ofFields?_restyled {fields fields' : Dict Document} {e : Envelope} (h : ofFields? fields = some e)
    (hsame : ∀ name, FieldRestyled (shape e.command.name) name (fields.get? name) (fields'.get? name)) :
    ofFields? fields' = some e := by
  obtain ⟨version, hversion, hname, hcommand, he⟩ := ofFields?_eq_some_iff.mp h
  refine ofFields?_eq_some_iff.mpr ⟨version, ?_, ?_, ?_, he⟩
  · rwa [(hsame "version").bind (Document.respects_nat _) rfl]
  · rwa [(hsame "op").bind respects_name rfl]
  · rwa [(hsame "args").bind (Command.respects _) rfl]

/-- A restyled message is read as the same command, if it is a value as a whole. -/
theorem ofDocument?_restyled {e : Envelope} (h : ofDocument? d = some e) (hr : Restyled (shape e.command.name) d d') :
    ofDocument? d' = some e ↔ (Json.ofDocument? Json.levels d').isSome = true := by
  cases d with
  | object members =>
    obtain ⟨hlax, hvalue⟩ := ofDocument?_eq_some_iff.mp h
    obtain ⟨fields, hf, hfields⟩ := Option.bind_eq_some_iff.mp hlax
    rcases hr.sameFields with rfl | ⟨_, members', hd, rfl, hsame⟩
    · exact iff_of_true h hvalue
    · cases hd
      rcases hsame with ⟨hnone, -⟩ | ⟨_, fields', he, hf', hsame⟩
      · have hf₀ : Document.members? fieldNames members = none := hnone
        rw [hf] at hf₀
        cases hf₀
      · have hf₀ : some fields = some _ := hf.symm.trans he
        cases hf₀
        have hlax' : (Document.members? fieldNames members').bind ofFields? = some e := by
          rw [show Document.members? fieldNames members' = some fields' from hf']
          exact ofFields?_restyled hfields hsame
        rw [ofDocument?_eq_some_iff, hlax']
        exact and_iff_right rfl
  | _ => cases h

/-- A message with a repeated field is none; which arguments are fields is told by its name. -/
theorem ofDocument?_repeated {name : String} {op : Document} {members : List (Option String × Document)}
    (hop : (some "op", op) ∈ members) (hname : name? op = some name) (hr : Repeats (shape name) (.object members)) :
    ofDocument? (.object members) = none := by
  refine Option.eq_none_iff_forall_ne_some.mpr fun e he => ?_
  obtain ⟨fields, hf, hfields⟩ := Option.bind_eq_some_iff.mp (ofDocument?_eq_some_iff.mp he).1
  obtain ⟨version, hversion, hread, hcommand, -⟩ := ofFields?_eq_some_iff.mp hfields
  rw [(Document.get?_members? hf).mpr ⟨by decide, hop⟩, Option.bind_some, hname] at hread
  obtain rfl : name = e.command.name := Option.some.inj hread
  rcases hr.members? with hnone | ⟨fields', field, d, hf', hfield, hd, hr⟩
  · have hf₀ : Document.members? fieldNames members = none := hnone
    rw [hf] at hf₀
    cases hf₀
  · have hf₀ : some fields = some fields' := hf.symm.trans hf'
    cases hf₀
    have hcases : field = "version" ∨ field = "op" ∨ field = "args" := by
      simpa [shape, Document.Shape.names] using hfield
    rcases hcases with rfl | rfl | rfl
    · exact Document.not_repeats_any hr
    · exact Document.not_repeats rfl hr
    · rw [hd, Option.bind_some, (Command.respects _).repeated hr] at hcommand
      cases hcommand

end Envelope

/-! ## Texts -/

def Reply.malformed : Fault := .protocol (.malformedReply "not a reply")

theorem Reply.ofBytes_of_written {bytes : ByteArray} (h : Written d bytes) :
    Reply.ofBytes read bytes = (match Reply.ofDocument? read d with
      | some reply => .ok reply
      | none => .error malformed) := by
  rw [Reply.ofBytes, Document.ofBytes?_eq_some_iff.mpr h]
  rfl

theorem Reply.written_of_ofBytes {bytes : ByteArray} {reply : Reply α} (h : Reply.ofBytes read bytes = .ok reply) :
    ∃ d, Written d bytes ∧ Reply.ofDocument? read d = some reply := by
  unfold Reply.ofBytes at h
  split at h
  · rename_i reply' hread
    obtain ⟨d, hd, hreply⟩ := Option.bind_eq_some_iff.mp hread
    cases h
    exact ⟨d, Document.ofBytes?_eq_some_iff.mp hd, hreply⟩
  · cases h

theorem Envelope.ofBytes?_of_written {bytes : ByteArray} (h : Written d bytes) :
    Envelope.ofBytes? bytes = Envelope.ofDocument? d := by
  rw [Envelope.ofBytes?, Document.ofBytes?_eq_some_iff.mpr h]
  rfl

theorem Envelope.written_of_ofBytes? {bytes : ByteArray} {e : Envelope} (h : Envelope.ofBytes? bytes = some e) :
    ∃ d, Written d bytes ∧ Envelope.ofDocument? d = some e := by
  obtain ⟨d, hd, he⟩ := Option.bind_eq_some_iff.mp h
  exact ⟨d, Document.ofBytes?_eq_some_iff.mp hd, he⟩

/-- Two texts of one document, in any spelling and with any white space, and texts of restyled documents are the same
reply; for an envelope that is so if the second, as a whole, is a value that is not nested too deeply. Where a field is
repeated, or anything but white space follows, the text is no message. -/
theorem presentation_is_ignored :
    (∀ {α : Type} {read : Document → Option α} {s : Shape}, ReadsResult read s →
      (∀ d d' bytes bytes', Restyled (Reply.shape s) d d' → Written d bytes → Written d' bytes' →
        Reply.ofBytes read bytes' = Reply.ofBytes read bytes) ∧
      (∀ d bytes, Repeats (Reply.shape s) d → Written d bytes → Reply.ofBytes read bytes = .error Reply.malformed) ∧
      ∀ bytes reply, Reply.ofBytes read bytes = .ok reply → (∃ d, Written d bytes) ∧
        ∀ bytes' more, Utf8.symbols bytes' = Utf8.symbols bytes ++ more → ¬ Json.Token.Blank more →
          Reply.ofBytes read bytes' = .error Reply.malformed) ∧
    (∀ e d d' bytes bytes', Envelope.ofBytes? bytes = some e → Restyled (Envelope.shape e.command.name) d d' →
      Written d bytes → Written d' bytes' →
      (Envelope.ofBytes? bytes' = some e ↔ (Json.ofDocument? Json.levels d').isSome = true)) ∧
    (∀ name op members bytes, (some "op", op) ∈ members → Envelope.name? op = some name →
      Repeats (Envelope.shape name) (.object members) → Written (.object members) bytes →
      Envelope.ofBytes? bytes = none) ∧
    ∀ bytes e, Envelope.ofBytes? bytes = some e → (∃ d, Written d bytes) ∧
      ∀ bytes' more, Utf8.symbols bytes' = Utf8.symbols bytes ++ more → ¬ Json.Token.Blank more →
        Envelope.ofBytes? bytes' = none := by
  refine ⟨fun {α read s} hread => ⟨?_, ?_, ?_⟩, ?_, ?_, ?_⟩
  · intro d d' bytes bytes' hr hd hd'
    rw [Reply.ofBytes_of_written hd, Reply.ofBytes_of_written hd', (Reply.respects hread.respects).restyled hr]
  · intro d bytes hr hd
    rw [Reply.ofBytes_of_written hd, (Reply.respects hread.respects).repeated hr]
  · intro bytes reply h
    obtain ⟨d, hd, hreply⟩ := Reply.written_of_ofBytes h
    refine ⟨⟨d, hd⟩, fun bytes' more hmore hblank => ?_⟩
    have hnumber : ∀ n, d ≠ .number n := by
      rintro n rfl
      cases hreply
    rw [Reply.ofBytes, Document.ofBytes?_eq_none_of_behind hd hnumber hmore hblank]
    rfl
  · intro e d d' bytes bytes' h hr hd hd'
    rw [Envelope.ofBytes?_of_written hd] at h
    rw [Envelope.ofBytes?_of_written hd']
    exact Envelope.ofDocument?_restyled h hr
  · intro name op members bytes hop hname hr hd
    rw [Envelope.ofBytes?_of_written hd]
    exact Envelope.ofDocument?_repeated hop hname hr
  · intro bytes e h
    obtain ⟨d, hd, he⟩ := Envelope.written_of_ofBytes? h
    refine ⟨⟨d, hd⟩, fun bytes' more hmore hblank => ?_⟩
    have hnumber : ∀ n, d ≠ .number n := by
      rintro n rfl
      cases he
    rw [Envelope.ofBytes?, Document.ofBytes?_eq_none_of_behind hd hnumber hmore hblank]
    rfl

def spaced (v : Json) : ByteArray := (" " ++ v.render ++ "\n").toUTF8

theorem symbols_append_text (v : Json) (more : String) :
    Utf8.symbols (v.render ++ more).toUTF8 = Utf8.symbols v.toBytes ++ more.toList.map some := by
  rw [Json.toBytes, Utf8.symbols_toUTF8, Utf8.symbols_toUTF8, String.toList_append, List.map_append]

theorem written_spaced {v : Json} (h : v.Integral) : Written v.document (spaced v) := by
  have hsymbols : Utf8.symbols (spaced v) = some ' ' :: (Utf8.symbols v.toBytes ++ [some '\n']) := by
    rw [spaced, Json.toBytes, Utf8.symbols_toUTF8, Utf8.symbols_toUTF8]
    simp
  have hend : Json.Token.Laid [] [some '\n'] := .space rfl .nil
  have hstops : Numeral.Stops [some '\n'] := by
    rintro c rest ⟨⟩
    decide
  have hlaid := Json.Token.Laid.append (Json.written_toBytes h) (fun _ _ _ => hstops) hend
  rw [List.append_nil] at hlaid
  rw [Written, hsymbols]
  exact .space rfl hlaid

def full : Json :=
  .object [("success", .bool true), ("result", .object [("node_id", .text "n"), ("exists", .bool false)]),
    ("error", .null)]

def sparse : Json :=
  .object [("more", .array []), ("result", .object [("node_id", .text "n")]), ("success", .bool true)]

theorem restyled_sparse : Restyled (Reply.shape Lookup.shape) full.document sparse.document := by
  have noReason := @Restyled.leaveOut (Reply.shape Lookup.shape) "error"
    [(some "success", .bool true),
      (some "result", .object [(some "node_id", .text (some "n")), (some "exists", .bool false)])]
    .null [] rfl (by decide)
  have noPresence := @Restyled.member (Reply.shape Lookup.shape) [(some "success", .bool true)] "result" _ _ []
    (@Restyled.leaveOut Lookup.shape "exists" [(some "node_id", .text (some "n"))] (.bool false) [] rfl (by decide))
  have turned := Restyled.permute (Reply.shape Lookup.shape)
    (List.Perm.swap (some "result", Document.object [(some "node_id", .text (some "n"))])
      (some "success", .bool true) [])
  have more := @Restyled.insert (Reply.shape Lookup.shape) "more" [] (.array [])
    [(some "result", .object [(some "node_id", .text (some "n"))]), (some "success", .bool true)] (by decide)
  exact ((noReason.trans noPresence).trans turned).trans more

def enquiry : Envelope := { command := .locate "k" }

def turned : Json :=
  .object [("x", .array [.null]), ("args", .object [("tuple_id", .text "k")]), ("op", .text "locate_tuple"),
    ("version", .int 1)]

theorem restyled_turned : Restyled (Envelope.shape enquiry.command.name) (.object enquiry.members) turned.document :=
  .trans (.permute _ (List.reverse_perm enquiry.members).symm)
    (@Restyled.insert _ "x" [] (.array [.null]) enquiry.members.reverse (by decide))

def twoNodes : Json :=
  .object [("success", .bool true), ("result", .object [("node_id", .text "n"), ("node_id", .text "m")])]

def twoKeys : Json :=
  .object [("op", .text "locate_tuple"), ("version", .int 1),
    ("args", .object [("tuple_id", .text "k"), ("tuple_id", .text "j")])]

theorem repeats_twoNodes : Repeats (Reply.shape Lookup.shape) twoNodes.document :=
  @Repeats.inside _ "result" _ _ (by decide) (List.mem_cons_of_mem _ List.mem_cons_self)
    (@Repeats.here Lookup.shape "node_id" [] _ [] _ [] (by decide))

theorem repeats_twoKeys : Repeats (Envelope.shape "locate_tuple") twoKeys.document :=
  @Repeats.inside _ "args" _ _ (by decide) (List.mem_cons_of_mem _ (List.mem_cons_of_mem _ List.mem_cons_self))
    (@Repeats.here (Command.shape "locate_tuple") "tuple_id" [] _ [] _ [] (by decide))

/-- Values with no number but one. -/
theorem integral_of_tokens {v : Json} (h : v.tokens.all fun t => !t.isNumber || t == .number (.ofInt 1)) :
    v.Integral := by
  intro t ht
  have ht' := List.all_eq_true.mp h t ht
  cases t with
  | number n => exact ⟨1, by simpa [Json.Token.isNumber] using ht'⟩
  | _ => trivial

theorem a_turned_command_is_read :
    Reply.ofBytes Lookup.ofDocument? (spaced sparse) = .ok { success := true, result := some { node := some "n" } } ∧
      Reply.ofBytes Lookup.ofDocument? twoNodes.toBytes = .error Reply.malformed ∧
      Reply.ofBytes Lookup.ofDocument? (full.render ++ "x").toUTF8 = .error Reply.malformed ∧
      Envelope.ofBytes? (spaced turned) = some enquiry ∧ Envelope.ofBytes? twoKeys.toBytes = none ∧
      Envelope.ofBytes? (enquiry.toJson.render ++ "x").toUTF8 = none := by
  obtain ⟨replies, commands, repeated, behind⟩ := presentation_is_ignored
  obtain ⟨same, twice, more⟩ := replies .lookup
  have wfull := Json.written_toBytes (integral_of_tokens (v := full) (by decide))
  have wsparse := written_spaced (integral_of_tokens (v := sparse) (by decide))
  have wtwoNodes := Json.written_toBytes (integral_of_tokens (v := twoNodes) (by decide))
  have wturned := written_spaced (integral_of_tokens (v := turned) (by decide))
  have wtwoKeys := Json.written_toBytes (integral_of_tokens (v := twoKeys) (by decide))
  have hfull : Reply.ofBytes Lookup.ofDocument? full.toBytes =
      .ok { success := true, result := some { node := some "n" } } := (Reply.ofBytes_of_written wfull).trans rfl
  have hblank : ¬ Json.Token.Blank [some 'x'] := fun h => by
    obtain ⟨c, he, hspace⟩ := h (some 'x') List.mem_cons_self
    cases he
    cases hspace
  refine ⟨(same _ _ _ _ restyled_sparse wfull wsparse).trans hfull, twice _ _ repeats_twoNodes wtwoNodes,
    (more _ _ hfull).2 _ _ (symbols_append_text full "x") hblank, ?_,
    repeated "locate_tuple" _ _ _ List.mem_cons_self rfl repeats_twoKeys wtwoKeys,
    (behind _ _ enquiry.ofBytes?_toBytes).2 _ _ (symbols_append_text enquiry.toJson "x") hblank⟩
  exact (commands _ _ _ _ _ enquiry.ofBytes?_toBytes restyled_turned
    (Document.ofBytes?_eq_some_iff.mp enquiry.ofBytes?_members) wturned).mpr rfl

def nested : Nat → Json
  | 0 => .array []
  | n + 1 => .array [nested n]

theorem integral_nested (n : Nat) : (nested n).Integral := by
  induction n with
  | zero => exact Json.integral_array nofun
  | succ n ih => exact Json.integral_array (by simpa using ih)

theorem isSome_ofDocument?_nested (n levels : Nat) :
    (Json.ofDocument? levels (nested n).document).isSome = true ↔ n < levels := by
  induction n generalizing levels with
  | zero => cases levels <;> simp [nested, Json.document, Json.itemDocuments, Json.ofDocument?, Json.ofItems?]
  | succ n ih =>
    cases levels with
    | zero => simp [nested, Json.document, Json.ofDocument?]
    | succ levels =>
      rw [Nat.succ_lt_succ_iff, ← ih levels]
      cases h : Json.ofDocument? levels (nested n).document <;>
        simp [nested, Json.document, Json.itemDocuments, Json.ofDocument?, Json.ofItems?, h]

theorem isSome_ofBytes?_nested (n : Nat) : (Json.ofBytes? (nested n).toBytes).isSome = true ↔ n < Json.levels := by
  rw [← isSome_ofDocument?_nested, Json.ofBytes?, Document.ofBytes?_toBytes (integral_nested n)]
  rfl

def overgrown (more : Json) : Json :=
  .object [("version", .int 1), ("op", .text "locate_tuple"), ("args", .object [("tuple_id", .text "k")]), ("x", more)]

theorem integral_overgrown {more : Json} (h : more.Integral) : (overgrown more).Integral := by
  have harguments : (Json.object [("tuple_id", .text "k")]).Integral :=
    Json.integral_object (by simp [Json.integral_text])
  refine Json.integral_object ?_
  simp [Json.integral_int, Json.integral_text, harguments, h]

theorem restyled_overgrown (more : Json) :
    Restyled (Envelope.shape enquiry.command.name) (.object enquiry.members) (overgrown more).document :=
  @Restyled.insert _ "x" enquiry.members more.document [] (by decide)

theorem ofDocument?_overgrown {more : Json} (h : ¬ (Json.ofDocument? (Json.levels - 1) more.document).isSome = true) :
    Envelope.ofDocument? (overgrown more).document = none := by
  refine Option.eq_none_iff_forall_ne_some.mpr fun e he => ?_
  have hvalue := (Envelope.ofDocument?_eq_some_iff.mp he).2
  rw [Json.ofDocument?, if_neg (by decide), Option.isSome_map, isSome_ofMembers?_iff] at hvalue
  exact h (hvalue (some "x", more.document) (by simp [Json.memberDocuments])).2

/-- A value that is nested as deeply as a value may be is too deep inside of a message. -/
theorem a_member_can_be_too_deep :
    Envelope.ofBytes? enquiry.toBytes = some enquiry ∧ Written (.object enquiry.members) enquiry.toBytes ∧
      (Json.ofBytes? (nested 126).toBytes).isSome = true ∧
      Restyled (Envelope.shape enquiry.command.name) (.object enquiry.members) (overgrown (nested 126)).document ∧
      Written (overgrown (nested 126)).document (overgrown (nested 126)).toBytes ∧
      Envelope.ofBytes? (overgrown (nested 126)).toBytes = none := by
  have written := Json.written_toBytes (integral_overgrown (integral_nested 126))
  have deep : ¬ (Json.ofDocument? (Json.levels - 1) (nested 126).document).isSome = true := by
    rw [isSome_ofDocument?_nested]
    decide
  exact ⟨enquiry.ofBytes?_toBytes, Document.ofBytes?_eq_some_iff.mp enquiry.ofBytes?_members,
    (isSome_ofBytes?_nested 126).mpr (by decide), restyled_overgrown _, written,
    (Envelope.ofBytes?_of_written written).trans (ofDocument?_overgrown deep)⟩

end Placement.Registry
