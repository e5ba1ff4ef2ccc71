import Mathlib.Data.List.Nodup
import Placement.Proofs.Lexemes
import Placement.Store.Redis.Reply

/-!
Replies and what is read from them.

How a client library reads the replies of a server is not for a node to say, so what a node relies on is listed here:
plain replies are read for what they say, and two counts item by item. The readers of the usual library are such.

- `Dict.ofList_perm`: the fields of a record may be listed in any order.
- `Readers.usual_faithful`, `Readers.usual_itemwise`: the usual library.
-/

namespace Placement

theorem Utf8.decode?_toUTF8 (t : String) : decode? t.toUTF8 = some t := by
  have hall (cs : List Char) : (cs.map some).mapM id = some cs := by
    rw [List.mapM_map]
    exact List.mapM_pure.trans (congrArg some (List.map_id cs))
  rw [decode?, symbols_toUTF8, hall]
  exact congrArg some (String.ofList_toList ..)

/-- Pairs with different keys make one dictionary, in whatever order they come. -/
theorem Dict.ofList_perm {β : Type} {l m : List (String × β)} (hperm : l.Perm m) (hkeys : (l.map (·.1)).Nodup) :
    ofList l = ofList m := by
  refine hperm.foldl_eq' (fun a ha b hb d => ?_) empty
  by_cases he : a.1 = b.1
  · rw [List.inj_on_of_nodup_map hkeys ha hb he]
  · exact d.insert_comm he a.2 b.2

namespace Store.Redis

namespace Readers

/-- Plain replies are read for what they say. -/
structure Faithful (r : Readers) : Prop where
  done : r.done (.status "OK") = .ok ()
  count : ∀ {n : Nat}, n < Word.values64 → r.count (.int n) = .ok n
  truth : ∀ b : Bool, r.truth (.int b.toNat) = .ok b
  texts : ∀ ts, r.texts (.ofTexts ts) = .ok ts
  values : ∀ ts, r.values (.ofValues ts) = .ok ts
  record : ∀ fields : List (String × String), (fields.map (·.1)).Nodup →
    r.record (.ofFields fields) = .ok (Dict.ofList fields)
  counts : ∀ {a b : Nat}, a < Word.values64 → b < Word.values64 →
    r.counts? (.array [.int a, .int b]) = .ok (some (a, b))

/-- Two counts are read from a reply of two items, each for itself. -/
def Itemwise (r : Readers) : Prop :=
  ∀ {reply : Reply} {m n : Nat}, r.counts? reply = .ok (some (m, n)) →
    ∃ a b, reply = .array [a, b] ∧ r.count a = .ok m ∧ r.count b = .ok n

namespace Faithful

variable {r : Readers}

theorem truth_bool (h : r.Faithful) (b : Bool) : r.truth (.int (if b then 1 else 0)) = .ok b := by
  cases b with
  | false => exact h.truth false
  | true => exact h.truth true

theorem count_bool (h : r.Faithful) (b : Bool) : r.count (.int (if b then 1 else 0)) = .ok b.toNat := by
  cases b <;> exact h.count (by decide)

theorem counts_bool (h : r.Faithful) (b b' : Bool) :
    r.counts? (.array [.int (if b then 1 else 0), .int (if b' then 1 else 0)]) = .ok (some (b.toNat, b'.toNat)) := by
  cases b <;> cases b' <;> exact h.counts (by decide) (by decide)

end Faithful

end Readers

namespace Reply

theorem faultIn?_eq_none {items : List Reply} : faultIn? items = none ↔ ∀ r ∈ items, r.fault? = none := by
  induction items with
  | nil => simp [faultIn?]
  | cons r rest ih => simp [faultIn?, ih]

variable {α : Type} {read : Reply → Except String α}

theorem unlessError_of_fault? {r : Reply} (h : r.fault? = none) : unlessError read r = read r := by
  rw [unlessError, h]

theorem unlessError_ok {r : Reply} {a : α} (h : unlessError read r = .ok a) : r.fault? = none ∧ read r = .ok a := by
  unfold unlessError at h
  cases hf : r.fault? with
  | none =>
    rw [hf] at h
    exact ⟨rfl, h⟩
  | some words =>
    rw [hf] at h
    cases h

theorem unlessError_array {items : List Reply} (h : ∀ r ∈ items, r.fault? = none) :
    unlessError read (.array items) = read (.array items) :=
  unlessError_of_fault? (faultIn?_eq_none.2 h)

theorem text_ofText (t : String) : (ofText t).text = .ok t := by
  rw [text, ofText, spelled?, Option.map_some, Utf8.decode?_toUTF8]

theorem text?_ofValue (t : Option String) : text? ((t.map ofText).getD nil) = .ok t := by
  cases t with
  | none => rfl
  | some t =>
    show (ofText t).text.map some = _
    rw [text_ofText]
    rfl

/-- Items that are read for what they are made of. -/
theorem mapM_made {make : α → Reply} (h : ∀ a, read (make a) = .ok a) (l : List α) : (l.map make).mapM read = .ok l := by
  rw [List.mapM_map, show read ∘ make = pure from funext h]
  exact List.mapM_pure.trans (congrArg Except.ok (List.map_id l))

theorem texts_ofTexts (ts : List String) : (ofTexts ts).texts = .ok ts := mapM_made text_ofText ts

theorem values_ofValues (ts : List (Option String)) : (ofValues ts).values = .ok ts := mapM_made text?_ofValue ts

theorem pairs_ofFields (fields : List (String × String)) :
    pairs (fields.flatMap fun (name, value) => [ofText name, ofText value]) = .ok fields := by
  induction fields with
  | nil => rfl
  | cons e rest ih =>
    show (do return (← (ofText e.1).text, ← (ofText e.2).text) :: (← pairs (rest.flatMap _)) : Except _ _) = _
    rw [text_ofText, text_ofText, ih]
    rfl

theorem count_int {n : Nat} (h : n < Word.values64) : (Reply.int n).count = .ok n := by
  show Except.ok ((n : Int) % (Word.values64 : Int)).toNat = _
  congr 1
  simp only [Word.values64] at h ⊢
  omega

end Reply

namespace Readers

open Reply

theorem usual_faithful : usual.Faithful where
  done := rfl
  count h := count_int h
  truth b := by cases b <;> rfl
  texts ts := by
    refine (unlessError_array fun r hr => ?_).trans (texts_ofTexts ts)
    obtain ⟨t, -, rfl⟩ := List.mem_map.1 hr
    rfl
  values ts := by
    refine (unlessError_array fun r hr => ?_).trans (values_ofValues ts)
    obtain ⟨t, -, rfl⟩ := List.mem_map.1 hr
    cases t <;> rfl
  record fields _ := by
    refine (unlessError_array fun r hr => ?_).trans ?_
    · obtain ⟨e, -, he⟩ := List.mem_flatMap.1 hr
      rcases List.mem_cons.1 he with rfl | he
      · rfl
      · rw [List.mem_singleton.1 he]
        rfl
    · rw [Reply.record, pairs_ofFields]
      rfl
  counts ha hb := by
    show (do return some (← (Reply.int _).count, ← (Reply.int _).count) : Except _ _) = _
    rw [count_int ha, count_int hb]
    rfl

theorem usual_itemwise : usual.Itemwise := by
  intro reply m n hread
  obtain ⟨hf, h⟩ := unlessError_ok hread
  clear hread
  unfold Reply.counts? at h
  split at h
  · cases h
  · rename_i a b
    have sound := faultIn?_eq_none.1 hf
    have ha : unlessError Reply.count a = a.count := unlessError_of_fault? (sound a (by simp))
    have hb : unlessError Reply.count b = b.count := unlessError_of_fault? (sound b (by simp))
    refine ⟨a, b, rfl, ?_⟩
    show unlessError Reply.count a = _ ∧ unlessError Reply.count b = _
    rw [ha, hb]
    cases hca : a.count with
    | error fault =>
      rw [hca] at h
      cases h
    | ok x =>
      cases hcb : b.count with
      | error fault =>
        rw [hca, hcb] at h
        cases h
      | ok y =>
        rw [hca, hcb] at h
        cases h
        exact ⟨rfl, rfl⟩
  · cases h

end Readers

end Store.Redis

end Placement
