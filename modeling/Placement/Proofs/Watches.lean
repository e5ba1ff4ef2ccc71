import Placement.Proofs.Refusal
import Placement.Proofs.Replies
import Placement.Store.Redis.Keyspace

/-!
The connection for transactions.

A watch on a key lasts until a transaction on its connection is answered. A watch that was left over would make a
later transaction void for no reason, so a connection is kept only after an answer and dropped after anything else.
Nothing is assumed of the server: it may refuse connections, break them, be silent or answer anything, at every step,
and nothing of how its replies are read.

- `concluded_of_last`, `Concluded.append`: an answered transaction concludes all watches before it, and what is sent
  between transactions watches nothing.
- `removeIndexed_ends`: one removal, and the two exchanges it ends with.
- `Orderly.perform`: what one call keeps.
- `watches_conclude`: all calls, failed removals, and a node that is given up.
-/

namespace Placement.Store.Redis

/-! ## Watches -/

def Exchange.Watches (e : Exchange) : Prop := ∃ key, .watch key ∈ e.commands

/-- A transaction is committed and answered, by its counts or by nothing where the watch made it void. -/
def Exchange.Concludes (r : Readers) (e : Exchange) : Prop :=
  .commit ∈ e.commands ∧ ∃ reply counts, e.delivery = .reply reply ∧ r.counts? reply = .ok counts

/-- After every watch that went over the connection there was an answered transaction. -/
def Concluded (r : Readers) (connection : Nat) (log : List Exchange) : Prop :=
  ∀ (i : Nat) (e : Exchange), log[i]? = some e → e.connection = connection → e.Watches →
    ∃ (j : Nat) (e' : Exchange), i < j ∧ log[j]? = some e' ∧ e'.connection = connection ∧ e'.Concludes r

variable {r : Readers}

theorem Concluded.append {connection : Nat} {log sent : List Exchange} (h : Concluded r connection log)
    (hsent : ∀ e ∈ sent, ¬ e.Watches) : Concluded r connection (log ++ sent) := by
  intro i e hi hc hw
  by_cases hold : i < log.length
  · rw [List.getElem?_append_left hold] at hi
    obtain ⟨j, e', hij, hj, he'⟩ := h i e hi hc hw
    have hlt := (List.getElem?_eq_some_iff.1 hj).1
    exact ⟨j, e', hij, (List.getElem?_append_left hlt).trans hj, he'⟩
  · rw [List.getElem?_append_right (Nat.le_of_not_lt hold)] at hi
    exact absurd hw (hsent e (List.mem_of_getElem? hi))

/-- An answered transaction concludes whatever was watched before. -/
theorem concluded_of_last {e : Exchange} (hw : ¬ e.Watches) (hc : e.Concludes r) (log : List Exchange) :
    Concluded r e.connection (log ++ [e]) := by
  intro i e' hi _ hw'
  have hlast : (log ++ [e])[log.length]? = some e := List.getElem?_concat_length
  rcases Nat.lt_trichotomy i log.length with hlt | rfl | hgt
  · exact ⟨log.length, e, hlt, hlast, rfl, hc⟩
  · rw [hlast] at hi
    cases hi
    exact absurd hw' hw
  · have hbound := (List.getElem?_eq_some_iff.1 hi).1
    rw [List.length_append, List.length_singleton] at hbound
    omega

theorem removal_watches_nothing (key other : String) : .watch other ∉ Command.removal key := by simp [Command.removal]

theorem Node.foundBoth_iff {counts : Option (Nat × Nat)} :
    foundBoth counts = true ↔ ∃ records entries, counts = some (records, entries) ∧ 0 < records ∧ 0 < entries := by
  rcases counts with _ | ⟨records, entries⟩ <;> simp [foundBoth]

def Link.InUse (l : Link) : Prop := ∃ connection, l = .open connection

namespace Node

variable {σ α : Type} [Server σ] {n n' n'' : Node σ}

/-! ## Between transactions -/

/-- Nothing was watched on the way, and the connection for transactions is the same. -/
structure Quiet (n n' : Node σ) : Prop where
  sent : ∃ sent, n'.log = n.log ++ sent ∧ ∀ e ∈ sent, ¬ e.Watches
  transaction : n'.transaction = n.transaction
  link : n'.link = n.link ∨ n'.link.InUse

omit [Server σ] in
theorem Quiet.refl (n : Node σ) : Quiet n n := ⟨⟨[], by simp⟩, rfl, .inl rfl⟩

omit [Server σ] in
theorem Quiet.trans (h : Quiet n n') (h' : Quiet n' n'') : Quiet n n'' := by
  obtain ⟨sent, hlog, hw⟩ := h.sent
  obtain ⟨sent', hlog', hw'⟩ := h'.sent
  refine ⟨⟨sent ++ sent', by rw [hlog', hlog, List.append_assoc], fun e he => ?_⟩,
    h'.transaction.trans h.transaction, ?_⟩
  · rcases List.mem_append.1 he with he | he
    · exact hw e he
    · exact hw' e he
  · rcases h'.link with hl | hl
    · rw [hl]
      exact h.link
    · exact .inr hl

/-- No watch is pending on the connection for transactions, and none is kept while the node has no other. -/
structure Orderly (n : Node σ) : Prop where
  concluded : ∀ connection, n.transaction = some connection → Concluded (Server.readers σ) connection n.log
  unused : ¬ n.link.InUse → n.transaction = none

theorem Orderly.of_none (h : n.transaction = none) : Orderly n where
  concluded connection hslot := by rw [h] at hslot; cases hslot
  unused _ := h

theorem Orderly.quiet (h : Orderly n) (hq : Quiet n n') : Orderly n' where
  concluded connection hslot := by
    obtain ⟨sent, hlog, hw⟩ := hq.sent
    rw [hq.transaction] at hslot
    rw [hlog]
    exact (h.concluded connection hslot).append hw
  unused hu := by
    rcases hq.link with hl | hl
    · rw [hl] at hu
      exact hq.transaction.trans (h.unused hu)
    · exact absurd hl hu

/-- An exchange goes into the log. -/
theorem exchange_logged {connection : Nat} {commands : List Command} {delivery : Delivery}
    (h : n.exchange connection commands = (delivery, n')) :
    n'.log = n.log ++ [⟨connection, commands, delivery⟩] ∧ n'.transaction = n.transaction ∧ n'.link = n.link := by
  obtain ⟨rfl, rfl⟩ := Prod.mk.inj h
  exact ⟨rfl, rfl, rfl⟩

/-- The shared connection is there once it is ready, and was not there if it cannot be. Nothing is sent for it. -/
theorem ready_quiet (n : Node σ) :
    n.ready.2.log = n.log ∧ n.ready.2.transaction = n.transaction ∧
      match n.ready.1 with
      | .ok connection => n.ready.2.link = .open connection
      | .error _ => n.ready.2.link = n.link ∧ ¬ n.link.InUse := by
  have unused : ∀ {l : Link}, (∀ connection, l ≠ .open connection) → ¬ l.InUse := fun h ⟨connection, hl⟩ =>
    h connection hl
  unfold ready
  cases hl : n.link with
  | closed => exact ⟨rfl, rfl, hl, unused (by simp)⟩
  | «open» connection => exact ⟨rfl, rfl, hl⟩
  | idle =>
    rcases Server.openShared n.endpoint n.patience n.server with ⟨connection | detail | _, server⟩
    · exact ⟨rfl, rfl, rfl⟩
    · exact ⟨rfl, rfl, rfl, unused (by simp)⟩
    · exact ⟨rfl, rfl, rfl, unused (by simp)⟩

theorem call_quiet (name : String) {c : Command} (hc : ∀ key, c ≠ .watch key) (read : Reply → Except String α)
    (n : Node σ) : Quiet n (n.call name c read).2 := by
  obtain ⟨hlog, hslot, hlink⟩ := ready_quiet n
  unfold call
  rcases hr : n.ready with ⟨fault | connection, n₁⟩ <;> rw [hr] at hlog hslot hlink
  · exact ⟨⟨[], by simpa using hlog⟩, hslot, .inl hlink.1⟩
  · refine ⟨⟨[⟨connection, [c], (n₁.exchange connection [c]).1⟩], by rw [← hlog]; rfl, fun e he => ?_⟩, hslot,
      .inr ⟨connection, hlink⟩⟩
    obtain rfl := List.mem_singleton.1 he
    exact fun ⟨key, hkey⟩ => hc key (List.mem_singleton.1 hkey).symm

/-- All calls but removals and closing. -/
theorem perform_quiet {call : Call} (hr : ∀ key, call ≠ .removeIndexed key) (hc : call ≠ .close) (n : Node σ) :
    Quiet n (Store.perform call n).2 := by
  show Quiet n (perform call n).2
  cases call with
  | close => exact absurd rfl hc
  | removeIndexed key => exact absurd rfl (hr key)
  | write _ _ | fetchFields _ _ | indexRange _ _ =>
    simp only [perform]
    split
    · exact .refl n
    · exact call_quiet _ (by simp) _ n
  | _ => exact call_quiet _ (by simp) _ n

/-! ## Removals -/

/-- Nothing is sent for the connection for transactions, and it is kept once it is open. -/
theorem transactionReady_keeps (n : Node σ) :
    n.transactionReady.2.log = n.log ∧ n.transactionReady.2.link = n.link ∧
      match n.transactionReady.1 with
      | .ok connection => n.transactionReady.2.transaction = some connection
      | .error _ => n.transactionReady.2.transaction = none := by
  unfold transactionReady
  cases ht : n.transaction with
  | some connection => exact ⟨rfl, rfl, ht⟩
  | none =>
    rcases Server.openOwn n.endpoint n.patience n.server with ⟨connection | detail | _, server⟩
    · exact ⟨rfl, rfl, rfl⟩
    · exact ⟨rfl, rfl, rfl⟩
    · exact ⟨rfl, rfl, rfl⟩

def removalExchanges (key : String) (connection : Nat) (watched answered : Reply) : List Exchange :=
  [⟨connection, [.watch key], .reply watched⟩, ⟨connection, Command.removal key, .reply answered⟩]

omit [Server σ] in
theorem outcome_ok {name : String} {read : Reply → Except String α} {delivery : Delivery} {a : α}
    (h : n.outcome name read delivery = .ok a) : ∃ r, delivery = .reply r ∧ read r = .ok a := by
  cases delivery with
  | silent => cases h
  | failed detail => cases h
  | reply r =>
    refine ⟨r, rfl, ?_⟩
    change (read r).mapError Fault.redis = .ok a at h
    cases hread : read r with
    | ok b =>
      rw [hread] at h
      exact congrArg Except.ok (Except.ok.inj h)
    | error detail =>
      rw [hread] at h
      cases h

/-- A removal that came to something ended with the reply to its transaction. -/
theorem watchedRemove_ok {key : String} {connection : Nat} {counts : Option (Nat × Nat)}
    (h : n.watchedRemove key connection = (.ok counts, n')) :
    ∃ watched answered, n'.log = n.log ++ removalExchanges key connection watched answered ∧
      (Server.readers σ).counts? answered = .ok counts ∧ n'.transaction = n.transaction ∧ n'.link = n.link := by
  unfold watchedRemove at h
  rcases hw : n.exchange connection [.watch key] with ⟨delivery, n₁⟩
  rcases hc : n₁.exchange connection (Command.removal key) with ⟨delivery', n₂⟩
  obtain ⟨hlog₁, ht₁, hl₁⟩ := exchange_logged hw
  obtain ⟨hlog₂, ht₂, hl₂⟩ := exchange_logged hc
  simp only [hw] at h
  split at h
  · cases h
  rename_i hdone
  simp only [hc] at h
  obtain ⟨houtcome, rfl⟩ := Prod.mk.inj h
  obtain ⟨watched, rfl, -⟩ := outcome_ok hdone
  obtain ⟨answered, rfl, hcounts⟩ := outcome_ok houtcome
  refine ⟨watched, answered, ?_, hcounts, ht₂.trans ht₁, hl₂.trans hl₁⟩
  rw [hlog₂, hlog₁, List.append_assoc]
  rfl

/-- A removal that came to something ended with its two exchanges, on the connection that is kept. One that failed keeps
none. -/
theorem removeIndexed_ends (hunused : ¬ n.link.InUse → n.transaction = none) (key : String) :
    (∀ both, (n.removeIndexed key).1 = .ok both →
      ∃ connection watched answered counts,
        (n.removeIndexed key).2.log = n.log ++ removalExchanges key connection watched answered ∧
        (n.removeIndexed key).2.transaction = some connection ∧ (n.removeIndexed key).2.link.InUse ∧
        (Server.readers σ).counts? answered = .ok counts ∧ both = foundBoth counts) ∧
    ∀ fault, (n.removeIndexed key).1 = .error fault → (n.removeIndexed key).2.transaction = none := by
  obtain ⟨hlog₁, hslot₁, hlink₁⟩ := ready_quiet n
  unfold removeIndexed
  rcases hr : n.ready with ⟨fault | shared, n₁⟩ <;> rw [hr] at hlog₁ hslot₁ hlink₁
  · exact ⟨by simp, fun _ _ => hslot₁.trans (hunused hlink₁.2)⟩
  obtain ⟨hlog₂, hlink₂, hslot₂⟩ := transactionReady_keeps n₁
  rcases ht : n₁.transactionReady with ⟨fault | connection, n₂⟩ <;> rw [ht] at hlog₂ hlink₂ hslot₂
  · exact ⟨by simp [ht], fun _ _ => by simp only [ht]; exact hslot₂⟩
  -- from here on the watch is sent, so a failure has to drop the connection
  rcases hw : n₂.watchedRemove key connection with ⟨fault | counts, n₃⟩
  · exact ⟨by simp [ht, hw], fun _ _ => by simp only [ht, hw]⟩
  obtain ⟨watched, answered, hlog₃, hcounts, hslot₃, hlink₃⟩ := watchedRemove_ok hw
  simp only [ht, hw]
  refine ⟨fun both hboth => ⟨connection, watched, answered, counts, ?_, hslot₃.trans hslot₂, ?_, hcounts, ?_⟩, by simp⟩
  · rw [hlog₃, hlog₂, hlog₁]
  · exact ⟨shared, hlink₃.trans (hlink₂.trans hlink₁)⟩
  · exact (Except.ok.inj hboth).symm

/-! ## Calls -/

theorem Orderly.perform (h : Orderly n) (call : Call) : Orderly (Store.perform call n).2 := by
  by_cases hclose : call = .close
  · subst hclose
    exact .of_none rfl
  by_cases hremove : ∃ key, call = .removeIndexed key
  · obtain ⟨key, rfl⟩ := hremove
    show Orderly (n.removeIndexed key).2
    obtain ⟨removed, failed⟩ := removeIndexed_ends h.unused key
    rcases hr : n.removeIndexed key with ⟨fault | both, n'⟩
    · rw [hr] at failed
      exact .of_none (failed fault rfl)
    · rw [hr] at removed
      obtain ⟨connection, watched, answered, counts, hlog, hslot, hu, hcounts, -⟩ := removed both rfl
      refine ⟨fun c hc => ?_, fun hn => absurd hu hn⟩
      obtain rfl : connection = c := Option.some.inj (hslot.symm.trans hc)
      have last := concluded_of_last (e := ⟨connection, Command.removal key, .reply answered⟩)
        (fun ⟨other, hmem⟩ => removal_watches_nothing key other hmem)
        ⟨by simp [Command.removal], answered, counts, rfl, hcounts⟩
        (n.log ++ [⟨connection, [.watch key], .reply watched⟩])
      rw [List.append_assoc] at last
      rw [hlog]
      exact last
  · exact h.quiet (perform_quiet (fun key he => hremove ⟨key, he⟩) hclose n)

theorem Orderly.performAll (h : Orderly n) (calls : List Call) : Orderly (Store.performAll calls n).2 :=
  performAll_keeps (fun call _ h => h.perform call) h calls

/-- A node that was given up stays as it is, whatever is asked of it. -/
theorem performAll_closed (hl : n.link = .closed) (ht : n.transaction = none) (calls : List Call) :
    (Store.performAll calls n).2 = n := by
  have same : ∀ call n', n' = n → (Store.perform call n').2 = n := by
    rintro call n' rfl
    rw [perform_closed_left hl]
    split
    · rw [← ht]
    · rfl
  exact performAll_keeps same rfl calls

end Node

/-- A node on any server, after any calls: no watch is pending on the connection that it keeps for transactions, if it
keeps one. A removal that fails then keeps none. Any other ends with a watch of its key and an answered transaction,
and says that record and index entry were there just if the one reply to that counts both; where counts are read item
by item, these are its two items. Once the node was closed, it keeps no connection and nothing changes any more, so
nothing is sent. -/
theorem watches_conclude {σ : Type} [Server σ] (server : σ) (endpoint : Endpoint) (patience : Nat)
    (before : List Call) :
    let readers := Server.readers σ
    let ran := performAll before ({ server, endpoint, patience } : Node σ)
    let left := ran.2
    (∀ connection, left.transaction = some connection → Concluded readers connection left.log) ∧
    (∀ key, let removed := Store.perform (.removeIndexed key) left
      (∀ fault, removed.1 = .error fault → removed.2.transaction = none) ∧
      ∀ both, removed.1 = .ok both → ∃ connection watched answered counts,
        removed.2.log = left.log ++ [⟨connection, [.watch key], .reply watched⟩,
          ⟨connection, [.begin, .delete key, .unrank key, .commit], .reply answered⟩] ∧
        readers.counts? answered = .ok counts ∧
        (both = true ↔ ∃ records entries, counts = some (records, entries) ∧ 0 < records ∧ 0 < entries) ∧
        (readers.Itemwise → both = true → ∃ a b records entries, answered = .array [a, b] ∧
          readers.count a = .ok records ∧ readers.count b = .ok entries ∧ 0 < records ∧ 0 < entries)) ∧
    (⟨.close, .ok ()⟩ ∈ ran.1 →
      left.link = .closed ∧ left.transaction = none ∧ ∀ after, (performAll after left).2 = left) := by
  intro readers ran left
  have new : Node.Orderly ({ server, endpoint, patience } : Node σ) := .of_none rfl
  have orderly : left.Orderly := new.performAll before
  refine ⟨orderly.concluded, fun key => ?_, fun hclosed => ?_⟩
  · obtain ⟨removed, failed⟩ := Node.removeIndexed_ends orderly.unused key
    refine ⟨failed, fun both hboth => ?_⟩
    obtain ⟨connection, watched, answered, counts, hlog, -, -, hcounts, rfl⟩ := removed both hboth
    refine ⟨connection, watched, answered, counts, hlog, hcounts, Node.foundBoth_iff, fun hitems hfound => ?_⟩
    obtain ⟨records, entries, rfl, hrecords, hentries⟩ := Node.foundBoth_iff.1 hfound
    obtain ⟨a, b, harray, ha, hb⟩ := hitems hcounts
    exact ⟨a, b, records, entries, harray, ha, hb, hrecords, hentries⟩
  · have closed : left.link = .closed ∧ left.transaction = none := by
      refine performAll_enters (P := fun n : Node σ => n.link = .closed ∧ n.transaction = none)
        (fun n _ => ⟨rfl, rfl⟩) (fun call n hn => ?_) hclosed
      rw [show (Store.perform call n).2 = n from Node.performAll_closed hn.1 hn.2 [call]]
      exact hn
    exact ⟨closed.1, closed.2, Node.performAll_closed closed.1 closed.2⟩

/-- The connection of a removal, the second one, is watched on, and left with no watch pending. -/
theorem a_removal_leaves_no_watch :
    let node : Node Keyspace := { server := {}, endpoint := { host := "localhost", port := 6379 }, patience := 250 }
    let left := (performAll [.write "user1" (Dict.ofList [("f", "v")]), .removeIndexed "user1"] node).2
    left.log.map (fun e => (e.connection, e.commands)) =
        [(0, [.setFields "user1" (Dict.ofList [("f", "v")])]), (1, [.watch "user1"]),
          (1, [.begin, .delete "user1", .unrank "user1", .commit])] ∧
      left.transaction = some 1 ∧ Concluded Readers.usual 1 left.log := by
  intro node left
  have hslot : left.transaction = some 1 := by decide +kernel
  refine ⟨by decide +kernel, hslot, ?_⟩
  exact (watches_conclude ({} : Keyspace) { host := "localhost", port := 6379 } 250 _).1 1 hslot

end Placement.Store.Redis
