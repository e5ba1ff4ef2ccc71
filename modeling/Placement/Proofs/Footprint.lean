import Placement.Coordinator
import Placement.Proofs.Program

/-!
What each operation asks for.

A kind of programs that is closed over an operation's calls has the operation in it. Choosing a node and reads only
look. Reading from the place that the registry names is a premise of its own there, for kinds that its calls are not of
when taken singly; `Closed.readLocated` gives it for all others. Walks over the nodes and fan-outs need one more call
each: `Closed.deleteFirst`, `Closed.flushAll`, `Closed.closeAll`. Reads that tell an observer, and scans, are in
relations that permit telling: `Permits.read`, `Permits.scan`.
-/

namespace Placement

/-- Calls that leave records and index as they are. -/
def Store.Call.looks : Store.Call → Bool
  | .fetch .. | .fetchFields .. | .holds .. | .indexRange .. | .count => true
  | _ => false

def Store.Call.sparesRecords : Store.Call → Bool
  | .write .. | .remove .. | .removeIndexed .. | .flush => false
  | _ => true

theorem Store.Call.ne_close_of_looks {call : Store.Call} (h : call.looks = true) : call ≠ .close := by
  rintro rfl
  cases h

/-- Calls that take a write back. -/
def Store.Call.takesBack : Store.Call → Prop
  | .remove _ => True
  | _ => False

def Registry.Call.looks : Registry.Call → Bool
  | .locate .. | .release .. | .suggest .. => true
  | _ => false

namespace Cluster.Closed

variable {ν ρ α : Type} [Store ν] [Registry ρ] {K : ∀ {α : Type}, Op ν ρ α → Prop} {P : Store.Call → Prop}
  {P' : Registry.Call → Prop}

/-! ## Fan-outs -/

theorem collect (hK : Closed @K P P') {task : NodeId → Op ν ρ α} (h : ∀ node, K (task node))
    (gathered : FanOut α) (nodes : List NodeId) : K (FanOut.collect task gathered nodes) := by
  induction nodes generalizing gathered with
  | nil => exact hK.pure _
  | cons node rest ih => exact hK.bind (hK.attempt (h node)) fun outcome => ih (gathered.record node outcome)

theorem onEveryNode (hK : Closed @K P P') {task : NodeId → Op ν ρ α} (h : ∀ node, K (task node)) :
    K (onEveryNode task) :=
  hK.bind hK.ids fun ids => hK.collect h {} ids

theorem flushAll (hK : Closed @K P P') (flush : P .flush) (thenClose : Bool) (close : thenClose = true → P .close) :
    K (flushAll thenClose : Op ν ρ Unit) := by
  refine hK.bind (hK.onEveryNode fun node => ?_) fun gathered => hK.bind (hK.lift _) fun _ => hK.pure _
  refine hK.bind (hK.ask node .flush flush) fun _ => ?_
  cases thenClose with
  | false => exact hK.pure _
  | true => exact hK.ask node .close (close rfl)

theorem closeAll (hK : Closed @K P P') (close : P .close) : K (closeAll : Op ν ρ Unit) :=
  hK.bind (hK.onEveryNode fun node => hK.ask node .close close) fun _ => hK.bind (hK.lift _) fun _ => hK.pure _

/-! ## Choosing a node -/

theorem counts (hK : Closed @K P P') (count : P .count) : K (counts : Op ν ρ (FanOut Nat)) :=
  hK.onEveryNode fun node => hK.ask node .count count

theorem leastLoaded (hK : Closed @K P P') (count : P .count) : K (leastLoaded : Op ν ρ NodeId) := by
  refine hK.bind (hK.counts count) fun counted => hK.bind hK.ids fun ids => ?_
  split
  · exact hK.pure _
  · exact hK.throw _

theorem suggested (hK : Closed @K P P') (suggest : ∀ nodes, P' (.suggest nodes)) :
    K (suggested : Op ν ρ NodeId) := by
  refine hK.bind hK.ids fun ids => hK.bind (hK.consult _ (suggest ids)) fun node => ?_
  refine hK.bind (hK.contains node) fun known => ?_
  split
  · exact hK.pure _
  · exact hK.throw _

theorem choose (hK : Closed @K P P') (count : P .count) (suggest : ∀ nodes, P' (.suggest nodes)) (how : Selection) :
    K (choose how : Op ν ρ NodeId) := by
  refine hK.bind hK.ids fun ids => ?_
  have unlessEmpty : ∀ {op : Op ν ρ NodeId}, K op → K
      (do
        if ids.isEmpty then MonadExcept.throw Fault.noNodesAvailable
        op) := by
    intro op h
    dsimp only
    split
    · exact hK.bind (hK.throw _) fun _ => h
    · exact h
  cases how with
  | random => exact unlessEmpty (hK.bind (hK.draw _) fun _ => hK.pure _)
  | leastLoaded => exact unlessEmpty (hK.leastLoaded count)
  | registry => exact unlessEmpty (hK.suggested suggest)

/-! ## Reading -/

section Reading

variable (looks : ∀ call : Store.Call, call.looks = true → P call)
include looks

theorem fetch (hK : Closed @K P P') (node : NodeId) (key : String) (names : Option (List String)) :
    K (fetch node key names : Op ν ρ Record) := by
  unfold Cluster.fetch
  split
  · exact hK.ask _ _ (looks _ rfl)
  · exact hK.ask _ _ (looks _ rfl)

theorem readLocated (hK : Closed @K P P') (locate : ∀ key, P' (.locate key)) (release : ∀ node, P' (.release node))
    (key : String) (names : Option (List String)) : K (readLocated key names : Op ν ρ (Option Found)) := by
  refine hK.bind (hK.consult _ (locate key)) fun location => ?_
  cases location with
  | none => exact hK.pure _
  | some location =>
    have fetched : K
        (if location.present then Cluster.fetch location.node key names else Pure.pure Dict.empty : Op ν ρ Record) := by
      split
      · exact hK.fetch looks _ _ _
      · exact hK.pure _
    refine hK.bind (hK.attempt fetched) fun fetched => ?_
    refine hK.bind (hK.attempt (hK.consult _ (release location.node))) fun released => ?_
    exact hK.bind (hK.lift _) fun _ => hK.bind (hK.lift _) fun _ => hK.pure _

theorem readFirst (hK : Closed @K P P') (key : String) (names : Option (List String))
    (failures : List (NodeId × Fault)) (nodes : List NodeId) :
    K (readFirst key names failures nodes : Op ν ρ (Option Found)) := by
  induction nodes generalizing failures with
  | nil => exact hK.unlessFailed _ _
  | cons node rest ih =>
    refine hK.bind (hK.attempt (hK.fetch looks node key names)) fun fetched => ?_
    cases fetched with
    | error fault => exact ih _
    | ok record =>
      dsimp only
      split
      · exact ih _
      · exact hK.pure _

theorem readQuietly (hK : Closed @K P P') {key : String} {names : Option (List String)}
    (located : K (Cluster.readLocated key names : Op ν ρ (Option Found))) :
    K (readQuietly key names : Op ν ρ (Option Found)) := by
  refine hK.bind hK.hasRegistry fun registered => ?_
  split
  · exact located
  · exact hK.bind hK.ids fun ids => hK.readFirst looks key names [] ids

end Reading

/-! ## Operations that change records -/

theorem takeBack (hK : Closed @K P P') (node : NodeId) (key : String) (remove : P (.remove key)) :
    K (takeBack node key : Op ν ρ Unit) :=
  hK.bind (hK.attempt (hK.ask node _ remove)) fun _ => hK.pure _

theorem writeNew (hK : Closed @K P P') (node : NodeId) (key : String) (fields : Record)
    (write : P (.write key fields)) : K (writeNew node key fields : Op ν ρ Unit) := by
  refine hK.bind (hK.ask node _ write) fun written => ?_
  split
  · exact hK.throw _
  · exact hK.pure _

theorem confirm (hK : Closed @K P P') (node : NodeId) (key : String) (place : P' (.place node key))
    (remove : P (.remove key)) : K (confirm node key : Op ν ρ Unit) := by
  refine hK.bind hK.hasRegistry fun registered => ?_
  cases registered with
  | false => exact hK.pure _
  | true =>
    refine hK.bind (hK.attempt (hK.consult _ place)) fun outcome => ?_
    rcases outcome with fault | _ | _
    · exact hK.bind (hK.takeBack node key remove) fun _ => hK.throw _
    · exact hK.bind (hK.takeBack node key remove) fun _ => hK.throw _
    · exact hK.pure _

theorem enter (hK : Closed @K P P') (node : NodeId) (key : String) (index : P (.indexAdd (KeyHash.score key) key))
    (withdraw : P' (.withdraw node key)) (remove : P (.remove key)) : K (enter node key : Op ν ρ Unit) := by
  refine hK.bind (hK.attempt (hK.ask node _ index)) fun outcome => ?_
  cases outcome with
  | ok => exact hK.pure _
  | error fault =>
    have undone := hK.bind (hK.takeBack node key remove) fun _ => hK.throw (α := Unit) fault
    refine hK.bind hK.hasRegistry fun registered => ?_
    cases registered with
    | false => exact undone
    | true => exact hK.bind (hK.attempt (hK.consult _ withdraw)) fun _ => undone

theorem insert (hK : Closed @K P P') (count : P .count) (suggest : ∀ nodes, P' (.suggest nodes)) (how : Selection)
    (key : String) (fields : Record) (write : P (.write key fields)) (place : ∀ node, P' (.place node key))
    (index : P (.indexAdd (KeyHash.score key) key)) (withdraw : ∀ node, P' (.withdraw node key))
    (remove : P (.remove key)) : K (insert how key fields : Op ν ρ NodeId) := by
  unfold Cluster.insert
  split
  · exact hK.throw _
  · refine hK.bind (hK.choose count suggest how) fun node => ?_
    refine hK.bind (hK.writeNew node key fields write) fun _ => ?_
    refine hK.bind (hK.confirm node key (place node) remove) fun _ => ?_
    exact hK.bind (hK.enter node key index (withdraw node) remove) fun _ => hK.pure _

theorem updateFirst (hK : Closed @K P P') (key : String) (fields : Record) (holds : P (.holds key))
    (write : P (.write key fields)) (failures : List (NodeId × Fault)) (nodes : List NodeId) :
    K (updateFirst key fields failures nodes : Op ν ρ (Option NodeId)) := by
  induction nodes generalizing failures with
  | nil => exact hK.unlessFailed _ _
  | cons node rest ih =>
    refine hK.bind (hK.attempt (hK.ask node _ holds)) fun outcome => ?_
    rcases outcome with fault | _ | _
    · exact ih _
    · exact ih _
    · exact hK.bind (hK.ask node _ write) fun _ => hK.pure _

theorem update (hK : Closed @K P P') (key : String) (fields : Record) (holds : P (.holds key))
    (write : P (.write key fields)) : K (update key fields : Op ν ρ (Option NodeId)) :=
  hK.bind hK.ids fun ids => hK.updateFirst key fields holds write [] ids

theorem deleteFirst (hK : Closed @K P P') (key : String) (drop : P (.removeIndexed key))
    (failures : List (NodeId × Fault)) (nodes : List NodeId) :
    K (deleteFirst key failures nodes : Op ν ρ (Option NodeId)) := by
  induction nodes generalizing failures with
  | nil => exact hK.unlessFailed _ _
  | cons node rest ih =>
    refine hK.bind (hK.attempt (hK.ask node _ drop)) fun outcome => ?_
    rcases outcome with fault | _ | _
    · exact ih _
    · exact ih _
    · exact hK.pure _

theorem delete (hK : Closed @K P P') (key : String) (drop : P (.removeIndexed key))
    (withdraw : ∀ node, P' (.withdraw node key)) : K (delete key : Op ν ρ (Option NodeId)) := by
  refine hK.bind hK.ids fun ids => hK.bind (hK.deleteFirst key drop [] ids) fun deleted => ?_
  cases deleted with
  | none => exact hK.pure _
  | some node =>
    refine hK.bind hK.hasRegistry fun registered => ?_
    cases registered with
    | false => exact hK.pure _
    | true => exact hK.bind (hK.consult _ (withdraw node)) fun _ => hK.pure _

end Cluster.Closed

/-! ## Reading with an observer -/

namespace Cluster.Permits

variable {ν ρ : Type} [Store ν] [Registry ρ] {R : Cluster ν ρ → Cluster ν ρ → Prop} {P : Store.Call → Prop}
  {P' : Registry.Call → Prop} (looks : ∀ call : Store.Call, call.looks = true → P call)
  (located : ∀ key names, Within R (Cluster.readLocated key names : Op ν ρ (Option Found)))
include looks located

theorem read (hR : Permits R P P') (key : String) (names : Option (List String)) :
    Within R (read key names : Op ν ρ (Option Found)) :=
  hR.bind (hR.attempt (hR.readQuietly looks (located key names))) fun _ => hR.bind (hR.report _) fun _ => hR.lift _

theorem scanKeys (hR : Permits R P P') (node : NodeId) (names : Option (List String)) (s : Scanned)
    (keys : List String) : Within R (scanKeys node names s keys : Op ν ρ Scanned) := by
  induction keys generalizing s with
  | nil => exact hR.pure _
  | cons key rest ih =>
    refine hR.bind (hR.attempt (hR.read looks located key names)) fun outcome => ?_
    rcases outcome with fault | found | found
    · exact hR.pure _
    · exact ih _
    · exact ih _

theorem scanNodes (hR : Permits R P P') (min : Score) (count : Nat) (names : Option (List String)) (s : Scanned)
    (nodes : List NodeId) : Within R (scanNodes min count names s nodes : Op ν ρ Scanned) := by
  induction nodes generalizing s with
  | nil => exact hR.pure _
  | cons node rest ih =>
    refine hR.bind (hR.attempt (hR.ask node _ (looks _ rfl))) fun outcome => ?_
    cases outcome with
    | error fault => exact ih _
    | ok keys => exact hR.bind (hR.scanKeys looks located node names s keys) fun s => ih s

theorem scan (hR : Permits R P P') (start : String) (count : Nat) (names : Option (List String)) :
    Within R (scan start count names : Op ν ρ (List Record)) :=
  hR.bind hR.ids fun _ => hR.bind (hR.scanNodes looks located _ _ _ _ _) fun _ => hR.unlessFailed _ _

end Cluster.Permits

end Placement
