import Mathlib.Data.List.Forall2
import Placement.Proofs.Isolation
import Placement.Proofs.Session

/-!
An observer of reads is told of each read once, and changes nothing.

A program that tells nobody does the same under any observer (`Blind`), and of all steps only a read tells. Which reads
a request makes is defined without an observer (`Request.readings`): a scan reads the keys that a node lists until a
read fails, node by node. `Reads` ties the two together: whatever the observer, a program comes to the same, and the
observer has been told of these readings.

- `serve_alike`: one request.
- `observer_sees_each_read_once`: any requests, with an observer and without.
-/

namespace Placement

structure Reading where
  key : String
  outcome : Except Fault (Option Found)

inductive Tells : Reading → Sighting → Prop
  | found (key : String) (found : Found) : Tells ⟨key, .ok (some found)⟩ ⟨some found.node, key, true⟩
  | absent (key : String) : Tells ⟨key, .ok none⟩ ⟨none, key, false⟩
  | failed (key : String) (fault : Fault) : Tells ⟨key, .error fault⟩ ⟨none, key, false⟩

def Reading.sighting (r : Reading) : Sighting := .of r.key r.outcome

theorem tells_sighting (r : Reading) : Tells r r.sighting := by
  obtain ⟨key, fault | _ | found⟩ := r
  · exact .failed key fault
  · exact .absent key
  · exact .found key found

namespace Cluster

variable {ν ρ α β : Type} {w w₁ w' : Cluster ν ρ}

def observing (w : Cluster ν ρ) (observer : Option (List Sighting)) : Cluster ν ρ := { w with observer }

/-! ## Programs that tell nobody -/

/-- Under any observer the program does the same, and the observer learns nothing. -/
def Blind (op : Op ν ρ α) : Prop := ∀ w o, run op (w.observing o) = ((run op w).1, (run op w).2.observing o)

theorem Blind.bind {op : Op ν ρ α} {f : α → Op ν ρ β} (h : Blind op) (hf : ∀ a, Blind (f a)) : Blind (op >>= f) := by
  intro w o
  rw [run_bind, run_bind, h]
  rcases run op w with ⟨fault | a, w'⟩
  · rfl
  · exact hf a w' o

theorem blind_closed [Store ν] [Registry ρ] : Closed (@Blind ν ρ) (fun _ => True) fun _ => True where
  pure _ _ _ := rfl
  throw _ _ _ := rfl
  bind := Blind.bind
  attempt h w o := by rw [run_attempt, run_attempt, h]
  ids _ _ := rfl
  hasRegistry _ _ := rfl
  contains _ _ _ := rfl
  ask node call _ w o := by
    show ask node call (w.observing o) = ((ask node call w).1, (ask node call w).2.observing o)
    simp only [ask, ExceptT.mk, observing]
    split <;> rfl
  consult call _ w o := by
    show consult call (w.observing o) = ((consult call w).1, (consult call w).2.observing o)
    simp only [consult, ExceptT.mk, observing]
    split <;> rfl
  draw _ _ _ := rfl

/-! ## Readings -/

section
variable [Store ν] [Registry ρ]

def keysRead (names : Option (List String)) : List String → Cluster ν ρ → List Reading × Cluster ν ρ
  | [], w => ([], w)
  | key :: rest, w =>
    match run (readQuietly key names) w with
    | (.ok found, w₁) => (⟨key, .ok found⟩ :: (keysRead names rest w₁).1, (keysRead names rest w₁).2)
    | (.error fault, w₁) => ([⟨key, .error fault⟩], w₁)

def nodesRead (min : Score) (count : Nat) (names : Option (List String)) :
    List NodeId → Cluster ν ρ → List Reading × Cluster ν ρ
  | [], w => ([], w)
  | node :: rest, w =>
    match run (ask node (.indexRange min count)) w with
    | (.ok keys, w₁) =>
      let (readings, w₂) := keysRead names keys w₁
      (readings ++ (nodesRead min count names rest w₂).1, (nodesRead min count names rest w₂).2)
    | (.error _, w₁) => nodesRead min count names rest w₁

end

/-- Under any observer the program comes to the same, and the observer has been told of the readings. -/
def Reads (w : Cluster ν ρ) (op : Op ν ρ α) (outcome : Except Fault α) (readings : List Reading) (w' : Cluster ν ρ) :
    Prop :=
  ∀ o : Option (List Sighting),
    run op (w.observing o) = (outcome, w'.observing (o.map (· ++ readings.map Reading.sighting)))

section
variable {op : Op ν ρ α} {f : α → Op ν ρ β} {a : α} {outcome : Except Fault α} {result : Except Fault β}
  {readings readings' : List Reading}

theorem Blind.reads (h : Blind op) (w : Cluster ν ρ) : Reads w op (run op w).1 [] (run op w).2 := by
  intro o
  rw [h]
  simp

theorem Reads.bind (h : Reads w op (.ok a) readings w₁) (hf : Reads w₁ (f a) result readings' w') :
    Reads w (op >>= f) result (readings ++ readings') w' := by
  intro o
  rw [run_bind, h]
  refine (hf _).trans ?_
  cases o <;> simp

theorem Reads.andThen (h : Reads w op (.ok a) readings w₁) (hf : Blind (f a)) :
    Reads w (op >>= f) (run (f a) w₁).1 readings (run (f a) w₁).2 := by
  simpa using h.bind (hf.reads w₁)

theorem Reads.attempt (h : Reads w op outcome readings w') : Reads w (attempt op) (.ok outcome) readings w' := by
  intro o
  rw [run_attempt, h]

end

section
variable [Store ν] [Registry ρ]

theorem read_reads (key : String) (names : Option (List String)) (w : Cluster ν ρ) :
    Reads w (read key names) (run (readQuietly key names) w).1 [⟨key, (run (readQuietly key names) w).1⟩]
      (run (readQuietly key names) w).2 := by
  have blind : Blind (readQuietly key names : Op ν ρ (Option Found)) :=
    blind_closed.readQuietly (fun _ _ => trivial)
      (blind_closed.readLocated (fun _ _ => trivial) (fun _ => trivial) (fun _ => trivial) key names)
  intro o
  rw [read, run_bind, run_attempt, blind]
  rcases run (readQuietly key names) w with ⟨fault | found, w₁⟩ <;> rfl

theorem scanKeys_reads (node : NodeId) (names : Option (List String)) (s : Scanned) (keys : List String)
    (w : Cluster ν ρ) :
    ∃ s', Reads w (scanKeys node names s keys) (.ok s') (keysRead names keys w).1 (keysRead names keys w).2 := by
  induction keys generalizing w s with
  | nil => exact ⟨s, (blind_closed.pure s).reads w⟩
  | cons key rest ih =>
    have read := (read_reads key names w).attempt
    rw [keysRead]
    rcases hr : run (readQuietly key names) w with ⟨fault | _ | found, w₁⟩
    · rw [hr] at read
      exact ⟨_, read.bind ((blind_closed.pure _).reads w₁)⟩
    · rw [hr] at read
      obtain ⟨s', rest⟩ := ih s w₁
      exact ⟨s', read.bind rest⟩
    · rw [hr] at read
      obtain ⟨s', rest⟩ := ih { s with records := s.records ++ [found.record] } w₁
      exact ⟨s', read.bind rest⟩

theorem scanNodes_reads (min : Score) (count : Nat) (names : Option (List String)) (s : Scanned)
    (nodes : List NodeId) (w : Cluster ν ρ) :
    ∃ s', Reads w (scanNodes min count names s nodes) (.ok s') (nodesRead min count names nodes w).1
      (nodesRead min count names nodes w).2 := by
  induction nodes generalizing w s with
  | nil => exact ⟨s, (blind_closed.pure s).reads w⟩
  | cons node rest ih =>
    have listed := ((blind_closed (ν := ν) (ρ := ρ)).ask node (.indexRange min count) trivial).reads w |>.attempt
    rw [nodesRead]
    rcases hr : run (ask node (.indexRange min count)) w with ⟨fault | keys, w₁⟩
    · rw [hr] at listed
      obtain ⟨s', rest⟩ := ih { s with failures := s.failures ++ [(node, fault)] } w₁
      exact ⟨s', listed.bind rest⟩
    · rw [hr] at listed
      obtain ⟨s₁, read⟩ := scanKeys_reads node names s keys w₁
      obtain ⟨s', rest⟩ := ih s₁ (keysRead names keys w₁).2
      exact ⟨s', listed.bind (read.bind rest)⟩

theorem scan_reads (start : String) (count : Nat) (names : Option (List String)) (w : Cluster ν ρ) :
    ∃ outcome w', Reads w (scan start count names) outcome (nodesRead (KeyHash.score start) count names w.ids w).1
      w' := by
  obtain ⟨s, scanned⟩ := scanNodes_reads (KeyHash.score start) count names {} w.ids w
  exact ⟨_, _, fun o => scanned.andThen (blind_closed.unlessFailed s.failures s.records) o⟩

end

end Cluster

namespace Coordinator

open Cluster (Reads blind_closed)

variable {ν ρ : Type}

def observing (c : Coordinator ν ρ) (observer : Option (List Sighting)) : Coordinator ν ρ :=
  { c with cluster := c.cluster.observing observer }

variable [Store ν] [Registry ρ]

def Request.readings (w : Cluster ν ρ) : Request → List Reading
  | .read key names _ => [⟨key, (Cluster.run (Cluster.readQuietly key names) w).1⟩]
  | .scan start count names _ => (Cluster.nodesRead (KeyHash.score start) count names w.ids w).1
  | _ => []

def readings : List Request → Coordinator ν ρ → List Reading
  | [], _ => []
  | q :: rest, c => q.readings c.cluster ++ readings rest (serve q c).2

/-- Under any observer the program does the same, and the observer is told of the readings. -/
def Alike {β : Type} (m : StateM (Coordinator ν ρ) β) (c : Coordinator ν ρ) (readings : List Reading) : Prop :=
  ∀ o : Option (List Sighting),
    m (c.observing o) =
      ((m (c.observing none)).1,
        (m (c.observing none)).2.observing (o.map (· ++ readings.map Reading.sighting)))

section
variable {α β γ : Type} {m : StateM (Coordinator ν ρ) β} {c : Coordinator ν ρ} {reads : List Reading}

omit [Store ν] [Registry ρ] in
theorem perform_alike {op : Op ν ρ α} {outcome : Except Fault α} {w' : Cluster ν ρ}
    (h : Reads c.cluster op outcome reads w') : Alike (perform op) c reads := by
  intro o
  have performed : ∀ o, perform op (c.observing o) =
      (outcome, { c with cluster := w'.observing (o.map (· ++ reads.map Reading.sighting)) }) := fun o =>
    congrArg (fun left : Except Fault α × Cluster ν ρ =>
      (left.1, ({ c with cluster := left.2 } : Coordinator ν ρ))) (h o)
  rw [performed, performed]
  rfl

omit [Store ν] [Registry ρ] in
/-- What is made of an answer does not depend on the observer. -/
theorem Alike.bind {k : β → StateM (Coordinator ν ρ) γ} (h : Alike m c reads) (hk : ∀ b, ∃ a, k b = pure a) :
    Alike (m >>= k) c reads := by
  intro o
  obtain ⟨a, ha⟩ := hk (m (c.observing none)).1
  show k (m (c.observing o)).1 (m (c.observing o)).2 =
    ((k (m (c.observing none)).1 (m (c.observing none)).2).1,
      (k (m (c.observing none)).1 (m (c.observing none)).2).2.observing _)
  rw [h o, ha]
  rfl

omit [Store ν] [Registry ρ] in
theorem alike_get {f : Coordinator ν ρ → StateM (Coordinator ν ρ) β} (hf : ∀ o, f (c.observing o) = f (c.observing none))
    (h : Alike (f (c.observing none)) c reads) : Alike (get >>= f) c reads := by
  intro o
  show f (c.observing o) (c.observing o) = _
  rw [hf, h]
  rfl

end

theorem serve_alike (q : Request) (c : Coordinator ν ρ) : Alike (serve q) c (q.readings c.cluster) := by
  have quiet : ∀ {α : Type} {op : Op ν ρ α}, Cluster.Blind op → Alike (perform op) c [] := fun h =>
    perform_alike (h.reads c.cluster)
  cases q with
  | insert key fields =>
    have inserted : Alike (insert key fields) c [] := by
      refine alike_get (fun _ => rfl) ((quiet ?_).bind ?_)
      · exact blind_closed.insert trivial (fun _ => trivial) _ key fields trivial (fun _ => trivial) trivial
          (fun _ => trivial) trivial
      · rintro (_ | _) <;> exact ⟨_, rfl⟩
    exact inserted.bind fun _ => ⟨_, rfl⟩
  | read key names into =>
    have read : Alike (read key names into) c ((Request.read key names into).readings c.cluster) := by
      refine (perform_alike (Cluster.read_reads key names c.cluster)).bind ?_
      rintro (_ | _ | _) <;> exact ⟨_, rfl⟩
    exact read.bind fun _ => ⟨_, rfl⟩
  | update key fields =>
    have updated : Alike (update key fields) c [] := by
      refine (quiet (blind_closed.update key fields trivial trivial)).bind ?_
      rintro (_ | _ | _) <;> exact ⟨_, rfl⟩
    exact updated.bind fun _ => ⟨_, rfl⟩
  | delete key =>
    have deleted : Alike (delete key) c [] := by
      refine (quiet (blind_closed.delete key trivial fun _ => trivial)).bind ?_
      rintro (_ | _ | _) <;> exact ⟨_, rfl⟩
    exact deleted.bind fun _ => ⟨_, rfl⟩
  | scan start count names into =>
    obtain ⟨outcome, w', h⟩ := Cluster.scan_reads start count names c.cluster
    have scanned : Alike (scan start count names into) c
        ((Request.scan start count names into).readings c.cluster) := by
      refine (perform_alike h).bind ?_
      rintro (_ | _) <;> exact ⟨_, rfl⟩
    exact scanned.bind fun _ => ⟨_, rfl⟩
  | recordCounts =>
    have counted := quiet (blind_closed.bind (blind_closed.counts trivial) fun counted =>
      blind_closed.lift counted.toExcept)
    exact counted.bind fun _ => ⟨_, rfl⟩
  | flush thenClose =>
    exact (quiet (blind_closed.flushAll trivial thenClose fun _ => trivial)).bind fun _ => ⟨_, rfl⟩
  | cleanup => exact (quiet (cleanup_of_closed blind_closed trivial trivial)).bind fun _ => ⟨_, rfl⟩

theorem serveAll_alike (requests : List Request) (c : Coordinator ν ρ) :
    Alike (serveAll requests) c (readings requests (c.observing none)) := by
  induction requests generalizing c with
  | nil => exact fun o => by cases o <;> simp [serveAll, readings, observing, Cluster.observing]
  | cons q rest ih =>
    intro o
    have first : ∀ o, serve q (c.observing o) =
        ((serve q (c.observing none)).1,
          (serve q (c.observing none)).2.observing
            (o.map (· ++ (q.readings (c.observing none).cluster).map Reading.sighting))) :=
      serve_alike q (c.observing none)
    have others := ih (serve q (c.observing none)).2
    -- without an observer there is none after the request either
    have hidden : (serve q (c.observing none)).2.observing none = (serve q (c.observing none)).2 :=
      (congrArg Prod.snd (first none)).symm
    rw [hidden] at others
    rw [serveAll, serveAll, first o, readings]
    dsimp only
    rw [others, hidden]
    cases o <;> simp [observing, Cluster.observing]

/-- Requests are answered alike with an observer and without, and leave the same nodes and registry and the same calls
on record. The observer is told of the reads, of each once and in their order. -/
theorem observer_sees_each_read_once (requests : List Request) (c : Coordinator ν ρ) (told : List Sighting) :
    ∃ sightings, List.Forall₂ Tells (readings requests (c.observing none)) sightings ∧
      serveAll requests (c.observing (some told)) =
        ((serveAll requests (c.observing none)).1,
          (serveAll requests (c.observing none)).2.observing (some (told ++ sightings))) := by
  refine ⟨(readings requests (c.observing none)).map Reading.sighting, ?_, serveAll_alike requests c (some told)⟩
  exact List.forall₂_map_right_iff.2 (List.forall₂_same.2 fun r _ => tells_sighting r)

end Coordinator

end Placement
