import Placement.Proofs.Footprint

/-!
What a client asks of a coordinator, one request after another.

`serve` answers one request and `serveAll` one after another; `Reached` are the coordinators that requests lead to,
where other moves may come between two requests. A request changes the cluster only: `serve_eq`.
-/

namespace Placement.Coordinator

inductive Request
  | insert (key : String) (fields : Record)
  | read (key : String) (names : Option (List String)) (into : Record)
  | update (key : String) (fields : Record)
  | delete (key : String)
  | scan (start : String) (count : Nat) (names : Option (List String)) (into : List Record)
  | recordCounts
  | flush (thenClose : Bool)
  | cleanup
deriving DecidableEq, Repr

inductive Reply
  | status (status : Status)
  | record (status : Status) (record : Record)
  | records (status : Status) (records : List Record)
  | counts (outcome : Except Fault (Dict Nat))
  | done (outcome : Except Fault Unit)

variable {ν ρ α : Type} [Store ν] [Registry ρ]

def serve : Request → StateM (Coordinator ν ρ) Reply
  | .insert key fields => return .status (← insert key fields)
  | .read key names into => do
    let (status, record) ← read key names into
    return .record status record
  | .update key fields => return .status (← update key fields)
  | .delete key => return .status (← delete key)
  | .scan start count names into => do
    let (status, records) ← scan start count names into
    return .records status records
  | .recordCounts => return .counts (← recordCounts)
  | .flush thenClose => return .done (← flush thenClose)
  | .cleanup => return .done (← cleanup)

def serveAll : List Request → Coordinator ν ρ → List Reply × Coordinator ν ρ
  | [], c => ([], c)
  | q :: rest, c => ((serve q c).1 :: (serveAll rest (serve q c).2).1, (serveAll rest (serve q c).2).2)

/-- Coordinators that requests lead to from those of `start`, with moves of `between` between the requests. -/
inductive Reached (start : Coordinator ν ρ → Prop) (between : Coordinator ν ρ → Coordinator ν ρ → Prop) :
    Coordinator ν ρ → Prop
  | start {c : Coordinator ν ρ} : start c → Reached start between c
  | serve {c : Coordinator ν ρ} (q : Request) : Reached start between c → Reached start between (serve q c).2
  | move {c c' : Coordinator ν ρ} : Reached start between c → between c c' → Reached start between c'

/-! ## Operations as runs of their programs -/

theorem insert_eq (key : String) (fields : Record) (c : Coordinator ν ρ) :
    insert key fields c =
      (match (Cluster.run (Cluster.insert c.selection key fields) c.cluster).1 with
        | .ok _ => .ok
        | .error _ => .error,
        { c with cluster := (Cluster.run (Cluster.insert c.selection key fields) c.cluster).2 }) := by
  simp only [insert, bind, StateT.bind, perform, get, getThe, MonadStateOf.get, StateT.get, pure]
  rcases Cluster.run (Cluster.insert c.selection key fields) c.cluster with ⟨_ | _, w⟩ <;> rfl

theorem read_eq (key : String) (names : Option (List String)) (into : Record) (c : Coordinator ν ρ) :
    read key names into c =
      (match (Cluster.run (Cluster.read key names) c.cluster).1 with
        | .ok (some found) => (.ok, into.override found.record)
        | .ok none => (.notFound, into)
        | .error _ => (.error, into),
        { c with cluster := (Cluster.run (Cluster.read key names) c.cluster).2 }) := by
  simp only [read, bind, StateT.bind, perform]
  rcases Cluster.run (Cluster.read key names) c.cluster with ⟨_ | _ | _, w⟩ <;> rfl

omit [Registry ρ] in
theorem update_eq (key : String) (fields : Record) (c : Coordinator ν ρ) :
    update key fields c =
      (match (Cluster.run (Cluster.update key fields) c.cluster).1 with
        | .ok (some _) => .ok
        | .ok none => .notFound
        | .error _ => .error,
        { c with cluster := (Cluster.run (Cluster.update key fields) c.cluster).2 }) := by
  simp only [update, bind, StateT.bind, perform]
  rcases Cluster.run (Cluster.update key fields) c.cluster with ⟨_ | _ | _, w⟩ <;> rfl

theorem delete_eq (key : String) (c : Coordinator ν ρ) :
    delete key c =
      (match (Cluster.run (Cluster.delete key) c.cluster).1 with
        | .ok (some _) => .ok
        | _ => .error,
        { c with cluster := (Cluster.run (Cluster.delete key) c.cluster).2 }) := by
  simp only [delete, bind, StateT.bind, perform]
  rcases Cluster.run (Cluster.delete key) c.cluster with ⟨_ | _ | _, w⟩ <;> rfl

theorem scan_eq (start : String) (count : Nat) (names : Option (List String)) (into : List Record)
    (c : Coordinator ν ρ) :
    scan start count names into c =
      (match (Cluster.run (Cluster.scan start count names) c.cluster).1 with
        | .ok records => (.ok, into ++ records)
        | .error _ => (.error, into),
        { c with cluster := (Cluster.run (Cluster.scan start count names) c.cluster).2 }) := by
  simp only [scan, bind, StateT.bind, perform]
  rcases Cluster.run (Cluster.scan start count names) c.cluster with ⟨_ | _, w⟩ <;> rfl

def Request.after (how : Selection) (w : Cluster ν ρ) : Request → Cluster ν ρ
  | .insert key fields => (Cluster.run (Cluster.insert how key fields) w).2
  | .read key names _ => (Cluster.run (Cluster.read key names) w).2
  | .update key fields => (Cluster.run (Cluster.update key fields) w).2
  | .delete key => (Cluster.run (Cluster.delete key) w).2
  | .scan start count names _ => (Cluster.run (Cluster.scan start count names) w).2
  | .recordCounts => (Cluster.run (do (← Cluster.counts).toExcept) w).2
  | .flush thenClose => (Cluster.run (Cluster.flushAll thenClose) w).2
  | .cleanup =>
    (Cluster.run
      (do
        let nodes ← Cluster.attempt Cluster.closeAll
        let registry ← Cluster.attempt closeRegistry
        nodes
        registry) w).2

theorem closeRegistry_of_closed {K : ∀ {α : Type}, Op ν ρ α → Prop} {P : Store.Call → Prop}
    {P' : Registry.Call → Prop} (hK : Cluster.Closed @K P P') (close : P' .close) : K closeRegistry := by
  refine hK.bind hK.hasRegistry fun registered => ?_
  cases registered with
  | true => exact hK.consult .close close
  | false => exact hK.pure ()

theorem cleanup_of_closed {K : ∀ {α : Type}, Op ν ρ α → Prop} {P : Store.Call → Prop} {P' : Registry.Call → Prop}
    (hK : Cluster.Closed @K P P') (close : P .close) (close' : P' .close) :
    K (do
      let nodes ← Cluster.attempt Cluster.closeAll
      let registry ← Cluster.attempt closeRegistry
      nodes
      registry) :=
  hK.bind (hK.attempt (hK.closeAll close)) fun nodes =>
    hK.bind (hK.attempt (closeRegistry_of_closed hK close')) fun registry =>
      hK.bind (hK.lift nodes) fun _ => hK.lift registry

def Request.closes : Request → Bool
  | .flush thenClose => thenClose
  | .cleanup => true
  | _ => false

/-- A relation that permits every call but look-ups and releases, and is kept by reading from a place, relates the
cluster before a request to the one after it. The calls that close matter only to requests that close. -/
theorem Request.within {R : Cluster ν ρ → Cluster ν ρ → Prop} {P : Store.Call → Prop} {P' : Registry.Call → Prop}
    (hR : Cluster.Permits R P P') (how : Selection) (q : Request) (w : Cluster ν ρ)
    (hP : ∀ call, call ≠ .close → P call) (suggest : ∀ nodes, P' (.suggest nodes))
    (place : ∀ node key, P' (.place node key)) (withdraw : ∀ node key, P' (.withdraw node key))
    (located : ∀ key names, Cluster.Within R (Cluster.readLocated key names))
    (hc : q.closes = true → P .close ∧ P' .close) : R w (q.after how w) := by
  have looks : ∀ call : Store.Call, call.looks = true → P call := fun call hl =>
    hP call (Store.Call.ne_close_of_looks hl)
  cases q with
  | insert key fields =>
    exact Cluster.Ensures.left (hR.insert (looks _ rfl) suggest how key fields (hP _ (by simp)) (fun node => place node key)
      (hP _ (by simp)) (fun node => withdraw node key) (hP _ (by simp)) w)
  | read key names into => exact (hR.read looks located key names w).left
  | update key fields => exact (hR.update key fields (hP _ (by simp)) (hP _ (by simp)) w).left
  | delete key => exact (hR.delete key (hP _ (by simp)) (fun node => withdraw node key) w).left
  | scan start count names into => exact (hR.scan looks located start count names w).left
  | recordCounts => exact (hR.bind (hR.counts (looks _ rfl)) (fun counted => hR.lift _) w).left
  | flush thenClose => exact (hR.flushAll (hP _ (by simp)) thenClose (fun h => (hc h).1) w).left
  | cleanup =>
    obtain ⟨close, close'⟩ := hc rfl
    exact (cleanup_of_closed hR.toClosed close close' w).left

/-- The same where look-ups and releases are permitted as well. -/
theorem Request.stays_within {R : Cluster ν ρ → Cluster ν ρ → Prop} {P : Store.Call → Prop}
    {P' : Registry.Call → Prop} (hR : Cluster.Permits R P P') (how : Selection) (q : Request) (w : Cluster ν ρ)
    (hP : ∀ call, call ≠ .close → P call) (hP' : ∀ call, call ≠ .close → P' call)
    (hc : q.closes = true → P .close ∧ P' .close) : R w (q.after how w) := by
  have looks : ∀ call : Store.Call, call.looks = true → P call := fun call hl =>
    hP call (Store.Call.ne_close_of_looks hl)
  exact q.within hR how w hP (fun _ => hP' _ (by simp)) (fun _ _ => hP' _ (by simp)) (fun _ _ => hP' _ (by simp))
    (hR.readLocated looks (fun _ => hP' _ (by simp)) fun _ => hP' _ (by simp)) hc

/-- A request changes the cluster and nothing else. -/
theorem serve_eq (q : Request) (c : Coordinator ν ρ) :
    (serve q c).2 = { c with cluster := q.after c.selection c.cluster } := by
  cases q with
  | insert key fields =>
    show (insert key fields c).2 = _
    rw [insert_eq]
    rfl
  | read key names into =>
    show (read key names into c).2 = _
    rw [read_eq]
    rfl
  | update key fields =>
    show (update key fields c).2 = _
    rw [update_eq]
    rfl
  | delete key =>
    show (delete key c).2 = _
    rw [delete_eq]
    rfl
  | scan start count names into =>
    show (scan start count names into c).2 = _
    rw [scan_eq]
    rfl
  | recordCounts => rfl
  | flush thenClose => rfl
  | cleanup => rfl

/-- What requests of some kind keep, all requests of that kind keep one after another. -/
theorem serveAll_keeps {I : Coordinator ν ρ → Prop} {P : Request → Prop} (step : ∀ q c, P q → I c → I (serve q c).2)
    {requests : List Request} (h : ∀ q ∈ requests, P q) {c : Coordinator ν ρ} (hc : I c) :
    I (serveAll requests c).2 := by
  induction requests generalizing c with
  | nil => exact hc
  | cons q rest ih =>
    exact ih (fun q' hq' => h q' (List.mem_cons_of_mem _ hq')) (step q c (h q List.mem_cons_self) hc)

end Placement.Coordinator
