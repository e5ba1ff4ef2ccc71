import Placement.Proofs.Confirmation

/-!
The two lines of a registry's client, each on its own.

Every call but a closing sends one command over one line, and closing concerns both. So a line sees the commands that go
over it and nothing of the other line: neither what is sent there, nor what comes back, nor whether it still holds.

- `perform_command`: one call, by what comes of its command on its line.
- `perform_answered`: a reply that comes is the answer, whatever it says, and the line goes on behind it.
- `performAll_open`, `performAll_sent`: what went over a line in a run, while it holds and after that.
- `performAll_concerned`: a run as one line sees it.
- `lines_keep_apart`: what a run does with a line, and that it depends on that line alone.
-/

namespace Placement

/-- What a registry's client reports: that the registry is not available, or that its message is broken. -/
def Fault.ofRegistry : Fault → Bool
  | .registryUnavailable _ | .protocol _ => true
  | _ => false

namespace Registry

open Json (Document)

inductive Line
  | control
  | benchmark
deriving DecidableEq, Repr

def Command.line : Command → Line
  | place .. | withdraw .. | suggest .. => .control
  | locate .. | release .. => .benchmark

def served {α : Type} (read : Document → Option α) (command : Command) (reply : ByteArray) : Except Fault (Option α) :=
  Reply.ofBytes read reply >>= (·.outcome command.name)

section
variable {α : Type} {read : Document → Option α} {command : Command} {reply : ByteArray}

theorem served_of_malformed (h : (Reply.ofBytes read reply).toOption.map (·.success) = none) :
    served read command reply = .error (.protocol (.malformedReply "not a reply")) := by
  unfold served
  unfold Reply.ofBytes at h ⊢
  cases hread : Document.ofBytes? reply >>= Reply.ofDocument? read with
  | none => rfl
  | some r =>
    rw [hread] at h
    cases h

theorem served_of_refused (h : (Reply.ofBytes read reply).toOption.map (·.success) = some false) :
    ∃ reason, served read command reply = .error (.registryUnavailable (.refused command.name reason)) := by
  unfold served
  cases hread : Reply.ofBytes read reply with
  | error fault =>
    rw [hread] at h
    cases h
  | ok r =>
    rw [hread] at h
    have hsuccess : r.success = false := Option.some.inj h
    refine ⟨r.reason, ?_⟩
    show r.outcome command.name = _
    rw [Reply.outcome, hsuccess]
    rfl

theorem served_of_success (h : (Reply.ofBytes read reply).toOption.map (·.success) = some true) :
    ∃ result, served read command reply = .ok result := by
  unfold served
  cases hread : Reply.ofBytes read reply with
  | error fault =>
    rw [hread] at h
    cases h
  | ok r =>
    rw [hread] at h
    have hsuccess : r.success = true := Option.some.inj h
    refine ⟨r.result, ?_⟩
    show r.outcome command.name = _
    rw [Reply.outcome, hsuccess]
    rfl

end

namespace Call

/-- The command that a call sends; closing sends none. -/
def command? : Call → Option Command
  | place node key => some (.place node key)
  | withdraw node key => some (.withdraw node key)
  | locate key => some (.locate key)
  | release node => some (.release node)
  | suggest nodes => some (.suggest nodes)
  | close => none

def goesOver (line : Line) (call : Call) : Bool := call.command?.any (·.line == line)

def concerns (line : Line) (call : Call) : Bool := call.command?.all (·.line == line)

/-- What a reply says to a call. -/
def meaning : (call : Call) → ByteArray → Except Fault call.Answer
  | place node key, reply => (served Document.bool? (.place node key) reply).map (·.getD false)
  | withdraw node key, reply => (served Document.bool? (.withdraw node key) reply).map (·.getD false)
  | locate key, reply => (served Lookup.ofDocument? (.locate key) reply).map (·.bind Lookup.location)
  | release node, reply => (served Client.anyValue (.release node) reply).map fun _ => ()
  | suggest nodes, reply =>
    (served Document.text? (.suggest nodes) reply).bind fun
      | some node => .ok node
      | none => .error (.registryUnavailable .noSuggestion)
  | close, _ => .ok ()

def success? : Call → ByteArray → Option Bool
  | place .., reply | withdraw .., reply => (Reply.ofBytes Document.bool? reply).toOption.map (·.success)
  | locate .., reply => (Reply.ofBytes Lookup.ofDocument? reply).toOption.map (·.success)
  | release .., reply => (Reply.ofBytes Client.anyValue reply).toOption.map (·.success)
  | suggest .., reply => (Reply.ofBytes Document.text? reply).toOption.map (·.success)
  | close, _ => some true

theorem command?_eq_none {call : Call} : call.command? = none ↔ call = close := by
  cases call <;> simp [command?]

theorem goesOver_of_command {call : Call} {command : Command} (h : call.command? = some command) (line : Line) :
    call.goesOver line = (command.line == line) := by
  simp [goesOver, h]

theorem concerns_of_command {call : Call} {command : Command} (h : call.command? = some command) (line : Line) :
    call.concerns line = (command.line == line) := by
  simp [concerns, h]

theorem goesOver_of_not_concerns {call : Call} {line : Line} (h : call.concerns line = false) :
    call.goesOver line = false := by
  cases hc : call.command? with
  | none => simp [goesOver, hc]
  | some command => rwa [goesOver_of_command hc, ← concerns_of_command hc]

theorem meaning_of_malformed {call : Call} {reply : ByteArray} (h : call.success? reply = none) :
    call.meaning reply = .error (.protocol (.malformedReply "not a reply")) := by
  cases call with
  | close => cases h
  | _ =>
    rw [meaning, served_of_malformed h]
    rfl

theorem meaning_of_refused {call : Call} {command : Command} (hc : call.command? = some command) {reply : ByteArray}
    (h : call.success? reply = some false) :
    ∃ reason, call.meaning reply = .error (.registryUnavailable (.refused command.name reason)) := by
  cases call with
  | close => cases hc
  | _ =>
    cases hc
    obtain ⟨reason, hserved⟩ := served_of_refused h
    refine ⟨reason, ?_⟩
    rw [meaning, hserved]
    rfl

/-- A reply that says that the command was served is an answer, except that a suggestion may be missing in it. -/
theorem meaning_of_success {call : Call} {reply : ByteArray} (h : call.success? reply = some true) :
    (∃ a, call.meaning reply = .ok a) ∨ call.meaning reply = .error (.registryUnavailable .noSuggestion) := by
  cases call with
  | close => exact .inl ⟨_, rfl⟩
  | suggest nodes =>
    obtain ⟨result, hserved⟩ := served_of_success h
    rw [meaning, hserved]
    cases result with
    | none => exact .inr rfl
    | some node => exact .inl ⟨node, rfl⟩
  | _ =>
    obtain ⟨result, hserved⟩ := served_of_success h
    rw [meaning, hserved]
    exact .inl ⟨_, rfl⟩

/-- What a reply says is a fault of the registry, if it is one, and not that there is none. -/
theorem meaning_fault {call : Call} {command : Command} (hc : call.command? = some command) {reply : ByteArray}
    {fault : Fault} (h : call.meaning reply = .error fault) :
    fault.ofRegistry = true ∧ fault ≠ .registryUnavailable .absent := by
  match hs : call.success? reply with
  | none =>
    rw [meaning_of_malformed hs] at h
    cases h
    exact ⟨rfl, by simp⟩
  | some false =>
    obtain ⟨reason, hmeaning⟩ := meaning_of_refused hc hs
    rw [hmeaning] at h
    cases h
    exact ⟨rfl, by simp⟩
  | some true =>
    rcases meaning_of_success hs with ⟨a, hmeaning⟩ | hmeaning
    · rw [hmeaning] at h
      cases h
    · rw [hmeaning] at h
      cases h
      exact ⟨rfl, by simp⟩

end Call

def commandsOver (line : Line) (calls : List Call) : List Command :=
  calls.filterMap fun call => call.command?.filter (·.line == line)

theorem commandsOver_cons (line : Line) (call : Call) (rest : List Call) :
    commandsOver line (call :: rest) = commandsOver line [call] ++ commandsOver line rest :=
  List.filterMap_append (l := [call])

theorem commandsOver_single {call : Call} {command : Command} (h : call.command? = some command) (line : Line) :
    commandsOver line [call] = if command.line = line then [command] else [] := by
  unfold commandsOver
  by_cases hl : command.line = line
  · rw [List.filterMap_cons_some (b := command) (by simp [h, hl]), if_pos hl]
    rfl
  · rw [List.filterMap_cons_none (by simp [h, hl]), if_neg hl]
    rfl

theorem commandsOver_of_not_concerns {line : Line} {call : Call} (h : call.concerns line = false) :
    commandsOver line [call] = [] := by
  cases hc : call.command? with
  | none => simp [commandsOver, hc]
  | some command =>
    rw [Call.concerns_of_command hc, beq_eq_false_iff_ne] at h
    rw [commandsOver_single hc, if_neg h]

def answersOver (line : Line) (results : List Result) : List Result := results.filter (·.call.goesOver line)

theorem answersOver_cons_of_goesOver {line : Line} {call : Call} (h : call.goesOver line = true)
    (a : Except Fault call.Answer) (rest : List Result) :
    answersOver line (⟨call, a⟩ :: rest) = ⟨call, a⟩ :: answersOver line rest :=
  List.filter_cons_of_pos h

theorem answersOver_cons_of_not_goesOver {line : Line} {call : Call} (h : call.goesOver line = false)
    (a : Except Fault call.Answer) (rest : List Result) :
    answersOver line (⟨call, a⟩ :: rest) = answersOver line rest :=
  List.filter_cons_of_neg (by simp [h])

/-- A command that is answered was sent in its frame. -/
theorem sent_command {c c' : Channel} {command : Command} {reply : ByteArray}
    (h : c.Exchanged [(Envelope.toBytes { command }, reply)] c') : c'.sent = c.sent ++ command.frame := by
  rw [h.sent, List.flatMap_singleton, Command.frame]

namespace Client

def channel (s : Client) : Line → Channel
  | .control => s.control
  | .benchmark => s.benchmark

def put (line : Line) (c : Channel) (s : Client) : Client :=
  match line with
  | .control => { s with control := c }
  | .benchmark => { s with benchmark := c }

@[simp] theorem channel_put_self (line : Line) (c : Channel) (s : Client) : (s.put line c).channel line = c := by
  cases line <;> rfl

theorem channel_put_ne {line line' : Line} (h : line ≠ line') (c : Channel) (s : Client) :
    (s.put line c).channel line' = s.channel line' := by
  cases line <;> cases line' <;> first | rfl | exact absurd rfl h

variable {s s' : Client} {call : Call} {command : Command} {line : Line}

/-! ## One call -/

/-- What comes of the command on its line is all that a call depends on, and all that it changes. -/
theorem perform_command (h : call.command? = some command) (s : Client) :
    perform call s =
      match (s.channel command.line).send (Envelope.toBytes { command }) with
      | (.ok reply, c) => (call.meaning reply, s.put command.line c)
      | (.error fault, c) => (.error (unanswered command c.address fault), s.put command.line c) := by
  cases call with
  | close => cases h
  | _ =>
    cases h
    dsimp only [perform, overControl, overBenchmark, request, channel, Command.line]
    generalize Channel.send _ _ = sending
    obtain ⟨outcome, c⟩ := sending
    cases outcome <;> rfl

theorem channel_close (s : Client) (line : Line) : (perform .close s).2.channel line = (s.channel line).close.2 := by
  cases line <;> rfl

/-- A call that does not concern a line leaves it as it is. -/
theorem channel_perform_of_not_concerns (h : call.concerns line = false) (s : Client) :
    (perform call s).2.channel line = s.channel line := by
  cases hc : call.command? with
  | none => simp [Call.concerns, hc] at h
  | some command =>
    rw [Call.concerns_of_command hc, beq_eq_false_iff_ne] at h
    rw [perform_command hc]
    split <;> exact channel_put_ne h _ _

/-- So do all calls with a line that was given up. -/
theorem channel_perform_of_closed (h : (s.channel line).isOpen = false) (call : Call) :
    (perform call s).2.channel line = s.channel line := by
  by_cases hconcerns : call.concerns line = true
  · cases hc : call.command? with
    | none =>
      obtain rfl := Call.command?_eq_none.1 hc
      rw [channel_close, Channel.close_closed h]
    | some command =>
      rw [Call.concerns_of_command hc, beq_iff_eq] at hconcerns
      subst hconcerns
      rw [perform_command hc, Channel.send_closed h]
      exact channel_put_self _ _ _
  · exact channel_perform_of_not_concerns (Bool.eq_false_iff.2 hconcerns) s

/-- Over such a line no command is served. -/
theorem perform_of_closed (hc : call.command? = some command) (h : (s.channel command.line).isOpen = false) :
    ∃ cause, (perform call s).1 = .error (.registryUnavailable cause) := by
  rw [perform_command hc, Channel.send_closed h]
  exact ⟨_, rfl⟩

/-- A reply that comes is the answer, and the line goes on behind it, whatever it says. -/
theorem perform_answered (hc : call.command? = some command) {reply : ByteArray} {c : Channel}
    (hs : (s.channel command.line).send (Envelope.toBytes { command }) = (.ok reply, c)) :
    perform call s = (call.meaning reply, s.put command.line c) := by
  rw [perform_command hc, hs]

/-- A call leaves a line alone, or it ends it and has sent no more than a front part of its frame, or it has one reply
over it and gives its meaning. -/
theorem perform_on_line (call : Call) (s : Client) (line : Line) :
    ((s.channel line).isOpen = false ∨ call.concerns line = false) ∧
        (perform call s).2.channel line = s.channel line ∨
      (((perform call s).2.channel line).isOpen = false ∧ ∃ part,
        ((perform call s).2.channel line).sent = (s.channel line).sent ++ part ∧
          part <+: (commandsOver line [call]).flatMap Command.frame) ∨
      ∃ command reply, call.command? = some command ∧ command.line = line ∧
        (perform call s).1 = call.meaning reply ∧
        (s.channel line).Exchanged [(Envelope.toBytes { command }, reply)] ((perform call s).2.channel line) := by
  cases hopen : (s.channel line).isOpen with
  | false => exact .inl ⟨.inl rfl, channel_perform_of_closed hopen call⟩
  | true =>
    by_cases hconcerns : call.concerns line = true
    · right
      -- a call that concerns an open line closes it or sends its command over it
      cases hc : call.command? with
      | none =>
        obtain rfl := Call.command?_eq_none.1 hc
        left
        rw [channel_close, Channel.close, if_pos hopen]
        exact ⟨rfl, [], (List.append_nil _).symm, List.nil_prefix⟩
      | some command =>
        rw [Call.concerns_of_command hc, beq_iff_eq] at hconcerns
        subst hconcerns
        rcases Channel.send_cases hopen (Envelope.toBytes { command }) with ⟨reply, c', hs, hx⟩ | ⟨fault, c', hs, hd⟩
        · right
          rw [perform_answered hc hs, channel_put_self]
          exact ⟨command, reply, rfl, rfl, rfl, hx⟩
        · left
          have hput : (perform call s).2.channel command.line = c' := by
            rw [perform_command hc, hs]
            exact channel_put_self _ _ _
          rw [hput, commandsOver_single hc, if_pos rfl, List.flatMap_singleton]
          exact ⟨hd.closed, hd.sent⟩
    · have hconcerns := Bool.eq_false_iff.2 hconcerns
      exact .inl ⟨.inr hconcerns, channel_perform_of_not_concerns hconcerns s⟩

/-- What a call that uses a line comes to on it, and the answer, depend on the line alone. -/
theorem perform_congr (h : s.channel line = s'.channel line) (hc : call.concerns line = true) :
    (perform call s).2.channel line = (perform call s').2.channel line ∧
      (call.goesOver line = true → (perform call s).1 = (perform call s').1) := by
  cases hcommand : call.command? with
  | none =>
    obtain rfl := Call.command?_eq_none.1 hcommand
    refine ⟨by rw [channel_close, channel_close, h], fun hover => ?_⟩
    cases hover
  | some command =>
    rw [Call.concerns_of_command hcommand, beq_iff_eq] at hc
    subst hc
    rw [perform_command hcommand, perform_command hcommand, h]
    rcases (s'.channel command.line).send (Envelope.toBytes { command }) with ⟨fault | reply, c⟩
    · simp
    · simp

/-- A call reports no other faults than those of a registry. -/
theorem perform_fault (hc : call ≠ .close) {fault : Fault} (h : (perform call s).1 = .error fault) :
    fault.ofRegistry = true ∧ fault ≠ .registryUnavailable .absent := by
  cases hcommand : call.command? with
  | none => exact absurd (Call.command?_eq_none.1 hcommand) hc
  | some command =>
    rw [perform_command hcommand] at h
    split at h
    · exact Call.meaning_fault hcommand h
    · cases h
      unfold unanswered
      split <;> exact ⟨rfl, by simp⟩

/-! ## Many calls -/

theorem channel_performAll_of_closed (h : (s.channel line).isOpen = false) (calls : List Call) :
    (performAll calls s).2.channel line = s.channel line :=
  performAll_keeps (P := fun s' : Client => s'.channel line = s.channel line)
    (fun call _ hs' => (channel_perform_of_closed (hs' ▸ h) call).trans hs') rfl calls

/-- What is sent over a line is a front part of the frames of its commands. -/
theorem performAll_sent (calls : List Call) (s : Client) (line : Line) :
    ((performAll calls s).2.channel line).sent <+:
      (s.channel line).sent ++ (commandsOver line calls).flatMap Command.frame := by
  induction calls generalizing s with
  | nil => simp [performAll, commandsOver]
  | cons call rest ih =>
    show ((performAll rest (perform call s).2).2.channel line).sent <+: _
    have hrest := ih (perform call s).2
    rw [commandsOver_cons, List.flatMap_append, ← List.append_assoc]
    rcases perform_on_line call s line with ⟨hwhy, hsame⟩ | ⟨hclosed, part, hsent, hpart⟩ | ⟨command, reply, hc, hl, -, hx⟩
    · rcases hwhy with hclosed | hconcerns
      · rw [channel_performAll_of_closed (by rwa [hsame]), hsame, List.append_assoc]
        exact List.prefix_append ..
      · rw [hsame] at hrest
        rw [commandsOver_of_not_concerns hconcerns]
        simpa using hrest
    · rw [channel_performAll_of_closed hclosed, hsent]
      refine List.IsPrefix.trans ?_ (List.prefix_append ..)
      exact (List.prefix_append_right_inj _).2 hpart
    · rw [sent_command hx] at hrest
      rw [commandsOver_single hc, if_pos hl, List.flatMap_singleton]
      exact hrest

/-- Over a line that still holds, every command was sent and answered: the answers are what the next frames say, one
for each, whatever those before them said. -/
theorem performAll_open {calls : List Call} {s : Client} {line : Line}
    (h : ((performAll calls s).2.channel line).isOpen = true) :
    ∃ replies : List ByteArray, replies.length = (calls.filter (Call.goesOver line)).length ∧
      Frame.payloads (s.channel line).incoming =
        replies ++ Frame.payloads ((performAll calls s).2.channel line).incoming ∧
      ((performAll calls s).2.channel line).sent =
        (s.channel line).sent ++ (commandsOver line calls).flatMap Command.frame ∧
      answersOver line (performAll calls s).1 =
        List.zipWith (fun call reply => ⟨call, call.meaning reply⟩) (calls.filter (Call.goesOver line)) replies := by
  induction calls generalizing s with
  | nil => exact ⟨[], rfl, rfl, by simp [performAll, commandsOver], rfl⟩
  | cons call rest ih =>
    change ((performAll rest (perform call s).2).2.channel line).isOpen = true at h
    -- a line that is open in the end was open after the first call
    have hopen : ((perform call s).2.channel line).isOpen = true := by
      by_contra hclosed
      rw [channel_performAll_of_closed (Bool.eq_false_iff.2 hclosed)] at h
      exact hclosed h
    obtain ⟨replies, hlength, hpayloads, hsent, hanswers⟩ := ih h
    show ∃ replies : List ByteArray, _ ∧
      _ = replies ++ Frame.payloads ((performAll rest (perform call s).2).2.channel line).incoming ∧
      ((performAll rest (perform call s).2).2.channel line).sent = _ ∧
      answersOver line (⟨call, (perform call s).1⟩ :: (performAll rest (perform call s).2).1) = _
    rw [commandsOver_cons, List.flatMap_append, ← List.append_assoc]
    rcases perform_on_line call s line with ⟨hwhy, hsame⟩ | ⟨hclosed, -⟩ | ⟨command, reply, hc, hl, hanswer, hx⟩
    · -- the line still holds in the end, so the call left it alone because it did not concern it
      have hconcerns : call.concerns line = false := by
        refine hwhy.resolve_left fun hclosed => ?_
        rw [hsame, hclosed] at hopen
        cases hopen
      have hover : call.goesOver line = false := Call.goesOver_of_not_concerns hconcerns
      rw [hsame] at hpayloads hsent
      rw [List.filter_cons_of_neg (by simp [hover]), commandsOver_of_not_concerns hconcerns,
        answersOver_cons_of_not_goesOver hover]
      exact ⟨replies, hlength, hpayloads, by simpa using hsent, hanswers⟩
    · rw [hclosed] at hopen
      cases hopen
    · have hover : call.goesOver line = true := by simp [Call.goesOver_of_command hc, hl]
      rw [List.filter_cons_of_pos hover, commandsOver_single hc, if_pos hl, answersOver_cons_of_goesOver hover,
        List.flatMap_singleton]
      refine ⟨reply :: replies, by simp [hlength], ?_, ?_, ?_⟩
      · rw [hx.payloads, hpayloads]
        rfl
      · rw [hsent, sent_command hx]
      · rw [hanswer, List.zipWith_cons_cons]
        exact congrArg _ hanswers

/-- A run as one line sees it: the calls that use the line, made alone, by a client that has the same line. -/
theorem performAll_concerned (calls : List Call) {s s' : Client} {line : Line} (h : s.channel line = s'.channel line) :
    (performAll calls s).2.channel line = (performAll (calls.filter (Call.concerns line)) s').2.channel line ∧
      answersOver line (performAll calls s).1 =
        answersOver line (performAll (calls.filter (Call.concerns line)) s').1 := by
  induction calls generalizing s s' with
  | nil => exact ⟨h, rfl⟩
  | cons call rest ih =>
    by_cases hconcerns : call.concerns line = true
    · obtain ⟨hchannel, hanswer⟩ := perform_congr h hconcerns
      obtain ⟨hleft, hanswers⟩ := ih hchannel
      rw [List.filter_cons_of_pos hconcerns]
      refine ⟨hleft, ?_⟩
      show answersOver line (⟨call, (perform call s).1⟩ :: _) = answersOver line (⟨call, (perform call s').1⟩ :: _)
      cases hover : call.goesOver line with
      | true =>
        rw [answersOver_cons_of_goesOver hover, answersOver_cons_of_goesOver hover, hanswer hover]
        exact congrArg _ hanswers
      | false =>
        rw [answersOver_cons_of_not_goesOver hover, answersOver_cons_of_not_goesOver hover]
        exact hanswers
    · have hconcerns := Bool.eq_false_iff.2 hconcerns
      obtain ⟨hleft, hanswers⟩ := ih ((channel_perform_of_not_concerns hconcerns s).trans h)
      rw [List.filter_cons_of_neg (by simp [hconcerns])]
      refine ⟨hleft, ?_⟩
      show answersOver line (⟨call, (perform call s).1⟩ :: _) = _
      rw [answersOver_cons_of_not_goesOver (Call.goesOver_of_not_concerns hconcerns)]
      exact hanswers

/-- No command is served over a line that was given up. -/
theorem performAll_unserved (h : (s.channel line).isOpen = false) {calls : List Call} {r : Result}
    (hr : r ∈ answersOver line (performAll calls s).1) : ∃ cause, r.answer = .error (.registryUnavailable cause) := by
  induction calls generalizing s with
  | nil => cases hr
  | cons call rest ih =>
    have hrest : ((perform call s).2.channel line).isOpen = false := by rwa [channel_perform_of_closed h]
    change r ∈ answersOver line (⟨call, (perform call s).1⟩ :: (performAll rest (perform call s).2).1) at hr
    cases hover : call.goesOver line with
    | false =>
      rw [answersOver_cons_of_not_goesOver hover] at hr
      exact ih hrest hr
    | true =>
      rw [answersOver_cons_of_goesOver hover] at hr
      rcases List.mem_cons.1 hr with rfl | hr
      · cases hc : call.command? with
        | none => simp [Call.goesOver, hc] at hover
        | some command =>
          rw [Call.goesOver_of_command hc, beq_iff_eq] at hover
          subst hover
          exact perform_of_closed hc h
      · exact ih hrest hr

theorem performAll_fault (calls : List Call) {r : Result} (hr : r ∈ (performAll calls s).1) (hc : r.call ≠ .close)
    {fault : Fault} (h : r.answer = .error fault) : fault.ofRegistry = true :=
  performAll_answers (P := fun _ => True)
    (Q := fun r => r.call ≠ .close → ∀ fault, r.answer = .error fault → fault.ofRegistry = true)
    (fun _ _ _ => trivial) (fun _ _ _ hc _ h => (perform_fault hc h).1) trivial hr hc fault h

/-- What a run of calls does with one line, and what it leaves there. -/
structure Orderly (line : Line) (calls : List Call) (s : Client) (log : List Result) (left : Client) : Prop where
  /-- Nothing goes over a line but the frames of its commands, in their order. -/
  sent : (left.channel line).sent <+: (s.channel line).sent ++ (commandsOver line calls).flatMap Command.frame
  /-- As long as the line holds all of them do, and the answers are what the next frames say, one for each. -/
  answered : (left.channel line).isOpen = true →
    (left.channel line).sent = (s.channel line).sent ++ (commandsOver line calls).flatMap Command.frame ∧
      ∃ replies : List ByteArray, replies.length = (calls.filter (Call.goesOver line)).length ∧
        Frame.payloads (s.channel line).incoming = replies ++ Frame.payloads (left.channel line).incoming ∧
        answersOver line log =
          List.zipWith (fun call reply => ⟨call, call.meaning reply⟩) (calls.filter (Call.goesOver line)) replies
  /-- A line that was given up stays as it is, and no command is served over it. -/
  ended : (left.channel line).isOpen = false → ∀ further,
    (performAll further left).2.channel line = left.channel line ∧
      ∀ r ∈ answersOver line (performAll further left).1, ∃ cause, r.answer = .error (.registryUnavailable cause)
  /-- A frame that comes answers the next command whatever it holds. One that is no reply, or refuses the command, fails
  this call; either way the line goes on behind the frame. -/
  goesOn : ∀ (call : Call) (command : Command) (reply : ByteArray) (rest : List UInt8),
    call.command? = some command → command.line = line → (left.channel line).isOpen = true →
    (Frame.write (.timeout (.registryReply (left.channel line).address)) (Envelope.toBytes { command })
      (left.channel line).stream.outflow).1 = .ok () →
    Frame.first? (left.channel line).incoming = some (reply, rest) →
    (perform call left).1 = call.meaning reply ∧
      (call.success? reply = none → call.meaning reply = .error (.protocol (.malformedReply "not a reply"))) ∧
      (call.success? reply = some false →
        ∃ reason, call.meaning reply = .error (.registryUnavailable (.refused command.name reason))) ∧
      ((perform call left).2.channel line).isOpen = true ∧ ((perform call left).2.channel line).incoming = rest

theorem performAll_orderly (line : Line) (calls : List Call) (s : Client) :
    Orderly line calls s (performAll calls s).1 (performAll calls s).2 where
  sent := performAll_sent calls s line
  answered hopen := by
    obtain ⟨replies, hlength, hpayloads, hsent, hanswers⟩ := performAll_open hopen
    exact ⟨hsent, replies, hlength, hpayloads, hanswers⟩
  ended hclosed further := ⟨channel_performAll_of_closed hclosed further, fun _ hr => performAll_unserved hclosed hr⟩
  goesOn call command reply rest hc hl hopen hwrite hfirst := by
    subst hl
    obtain ⟨c, hs, hopen', hrest⟩ := Channel.send_answered hopen hwrite hfirst
    rw [perform_answered hc hs, channel_put_self]
    exact ⟨rfl, Call.meaning_of_malformed, Call.meaning_of_refused hc, hopen', hrest⟩

/-- The two lines do not know of each other. Each carries its own commands and their replies in strict turns; what
becomes of it, and the answers over it, are the same in every run with the same calls to it and the same other end. What
a call reports is that the registry is not available, or that its message is broken. -/
theorem lines_keep_apart (s : Client) (calls : List Call) (line : Line) :
    Orderly line calls s (performAll calls s).1 (performAll calls s).2 ∧
      (∀ (s' : Client) (calls' : List Call), s'.channel line = s.channel line →
        calls'.filter (Call.concerns line) = calls.filter (Call.concerns line) →
        (performAll calls' s').2.channel line = (performAll calls s).2.channel line ∧
          answersOver line (performAll calls' s').1 = answersOver line (performAll calls s).1) ∧
      ∀ r ∈ (performAll calls s).1, r.call ≠ .close → ∀ fault, r.answer = .error fault → fault.ofRegistry = true := by
  refine ⟨performAll_orderly line calls s, ?_, ?_⟩
  · intro s' calls' hs hcalls
    obtain ⟨hleft, hanswers⟩ := performAll_concerned calls (rfl : s.channel line = s.channel line)
    obtain ⟨hleft', hanswers'⟩ := performAll_concerned calls' hs
    rw [hcalls] at hleft' hanswers'
    exact ⟨hleft'.trans hleft.symm, hanswers'.trans hanswers.symm⟩
  · intro r hr hc fault h
    exact performAll_fault calls hr hc h

/-- A registry that answers placements with bytes that are no reply and then with yes, and no look-up at all. -/
def halfDeaf : Client where
  control :=
    { address := "control"
      stream := { inflow := { chunks := [.mk (Frame.bytes "yes".toUTF8 ++ Cluster.agreement).toArray] } } }
  benchmark := { address := "benchmark", stream := {} }

def attempts : List Call := [.place "a" "user1", .locate "user1", .place "b" "user1"]

/-- Its control line outlives a reply that is none and the loss of the other line. -/
theorem a_line_outlives_the_other :
    ((performAll attempts halfDeaf).1.map fun r => r.answer.toOption.isSome) = [false, false, true] ∧
      ((performAll attempts halfDeaf).2.channel .benchmark).isOpen = false ∧
      ((performAll attempts halfDeaf).2.channel .control).sent =
        [Command.place "a" "user1", .place "b" "user1"].flatMap Command.frame := by
  have outcome : ((performAll attempts halfDeaf).1.map fun r => r.answer.toOption.isSome) = [false, false, true] ∧
      ((performAll attempts halfDeaf).2.channel .benchmark).isOpen = false ∧
      ((performAll attempts halfDeaf).2.channel .control).isOpen = true := by decide +kernel
  obtain ⟨hanswers, hbenchmark, hcontrol⟩ := outcome
  obtain ⟨hsent, -⟩ := (lines_keep_apart halfDeaf attempts .control).1.answered hcontrol
  have hcommands : commandsOver .control attempts = [.place "a" "user1", .place "b" "user1"] := rfl
  rw [hcommands] at hsent
  exact ⟨hanswers, hbenchmark, hsent.trans (List.nil_append _)⟩

end Client

end Registry

end Placement
