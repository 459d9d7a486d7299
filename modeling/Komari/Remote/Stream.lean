import Komari.Remote.Session
import Komari.Run.Along
import Mathlib.Algebra.Order.BigOperators.Group.List

/-!
# The streams of a remote session

Operations on a session come in any order.  One agent receives the commands and one browser watches the
events, each asking for what comes after its last item; others ask for anything.

* `session_streams` : the three, in runs that are quiet after `Close`.
* `reported_after_close` : an event that is reported after `Close` is taken and delivered.
-/

namespace Komari

namespace Remote

open Run (Numbered Buffers Follows Complete Retains cursor)

/-- What an operation answered. -/
structure OpRecord where
  /-- `Close` had returned before it. -/
  closed : Bool
  error : Bool
  /-- It took a command or an event. -/
  accepts : Bool
  /-- It delivered a command or an event. -/
  delivers : Bool
deriving DecidableEq

/-- A session, and what happened to it. -/
structure SessionRun (γ : Type) where
  session : Session γ
  commands : List (NumberedCommand γ)
  events : List SessionEvent
  received : List (NumberedCommand γ)
  watched : List SessionEvent
  /-- `Close` has returned. -/
  closed : Bool
  records : List OpRecord

/-- The operations of a session. -/
inductive SessionOp (γ : Type)
  | lease (now : ℤ)
  | attach (agentID assignmentID : String) (now : ℤ)
  | detach
  | enqueueCommand (sequence : ℕ) (command : γ)
  | nextCommand (after : ℕ)
  /-- `NextCommand` of the agent, after its last command. -/
  | receive
  | appendAgentEvent (event : Option AgentSessionEvent) (now : ℤ)
  | acknowledgeEvents (sequence : ℕ)
  | nextEvent (after : ℕ)
  /-- `NextEvent` of the browser, after its last event. -/
  | watch
  /-- `Close`, from the owner, the sweeper or a cancelled grant. -/
  | close (reason : ℕ) (now : ℤ)

variable {γ : Type}

/-- The number of the agent's last command. -/
def SessionRun.commandCursor (run : SessionRun γ) : ℕ :=
  cursor NumberedCommand.sequence run.received

/-- The number of the browser's last event. -/
def SessionRun.eventCursor (run : SessionRun γ) : ℕ := cursor SessionEvent.sequence run.watched

/-- The answer is put down. -/
def SessionRun.returns (run : SessionRun γ) (error accepts delivers : Bool) : SessionRun γ :=
  { run with records := run.records ++ [⟨run.closed, error, accepts, delivers⟩] }

/-- The command, if it was taken. -/
def CommandAnswer.item : CommandAnswer γ → Option (NumberedCommand γ)
  | .command item => some item
  | _ => none

/-- The event, if it was taken. -/
def EventAnswer.item : EventAnswer → Option SessionEvent
  | .event item => some item
  | _ => none

/-- The operations. -/
def SessionOp.step (run : SessionRun γ) : SessionOp γ → SessionRun γ
  | .lease now => { run with session := Remote.lease now run.session }.returns false false false
  | .attach agentID assignmentID now =>
    let (error, session) := Remote.attach agentID assignmentID now run.session
    { run with session := session }.returns error.isSome false false
  | .detach => { run with session := Remote.detach run.session }.returns false false false
  | .enqueueCommand sequence command =>
    let (reply, session) := Remote.enqueueCommand sequence command run.session
    let accepts := decide (session.commandSeq ≠ run.session.commandSeq)
    let run := run.returns reply.2.isSome accepts false
    { run with
      session := session,
      commands := if accepts then run.commands ++ session.commands.getLast?.toList else run.commands }
  | .nextCommand after => run.returns false false (Remote.nextCommand after run.session).item.isSome
  | .receive =>
    let item := (Remote.nextCommand run.commandCursor run.session).item
    let run := run.returns false false item.isSome
    { run with received := run.received ++ item.toList }
  | .appendAgentEvent event now =>
    let (reply, session) := Remote.appendAgentEvent event now run.session
    let accepts := decide (session.agentSeq ≠ run.session.agentSeq)
    let run := run.returns reply.2.isSome accepts false
    { run with
      session := session,
      events := if accepts then run.events ++ session.events.getLast?.toList else run.events }
  | .acknowledgeEvents sequence =>
    let (reply, session) := Remote.acknowledgeEvents sequence run.session
    { run with session := session }.returns reply.2.isSome false false
  | .nextEvent after => run.returns false false (Remote.nextEvent after run.session).item.isSome
  | .watch =>
    let item := (Remote.nextEvent run.eventCursor run.session).item
    let run := run.returns false false item.isSome
    { run with watched := run.watched ++ item.toList }
  | .close reason now =>
    { run.returns false false false with
      session := closeSession reason now run.session, closed := true }

/-- Nothing happened. -/
def SessionRun.start (agentID assignmentID : String) : SessionRun γ :=
  ⟨createSession agentID assignmentID, [], [], [], [], false, []⟩

/-! ### Properties -/

/-- The buffered bytes of some events. -/
def payloads (events : List SessionEvent) : ℕ := (events.map fun event => event.event.payload).sum

/-- The items have the numbers 1, 2, 3, …; each consumer gets items in this order, none twice; the buffer
counts its bytes; and an operation that fails takes nothing. -/
structure Ordered (run : SessionRun γ) : Prop where
  commands : Numbered NumberedCommand.sequence run.commands
  events : Numbered SessionEvent.sequence run.events
  received : run.received.Sublist run.commands
  watched : run.watched.Sublist run.events
  buffered : run.session.bufferedOutput = payloads run.session.events
  limited : run.session.bufferedOutput ≤ maxBufferedOutput
  failed : ∀ record ∈ run.records, record.error = true → record.accepts = false

/-- After `Close` nothing is taken and nothing is delivered. -/
def Silent (run : SessionRun γ) : Prop :=
  ∀ record ∈ run.records, record.closed = true → record.accepts = false ∧ record.delivers = false

/-- The agent and the browser have got all items up to their last ones, and until `Close` they get the
next one when they ask. -/
structure Delivered (run : SessionRun γ) : Prop where
  received : run.received <+: run.commands
  watched : run.watched <+: run.events
  nextCommand : run.closed = false → ∀ item, run.commands[run.received.length]? = some item →
    Remote.nextCommand run.commandCursor run.session = .command item
  nextEvent : run.closed = false → ∀ item, run.events[run.watched.length]? = some item →
    Remote.nextEvent run.eventCursor run.session = .event item

/-- After `Close` the agent reports nothing new; and a session that the agent has closed itself is closed
when its buffers are empty. -/
def Quiet (run : SessionRun γ) (op : SessionOp γ) : Prop :=
  match op with
  | .appendAgentEvent event _ => run.closed = true → ∀ report ∈ event, ¬report.New run.session
  | .close _ _ => run.session.closed ≠ none →
      run.session.commands = [] ∧ run.session.events = []
  | _ => True

instance (run : SessionRun γ) (op : SessionOp γ) : Decidable (Quiet run op) := by
  unfold Quiet
  split
  · infer_instance
  · have : Decidable (run.session.commands = []) := decidable_of_iff _ List.isEmpty_iff
    have : Decidable (run.session.events = []) := decidable_of_iff _ List.isEmpty_iff
    infer_instance
  · exact inferInstanceAs (Decidable True)

/-- The agent accepts commands that it has received, and the browser acknowledges events that it has
watched. -/
def Acknowledges (run : SessionRun γ) (op : SessionOp γ) : Prop :=
  match op with
  | .appendAgentEvent event _ => ∀ report ∈ event, report.acceptedCommandSequence ≤ run.commandCursor
  | .acknowledgeEvents sequence => sequence ≤ run.eventCursor
  | _ => True

instance (run : SessionRun γ) (op : SessionOp γ) : Decidable (Acknowledges run op) := by
  unfold Acknowledges
  split
  · infer_instance
  · infer_instance
  · exact inferInstanceAs (Decidable True)

/-! ### What an operation does -/

/-- The streams and the state of closing are the same. -/
structure SameStreams (s s' : Session γ) : Prop where
  closed : s'.closed = s.closed
  commandSeq : s'.commandSeq = s.commandSeq
  agentSeq : s'.agentSeq = s.agentSeq
  commands : s'.commands = s.commands
  events : s'.events = s.events
  bufferedOutput : s'.bufferedOutput = s.bufferedOutput

theorem SameStreams.refl (s : Session γ) : SameStreams s s := ⟨rfl, rfl, rfl, rfl, rfl, rfl⟩

theorem sameStreams_lease (now : ℤ) (s : Session γ) : SameStreams s (Remote.lease now s) := by
  unfold Remote.lease
  split_ifs
  · exact ⟨rfl, rfl, rfl, rfl, rfl, rfl⟩
  · exact .refl s

theorem sameStreams_attach (agentID assignmentID : String) (now : ℤ) (s : Session γ) :
    SameStreams s (Remote.attach agentID assignmentID now s).2 := by
  unfold Remote.attach
  split_ifs
  · exact .refl s
  · exact .refl s
  · exact .refl s
  · exact ⟨rfl, rfl, rfl, rfl, rfl, rfl⟩

theorem sameStreams_detach (s : Session γ) : SameStreams s (Remote.detach s) := by
  unfold Remote.detach
  split_ifs
  · exact ⟨rfl, rfl, rfl, rfl, rfl, rfl⟩
  · exact .refl s

/-- What an operation does to a run. -/
inductive Moves (run : SessionRun γ) (op : SessionOp γ) : SessionRun γ → Prop
  /-- The streams stay as they are; an item may be read. -/
  | stays (session : Session γ) (error delivers : Bool) (same : SameStreams run.session session)
      (has : delivers = true → run.session.commands ≠ [] ∨ run.session.events ≠ []) :
      Moves run op { run.returns error false delivers with session := session }
  | enqueues (item : NumberedCommand γ) (live : run.session.closed = none)
      (next : item.sequence = run.session.commandSeq + 1) :
      Moves run op { run.returns false true false with
        session := { run.session with
          commandSeq := item.sequence, commands := run.session.commands ++ [item] },
        commands := run.commands ++ [item] }
  /-- The agent receives a command. -/
  | receives (item : NumberedCommand γ)
      (found : run.session.commands.find? (fun item => run.commandCursor < item.sequence) =
        some item) :
      Moves run op { run.returns false false true with received := run.received ++ [item] }
  | accepts (error : Bool) (accepted : ℕ) (reported : accepted = 0 ∨ ∃ report now,
      op = .appendAgentEvent (some report) now ∧ accepted = report.acceptedCommandSequence) :
      Moves run op { run.returns error false false with
        session := acceptCommands accepted run.session }
  | appends (report : AgentSessionEvent) (now : ℤ) (item : SessionEvent)
      (closed : Option SessionClosed) (reported : op = .appendAgentEvent (some report) now)
      (isNew : report.New run.session) (next : item.sequence = run.session.agentSeq + 1)
      (room : run.session.bufferedOutput + item.event.payload ≤ maxBufferedOutput)
      (keeps : run.session.closed ≠ none → closed ≠ none) :
      Moves run op { run.returns false true false with
        session := { acceptCommands report.acceptedCommandSequence run.session with
          bufferedOutput := run.session.bufferedOutput + item.event.payload, closed := closed,
          agentSeq := item.sequence, events := run.session.events ++ [item] },
        events := run.events ++ [item] }
  /-- The browser watches an event. -/
  | watches (item : SessionEvent)
      (found : run.session.events.find? (fun item => run.eventCursor < item.sequence) = some item) :
      Moves run op { run.returns false false true with watched := run.watched ++ [item] }
  | acknowledges (sequence : ℕ) (acknowledged : op = .acknowledgeEvents sequence) :
      Moves run op { run.returns false false false with
        session := (Remote.acknowledgeEvents sequence run.session).2 }
  | closes (reason : ℕ) (now : ℤ) (closed : op = .close reason now) :
      Moves run op { run.returns false false false with
        session := closeSession reason now run.session, closed := true }

theorem nextCommand_item (after : ℕ) (s : Session γ) : (Remote.nextCommand after s).item =
    s.commands.find? fun item => after < item.sequence := by
  unfold Remote.nextCommand
  cases s.commands.find? fun item => decide (after < item.sequence) with
  | some item => rfl
  | none =>
    dsimp only
    cases s.closed <;> rfl

theorem nextEvent_item (after : ℕ) (s : Session γ) : (Remote.nextEvent after s).item =
    s.events.find? fun item => after < item.sequence := by
  unfold Remote.nextEvent
  cases s.events.find? fun event => decide (after < event.sequence) with
  | some item => rfl
  | none =>
    dsimp only
    split_ifs <;> rfl

/-- An item is only found in a buffer that is not empty. -/
theorem ne_nil_of_find? {α : Type} {p : α → Bool} {l : List α} (h : (l.find? p).isSome = true) :
    l ≠ [] := by
  rintro rfl
  cases h

/-- **What an operation does.** -/
theorem SessionOp.moves (run : SessionRun γ) (op : SessionOp γ) : Moves run op (op.step run) := by
  cases op with
  | lease now => exact .stays _ false false (sameStreams_lease now _) (by simp)
  | attach agentID assignmentID now =>
    exact .stays _ _ false (sameStreams_attach agentID assignmentID now _) (by simp)
  | detach => exact .stays _ false false (sameStreams_detach _) (by simp)
  | enqueueCommand sequence command =>
    unfold SessionOp.step
    rcases enqueueCommand_cases sequence command run.session with hsame | ⟨hlive, hnext, htakes⟩
    · dsimp only
      rw [hsame]
      simp only [ne_eq, not_true_eq_false, decide_false, if_false, Bool.false_eq_true]
      exact .stays _ _ false (.refl _) (by simp)
    · dsimp only
      rw [htakes]
      have hne : decide (sequence ≠ run.session.commandSeq) = true := by
        rw [decide_eq_true_eq]
        omega
      dsimp only
      rw [hne, if_pos rfl, List.getLast?_concat]
      exact .enqueues ⟨sequence, command⟩ hlive hnext
  | nextCommand after =>
    refine .stays run.session false _ (.refl _) fun h => Or.inl ?_
    rw [nextCommand_item] at h
    exact ne_nil_of_find? h
  | receive =>
    unfold SessionOp.step
    dsimp only
    rw [nextCommand_item]
    cases hfound : run.session.commands.find? fun item => decide (run.commandCursor < item.sequence) with
    | none =>
      simp only [Option.isSome_none, Option.toList_none, List.append_nil]
      exact .stays run.session false false (.refl _) (by simp)
    | some item => exact .receives item hfound
  | appendAgentEvent event now =>
    unfold SessionOp.step
    have happends := appends event now run.session
    dsimp only
    generalize Remote.appendAgentEvent event now run.session = result at happends
    cases happends with
    | refuses reply accepted reported =>
      dsimp only
      rw [agentSeq_acceptCommands]
      simp only [ne_eq, not_true_eq_false, decide_false, if_false, Bool.false_eq_true]
      refine .accepts _ accepted ?_
      rcases reported with hzero | ⟨report, rfl, haccepted⟩
      · exact Or.inl hzero
      · exact Or.inr ⟨report, now, rfl, haccepted⟩
    | takes report content closed reported isNew has keeps =>
      subst reported
      have hnext : report.sequence = run.session.agentSeq + 1 := by
        have := Nat.mod_le (run.session.agentSeq + 1) two64
        have := isNew.next
        have := isNew.later
        omega
      have hne : decide (report.sequence ≠ run.session.agentSeq) = true := by
        rw [decide_eq_true_eq]
        omega
      have hroom := isNew.room
      rw [has] at hroom
      dsimp only
      rw [hne, if_pos rfl, List.getLast?_concat, events_acceptCommands, bufferedOutput_acceptCommands]
      exact .appends report now ⟨report.sequence, report.occurredAt.getD now, content⟩ closed rfl isNew
        hnext (by rw [Nat.add_comm]; exact hroom) keeps
  | acknowledgeEvents sequence =>
    unfold SessionOp.step
    dsimp only
    by_cases hahead : run.session.agentSeq < sequence
    · have hrefuses : Remote.acknowledgeEvents sequence run.session =
          ((run.session.agentSeq, some .sequence), run.session) := if_pos hahead
      rw [hrefuses]
      exact .stays run.session true false (.refl _) (by simp)
    · have herror : (Remote.acknowledgeEvents sequence run.session).1.2 = none := by
        unfold Remote.acknowledgeEvents
        rw [if_neg hahead]
      rw [herror]
      exact .acknowledges sequence rfl
  | nextEvent after =>
    refine .stays run.session false _ (.refl _) fun h => Or.inr ?_
    rw [nextEvent_item] at h
    exact ne_nil_of_find? h
  | watch =>
    unfold SessionOp.step
    dsimp only
    rw [nextEvent_item]
    cases hfound : run.session.events.find? fun item => decide (run.eventCursor < item.sequence) with
    | none =>
      simp only [Option.isSome_none, Option.toList_none, List.append_nil]
      exact .stays run.session false false (.refl _) (by simp)
    | some item => exact .watches item hfound
  | close reason now => exact .closes reason now rfl

/-! ### Numbers and bytes -/

@[simp] theorem payloads_cons (item : SessionEvent) (events : List SessionEvent) :
    payloads (item :: events) = item.event.payload + payloads events := by
  simp [payloads]

theorem payloads_append (events : List SessionEvent) (item : SessionEvent) :
    payloads (events ++ [item]) = payloads events + item.event.payload := by
  simp [payloads]

/-- The releases leave the bytes of the events that stay. -/
theorem foldl_release (sequence : ℕ) (events : List SessionEvent) (rest : ℕ) :
    events.foldl (fun buffered event => if sequence < event.sequence then buffered
      else release buffered event.event.payload) (payloads events + rest) =
        payloads (events.filter fun event => sequence < event.sequence) + rest := by
  induction events generalizing rest with
  | nil => rfl
  | cons event events ih =>
    rw [List.foldl_cons, payloads_cons]
    by_cases hkept : sequence < event.sequence
    · rw [if_pos hkept, List.filter_cons_of_pos (by simpa using hkept), payloads_cons, Nat.add_assoc,
        Nat.add_left_comm, ih]
      omega
    · have hrelease : release (event.event.payload + payloads events + rest) event.event.payload =
          payloads events + rest := by
        unfold release
        split_ifs <;> omega
      rw [if_neg hkept, hrelease, ih, List.filter_cons_of_neg (by simpa using hkept)]

/-- What holds in every run: the buffers hold the ends of the streams, and the session knows the last
numbers. -/
structure Numbers (run : SessionRun γ) : Prop where
  commands : Numbered NumberedCommand.sequence run.commands
  events : Numbered SessionEvent.sequence run.events
  commandSeq : run.session.commandSeq = run.commands.length
  agentSeq : run.session.agentSeq = run.events.length
  commandsBuffered : Buffers run.commands run.session.commands
  eventsBuffered : Buffers run.events run.session.events
  received : Follows NumberedCommand.sequence run.commands run.received
  watched : Follows SessionEvent.sequence run.events run.watched
  buffered : run.session.bufferedOutput = payloads run.session.events
  limited : run.session.bufferedOutput ≤ maxBufferedOutput
  failed : ∀ record ∈ run.records, record.error = true → record.accepts = false

variable {run : SessionRun γ}

theorem Numbers.ordered (h : Numbers run) : Ordered run :=
  ⟨h.commands, h.events, h.received.sublist.trans (List.take_sublist _ _),
    h.watched.sublist.trans (List.take_sublist _ _), h.buffered, h.limited, h.failed⟩

theorem failed_append (h : Numbers run) {record : OpRecord}
    (hrecord : record.error = true → record.accepts = false) :
    ∀ record' ∈ run.records ++ [record], record'.error = true → record'.accepts = false :=
  List.forall_mem_append.mpr ⟨h.failed, List.forall_mem_singleton.mpr hrecord⟩

theorem Buffers.acceptCommands (h : Numbers run) (accepted : ℕ) :
    Buffers run.commands (Remote.acceptCommands accepted run.session).commands := by
  unfold Remote.acceptCommands
  split_ifs
  · exact h.commandsBuffered.filter h.commands accepted
  · exact h.commandsBuffered

/-- **Every operation keeps the numbers.** -/
theorem Numbers.moves {run' : SessionRun γ} {op : SessionOp γ} (h : Numbers run)
    (hmoves : Moves run op run') : Numbers run' := by
  cases hmoves with
  | stays session error delivers same has =>
    exact ⟨h.commands, h.events, same.commandSeq.trans h.commandSeq, same.agentSeq.trans h.agentSeq,
      same.commands ▸ h.commandsBuffered, same.events ▸ h.eventsBuffered, h.received, h.watched,
      by rw [same.bufferedOutput, same.events]; exact h.buffered, same.bufferedOutput ▸ h.limited,
      failed_append h fun _ => rfl⟩
  | enqueues item live next =>
    have hseq : item.sequence = run.commands.length + 1 := by rw [next, h.commandSeq]
    exact ⟨h.commands.append hseq, h.events, by simpa using hseq, h.agentSeq,
      h.commandsBuffered.append item, h.eventsBuffered, h.received.append item, h.watched, h.buffered,
      h.limited, failed_append h fun herror => by cases herror⟩
  | receives item found =>
    exact ⟨h.commands, h.events, h.commandSeq, h.agentSeq, h.commandsBuffered, h.eventsBuffered,
      h.received.see h.commands h.commandsBuffered found, h.watched, h.buffered, h.limited,
      failed_append h fun _ => rfl⟩
  | accepts error accepted reported =>
    refine ⟨h.commands, h.events, ?_, ?_, Buffers.acceptCommands h accepted, ?_, h.received, h.watched,
      ?_, ?_, failed_append h fun _ => rfl⟩
    · exact (commandSeq_acceptCommands _ _).trans h.commandSeq
    · exact (agentSeq_acceptCommands _ _).trans h.agentSeq
    · show Buffers run.events (Remote.acceptCommands accepted run.session).events
      rw [events_acceptCommands]
      exact h.eventsBuffered
    · show (Remote.acceptCommands accepted run.session).bufferedOutput = _
      rw [bufferedOutput_acceptCommands, events_acceptCommands]
      exact h.buffered
    · show (Remote.acceptCommands accepted run.session).bufferedOutput ≤ _
      rw [bufferedOutput_acceptCommands]
      exact h.limited
  | appends report now item closed reported isNew next room keeps =>
    have hseq : item.sequence = run.events.length + 1 := by rw [next, h.agentSeq]
    refine ⟨h.commands, h.events.append hseq, ?_, by simpa using hseq,
      Buffers.acceptCommands h _, h.eventsBuffered.append item, h.received, h.watched.append item,
      ?_, room, failed_append h fun herror => by cases herror⟩
    · exact (commandSeq_acceptCommands _ _).trans h.commandSeq
    · show run.session.bufferedOutput + _ = _
      rw [payloads_append, h.buffered]
  | watches item found =>
    exact ⟨h.commands, h.events, h.commandSeq, h.agentSeq, h.commandsBuffered, h.eventsBuffered,
      h.received, h.watched.see h.events h.eventsBuffered found, h.buffered, h.limited,
      failed_append h fun _ => rfl⟩
  | acknowledges sequence acknowledged =>
    unfold Remote.acknowledgeEvents
    split_ifs with hahead
    · exact ⟨h.commands, h.events, h.commandSeq, h.agentSeq, h.commandsBuffered, h.eventsBuffered,
        h.received, h.watched, h.buffered, h.limited, failed_append h fun _ => rfl⟩
    · have hreleased := foldl_release sequence run.session.events 0
      rw [Nat.add_zero, Nat.add_zero, ← h.buffered] at hreleased
      refine ⟨h.commands, h.events, h.commandSeq, h.agentSeq, h.commandsBuffered,
        h.eventsBuffered.filter h.events sequence, h.received, h.watched, hreleased, ?_,
        failed_append h fun _ => rfl⟩
      dsimp only
      rw [hreleased]
      have hsub : payloads (run.session.events.filter fun event => sequence < event.sequence) ≤
          payloads run.session.events :=
        List.Sublist.sum_le_sum (List.filter_sublist.map _) fun _ _ => Nat.zero_le _
      exact hsub.trans (h.buffered ▸ h.limited)
  | closes reason now closed =>
    unfold Remote.closeSession
    split_ifs
    · exact ⟨h.commands, h.events, h.commandSeq, h.agentSeq, Run.buffers_nil, Run.buffers_nil,
        h.received, h.watched, rfl, Nat.zero_le _, failed_append h fun _ => rfl⟩
    · exact ⟨h.commands, h.events, h.commandSeq, h.agentSeq, h.commandsBuffered, h.eventsBuffered,
        h.received, h.watched, h.buffered, h.limited, failed_append h fun _ => rfl⟩

/-! ### After the end -/

/-- After `Close` the session is closed, and its buffers are empty. -/
structure Hushed (run : SessionRun γ) : Prop where
  ended : run.closed = true → run.session.closed ≠ none ∧ run.session.commands = [] ∧
    run.session.events = []
  silent : Silent run

theorem silent_append (h : Silent run) {record : OpRecord}
    (hrecord : record.closed = true → record.accepts = false ∧ record.delivers = false) :
    ∀ record' ∈ run.records ++ [record],
      record'.closed = true → record'.accepts = false ∧ record'.delivers = false :=
  List.forall_mem_append.mpr ⟨h, List.forall_mem_singleton.mpr hrecord⟩

/-- **A quiet operation keeps the session silent.** -/
theorem Hushed.moves {run' : SessionRun γ} {op : SessionOp γ} (h : Hushed run)
    (hmoves : Moves run op run') (hquiet : Quiet run op) : Hushed run' := by
  cases hmoves with
  | stays session error delivers same has =>
    refine ⟨fun hclosed => ?_, silent_append h.silent fun hclosed => ⟨rfl, ?_⟩⟩
    · show session.closed ≠ none ∧ session.commands = [] ∧ session.events = []
      rw [same.closed, same.commands, same.events]
      exact h.ended hclosed
    · obtain ⟨-, hcommands, hevents⟩ := h.ended hclosed
      cases delivers with
      | false => rfl
      | true =>
        rcases has rfl with hne | hne
        · exact absurd hcommands hne
        · exact absurd hevents hne
  | enqueues item live next =>
    exact ⟨fun hclosed => absurd live (h.ended hclosed).1,
      silent_append h.silent fun hclosed => absurd live (h.ended hclosed).1⟩
  | receives item found =>
    refine ⟨h.ended, silent_append h.silent fun hclosed => ?_⟩
    rw [(h.ended hclosed).2.1] at found
    cases found
  | accepts error accepted reported =>
    refine ⟨fun hclosed => ?_, silent_append h.silent fun _ => ⟨rfl, rfl⟩⟩
    obtain ⟨hended, hcommands, hevents⟩ := h.ended hclosed
    refine ⟨(closed_acceptCommands _ _).trans_ne hended, ?_,
      (events_acceptCommands _ _).trans hevents⟩
    show (Remote.acceptCommands accepted run.session).commands = []
    unfold Remote.acceptCommands
    split_ifs
    · show run.session.commands.filter _ = []
      rw [hcommands]
      rfl
    · exact hcommands
  | appends report now item closed reported isNew next room keeps =>
    subst reported
    exact ⟨fun hclosed => absurd isNew (hquiet hclosed report rfl),
      silent_append h.silent fun hclosed => absurd isNew (hquiet hclosed report rfl)⟩
  | watches item found =>
    refine ⟨h.ended, silent_append h.silent fun hclosed => ?_⟩
    rw [(h.ended hclosed).2.2] at found
    cases found
  | acknowledges sequence acknowledged =>
    refine ⟨fun hclosed => ?_, silent_append h.silent fun _ => ⟨rfl, rfl⟩⟩
    obtain ⟨hended, hcommands, hevents⟩ := h.ended hclosed
    unfold Remote.acknowledgeEvents
    split_ifs
    · exact ⟨hended, hcommands, hevents⟩
    · refine ⟨hended, hcommands, ?_⟩
      show run.session.events.filter _ = []
      rw [hevents]
      rfl
  | closes reason now closed =>
    subst closed
    refine ⟨fun _ => ?_, silent_append h.silent fun _ => ⟨rfl, rfl⟩⟩
    dsimp only
    unfold Remote.closeSession
    split_ifs with hopen
    · exact ⟨Option.some_ne_none _, rfl, rfl⟩
    · exact ⟨hopen, hquiet hopen⟩

/-! ### Consumers -/

/-- The consumers have got everything up to their last items, and nothing was released beyond. -/
structure Kept (run : SessionRun γ) : Prop where
  received : Complete NumberedCommand.sequence run.commands run.received
  watched : Complete SessionEvent.sequence run.events run.watched
  commands : run.closed = false →
    Retains NumberedCommand.sequence run.commands run.session.commands run.received
  events : run.closed = false →
    Retains SessionEvent.sequence run.events run.session.events run.watched

theorem Kept.delivered (h : Kept run) (hnumbers : Numbers run) : Delivered run := by
  refine ⟨?_, ?_, fun hopen item hitem => ?_, fun hopen item hitem => ?_⟩
  · rw [h.received.1]
    exact List.take_prefix _ _
  · rw [h.watched.1]
    exact List.take_prefix _ _
  · have hfound := (h.commands hopen).find? h.received hnumbers.commands
    rw [hitem] at hfound
    unfold Remote.nextCommand SessionRun.commandCursor
    rw [hfound]
  · have hfound := (h.events hopen).find? h.watched hnumbers.events
    rw [hitem] at hfound
    unfold Remote.nextEvent SessionRun.eventCursor
    rw [hfound]

theorem Kept.acceptCommands (h : Kept run) (hnumbers : Numbers run) {accepted : ℕ}
    (hle : accepted ≤ run.commandCursor) (hopen : run.closed = false) :
    Retains NumberedCommand.sequence run.commands
      (Remote.acceptCommands accepted run.session).commands run.received := by
  unfold Remote.acceptCommands
  split_ifs
  · exact (h.commands hopen).filter hnumbers.commands hle
  · exact h.commands hopen

/-- **An operation keeps what the consumers have not got.** -/
theorem Kept.moves {run' : SessionRun γ} {op : SessionOp γ} (h : Kept run)
    (hnumbers : Numbers run) (hhushed : Hushed run) (hmoves : Moves run op run')
    (hacknowledges : Acknowledges run op) : Kept run' := by
  -- an item is only found before `Close`
  have hopen : ∀ {β : Type} {p : β → Bool} {item : β} {buffer : List β},
      (run.closed = true → buffer = []) → buffer.find? p = some item → run.closed = false := by
    intro β p item buffer hempty hfound
    cases hclosed : run.closed with
    | false => rfl
    | true =>
      rw [hempty hclosed] at hfound
      cases hfound
  cases hmoves with
  | stays session error delivers same has =>
    exact ⟨h.received, h.watched, fun hopen => same.commands ▸ h.commands hopen,
      fun hopen => same.events ▸ h.events hopen⟩
  | enqueues item live next =>
    exact ⟨h.received.append item, h.watched, fun hopen => (h.commands hopen).append h.received item,
      h.events⟩
  | receives item found =>
    have hlive := hopen (fun hclosed => (hhushed.ended hclosed).2.1) found
    obtain ⟨hcomplete, hretains⟩ := (h.commands hlive).see h.received hnumbers.commands found
    exact ⟨hcomplete, h.watched, fun _ => hretains, h.events⟩
  | accepts error accepted reported =>
    have hle : accepted ≤ run.commandCursor := by
      rcases reported with rfl | ⟨report, now, rfl, rfl⟩
      · exact Nat.zero_le _
      · exact hacknowledges report rfl
    refine ⟨h.received, h.watched, fun hopen => h.acceptCommands hnumbers hle hopen, fun hopen => ?_⟩
    show Retains _ _ (Remote.acceptCommands accepted run.session).events _
    rw [events_acceptCommands]
    exact h.events hopen
  | appends report now item closed reported isNew next room keeps =>
    subst reported
    exact ⟨h.received, h.watched.append item,
      fun hopen => h.acceptCommands hnumbers (hacknowledges report rfl) hopen,
      fun hopen => (h.events hopen).append h.watched item⟩
  | watches item found =>
    have hlive := hopen (fun hclosed => (hhushed.ended hclosed).2.2) found
    obtain ⟨hcomplete, hretains⟩ := (h.events hlive).see h.watched hnumbers.events found
    exact ⟨h.received, hcomplete, h.commands, fun _ => hretains⟩
  | acknowledges sequence acknowledged =>
    subst acknowledged
    unfold Remote.acknowledgeEvents
    split_ifs
    · exact ⟨h.received, h.watched, h.commands, h.events⟩
    · exact ⟨h.received, h.watched, h.commands,
        fun hopen => (h.events hopen).filter hnumbers.events hacknowledges⟩
  | closes reason now closed =>
    exact ⟨h.received, h.watched, (fun hfalse => by cases hfalse), (fun hfalse => by cases hfalse)⟩

/-! ### Runs -/

theorem numbers_start (agentID assignmentID : String) :
    Numbers (SessionRun.start (γ := γ) agentID assignmentID) :=
  ⟨Run.numbered_nil, Run.numbered_nil, rfl, rfl, Run.buffers_nil, Run.buffers_nil, Run.follows_nil,
    Run.follows_nil, rfl, Nat.zero_le _, by simp [SessionRun.start]⟩

/-- **The streams of a session** are ordered after every sequence of operations.  When these are quiet
after `Close`, nothing is taken and delivered any more; and when also the consumers acknowledge what they
have got, they get everything. -/
theorem session_streams (agentID assignmentID : String) {ops : List (SessionOp γ)}
    (hquiet : Run.Along SessionOp.step Quiet (.start agentID assignmentID) ops)
    (hacknowledges : Run.Along SessionOp.step Acknowledges (.start agentID assignmentID) ops) :
    Ordered (ops.foldl SessionOp.step (.start agentID assignmentID)) ∧
      Silent (ops.foldl SessionOp.step (.start agentID assignmentID)) ∧
        Delivered (ops.foldl SessionOp.step (.start agentID assignmentID)) := by
  have hinvariant : ∀ run op, Numbers run ∧ Hushed run ∧ Kept run →
      Quiet run op ∧ Acknowledges run op →
        Numbers (SessionOp.step run op) ∧ Hushed (SessionOp.step run op) ∧
          Kept (SessionOp.step (γ := γ) run op) := by
    rintro run op ⟨hnumbers, hhushed, hkept⟩ ⟨hquiet, hacknowledges⟩
    have hmoves := op.moves run
    exact ⟨hnumbers.moves hmoves, hhushed.moves hmoves hquiet,
      hkept.moves hnumbers hhushed hmoves hacknowledges⟩
  obtain ⟨hnumbers, hhushed, hkept⟩ := (hquiet.and hacknowledges).invariant hinvariant
    ⟨numbers_start agentID assignmentID, ⟨(fun hclosed => by cases hclosed), (fun record hmem => by cases hmem)⟩,
      ⟨Run.complete_nil, Run.complete_nil, fun _ => ⟨0, Nat.zero_le _, rfl⟩,
        fun _ => ⟨0, Nat.zero_le _, rfl⟩⟩⟩
  exact ⟨hnumbers.ordered, hhushed.silent, hkept.delivered hnumbers⟩

/-- A command and its output, and what comes after `Close`. -/
def outputOps : List (SessionOp String) :=
  [.enqueueCommand 1 "whoami", .receive,
    .appendAgentEvent (some ⟨1, 1, none, some (.output [114, 111, 111, 116])⟩) 0, .watch,
    .acknowledgeEvents 1, .close 1 1, .nextEvent 0, .enqueueCommand 2 "pwd"]

theorem session_streams_output :
    (outputOps.foldl SessionOp.step (.start "agent" "lease")).watched.length = 1 ∧
      Ordered (outputOps.foldl SessionOp.step (.start "agent" "lease")) ∧
        Silent (outputOps.foldl SessionOp.step (.start "agent" "lease")) ∧
          Delivered (outputOps.foldl SessionOp.step (.start "agent" "lease")) :=
  ⟨by decide +kernel, session_streams "agent" "lease" (by decide +kernel) (by decide +kernel)⟩

/-- The agent reports output after `Close`. -/
def reportedOps : List (SessionOp String) :=
  [.close 1 0, .appendAgentEvent (some ⟨1, 0, none, some (.output [114, 111, 111, 116])⟩) 1,
    .nextEvent 0]

/-- **An event that is reported after `Close` is taken and delivered.** -/
theorem reported_after_close :
    Run.Along SessionOp.step Acknowledges (.start "agent" "lease") reportedOps ∧
      ¬Silent (reportedOps.foldl SessionOp.step (.start "agent" "lease")) := by
  refine ⟨by decide +kernel, fun hsilent => ?_⟩
  have hrecord : ⟨true, false, false, true⟩ ∈
      (reportedOps.foldl SessionOp.step (.start "agent" "lease")).records := by decide +kernel
  cases (hsilent _ hrecord rfl).2

end Remote

end Komari
