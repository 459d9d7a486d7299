import Komari.Run.Numbered
import Komari.TrafficReset.Schedule

/-!
# Remote sessions

A terminal session carries commands from a browser to an agent, and events back.  Both have numbers of
their own.  Commands are kept until the agent accepts them, events until the browser acknowledges them.
-/

namespace Komari

namespace Remote

/-- A detached session is kept so long. -/
def leaseDuration : ℤ := 30 * TrafficReset.nanosPerSecond

def maxBufferedOutput : ℕ := 8 * 2 ^ 20

def maxBufferedCommands : ℕ := 1024

def two64 : ℕ := 2 ^ 64

/-- The errors of the package. -/
inductive SessionError
  /-- `ErrClosed` -/
  | closed
  /-- `ErrSequence` -/
  | sequence
  /-- `ErrOutputLimit` -/
  | outputLimit
  /-- `ErrInvalidLease` -/
  | invalidLease
  /-- `ErrCommandBacklog` -/
  | commandBacklog
  | empty
deriving DecidableEq

/-- Why and when a session ended. -/
structure SessionClosed where
  reason : ℕ
  closedAt : Option ℤ
deriving DecidableEq

/-- What an agent sends. -/
inductive EventContent
  | output (data : List UInt8)
  /-- A part of a file. -/
  | file (data : List UInt8)
  /-- The agent closes the session. -/
  | closed (value : SessionClosed)
deriving DecidableEq

/-- The bytes that are buffered. -/
def EventContent.payload : EventContent → ℕ
  | .output data => data.length
  | .file data => data.length
  | .closed _ => 0

/-- `AgentSessionEvent`: what an agent reports. -/
structure AgentSessionEvent where
  sequence : ℕ
  /-- The agent has accepted the commands up to this number. -/
  acceptedCommandSequence : ℕ
  occurredAt : Option ℤ
  event : Option EventContent

/-- `SessionEvent`: what the browser gets. -/
structure SessionEvent where
  sequence : ℕ
  occurredAt : ℤ
  event : EventContent
deriving DecidableEq

/-- A command and its number. -/
structure NumberedCommand (γ : Type) where
  sequence : ℕ
  command : γ
deriving DecidableEq

/-- `Session`, the fields that its operations read or write. -/
structure Session (γ : Type) where
  agentID : String
  assignmentID : String
  leaseExpiresAt : ℤ
  attached : Bool
  closed : Option SessionClosed
  commandSeq : ℕ
  agentSeq : ℕ
  /-- Commands that were not accepted by the agent. -/
  commands : List (NumberedCommand γ)
  events : List SessionEvent
  bufferedOutput : ℕ

/-- What an operation returns: a number and an error. -/
abbrev Reply := ℕ × Option SessionError

section Operations

variable {γ : Type}

/-- `Create`. -/
def createSession (agentID assignmentID : String) : Session γ where
  agentID := agentID
  assignmentID := assignmentID
  leaseExpiresAt := TrafficReset.zeroTime
  attached := false
  closed := none
  commandSeq := 0
  agentSeq := 0
  commands := []
  events := []
  bufferedOutput := 0

/-- `Lease`, at the session. -/
def lease (now : ℤ) (s : Session γ) : Session γ :=
  if s.closed = none ∧ s.attached = false ∧ ¬now < s.leaseExpiresAt then
    { s with leaseExpiresAt := now + leaseDuration }
  else s

/-- An agent takes the session. -/
def attach (agentID assignmentID : String) (now : ℤ) (s : Session γ) :
    Option SessionError × Session γ :=
  if s.agentID ≠ agentID ∨ s.assignmentID ≠ assignmentID ∨ ¬now < s.leaseExpiresAt then
    (some .invalidLease, s)
  else if s.closed ≠ none then (some .closed, s)
  else if s.attached then (some .invalidLease, s)
  else (none, { s with attached := true })

/-- The agent leaves, and the lease begins. -/
def detach (s : Session γ) : Session γ :=
  if s.closed = none then { s with attached := false, leaseExpiresAt := TrafficReset.zeroTime } else s

/-- A command from the browser. -/
def enqueueCommand (sequence : ℕ) (command : γ) (s : Session γ) : Reply × Session γ :=
  if s.closed ≠ none then ((s.commandSeq, some .closed), s)
  else if sequence = 0 ∨ (s.commandSeq + 1) % two64 < sequence then ((s.commandSeq, some .sequence), s)
  else if sequence ≤ s.commandSeq then ((s.commandSeq, none), s)
  else if maxBufferedCommands ≤ s.commands.length then ((s.commandSeq, some .commandBacklog), s)
  else
    ((sequence, none),
      { s with commandSeq := sequence, commands := s.commands ++ [⟨sequence, command⟩] })

/-- What `NextCommand` finds. -/
inductive CommandAnswer (γ : Type)
  | command (item : NumberedCommand γ)
  | closed (sequence reason : ℕ)
  | waits

/-- `NextCommand`, each time it looks. -/
def nextCommand (after : ℕ) (s : Session γ) : CommandAnswer γ :=
  match s.commands.find? fun item => after < item.sequence with
  | some item => .command item
  | none =>
    match s.closed with
    | some closed => .closed ((s.commandSeq + 1) % two64) closed.reason
    | none => .waits

/-- The agent has taken commands. -/
def acceptCommands (accepted : ℕ) (s : Session γ) : Session γ :=
  if 0 < accepted then
    { s with commands := s.commands.filter fun item => accepted < item.sequence }
  else s

section AcceptCommands

variable (accepted : ℕ) (s : Session γ)

@[simp] theorem commandSeq_acceptCommands : (acceptCommands accepted s).commandSeq = s.commandSeq := by
  unfold acceptCommands
  split_ifs <;> rfl

@[simp] theorem agentSeq_acceptCommands : (acceptCommands accepted s).agentSeq = s.agentSeq := by
  unfold acceptCommands
  split_ifs <;> rfl

@[simp] theorem events_acceptCommands : (acceptCommands accepted s).events = s.events := by
  unfold acceptCommands
  split_ifs <;> rfl

@[simp] theorem bufferedOutput_acceptCommands :
    (acceptCommands accepted s).bufferedOutput = s.bufferedOutput := by
  unfold acceptCommands
  split_ifs <;> rfl

@[simp] theorem closed_acceptCommands : (acceptCommands accepted s).closed = s.closed := by
  unfold acceptCommands
  split_ifs <;> rfl

end AcceptCommands

/-- An event from the agent. -/
def appendAgentEvent (event : Option AgentSessionEvent) (now : ℤ) (s : Session γ) :
    Reply × Session γ :=
  match event with
  | none => ((0, some .sequence), s)
  | some event =>
    if event.sequence = 0 ∧ event.acceptedCommandSequence = 0 then ((0, some .sequence), s)
    else if s.commandSeq < event.acceptedCommandSequence then ((s.agentSeq, some .sequence), s)
    else
      let s := acceptCommands event.acceptedCommandSequence s
      if event.sequence = 0 ∧ event.event = none then ((s.agentSeq, none), s)
      else if event.sequence ≤ s.agentSeq then ((s.agentSeq, none), s)
      else if event.sequence ≠ (s.agentSeq + 1) % two64 then ((s.agentSeq, some .sequence), s)
      else
        let buffered := (event.event.map EventContent.payload).getD 0
        if maxBufferedOutput < buffered + s.bufferedOutput then ((s.agentSeq, some .outputLimit), s)
        else
          let s := { s with bufferedOutput := s.bufferedOutput + buffered }
          match event.event with
          | none => ((s.agentSeq, some .empty), s)
          | some content =>
            let s := match content with
              | .closed value => { s with closed := some value }
              | _ => s
            ((event.sequence, none),
              { s with
                agentSeq := event.sequence,
                events := s.events ++ [⟨event.sequence, event.occurredAt.getD now, content⟩] })

/-- The bytes of an event are released. -/
def release (bufferedOutput released : ℕ) : ℕ :=
  if bufferedOutput ≤ released then 0 else bufferedOutput - released

/-- The browser has taken events. -/
def acknowledgeEvents (sequence : ℕ) (s : Session γ) : Reply × Session γ :=
  if s.agentSeq < sequence then ((s.agentSeq, some .sequence), s)
  else
    ((sequence, none),
      { s with
        events := s.events.filter fun event => sequence < event.sequence,
        bufferedOutput := s.events.foldl (fun buffered event =>
          if sequence < event.sequence then buffered
          else release buffered event.event.payload) s.bufferedOutput })

/-- What `NextEvent` finds. -/
inductive EventAnswer
  | event (item : SessionEvent)
  /-- `ErrClosed` -/
  | closed
  | waits

/-- `NextEvent`, each time it looks. -/
def nextEvent (after : ℕ) (s : Session γ) : EventAnswer :=
  match s.events.find? fun event => after < event.sequence with
  | some event => .event event
  | none => if s.closed ≠ none then .closed else .waits

/-- `Close`. -/
def closeSession (reason : ℕ) (now : ℤ) (s : Session γ) : Session γ :=
  if s.closed = none then
    { s with closed := some ⟨reason, some now⟩, commands := [], events := [], bufferedOutput := 0 }
  else s

/-! ### What the operations do -/

theorem enqueueCommand_cases (sequence : ℕ) (command : γ) (s : Session γ) :
    (enqueueCommand sequence command s).2 = s ∨
      (s.closed = none ∧ sequence = s.commandSeq + 1 ∧
        enqueueCommand sequence command s = ((sequence, none),
          { s with commandSeq := sequence, commands := s.commands ++ [⟨sequence, command⟩] })) := by
  unfold enqueueCommand
  split_ifs with hclosed hsequence hknown hbacklog
  · exact Or.inl rfl
  · exact Or.inl rfl
  · exact Or.inl rfl
  · exact Or.inl rfl
  · refine Or.inr ⟨not_not.mp hclosed, ?_, rfl⟩
    obtain ⟨-, hle⟩ := not_or.mp hsequence
    have := Nat.mod_le (s.commandSeq + 1) two64
    omega

/-- An event that the agent reports is new: it has the next number, a content, and room. -/
structure AgentSessionEvent.New (event : AgentSessionEvent) (s : Session γ) : Prop where
  accepted : event.acceptedCommandSequence ≤ s.commandSeq
  next : event.sequence = (s.agentSeq + 1) % two64
  later : s.agentSeq < event.sequence
  content : event.event ≠ none
  room : (event.event.map EventContent.payload).getD 0 + s.bufferedOutput ≤ maxBufferedOutput

instance (event : AgentSessionEvent) (s : Session γ) : Decidable (event.New s) :=
  decidable_of_iff (event.acceptedCommandSequence ≤ s.commandSeq ∧
      event.sequence = (s.agentSeq + 1) % two64 ∧ s.agentSeq < event.sequence ∧
        event.event ≠ none ∧
          (event.event.map EventContent.payload).getD 0 + s.bufferedOutput ≤ maxBufferedOutput)
    ⟨fun ⟨h₁, h₂, h₃, h₄, h₅⟩ => ⟨h₁, h₂, h₃, h₄, h₅⟩,
      fun ⟨h₁, h₂, h₃, h₄, h₅⟩ => ⟨h₁, h₂, h₃, h₄, h₅⟩⟩

/-- What an event of the agent does to the session. -/
inductive Appends (event : Option AgentSessionEvent) (now : ℤ) (s : Session γ) :
    Reply × Session γ → Prop
  /-- No event is taken; commands may be accepted. -/
  | refuses (reply : Reply) (accepted : ℕ)
      (reported : accepted = 0 ∨ ∃ report, event = some report ∧ accepted = report.acceptedCommandSequence) :
      Appends event now s (reply, acceptCommands accepted s)
  | takes (report : AgentSessionEvent) (content : EventContent) (closed : Option SessionClosed)
      (reported : event = some report) (isNew : report.New s) (has : report.event = some content)
      (keeps : s.closed ≠ none → closed ≠ none) :
      Appends event now s ((report.sequence, none),
        { acceptCommands report.acceptedCommandSequence s with
          bufferedOutput := (acceptCommands report.acceptedCommandSequence s).bufferedOutput +
            content.payload,
          closed := closed, agentSeq := report.sequence,
          events := (acceptCommands report.acceptedCommandSequence s).events ++
            [⟨report.sequence, report.occurredAt.getD now, content⟩] })

/-- **An event is taken exactly when it is new.** -/
theorem appends (event : Option AgentSessionEvent) (now : ℤ) (s : Session γ) :
    Appends event now s (appendAgentEvent event now s) := by
  unfold appendAgentEvent
  cases event with
  | none => exact .refuses (0, some .sequence) 0 (Or.inl rfl)
  | some report =>
    dsimp only
    by_cases hzero : report.sequence = 0 ∧ report.acceptedCommandSequence = 0
    · rw [if_pos hzero]
      exact .refuses (0, some .sequence) 0 (Or.inl rfl)
    rw [if_neg hzero]
    by_cases hahead : s.commandSeq < report.acceptedCommandSequence
    · rw [if_pos hahead]
      exact .refuses (s.agentSeq, some .sequence) 0 (Or.inl rfl)
    rw [if_neg hahead]
    have hrefuses : ∀ reply, Appends (some report) now s
        (reply, acceptCommands report.acceptedCommandSequence s) := fun reply =>
      .refuses reply _ (Or.inr ⟨report, rfl, rfl⟩)
    have htakes : ∀ content closed, report.New s → report.event = some content →
        (s.closed ≠ none → closed ≠ none) → Appends (some report) now s _ :=
      fun content closed hnew hcontent hkeeps =>
        .takes report content closed rfl hnew hcontent hkeeps
    have hseq := agentSeq_acceptCommands report.acceptedCommandSequence s
    have hbuffered := bufferedOutput_acceptCommands report.acceptedCommandSequence s
    have hclosed := closed_acceptCommands report.acceptedCommandSequence s
    generalize acceptCommands report.acceptedCommandSequence s = s' at hrefuses htakes hseq hbuffered hclosed
    split_ifs with hsilent hknown hgap hroom
    · exact hrefuses _
    · exact hrefuses _
    · exact hrefuses _
    · exact hrefuses _
    · cases hcontent : report.event with
      | none => exact hrefuses (s'.agentSeq, some .empty)
      | some content =>
        rw [hcontent] at hroom
        have hnew : report.New s := by
          refine ⟨by omega, by rw [← hseq]; omega, by omega, by rw [hcontent]; simp, ?_⟩
          rw [hcontent, ← hbuffered]
          omega
        -- only an agent that closes the session changes more
        cases content with
        | output data => exact htakes _ s'.closed hnew hcontent (fun h => hclosed ▸ h)
        | file data => exact htakes _ s'.closed hnew hcontent (fun h => hclosed ▸ h)
        | closed value => exact htakes _ (some value) hnew hcontent (fun _ => Option.some_ne_none value)

end Operations

end Remote

end Komari
