import Komari.Run.Numbered
import Komari.TrafficReset.Schedule

/-!
# Tasks of the execution store

A task records the events of a command that runs on an agent.  The agent numbers its events; the server
adds events of its own, for a cancellation and for the deadline.
-/

namespace Komari

namespace ExecutionApp

open TrafficReset

/-! ### States -/

/-- `commonv1.OperationState`. -/
inductive OperationState where
  /-- `OPERATION_STATE_UNSPECIFIED`. -/
  | unspecified
  /-- `OPERATION_STATE_QUEUED`. -/
  | queued
  /-- `OPERATION_STATE_RUNNING`. -/
  | running
  /-- `OPERATION_STATE_CANCEL_REQUESTED`. -/
  | cancelRequested
  /-- `OPERATION_STATE_CANCELLED`. -/
  | cancelled
  /-- `OPERATION_STATE_DEADLINE_EXCEEDED`. -/
  | deadlineExceeded
  /-- `OPERATION_STATE_FAILED`. -/
  | failed
  /-- `OPERATION_STATE_SUCCEEDED`. -/
  | succeeded
  | other (number : ℤ)
deriving DecidableEq

/-- The state is a last one. -/
def terminal : OperationState → Bool
  | .cancelled | .deadlineExceeded | .failed | .succeeded => true
  | _ => false

/-- A task may change so. -/
def validTransition (current next : OperationState) : Bool :=
  if terminal next then
    current = .queued || current = .running || current = .cancelRequested
  else
    match current with
    | .queued => next = .running
    | .running | .cancelRequested => next = .running || next = .unspecified
    | _ => false

/-! ### Events and tasks -/

/-- `timestamppb.Timestamp`. -/
structure Timestamp where
  seconds : ℤ
  nanos : ℤ
deriving DecidableEq

/-- `timestamppb.New`. -/
def Timestamp.new (t : ℤ) : Timestamp := ⟨t / nanosPerSecond, t % nanosPerSecond⟩

/-- `IsValid`: from the year 1 to the year 9999. -/
def Timestamp.isValid (t : Timestamp) : Bool :=
  decide (-62135596800 ≤ t.seconds ∧ t.seconds ≤ 253402300799 ∧ 0 ≤ t.nanos ∧
    t.nanos < nanosPerSecond)

/-- `commonv1.ErrorDetail`. -/
structure ErrorDetail where
  code : String
  message : String
deriving DecidableEq

/-- `execv1.ExecutionEvent`. -/
structure Event where
  executionId : String
  sequence : ℕ
  occurredAt : Option Timestamp
  state : OperationState
  output : List UInt8
  exitCode : Option ℤ
  error : Option ErrorDetail
deriving DecidableEq

/-- What `SaveTaskResult` writes to the row of the task. -/
structure TaskResult where
  /-- `result`: the output, and the message that follows it. -/
  result : List UInt8 × String
  /-- `exit_code`. -/
  exitCode : ℤ
  /-- `finished_at`. -/
  finishedAt : ℤ
deriving DecidableEq

/-- The fields of an `execv1.ExecutionSpec` that the store reads. -/
structure Spec where
  command : String
  arguments : List String
  timeout : ℤ
  maxOutputBytes : ℕ
deriving DecidableEq

/-- `Task`, with the fields of its `Execution`, and the calls of `SaveTaskResult`. -/
structure Task where
  id : String
  agentID : String
  ownerID : String
  assignmentID : String
  idempotencyKey : String
  spec : Spec
  /-- `Execution.State`. -/
  state : OperationState
  /-- `Execution.CreatedAt`. -/
  createdAt : ℤ
  /-- `Execution.StartedAt`. -/
  startedAt : Option ℤ
  /-- `Execution.FinishedAt`. -/
  finishedAt : Option ℤ
  /-- `Execution.ExitCode`. -/
  exitCode : Option ℤ
  /-- `Execution.OutputBytes`. -/
  outputBytes : ℕ
  /-- `LeaseExpiresAt`; the zero time is before all others. -/
  leaseExpiresAt : ℤ
  events : List Event
  sequence : ℕ
  output : List UInt8
  saved : List TaskResult
deriving DecidableEq

def errInvalid : String := "invalid execution event"

def errOutput : String := "execution output limit exceeded"

def leaseDuration : ℤ := 30 * nanosPerSecond

namespace Task

/-! ### Critical sections -/

/-- `appendTerminalLocked`. -/
def appendTerminal (t : Task) (state : OperationState) (exitCode : Option ℤ) (code message : String)
    (now : ℤ) : Task :=
  let event : Event :=
    { executionId := t.id
      sequence := t.sequence + 1
      occurredAt := some (.new now)
      state := state
      output := []
      exitCode := exitCode
      error := if message ≠ "" then some ⟨code, message⟩ else none }
  { t with
    sequence := t.sequence + 1
    events := t.events ++ [event]
    state := state
    finishedAt := some now
    exitCode := exitCode
    saved := t.saved ++ [⟨(t.output, message), -1, now⟩] }

/-- `expireLocked`. -/
def expire (t : Task) (now : ℤ) : Task :=
  if terminal t.state then t
  else if now < t.createdAt + t.spec.timeout then t
  else t.appendTerminal .deadlineExceeded none "DEADLINE_EXCEEDED" "execution deadline exceeded" now

/-- `Cancel`, once the task was found. -/
def cancel (t : Task) (reason : String) (now : ℤ) : Task :=
  if terminal t.state ∨ t.state = .cancelRequested then t
  else if t.state = .queued then t.appendTerminal .cancelled none "CANCELLED" reason now
  else { t with state := .cancelRequested }

/-- A task is assigned: `LeaseExpiresAt` is set. -/
def lease (t : Task) (now : ℤ) : Task := { t with leaseExpiresAt := now + leaseDuration }

/-- The event that is stored for a report. -/
def storedEvent (t : Task) (event : Event) (now : ℤ) : Event :=
  { event with
    sequence := t.sequence + 1
    occurredAt :=
      if event.occurredAt.any Timestamp.isValid then event.occurredAt else some (.new now)
    executionId := t.id }

/-- An event is put down. -/
def store (t : Task) (event : Event) (now : ℤ) : Task :=
  let state :=
    if event.state ≠ .unspecified ∧ ¬(t.state = .cancelRequested ∧ event.state = .running) then
      event.state
    else t.state
  let t := { t with
    startedAt := if event.state = .running ∧ t.startedAt = none then some now else t.startedAt
    state := state
    outputBytes := t.outputBytes + event.output.length
    output := t.output ++ event.output
    sequence := t.sequence + 1
    events := t.events ++ [t.storedEvent event now] }
  if terminal t.state then
    { t with
      finishedAt := some now
      exitCode := event.exitCode
      saved := t.saved ++ [⟨(t.output, ""), event.exitCode.getD (-1), now⟩] }
  else t

/-- `Report`, when the event has the next number. -/
def reportNext (t : Task) (event : Event) (now : ℤ) : Task × ℕ × Option String :=
  if terminal t.state then (t, t.sequence, some errInvalid)
  else if t.spec.maxOutputBytes < event.output.length + t.outputBytes then
    (t, t.sequence, some errOutput)
  else if validTransition t.state event.state = false then (t, t.sequence, some errInvalid)
  else (t.store event now, t.sequence + 1, none)

/-- `Report`, once the task was found: the task, the number that is returned, and the error. -/
def report (t : Task) (event : Event) (now : ℤ) : Task × ℕ × Option String :=
  if event.sequence ≤ t.sequence then
    if event ∈ t.events then (t, t.sequence, none)
    else if terminal t.state = false ∧ terminal event.state then
      -- the event is given the next number
      t.reportNext event now
    else (t, t.sequence, none)
  else if event.sequence ≠ t.sequence + 1 then (t, t.sequence, some errInvalid)
  else t.reportNext event now

/-- What happens to a task under its lock. -/
inductive Op where
  | expire (now : ℤ)
  | cancel (reason : String) (now : ℤ)
  | lease (now : ℤ)
  | report (event : Event) (now : ℤ)

/-- The task waits for an agent: `assignable`. -/
def assignable (t : Task) (now : ℤ) : Bool := decide (t.state = .queued ∧ t.leaseExpiresAt ≤ now)

def apply (t : Task) : Op → Task
  | .expire now => t.expire now
  | .cancel reason now => t.cancel reason now
  | .lease now => if t.assignable now then t.lease now else t
  | .report event now => (t.report event now).1

/-! ### What a report does -/

/-- A report has the next number, or is given it. -/
def Due (t : Task) (event : Event) : Prop :=
  event.sequence = t.sequence + 1 ∨ (event.sequence ≤ t.sequence ∧ terminal event.state = true)

theorem reportNext_cases (t : Task) (event : Event) (now : ℤ) :
    (t.reportNext event now).1 = t ∨
    (terminal t.state = false ∧ event.output.length + t.outputBytes ≤ t.spec.maxOutputBytes ∧
      validTransition t.state event.state = true ∧
        t.reportNext event now = (t.store event now, t.sequence + 1, none)) := by
  unfold reportNext
  split_ifs with hterminal houtput hvalid
  · exact .inl rfl
  · exact .inl rfl
  · exact .inl rfl
  · exact .inr ⟨by simpa using hterminal, by omega, by simpa using hvalid, rfl⟩

theorem report_cases (t : Task) (event : Event) (now : ℤ) :
    (t.report event now).1 = t ∨
    (t.Due event ∧ terminal t.state = false ∧
      event.output.length + t.outputBytes ≤ t.spec.maxOutputBytes ∧
      validTransition t.state event.state = true ∧
        t.report event now = (t.store event now, t.sequence + 1, none)) := by
  unfold report
  split_ifs with hle hmem hterminal hnext
  · exact .inl rfl
  · exact (reportNext_cases t event now).imp_right fun h => ⟨.inr ⟨hle, hterminal.2⟩, h⟩
  · exact .inl rfl
  · exact .inl rfl
  · exact (reportNext_cases t event now).imp_right fun h => ⟨.inl (not_not.mp hnext), h⟩

variable {t : Task} {event : Event}

/-- An event with an old number is ignored, unless it would end the task. -/
theorem report_old (hle : event.sequence ≤ t.sequence)
    (hnot : ¬(terminal t.state = false ∧ terminal event.state = true)) (now : ℤ) :
    t.report event now = (t, t.sequence, none) := by
  unfold report
  rw [if_pos hle, if_neg hnot, ite_self]

/-- A terminal event with an old number counts as one with the next number. -/
theorem report_small (hle : event.sequence ≤ t.sequence)
    (hopen : terminal t.state = false) (hterminal : terminal event.state = true)
    (hevents : ∀ e ∈ t.events, terminal e.state = false) (now : ℤ) :
    t.report event now = t.report { event with sequence := t.sequence + 1 } now := by
  have hmem : event ∉ t.events := fun hmem => by simp [hevents event hmem] at hterminal
  have hnext : ¬t.sequence + 1 ≤ t.sequence := by omega
  unfold report
  rw [if_pos hle, if_neg hmem, if_pos ⟨hopen, hterminal⟩]
  simp only [hnext, if_false, ne_eq, not_true_eq_false]
  rfl

/-! ### Sound tasks -/

/-- No end was reported. -/
structure Open (t : Task) : Prop where
  /-- The states before the end. -/
  state : t.state = .queued ∨ t.state = .running ∨ t.state = .cancelRequested
  events : ∀ e ∈ t.events, terminal e.state = false
  /-- The task has no result. -/
  result : t.finishedAt = none ∧ t.saved = []

/-- The end was reported. -/
structure Finished (t : Task) : Prop where
  /-- The last event, and no other, is terminal; it has set state and result. -/
  last : ∃ earlier e r, t.events = earlier ++ [e] ∧ (∀ x ∈ earlier, terminal x.state = false) ∧
    terminal e.state = true ∧ t.state = e.state ∧ t.exitCode = e.exitCode ∧ t.saved = [r] ∧
      t.finishedAt = some r.finishedAt ∧ r.result.1 = t.output

/-- The events of a task are numbered, its output is that of the events and stays below the limit, and
it has ended by its last event or not at all. -/
structure Sound (t : Task) : Prop where
  numbered : Run.Numbered Event.sequence t.events
  sequence : t.sequence = t.events.length
  output : t.output = t.events.flatMap Event.output
  bytes : t.outputBytes = t.output.length
  bound : t.outputBytes ≤ t.spec.maxOutputBytes
  /-- It has ended or not. -/
  phase : t.Open ∨ t.Finished

theorem Open.terminal_eq (h : t.Open) : terminal t.state = false := by
  rcases h.state with h | h | h <;> rw [h] <;> rfl

theorem Finished.terminal_eq (h : t.Finished) : terminal t.state = true := by
  obtain ⟨earlier, e, r, -, -, hterminal, hstate, -⟩ := h.last
  rw [hstate, hterminal]

theorem Sound.isOpen (h : t.Sound) (hstate : terminal t.state = false) : t.Open :=
  h.phase.resolve_right fun hfinished => by simp [hfinished.terminal_eq] at hstate

theorem Sound.finished (h : t.Sound) (hstate : terminal t.state = true) : t.Finished :=
  h.phase.resolve_left fun hopen => by simp [hopen.terminal_eq] at hstate

/-- An event of the server ends an open task. -/
theorem Sound.appendTerminal (h : t.Sound) (hopen : t.Open) {state : OperationState}
    (hstate : terminal state = true) (exitCode : Option ℤ) (code message : String) (now : ℤ) :
    (t.appendTerminal state exitCode code message now).Sound where
  numbered := h.numbered.append (by simp [h.sequence])
  sequence := by simp [Task.appendTerminal, h.sequence]
  output := by simp [Task.appendTerminal, h.output]
  bytes := h.bytes
  bound := h.bound
  phase := .inr ⟨t.events, _, ⟨(t.output, message), -1, now⟩, rfl, hopen.events, hstate, rfl, rfl,
    by simp [Task.appendTerminal, hopen.result.2], rfl, rfl⟩

theorem Sound.expire (h : t.Sound) (now : ℤ) : (t.expire now).Sound := by
  unfold Task.expire
  split_ifs with hterminal hdeadline
  · exact h
  · exact h
  · exact h.appendTerminal (h.isOpen (by simpa using hterminal)) rfl _ _ _ now

theorem Sound.cancel (h : t.Sound) (reason : String) (now : ℤ) : (t.cancel reason now).Sound := by
  unfold Task.cancel
  split_ifs with hdone hqueued
  · exact h
  · exact h.appendTerminal (h.isOpen (by rw [hqueued]; rfl)) rfl _ _ _ now
  · have hopen : t.Open := h.isOpen (by simpa using fun hterminal => hdone (.inl hterminal))
    exact ⟨h.numbered, h.sequence, h.output, h.bytes, h.bound,
      .inl ⟨.inr (.inr rfl), hopen.events, hopen.result⟩⟩

theorem Sound.lease (h : t.Sound) (hqueued : t.state = .queued) (now : ℤ) :
    (t.lease now).Sound := by
  have hopen : t.Open := h.isOpen (by rw [hqueued]; rfl)
  exact ⟨h.numbered, h.sequence, h.output, h.bytes, h.bound,
    .inl ⟨.inl hqueued, hopen.events, hopen.result⟩⟩

/-- What never changes. -/
def label (t : Task) : String × String × String × String :=
  (t.id, t.agentID, t.ownerID, t.idempotencyKey)

section Store

variable (t : Task) (event : Event) (now : ℤ)

@[simp] theorem store_events : (t.store event now).events = t.events ++ [t.storedEvent event now] := by
  simp only [store]
  split_ifs <;> rfl

@[simp] theorem store_sequence : (t.store event now).sequence = t.sequence + 1 := by
  simp only [store]
  split_ifs <;> rfl

@[simp] theorem store_output : (t.store event now).output = t.output ++ event.output := by
  simp only [store]
  split_ifs <;> rfl

@[simp] theorem store_outputBytes :
    (t.store event now).outputBytes = t.outputBytes + event.output.length := by
  simp only [store]
  split_ifs <;> rfl

@[simp] theorem store_spec : (t.store event now).spec = t.spec := by
  simp only [store]
  split_ifs <;> rfl

@[simp] theorem store_label : (t.store event now).label = t.label := by
  simp only [store]
  split_ifs <;> rfl

end Store

theorem finished_store (hopen : t.Open)
    (hterminal : terminal event.state = true) (now : ℤ) : (t.store event now).Finished := by
  have hkeep : event.state ≠ .unspecified ∧
      ¬(t.state = .cancelRequested ∧ event.state = .running) := by
    constructor
    · rintro heq
      simp [heq, terminal] at hterminal
    · rintro ⟨-, heq⟩
      simp [heq, terminal] at hterminal
  refine ⟨t.events, t.storedEvent event now, ⟨(t.output ++ event.output, ""), event.exitCode.getD (-1),
    now⟩, store_events t event now, hopen.events, hterminal, ?_⟩
  simp [store, hkeep, hterminal, storedEvent, hopen.result.2]

theorem open_store (hopen : t.Open) (hterminal : terminal event.state = false)
    (hvalid : validTransition t.state event.state = true) (now : ℤ) :
    (t.store event now).Open := by
  have hnext : event.state = .running ∨ (t.state ≠ .queued ∧ event.state = .unspecified) := by
    rcases hopen.state with h | h | h <;> simp [validTransition, hterminal, h] at hvalid ⊢ <;>
      exact hvalid
  have hevents : ∀ e ∈ t.events ++ [t.storedEvent event now], terminal e.state = false :=
    List.forall_mem_append.mpr ⟨hopen.events, by simpa [storedEvent] using hterminal⟩
  obtain ⟨hfinished, hsaved⟩ := hopen.result
  rcases hopen.state with h | h | h <;> rcases hnext with hn | ⟨hq, hn⟩ <;>
    first
    | exact absurd h hq
    | exact ⟨by simp [store, h, hn, terminal], by simpa using hevents,
        by simp [store, h, hn, terminal, hfinished, hsaved]⟩

theorem Sound.store (h : t.Sound) (hopen : t.Open)
    (hbound : event.output.length + t.outputBytes ≤ t.spec.maxOutputBytes)
    (hvalid : validTransition t.state event.state = true) (now : ℤ) :
    (t.store event now).Sound where
  numbered := by
    rw [store_events]
    exact h.numbered.append (by simp [storedEvent, h.sequence])
  sequence := by simp [h.sequence]
  output := by simp [h.output, storedEvent]
  bytes := by simp [h.bytes]
  bound := by
    rw [store_outputBytes, store_spec]
    omega
  phase := by
    cases hterminal : terminal event.state with
    | true => exact .inr (finished_store hopen hterminal now)
    | false => exact .inl (open_store hopen hterminal hvalid now)

theorem Sound.apply (h : t.Sound) (op : Op) : (t.apply op).Sound := by
  cases op with
  | expire now => exact h.expire now
  | cancel reason now => exact h.cancel reason now
  | lease now =>
    simp only [Task.apply]
    split_ifs with hassignable
    · exact h.lease (of_decide_eq_true hassignable).1 now
    · exact h
  | report event now =>
    rcases report_cases t event now with heq | ⟨-, hopen, hbound, hvalid, heq⟩
    · rwa [Task.apply, heq]
    · rw [Task.apply, heq]
      exact h.store (h.isOpen hopen) hbound hvalid now

/-! ### Tasks over time -/

/-- A task that has ended does not change any more. -/
theorem Finished.apply (h : t.Finished) (op : Op) : t.apply op = t := by
  have hterminal := h.terminal_eq
  cases op with
  | expire now => simp [Task.apply, Task.expire, hterminal]
  | cancel reason now => simp [Task.apply, Task.cancel, hterminal]
  | lease now =>
    have hstate : t.state ≠ .queued := fun heq => by simp [heq, terminal] at hterminal
    simp [Task.apply, assignable, hstate]
  | report event now =>
    rcases report_cases t event now with heq | ⟨-, hopen, -⟩
    · exact heq
    · simp [hterminal] at hopen

/-- A task that was asked to stop is not queued and does not run any more. -/
def Stopping (t : Task) : Prop := t.state = .cancelRequested ∨ terminal t.state = true

theorem Stopping.ne_running (h : t.Stopping) : t.state ≠ .running := by
  rintro heq
  simp [Stopping, heq, terminal] at h

theorem Stopping.apply (h : t.Stopping) (op : Op) : (t.apply op).Stopping := by
  cases op with
  | expire now =>
    simp only [Task.apply, Task.expire]
    split_ifs
    · exact h
    · exact h
    · exact .inr rfl
  | cancel reason now =>
    have hdone : terminal t.state = true ∨ t.state = .cancelRequested := h.symm
    simpa [Task.apply, Task.cancel, hdone] using h
  | lease now =>
    simp only [Task.apply]
    split_ifs <;> exact h
  | report event now =>
    rcases report_cases t event now with heq | ⟨-, hopen, -, hvalid, heq⟩
    · rwa [Task.apply, heq]
    · rw [Task.apply, heq]
      have hstate : t.state = .cancelRequested := h.resolve_right (by simp [hopen])
      cases hterminal : terminal event.state with
      | true =>
        have hkeep : event.state ≠ .unspecified ∧ event.state ≠ .running := by
          constructor <;> rintro heq <;> simp [heq, terminal] at hterminal
        exact .inr (by simp [store, hstate, hkeep, hterminal])
      | false =>
        have hnext : event.state = .running ∨ event.state = .unspecified := by
          simpa [validTransition, hterminal, hstate] using hvalid
        rcases hnext with hnext | hnext <;>
          exact .inl (by simp [store, hstate, hnext, terminal])

theorem sequence_le_apply (t : Task) (op : Op) : t.sequence ≤ (t.apply op).sequence := by
  cases op with
  | expire now =>
    simp only [Task.apply, Task.expire, Task.appendTerminal]
    split_ifs <;> simp
  | cancel reason now =>
    simp only [Task.apply, Task.cancel, Task.appendTerminal]
    split_ifs <;> simp
  | lease now =>
    simp only [Task.apply]
    split_ifs <;> exact le_rfl
  | report event now =>
    rcases report_cases t event now with heq | ⟨-, -, -, -, heq⟩
    · exact (congrArg Task.sequence heq).ge
    · simp [Task.apply, heq]

@[simp] theorem apply_label (t : Task) (op : Op) : (t.apply op).label = t.label := by
  cases op with
  | expire now =>
    simp only [Task.apply, Task.expire, Task.appendTerminal]
    split_ifs <;> rfl
  | cancel reason now =>
    simp only [Task.apply, Task.cancel, Task.appendTerminal]
    split_ifs <;> rfl
  | lease now =>
    simp only [Task.apply]
    split_ifs <;> rfl
  | report event now =>
    rcases report_cases t event now with heq | ⟨-, -, -, -, heq⟩
    · exact congrArg Task.label heq
    · simp [Task.apply, heq]

theorem apply_id (t : Task) (op : Op) : (t.apply op).id = t.id :=
  congrArg Prod.fst (apply_label t op)

/-- Operations one after the other. -/
def applyAll (t : Task) (ops : List Op) : Task := ops.foldl Task.apply t

theorem applyAll_induction {P : Task → Prop} (hstep : ∀ t op, P t → P (t.apply op))
    (h : P t) (ops : List Op) : P (t.applyAll ops) := by
  induction ops generalizing t with
  | nil => exact h
  | cons op ops ih => exact ih (hstep t op h)

@[simp] theorem applyAll_label (t : Task) (ops : List Op) : (t.applyAll ops).label = t.label :=
  applyAll_induction (P := fun u => u.label = t.label)
    (fun u op h => (apply_label u op).trans h) rfl ops

theorem Finished.applyAll (h : t.Finished) (ops : List Op) : t.applyAll ops = t :=
  applyAll_induction (P := fun u => u = t) (fun _ op heq => by rw [heq, h.apply op]) rfl ops

/-- A report of an event with a number that was used is not stored. -/
theorem report_mem (h : t.Sound) (hmem : event ∈ t.events) (now : ℤ) :
    t.report event now = (t, t.sequence, none) := by
  obtain ⟨i, hi, rfl⟩ := List.getElem_of_mem hmem
  have hle : t.events[i].sequence ≤ t.sequence := by
    rw [h.numbered.seq_getElem hi, h.sequence]
    omega
  unfold report
  rw [if_pos hle, if_pos hmem]

/-- An event that was stored changes nothing when it is reported again, at any later time. -/
theorem report_again (h : t.Sound) {now : ℤ}
    (hstored : (t.report event now).1 ≠ t) (ops : List Op) (later : ℤ) :
    let t' := (t.report event now).1.applyAll ops
    t'.report event later = (t', t'.sequence, none) := by
  rcases report_cases t event now with heq | ⟨hdue, hopen, -, -, heq⟩
  · exact absurd heq hstored
  intro t'
  have hseq : t.sequence + 1 ≤ t'.sequence := by
    refine applyAll_induction (P := fun u => t.sequence + 1 ≤ u.sequence)
      (fun u op hu => hu.trans (sequence_le_apply u op)) ?_ ops
    simp [heq]
  have hle : event.sequence ≤ t'.sequence := by
    rcases hdue with hdue | ⟨hdue, -⟩ <;> omega
  refine report_old hle (fun hnot => ?_) later
  have hfinished : (t.report event now).1.Finished := by
    rw [heq]
    exact finished_store (h.isOpen hopen) hnot.2 now
  have hsame : t' = (t.report event now).1 := hfinished.applyAll ops
  rw [hsame, hfinished.terminal_eq] at hnot
  cases hnot.1

end Task

end ExecutionApp

end Komari
