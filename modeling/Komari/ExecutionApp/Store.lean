import Komari.Codec.Result
import Komari.ExecutionApp.Task
import Komari.Run.Along
import Komari.Table.Basic

/-!
# The execution store

The store keeps its tasks in memory, for a quarter of an hour after their end, and a row of each in the
task table.
-/

namespace Komari

namespace ExecutionApp

open TrafficReset

/-! ### Commands -/

/-- `durationpb.Duration`. -/
structure Duration where
  seconds : ℤ
  nanos : ℤ
deriving DecidableEq

/-- `CheckValid`. -/
def Duration.checkValid (d : Duration) : Except String Unit :=
  if d.seconds < -315576000000 ∨ 315576000000 < d.seconds ∨ d.nanos ≤ -nanosPerSecond ∨
      nanosPerSecond ≤ d.nanos ∨ 0 < d.seconds ∧ d.nanos < 0 ∨ d.seconds < 0 ∧ 0 < d.nanos then
    .error "invalid duration"
  else .ok ()

/-- `AsDuration`, which is cut off where it does not fit. -/
def Duration.asDuration (d : Duration) : ℤ :=
  max (-2 ^ 63) (min (d.seconds * nanosPerSecond + d.nanos) (2 ^ 63 - 1))

/-- The `execv1.ExecutionSpec` of a request. -/
structure SpecRequest where
  command : String
  arguments : List String
  timeout : Option Duration
  maxOutputBytes : ℕ
deriving DecidableEq

def defaultTimeout : ℤ := 5 * 60 * nanosPerSecond

def maximumTimeout : ℤ := 30 * 60 * nanosPerSecond

def defaultOutput : ℕ := 2 ^ 20

def maximumOutput : ℕ := 8 * 2 ^ 20

def maximumCommand : ℕ := 64 * 2 ^ 10

def maximumArguments : ℕ := 128

/-- The bounds of a command. -/
def normalizeSpec (spec : Option SpecRequest) : Except String Spec :=
  match spec with
  | none => .error "command is required"
  | some spec =>
    if trimSpace spec.command = "" then .error "command is required"
    else if maximumCommand < spec.command.utf8ByteSize ∨ maximumArguments < spec.arguments.length then
      .error "command or argument list is too large"
    else do
      let timeout ← match spec.timeout with
        | none => pure defaultTimeout
        | some timeout => do
          timeout.checkValid
          pure timeout.asDuration
      if timeout ≤ 0 ∨ maximumTimeout < timeout then
        .error "execution timeout must be between 1s and 30m0s"
      else
        let maxOutput := if spec.maxOutputBytes = 0 then defaultOutput else spec.maxOutputBytes
        if maximumOutput < maxOutput then .error s!"execution output exceeds {maximumOutput} bytes"
        else
          return { command := trimSpace spec.command
                   arguments := spec.arguments
                   timeout := timeout
                   maxOutputBytes := maxOutput }

/-- The command as one text. -/
def displayCommand (spec : Spec) : String :=
  if spec.arguments = [] then spec.command else " ".intercalate (spec.command :: spec.arguments)

/-! ### The store -/

/-- `tasks.CommandTask`, a row of the task table. -/
structure CommandTask where
  id : String
  client : String
  command : String
deriving DecidableEq

/-- The tasks that were made, the keys of `store.values`, and the task table. -/
structure Store where
  /-- Every task that was made; a caller may hold one that is not in the store any more. -/
  objects : Table String Task
  /-- The keys of `store.values`, which is ranged over in any order. -/
  values : List String
  rows : List CommandTask

/-- No task was made. -/
def Store.empty : Store := ⟨∅, [], []⟩

/-- `execv1.Execution`, as `cloneExecution` returns it. -/
structure Execution where
  executionId : String
  agentId : String
  state : OperationState
  createdAt : ℤ
  startedAt : Option ℤ
  finishedAt : Option ℤ
  exitCode : Option ℤ
  outputBytes : ℕ
deriving DecidableEq

/-- `cloneExecution`. -/
def Task.execution (t : Task) : Execution where
  executionId := t.id
  agentId := t.agentID
  state := t.state
  createdAt := t.createdAt
  startedAt := t.startedAt
  finishedAt := t.finishedAt
  exitCode := t.exitCode
  outputBytes := t.outputBytes

/-- A finished task is kept so long. -/
def finishedRetention : ℤ := 15 * 60 * nanosPerSecond

def maximumTasks : ℕ := 256

/-- A task has ended more than a quarter of an hour ago. -/
def Task.expired (t : Task) (now : ℤ) : Bool :=
  t.finishedAt.any fun finished =>
    (Timestamp.new finished).isValid && decide (finishedRetention < now - finished)

namespace Store

/-- `pruneLocked`. -/
def prune (s : Store) (now : ℤ) : Store :=
  { s with values := s.values.filter fun id =>
      !(s.objects.find? id).any fun t => t.expired now }

/-- An operation on one task. -/
def change (s : Store) (id : String) (op : Task.Op) : Store :=
  match s.objects.find? id with
  | none => s
  | some t => { s with objects := s.objects.upsert id (t.apply op) }

/-! ### New tasks -/

/-- A call of `CreateBatch`, with what it gets from outside. -/
structure BatchCall where
  agentIDs : List String
  ownerID : String
  idempotencyKey : String
  spec : Option SpecRequest
  now : ℤ
  /-- `uuid.NewString`, for the ids of the task of each agent. -/
  ids : ℕ → String × String
  /-- How the store is ranged over, for each agent. -/
  orders : ℕ → List String
  /-- The error of the task table, if it fails. -/
  dbErr : Option String

/-- The task that exists for an agent, an owner and a key. -/
def existing (s : Store) (order : List String) (agentID ownerID key : String) : Option Task :=
  (order.filterMap s.objects.find?).find? fun t =>
    t.agentID = agentID ∧ t.ownerID = ownerID ∧ t.idempotencyKey = key

/-- A task for an agent. -/
def newTask (call : BatchCall) (spec : Spec) (ids : String × String) (agentID : String) : Task where
  id := ids.1
  agentID := agentID
  ownerID := trimSpace call.ownerID
  assignmentID := ids.2
  idempotencyKey := trimSpace call.idempotencyKey
  spec := spec
  state := .queued
  createdAt := call.now
  startedAt := none
  finishedAt := none
  exitCode := none
  outputBytes := 0
  leaseExpiresAt := zeroTime
  events := []
  sequence := 0
  output := []
  saved := []

/-- The loop over the agents, for one: the task that exists, on the left, or a new one. -/
def entry (s : Store) (call : BatchCall) (spec : Spec) (agent : String × ℕ) :
    Except String (Task ⊕ Task) :=
  let agentID := trimSpace agent.1
  let key := trimSpace call.idempotencyKey
  if agentID = "" then .error "agent ID is required"
  else
    match if key = "" then none else
        s.existing (call.orders agent.2) agentID (trimSpace call.ownerID) key with
    | some t => .ok (.inl t)
    | none => .ok (.inr (newTask call spec (call.ids agent.2) agentID))

/-- New tasks come in. -/
def insert (s : Store) (new : List Task) : Store where
  objects := s.objects.upsertAll (new.map fun t => (t.id, t))
  values := s.values ++ new.map Task.id
  rows := s.rows ++ new.map fun t => ⟨t.id, t.agentID, displayCommand t.spec⟩

/-- A command for several agents. -/
def createBatch (s : Store) (call : BatchCall) : Store × Except String (List Execution) :=
  if call.agentIDs = [] ∨ trimSpace call.ownerID = "" then
    (s, .error "agent and owner are required")
  else
    match normalizeSpec call.spec with
    | .error e => (s, .error e)
    | .ok spec =>
      let s := s.prune call.now
      match call.agentIDs.zipIdx.mapM (s.entry call spec) with
      | .error e => (s, .error e)
      | .ok entries =>
        let found := entries.filterMap Sum.getLeft?
        let new := entries.filterMap Sum.getRight?
        if maximumTasks < s.values.length + new.length then
          (s, .error "too many active executions")
        else if new ≠ [] ∧ call.dbErr ≠ none then (s, .error (call.dbErr.getD ""))
        else (s.insert new, .ok ((found ++ new).map Task.execution))

/-! ### Calls on tasks -/

/-- No such task. -/
def errNotFound : String := "execution not found"

/-- Not the caller's task. -/
def errForbidden : String := "execution is owned by another user"

/-- A task by its id. -/
def get (s : Store) (id : String) (now : ℤ) : Store × Except String Task :=
  if id ∉ s.values then (s, .error errNotFound)
  else
    let s := s.change id (.expire now)
    match s.objects.find? id with
    | none => (s, .error errNotFound)
    | some t => (s, .ok t)

/-- A task is cancelled. -/
def cancel (s : Store) (id reason : String) (now : ℤ) : Store × Except String Execution :=
  match s.get id now with
  | (s, .error e) => (s, .error e)
  | (s, .ok t) =>
    (s.change id (.cancel reason now), .ok (t.cancel reason now).execution)

/-- `Report`: the number that it returns, and the error. -/
def report (s : Store) (agentID : String) (event : Option Event) (now : ℤ) :
    Store × ℕ × Option String :=
  match event with
  | none => (s, 0, some errInvalid)
  | some event =>
    if trimSpace event.executionId = "" ∨ event.sequence = 0 then (s, 0, some errInvalid)
    else
      match s.get event.executionId now with
      | (s, .error e) => (s, 0, some e)
      | (s, .ok t) =>
        if t.agentID ≠ agentID then (s, 0, some errForbidden)
        else (s.change event.executionId (.report event now), (t.report event now).2)

/-- What an agent is to do next. -/
inductive Dispatch where
  | assignment (assignmentID : String) (execution : Execution) (leaseExpiresAt : ℤ) (spec : Spec)
  | cancellation (executionID : String)
deriving DecidableEq

/-- A call of `NextDispatch`. -/
structure DispatchCall where
  agentID : String
  afterAssignment : String
  now : ℤ
  order : List String
  /-- The error of the envelope, if it cannot be signed. -/
  signErr : Option String

/-- What one task has for its agent, after its deadline was checked: nothing, or a dispatch and its key in
`delivered`. -/
def offer (call : DispatchCall) (delivered : List String) (t : Task) : Option (Dispatch × String) :=
  if t.state = .cancelRequested ∧ "cancel:" ++ t.id ∉ delivered then
    some (.cancellation t.id, "cancel:" ++ t.id)
  else if t.assignable call.now ∧
      (t.assignmentID ≠ call.afterAssignment ∨ "assign:" ++ t.assignmentID ∉ delivered) then
    let t := t.lease call.now
    some (.assignment t.assignmentID t.execution t.leaseExpiresAt t.spec, "assign:" ++ t.assignmentID)
  else none

/-- The critical section that comes with a dispatch. -/
def Dispatch.op (now : ℤ) : Dispatch → List Task.Op
  | .assignment .. => [.lease now]
  | .cancellation _ => []

/-- The loop of `NextDispatch`: the first task that has something for the agent. -/
def scan (call : DispatchCall) (delivered : List String) :
    List String → Store → Store × List String × Option Dispatch
  | [], s => (s, delivered, none)
  | id :: order, s =>
    match s.objects.find? id with
    | none => scan call delivered order s
    | some t =>
      if t.agentID ≠ call.agentID then scan call delivered order s
      else
        let s := s.change id (.expire call.now)
        match offer call delivered (t.expire call.now) with
        | some (dispatch, key) =>
          ((dispatch.op call.now).foldl (fun s op => s.change id op) s, key :: delivered, some dispatch)
        | none => scan call delivered order s

/-- `NextDispatch`, up to where it waits for a signal. -/
def nextDispatch (s : Store) (call : DispatchCall) (delivered : List String) :
    Store × List String × Except String (Option Dispatch) :=
  match scan call delivered call.order (s.prune call.now) with
  | (s, delivered, some (.assignment id execution leaseExpiresAt spec)) =>
    match call.signErr with
    | some e => (s, delivered, .error s!"failed to sign execution envelope: {e}")
    | none => (s, delivered, .ok (some (.assignment id execution leaseExpiresAt spec)))
  | (s, delivered, dispatch) => (s, delivered, .ok dispatch)

/-! ### Interleavings -/

/-- What happens to the store under its lock, or to a task under its own. -/
inductive Input where
  | createBatch (call : BatchCall)
  /-- `NextDispatch`, up to where it waits. -/
  | nextDispatch (call : DispatchCall) (delivered : List String)
  /-- A critical section of a task that a caller has got before. -/
  | change (id : String) (op : Task.Op)

/-- The store under any interleaving of calls, lock by lock. -/
def step (s : Store) : Input → Store
  | .createBatch call => (s.createBatch call).1
  | .nextDispatch call delivered => (s.nextDispatch call delivered).1
  | .change id op => s.change id op

/-- New ids differ from each other and from those of all tasks. -/
def Fresh (s : Store) : Input → Prop
  | .createBatch call => (∀ i, s.objects.find? (call.ids i).1 = none) ∧
      ∀ i j, (call.ids i).1 = (call.ids j).1 → i = j
  | _ => True

/-! ### What a call does -/

theorem entry_cases {s : Store} {call : BatchCall} {spec : Spec} {agent : String × ℕ}
    {x : Task ⊕ Task} (h : s.entry call spec agent = .ok x) :
    (∃ t, x = .inl t ∧ trimSpace call.idempotencyKey ≠ "" ∧
      s.existing (call.orders agent.2) (trimSpace agent.1) (trimSpace call.ownerID)
        (trimSpace call.idempotencyKey) = some t) ∨
    (x = .inr (newTask call spec (call.ids agent.2) (trimSpace agent.1)) ∧
      (trimSpace call.idempotencyKey ≠ "" →
        s.existing (call.orders agent.2) (trimSpace agent.1) (trimSpace call.ownerID)
          (trimSpace call.idempotencyKey) = none)) := by
  simp only [entry] at h
  split_ifs at h with hagent hkey
  · cases h
    exact .inr ⟨rfl, fun hne => absurd hkey hne⟩
  · cases hexisting : s.existing (call.orders agent.2) (trimSpace agent.1) (trimSpace call.ownerID)
        (trimSpace call.idempotencyKey) with
    | none =>
      rw [hexisting] at h
      cases h
      exact .inr ⟨rfl, fun _ => rfl⟩
    | some t =>
      rw [hexisting] at h
      cases h
      exact .inl ⟨t, rfl, hkey, rfl⟩

/-- What `CreateBatch` does: nothing, a clean-up, or new tasks. -/
theorem createBatch_cases (s : Store) (call : BatchCall) :
    (∃ e, s.createBatch call = (s, .error e) ∨ s.createBatch call = (s.prune call.now, .error e)) ∨
    (∃ spec entries, ¬(call.agentIDs = [] ∨ trimSpace call.ownerID = "") ∧
      normalizeSpec call.spec = .ok spec ∧
      call.agentIDs.zipIdx.mapM ((s.prune call.now).entry call spec) = .ok entries ∧
      (s.prune call.now).values.length + (entries.filterMap Sum.getRight?).length ≤ maximumTasks ∧
      s.createBatch call = ((s.prune call.now).insert (entries.filterMap Sum.getRight?),
        .ok ((entries.filterMap Sum.getLeft? ++ entries.filterMap Sum.getRight?).map
          Task.execution))) := by
  unfold createBatch
  split_ifs with hempty
  · exact .inl ⟨_, .inl rfl⟩
  · cases hspec : normalizeSpec call.spec with
    | error e => exact .inl ⟨e, .inl rfl⟩
    | ok spec =>
      dsimp only
      cases hentries : call.agentIDs.zipIdx.mapM ((s.prune call.now).entry call spec) with
      | error e => exact .inl ⟨e, .inr rfl⟩
      | ok entries =>
        dsimp only
        split_ifs with hlimit hdb
        · exact .inl ⟨_, .inr rfl⟩
        · exact .inl ⟨_, .inr rfl⟩
        · exact .inr ⟨spec, entries, hempty, rfl, hentries, not_lt.mp hlimit, rfl⟩

/-- Critical sections of tasks, one after the other. -/
def changes (s : Store) (sections : List (String × Task.Op)) : Store :=
  sections.foldl (fun s c => s.change c.1 c.2) s

/-- The loop of `NextDispatch` goes through critical sections of tasks. -/
theorem exists_scan (call : DispatchCall) (delivered : List String) (order : List String)
    (s : Store) : ∃ sections, (scan call delivered order s).1 = s.changes sections := by
  induction order generalizing s with
  | nil => exact ⟨[], rfl⟩
  | cons id order ih =>
    rw [scan]
    split
    · exact ih s
    · split_ifs with hagent
      · exact ih s
      · dsimp only
        split
        · rename_i t _ dispatch key _
          refine ⟨(id, .expire call.now) :: (dispatch.op call.now).map fun op => (id, op), ?_⟩
          simp [changes, List.foldl_map]
        · obtain ⟨sections, h⟩ := ih (s.change id (.expire call.now))
          exact ⟨(id, .expire call.now) :: sections, h⟩

/-- `NextDispatch` cleans up, and then goes through critical sections of tasks. -/
theorem exists_nextDispatch (s : Store) (call : DispatchCall) (delivered : List String) :
    ∃ sections, (s.nextDispatch call delivered).1 = (s.prune call.now).changes sections := by
  obtain ⟨sections, h⟩ := exists_scan call delivered call.order (s.prune call.now)
  refine ⟨sections, ?_⟩
  rw [← h, nextDispatch]
  split
  · rename_i hscan
    rw [hscan]
    split <;> rfl
  · rename_i hscan
    rw [hscan]

end Store

end ExecutionApp

end Komari
