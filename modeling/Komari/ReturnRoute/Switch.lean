import Komari.Run.Along
import Komari.Run.Past
import Mathlib.Data.List.Induction
import Mathlib.Data.Rat.Defs

/-!
# Switches of return routes

A task watches on which line packets come back.  Its status remembers the line on which it has settled,
and a candidate with the number of times that it was seen in a row.

* `linked_iff` : it holds as long as the current line is not confirmed as a change.
-/

namespace Komari

namespace ReturnRoute

/-! ### The status -/

/-- `State` of a status. -/
inductive RouteState where
  | pending
  | unknown
  | observing
  | healthy
  | switched
deriving DecidableEq

/-- `Kind` of an event. -/
inductive Kind where
  | switch
  | recovery
deriving DecidableEq

/-- The fields of a `models.ReturnRouteTask` that a result is compared with or copied from. -/
structure Task where
  id : ℕ
  name : String
  client : String
  carrier : String
  region : String
  target : String
  ipVersion : ℕ
  expectedLine : String
  switchConfirm : ℕ
  recoveryConfirm : ℕ
deriving DecidableEq

/-- `models.ReturnRouteStatus`, of one task. -/
structure Status where
  currentLine : String
  state : RouteState
  confidence : ℚ
  asnPath : List String
  routePath : List String
  candidateLine : String
  candidateCount : ℕ
  lastError : String
  lastCheckedAt : Option ℤ
  lastChangedAt : Option ℤ
deriving DecidableEq

/-- The status of a task that was not probed yet. -/
def Status.initial : Status := ⟨"", .pending, 0, [], [], "", 0, "", none, none⟩

/-- `models.ReturnRouteEvent`. -/
structure Event where
  taskId : ℕ
  client : String
  taskName : String
  carrier : String
  region : String
  target : String
  ipVersion : ℕ
  expectedLine : String
  kind : Kind
  fromLine : String
  toLine : String
  confidence : ℚ
  asnPath : List String
  routePath : List String
  occurredAt : ℤ
deriving DecidableEq

/-- `returnRouteLineCN2Pending`. -/
def returnRouteLineCN2Pending : String := "CN2 待确认"

/-- A result of a probe: the line that was classified is never empty. -/
structure Probe where
  line : String
  line_ne : line ≠ ""
  confidence : ℚ
  /-- The error of the probe, if it was inconclusive. -/
  probeError : String
  routePath : List String
  asnPath : List String
  now : ℤ

section

variable (normalizeReturnRouteLine : String → String)

/-- How many observations confirm a line. -/
def required (task : Task) (line : String) : ℕ :=
  if line = normalizeReturnRouteLine task.expectedLine then task.recoveryConfirm
  else task.switchConfirm

/-- The candidate count with one more observation of a line. -/
def countWith (status : Status) (line : String) : ℕ :=
  if status.candidateLine = line then status.candidateCount + 1 else 1

/-- The next status, and what is reported. -/
def advanceReturnRouteState (status : Status) (task : Task) (line : String) (now : ℤ) :
    Status × Option Event :=
  let expected := normalizeReturnRouteLine task.expectedLine
  if status.currentLine = "" ∧ line = expected then
    ({ status with
        currentLine := line, state := .healthy, candidateLine := "", candidateCount := 0
        lastChangedAt := some now }, none)
  else if line = expected ∧ status.state ≠ .switched then
    ({ status with
        currentLine := line, state := .healthy, candidateLine := "", candidateCount := 0 }, none)
  else if line ≠ expected ∧ status.state = .switched ∧ line = status.currentLine then
    ({ status with candidateLine := "", candidateCount := 0 }, none)
  else if countWith status line < required normalizeReturnRouteLine task line then
    ({ status with
        candidateLine := line, candidateCount := countWith status line
        state := if status.currentLine = "" then .observing else status.state }, none)
  else
    ({ status with
        currentLine := line, state := if line = expected then .healthy else .switched
        candidateLine := "", candidateCount := 0, lastChangedAt := some now },
      some {
        taskId := task.id, client := task.client, taskName := task.name, carrier := task.carrier
        region := task.region, target := task.target, ipVersion := task.ipVersion
        expectedLine := expected
        kind := if line = expected then .recovery else .switch
        fromLine := if status.currentLine = "" then expected else status.currentLine
        toLine := line, confidence := status.confidence
        asnPath := status.asnPath, routePath := status.routePath, occurredAt := now })

/-- One observation of a line. -/
def applyReturnRouteObservation (status : Status) (task : Task) (line : String) (now : ℤ) :
    Status × Option Event :=
  if line ≠ returnRouteLineCN2Pending then
    advanceReturnRouteState normalizeReturnRouteLine status task line now
  else
    ({ status with
        candidateLine := returnRouteLineCN2Pending, candidateCount := 0
        state := if status.currentLine = "" then .unknown else status.state }, none)

/-- What was observed: nothing, that it is pending, or a line. -/
inductive Observation where
  | inconclusive
  /-- `returnRouteLineCN2Pending`. -/
  | pending
  | line (name : String)
deriving DecidableEq

/-- What a probe says about the line. -/
def Probe.observation (probe : Probe) : Observation :=
  if probe.probeError = "" ∧ probe.line ≠ "UNKNOWN" then
    if probe.line = returnRouteLineCN2Pending then .pending else .line probe.line
  else .inconclusive

/-- `SaveReturnRouteResult`: the transaction on the status of the task. -/
def saveReturnRouteResult (status : Status) (task : Task) (probe : Probe) :
    Status × Option Event :=
  let status := { status with
    lastCheckedAt := some probe.now, routePath := probe.routePath, asnPath := probe.asnPath
    confidence := probe.confidence, lastError := probe.probeError }
  if probe.probeError = "" ∧ probe.line ≠ "UNKNOWN" then
    applyReturnRouteObservation normalizeReturnRouteLine status task probe.line probe.now
  else
    ({ status with state := if status.currentLine = "" then .unknown else status.state }, none)

/-! ### The history of a task -/

/-- A probe, with the task as it was then, and the event. -/
structure Record where
  task : Task
  observation : Observation
  event : Option Event

/-- The last event of a history. -/
def lastKind : List Record → Option Kind
  | [] => none
  | r :: history => r.event.elim (lastKind history) fun e => some e.kind

/-- Where the line has settled: by the last event, or later on the expected line, when this was observed
after no switch or a recovery. -/
def settled : List Record → Option String
  | [] => none
  | r :: history =>
    match r.event with
    | some e => some e.toLine
    | none =>
      if r.observation = .line (normalizeReturnRouteLine r.task.expectedLine) ∧
          lastKind history ≠ some .switch then
        some (normalizeReturnRouteLine r.task.expectedLine)
      else settled history

/-- The conclusive observations and those that are pending. -/
def observations (history : List Record) : List Observation :=
  (history.map Record.observation).filter (· ≠ .inconclusive)

/-- An event leads from the line that was settled to one that was confirmed. -/
def Linked (r : Record) (history : List Record) : Prop :=
  ∀ e, r.event = some e →
    e.fromLine ≠ e.toLine ∧
    e.fromLine = (settled normalizeReturnRouteLine history).getD
      (normalizeReturnRouteLine r.task.expectedLine) ∧
    (e.kind = .recovery → e.toLine = normalizeReturnRouteLine r.task.expectedLine ∧
      lastKind history = some .switch) ∧
    (e.kind = .switch → e.toLine ≠ normalizeReturnRouteLine r.task.expectedLine) ∧
    (observations (r :: history)).take
        (if e.kind = .switch then r.task.switchConfirm else r.task.recoveryConfirm) =
      List.replicate (if e.kind = .switch then r.task.switchConfirm else r.task.recoveryConfirm)
        (.line e.toLine)

/-- The status and the history of a task. -/
structure Watch where
  status : Status
  history : List Record

/-- A task that was not probed yet. -/
def Watch.initial : Watch := ⟨.initial, []⟩

/-- A result is saved, for the task as it is then. -/
def Watch.step (w : Watch) (input : Task × Probe) : Watch :=
  let saved := saveReturnRouteResult normalizeReturnRouteLine w.status input.1 input.2
  ⟨saved.1, ⟨input.1, input.2.observation, saved.2⟩ :: w.history⟩

/-- The current line is confirmed, while the state contradicts it, as it does after an edit of the
expected line. -/
def Restated (status : Status) (input : Task × Probe) : Prop :=
  ∃ line, input.2.observation = .line line ∧ status.currentLine = line ∧
    (status.state = .switched ↔ line = normalizeReturnRouteLine input.1.expectedLine) ∧
      required normalizeReturnRouteLine input.1 line ≤ countWith status line

/-! ### One observation -/

/-- What `advanceReturnRouteState` makes of a line. -/
inductive Advanced (status : Status) (task : Task) (line : String) (saved : Status)
    (event : Option Event) : Prop
  /-- The line settles on the expected one. -/
  | settle (hline : line = normalizeReturnRouteLine task.expectedLine)
      (hstate : status.currentLine = "" ∨ status.state ≠ .switched) (hevent : event = none)
      (hcurrent : saved.currentLine = line) (hhealthy : saved.state = .healthy)
      (hcount : saved.candidateCount = 0)
  /-- The line is what it has switched to. -/
  | stay (hline : line ≠ normalizeReturnRouteLine task.expectedLine)
      (hstate : status.state = .switched ∧ line = status.currentLine) (hevent : event = none)
      (hcurrent : saved.currentLine = status.currentLine) (hsame : saved.state = status.state)
      (hcount : saved.candidateCount = 0)
  /-- The line is a candidate. -/
  | wait (hline : line = normalizeReturnRouteLine task.expectedLine →
        status.currentLine ≠ "" ∧ status.state = .switched)
      (hevent : event = none) (hcurrent : saved.currentLine = status.currentLine)
      (hsame : saved.state = if status.currentLine = "" then .observing else status.state)
      (hcandidate : saved.candidateLine = line)
      (hcount : saved.candidateCount = countWith status line)
      (hfew : countWith status line < required normalizeReturnRouteLine task line)
  | confirm (e : Event)
      (hline : line = normalizeReturnRouteLine task.expectedLine →
        status.currentLine ≠ "" ∧ status.state = .switched)
      (hstay : line ≠ normalizeReturnRouteLine task.expectedLine →
        ¬(status.state = .switched ∧ line = status.currentLine))
      (henough : required normalizeReturnRouteLine task line ≤ countWith status line)
      (hevent : event = some e)
      (hkind : e.kind =
        if line = normalizeReturnRouteLine task.expectedLine then .recovery else .switch)
      (hfrom : e.fromLine = if status.currentLine = "" then
        normalizeReturnRouteLine task.expectedLine else status.currentLine)
      (hto : e.toLine = line) (hcurrent : saved.currentLine = line)
      (hstate : saved.state =
        if line = normalizeReturnRouteLine task.expectedLine then .healthy else .switched)
      (hcount : saved.candidateCount = 0)

theorem advanced_advanceReturnRouteState (status : Status) (task : Task) (line : String) (now : ℤ) :
    Advanced normalizeReturnRouteLine status task line
      (advanceReturnRouteState normalizeReturnRouteLine status task line now).1
      (advanceReturnRouteState normalizeReturnRouteLine status task line now).2 := by
  unfold advanceReturnRouteState
  dsimp only
  by_cases hfirst : status.currentLine = "" ∧ line = normalizeReturnRouteLine task.expectedLine
  · rw [if_pos hfirst]
    exact .settle hfirst.2 (.inl hfirst.1) rfl rfl rfl rfl
  rw [if_neg hfirst]
  by_cases hhealthy : line = normalizeReturnRouteLine task.expectedLine ∧ status.state ≠ .switched
  · rw [if_pos hhealthy]
    exact .settle hhealthy.1 (.inr hhealthy.2) rfl rfl rfl rfl
  rw [if_neg hhealthy]
  by_cases hstay : line ≠ normalizeReturnRouteLine task.expectedLine ∧ status.state = .switched ∧
      line = status.currentLine
  · rw [if_pos hstay]
    exact .stay hstay.1 hstay.2 rfl rfl rfl rfl
  rw [if_neg hstay]
  have hline : line = normalizeReturnRouteLine task.expectedLine →
      status.currentLine ≠ "" ∧ status.state = .switched := fun hline =>
    ⟨fun hempty => hfirst ⟨hempty, hline⟩, not_not.mp fun hstate => hhealthy ⟨hline, hstate⟩⟩
  by_cases hfew : countWith status line < required normalizeReturnRouteLine task line
  · rw [if_pos hfew]
    exact .wait hline rfl rfl rfl rfl rfl hfew
  · rw [if_neg hfew]
    exact .confirm _ hline (fun hne h => hstay ⟨hne, h⟩) (not_lt.mp hfew) rfl rfl rfl rfl rfl rfl rfl

variable {normalizeReturnRouteLine}

/-- The path, the confidence and the error of a probe do not matter. -/
theorem Advanced.congr_status {status status' : Status} {task : Task} {line : String}
    {saved : Status} {event : Option Event}
    (h : Advanced normalizeReturnRouteLine status task line saved event)
    (hcurrent : status'.currentLine = status.currentLine) (hstate : status'.state = status.state)
    (hline : status'.candidateLine = status.candidateLine)
    (hcount : status'.candidateCount = status.candidateCount) :
    Advanced normalizeReturnRouteLine status' task line saved event := by
  have hwith : countWith status' line = countWith status line := by
    rw [countWith, countWith, hline, hcount]
  cases h with
  | settle h1 h2 h3 h4 h5 h6 => exact .settle h1 (by rwa [hcurrent, hstate]) h3 h4 h5 h6
  | stay h1 h2 h3 h4 h5 h6 =>
    exact .stay h1 (by rwa [hcurrent, hstate]) h3 (by rwa [hcurrent]) (by rwa [hstate]) h6
  | wait h1 h2 h3 h4 h5 h6 h7 =>
    exact .wait (by rwa [hcurrent, hstate]) h2 (by rwa [hcurrent]) (by rwa [hcurrent, hstate]) h5
      (by rwa [hwith]) (by rwa [hwith])
  | confirm e h1 h2 h3 h4 h5 h6 h7 h8 h9 h10 =>
    exact .confirm e (by rwa [hcurrent, hstate]) (by rwa [hcurrent, hstate]) (by rwa [hwith]) h4 h5
      (by rwa [hcurrent]) h7 h8 h9 h10

variable (normalizeReturnRouteLine)

/-! ### The invariant -/

/-- The status and the history agree: on where the line has settled, on whether the last event was a
switch, and on the candidate. -/
structure Inv (w : Watch) : Prop where
  /-- Where the line has settled. -/
  settled : settled normalizeReturnRouteLine w.history =
    if w.status.currentLine = "" then none else some w.status.currentLine
  /-- A switch that was not recovered from. -/
  kind : w.status.state = .switched ↔ lastKind w.history = some .switch
  /-- The candidate was observed so many times in a row. -/
  candidate : (observations w.history).take w.status.candidateCount =
    List.replicate w.status.candidateCount (.line w.status.candidateLine)

variable {normalizeReturnRouteLine} {w : Watch} {task : Task}

theorem inv_initial : Inv normalizeReturnRouteLine .initial :=
  ⟨rfl, by simp [Watch.initial, Status.initial, lastKind], rfl⟩

/-- Before the line has settled there is no event. -/
theorem lastKind_of_settled {history : List Record}
    (h : settled normalizeReturnRouteLine history = none) : lastKind history = none := by
  induction history with
  | nil => rfl
  | cons r history ih =>
    rw [settled] at h
    cases hevent : r.event with
    | some e => simp [hevent] at h
    | none =>
      rw [hevent] at h
      dsimp only at h
      split_ifs at h
      rw [lastKind, hevent]
      exact ih h

theorem Inv.ne_switched (h : Inv normalizeReturnRouteLine w) (hline : w.status.currentLine = "") :
    w.status.state ≠ .switched := by
  have hsettled := h.settled
  rw [if_pos hline] at hsettled
  rw [Ne, h.kind, lastKind_of_settled hsettled]
  simp

theorem observations_cons (r : Record) (history : List Record) :
    observations (r :: history) =
      if r.observation = .inconclusive then observations history
      else r.observation :: observations history := by
  by_cases hr : r.observation = .inconclusive <;> simp [observations, hr]

theorem Inv.countWith (h : Inv normalizeReturnRouteLine w) (line : String) :
    (Observation.line line :: observations w.history).take (countWith w.status line) =
      List.replicate (countWith w.status line) (.line line) := by
  unfold ReturnRoute.countWith
  split_ifs with hline
  · rw [List.take_succ_cons, h.candidate, hline, List.replicate_succ]
  · rfl

@[simp] theorem lastKind_none (task : Task) (o : Observation) (history : List Record) :
    lastKind (⟨task, o, none⟩ :: history) = lastKind history := rfl

@[simp] theorem lastKind_some (task : Task) (o : Observation) (e : Event) (history : List Record) :
    lastKind (⟨task, o, some e⟩ :: history) = some e.kind := rfl

@[simp] theorem settled_some (task : Task) (o : Observation) (e : Event) (history : List Record) :
    settled normalizeReturnRouteLine (⟨task, o, some e⟩ :: history) = some e.toLine := rfl

/-- A record without event leaves open where the line has settled, unless it shows the expected line. -/
theorem settled_none {o : Observation} {history : List Record}
    (hnot : ¬(o = .line (normalizeReturnRouteLine task.expectedLine) ∧
      lastKind history ≠ some .switch)) :
    settled normalizeReturnRouteLine (⟨task, o, none⟩ :: history) =
      settled normalizeReturnRouteLine history := if_neg hnot

theorem Inv.advance (h : Inv normalizeReturnRouteLine w) {line : String} (hne : line ≠ "")
    {status : Status} {event : Option Event}
    (hsaved : Advanced normalizeReturnRouteLine w.status task line status event) :
    Inv normalizeReturnRouteLine ⟨status, ⟨task, .line line, event⟩ :: w.history⟩ := by
  cases hsaved with
  | settle hline hstate hevent hcurrent hhealthy hcount =>
    obtain rfl : event = none := hevent
    have hlast : lastKind w.history ≠ some .switch := by
      rw [Ne, ← h.kind]
      exact hstate.elim h.ne_switched id
    refine ⟨?_, by simp [hhealthy, hlast], by simp [hcount]⟩
    have hsettled : ReturnRoute.settled normalizeReturnRouteLine
        (⟨task, .line line, none⟩ :: w.history) =
        some (normalizeReturnRouteLine task.expectedLine) := if_pos ⟨congrArg _ hline, hlast⟩
    simp [hsettled, hcurrent, hne, ← hline]
  | stay hline hstate hevent hcurrent hsame hcount =>
    obtain rfl : event = none := hevent
    refine ⟨?_, ?_, by simp [hcount]⟩
    · simp only [hcurrent]
      rw [settled_none fun hnot => hline (by simpa using hnot.1)]
      exact h.settled
    · simp only [hsame, lastKind_none]
      exact h.kind
  | wait hline hevent hcurrent hsame hcandidate hcount hfew =>
    obtain rfl : event = none := hevent
    refine ⟨?_, ?_, ?_⟩
    · simp only [hcurrent]
      rw [settled_none]
      · exact h.settled
      · -- the expected line is a candidate only after a switch
        rintro ⟨hobserved, hlast⟩
        exact hlast (h.kind.mp (hline (by simpa using hobserved)).2)
    · simp only [hsame, lastKind_none]
      split_ifs with hempty
      · have := h.ne_switched hempty
        rw [Ne, h.kind] at this
        simpa using this
      · exact h.kind
    · simp only [hcount, hcandidate, observations_cons, reduceCtorEq, if_false]
      exact h.countWith line
  | confirm e hline hstay henough hevent hkind hfrom hto hcurrent hstate hcount =>
    obtain rfl : event = some e := hevent
    refine ⟨?_, ?_, by simp [hcount]⟩
    · simp only [hcurrent, hne, if_false, settled_some, hto]
    · simp only [hstate, lastKind_some, hkind]
      split_ifs <;> simp

theorem Inv.keep (h : Inv normalizeReturnRouteLine w) {observation : Observation} {status : Status}
    (hobservation : ∀ line, observation ≠ .line line)
    (hcurrent : status.currentLine = w.status.currentLine)
    (hstate : status.state = if w.status.currentLine = "" then .unknown else w.status.state)
    (hcandidate : (observation = .inconclusive ∧
        status.candidateCount = w.status.candidateCount ∧
        status.candidateLine = w.status.candidateLine) ∨ status.candidateCount = 0) :
    Inv normalizeReturnRouteLine ⟨status, ⟨task, observation, none⟩ :: w.history⟩ := by
  refine ⟨?_, ?_, ?_⟩
  · simp only [hcurrent]
    rw [settled_none fun hnot => hobservation _ hnot.1]
    exact h.settled
  · simp only [hstate, lastKind_none]
    split_ifs with hempty
    · have := h.ne_switched hempty
      rw [Ne, h.kind] at this
      simpa using this
    · exact h.kind
  · rcases hcandidate with ⟨rfl, hcount, hline⟩ | hcount
    · simp only [hcount, hline, observations_cons, if_true]
      exact h.candidate
    · simp [hcount]

/-- What a probe makes of the status, by what it shows. -/
theorem step_cases (w : Watch) (task : Task) (probe : Probe) :
    (∃ status, w.step normalizeReturnRouteLine (task, probe) =
        ⟨status, ⟨task, probe.observation, none⟩ :: w.history⟩ ∧
      (∀ line, probe.observation ≠ .line line) ∧ status.currentLine = w.status.currentLine ∧
      status.state = (if w.status.currentLine = "" then .unknown else w.status.state) ∧
      ((probe.observation = .inconclusive ∧ status.candidateCount = w.status.candidateCount ∧
        status.candidateLine = w.status.candidateLine) ∨ status.candidateCount = 0)) ∨
    (∃ line status event, line ≠ "" ∧ probe.observation = .line line ∧
      w.step normalizeReturnRouteLine (task, probe) =
        ⟨status, ⟨task, .line line, event⟩ :: w.history⟩ ∧
      Advanced normalizeReturnRouteLine w.status task line status event) := by
  by_cases hconclusive : probe.probeError = "" ∧ probe.line ≠ "UNKNOWN"
  · by_cases hpending : probe.line = returnRouteLineCN2Pending
    · have hobs : probe.observation = .pending := by
        rw [Probe.observation, if_pos hconclusive, if_pos hpending]
      have hne : returnRouteLineCN2Pending ≠ "UNKNOWN" := by decide
      refine .inl ⟨(w.step normalizeReturnRouteLine (task, probe)).status, ?_, by simp [hobs], ?_⟩
      · simp [Watch.step, saveReturnRouteResult, hconclusive, applyReturnRouteObservation, hpending,
          hne]
      · simp [Watch.step, saveReturnRouteResult, hconclusive, applyReturnRouteObservation, hpending,
          hne]
    · have hobs : probe.observation = .line probe.line := by
        rw [Probe.observation, if_pos hconclusive, if_neg hpending]
      have hsaved := advanced_advanceReturnRouteState normalizeReturnRouteLine
        { w.status with
          lastCheckedAt := some probe.now, routePath := probe.routePath, asnPath := probe.asnPath
          confidence := probe.confidence, lastError := probe.probeError } task probe.line probe.now
      refine .inr ⟨probe.line, _, _, probe.line_ne, hobs, ?_, hsaved.congr_status rfl rfl rfl rfl⟩
      simp [Watch.step, saveReturnRouteResult, hconclusive, applyReturnRouteObservation, hpending,
        hobs]
  · have hobs : probe.observation = .inconclusive := by
      rw [Probe.observation, if_neg hconclusive]
    refine .inl ⟨(w.step normalizeReturnRouteLine (task, probe)).status, ?_, by simp [hobs], ?_⟩
    · simp [Watch.step, saveReturnRouteResult, hconclusive]
    · simp [Watch.step, saveReturnRouteResult, hconclusive, hobs]

theorem Inv.step (h : Inv normalizeReturnRouteLine w) (input : Task × Probe) :
    Inv normalizeReturnRouteLine (w.step normalizeReturnRouteLine input) := by
  obtain ⟨task, probe⟩ := input
  rcases step_cases w task probe with
    ⟨status, heq, hline, hcurrent, hstate, hcandidate⟩ | ⟨line, status, event, hne, -, heq, hsaved⟩
  · rw [heq]
    exact h.keep hline hcurrent hstate hcandidate
  · rw [heq]
    exact h.advance hne hsaved

/-! ### Events -/

/-- A line links to the history, unless it confirms the current line. -/
theorem Inv.linked_line_iff (h : Inv normalizeReturnRouteLine w) {probe : Probe} {line : String}
    (hne : line ≠ "") (hobs : probe.observation = .line line) {status : Status} {event : Option Event}
    (hsaved : Advanced normalizeReturnRouteLine w.status task line status event) :
    Linked normalizeReturnRouteLine ⟨task, .line line, event⟩ w.history ↔
      ¬Restated normalizeReturnRouteLine w.status (task, probe) := by
  have hrestated : Restated normalizeReturnRouteLine w.status (task, probe) ↔
      w.status.currentLine = line ∧
        (w.status.state = .switched ↔ line = normalizeReturnRouteLine task.expectedLine) ∧
        required normalizeReturnRouteLine task line ≤ ReturnRoute.countWith w.status line := by
    simp only [Restated, hobs, Observation.line.injEq, exists_eq_left']
  rw [hrestated]
  have hquiet : event = none → Linked normalizeReturnRouteLine ⟨task, .line line, event⟩ w.history := by
    rintro rfl e he
    cases he
  cases hsaved with
  | settle hline hstate hevent hcurrent hhealthy hcount =>
    refine iff_of_true (hquiet hevent) ?_
    rintro ⟨hsame, hiff, -⟩
    exact hstate.elim (fun hempty => hne (hsame.symm.trans hempty)) fun hn => hn (hiff.mpr hline)
  | stay hline hstate hevent hcurrent hsame hcount =>
    refine iff_of_true (hquiet hevent) ?_
    rintro ⟨-, hiff, -⟩
    exact hline (hiff.mp hstate.1)
  | wait hline hevent hcurrent hsame hcandidate hcount hfew =>
    refine iff_of_true (hquiet hevent) ?_
    rintro ⟨-, -, henough⟩
    exact absurd hfew (not_lt.mpr henough)
  | confirm e hline hstay henough hevent hkind hfrom hto hcurrent hstate hcount =>
    constructor
    · rintro hlinked ⟨hsame, -⟩
      refine (hlinked e hevent).1 ?_
      rw [hfrom, hto, hsame, if_neg hne]
    · intro hnot e' he'
      obtain rfl : e = e' := Option.some.inj (hevent.symm.trans he')
      have hrequired : (if e.kind = .switch then task.switchConfirm else task.recoveryConfirm) =
          required normalizeReturnRouteLine task line := by
        rw [hkind, required]
        split_ifs <;> simp_all
      refine ⟨?_, ?_, fun hrecovery => ?_, fun hswitch => ?_, ?_⟩
      · rw [hfrom, hto]
        split_ifs with hempty
        · exact fun heq => (hline heq.symm).1 hempty
        · -- a current line that is confirmed would contradict the state
          intro heq
          refine hnot ⟨heq, ⟨fun hswitched => ?_, fun hexpected => (hline hexpected).2⟩, henough⟩
          by_contra hother
          exact hstay hother ⟨hswitched, heq.symm⟩
      · rw [hfrom, h.settled]
        split_ifs <;> rfl
      · have hexpected : line = normalizeReturnRouteLine task.expectedLine := by
          by_contra hother
          rw [hkind, if_neg hother] at hrecovery
          cases hrecovery
        exact ⟨hto.trans hexpected, h.kind.mp (hline hexpected).2⟩
      · intro hexpected
        rw [hkind, if_pos (hto.symm.trans hexpected)] at hswitch
        cases hswitch
      · simp only [observations_cons, reduceCtorEq, if_false, hrequired, hto]
        rw [← min_eq_left henough, ← List.take_take, h.countWith line, List.take_replicate]

/-- A record links to the history, unless it confirms the current line. -/
theorem Inv.linked_step_iff (h : Inv normalizeReturnRouteLine w) (input : Task × Probe) :
    Run.Justified (Linked normalizeReturnRouteLine) (w.step normalizeReturnRouteLine input).history ↔
      Run.Justified (Linked normalizeReturnRouteLine) w.history ∧
        ¬Restated normalizeReturnRouteLine w.status input := by
  obtain ⟨task, probe⟩ := input
  rcases step_cases w task probe with
    ⟨status, heq, hline, -⟩ | ⟨line, status, event, hne, hobs, heq, hsaved⟩
  · have hnot : ¬Restated normalizeReturnRouteLine w.status (task, probe) := by
      rintro ⟨line, hobs, -⟩
      exact hline line hobs
    have hlinked : Linked normalizeReturnRouteLine ⟨task, probe.observation, none⟩ w.history := by
      rintro e he
      cases he
    rw [heq, Run.Justified]
    exact ⟨fun hj => ⟨hj.2, hnot⟩, fun hj => ⟨hlinked, hj.1⟩⟩
  · rw [heq, Run.Justified, h.linked_line_iff hne hobs hsaved, and_comm]

/-- A task and its results, one after the other. -/
def watch (normalizeReturnRouteLine : String → String) (inputs : List (Task × Probe)) : Watch :=
  inputs.foldl (Watch.step normalizeReturnRouteLine) .initial

theorem watch_append (inputs : List (Task × Probe)) (input : Task × Probe) :
    watch normalizeReturnRouteLine (inputs ++ [input]) =
      (watch normalizeReturnRouteLine inputs).step normalizeReturnRouteLine input :=
  List.foldl_append

theorem inv_watch (inputs : List (Task × Probe)) :
    Inv normalizeReturnRouteLine (watch normalizeReturnRouteLine inputs) := by
  induction inputs using List.reverseRecOn with
  | nil => exact inv_initial
  | append_singleton inputs input ih =>
    rw [watch_append]
    exact ih.step input

/-- As long as the expected line stays, the state says whether the current line is another one. -/
theorem switched_iff {expected : String} {inputs : List (Task × Probe)}
    (h : ∀ input ∈ inputs, normalizeReturnRouteLine input.1.expectedLine = expected) :
    (watch normalizeReturnRouteLine inputs).status.state = .switched ↔
      (watch normalizeReturnRouteLine inputs).status.currentLine ≠ "" ∧
        (watch normalizeReturnRouteLine inputs).status.currentLine ≠ expected := by
  induction inputs using List.reverseRecOn with
  | nil => simp [watch, Watch.initial, Status.initial]
  | append_singleton inputs input ih =>
    have ih := ih fun i hi => h i (List.mem_append_left _ hi)
    have hexpected := h input (List.mem_append_right _ List.mem_cons_self)
    rw [watch_append]
    generalize watch normalizeReturnRouteLine inputs = w at ih ⊢
    obtain ⟨task, probe⟩ := input
    rcases step_cases w task probe with
      ⟨status, heq, -, hcurrent, hstate, -⟩ | ⟨line, status, event, hne, -, heq, hsaved⟩
    · rw [heq]
      dsimp only
      rw [hcurrent, hstate]
      split_ifs with hempty
      · simp [hempty]
      · exact ih
    · rw [heq]
      dsimp only
      cases hsaved with
      | settle hline hstate hevent hcurrent hhealthy hcount =>
        simp [hcurrent, hhealthy, hline, hexpected]
      | stay hline hstate hevent hcurrent hsame hcount => simpa [hcurrent, hsame] using ih
      | wait hline hevent hcurrent hsame hcandidate hcount hfew =>
        simp only [hcurrent, hsame]
        split_ifs with hempty
        · simp [hempty]
        · exact ih
      | confirm e hline hstay henough hevent hkind hfrom hto hcurrent hstate hcount =>
        simp only [hcurrent, hstate, hexpected]
        split_ifs with heq'
        · simp [heq']
        · simp [hne, heq']

/-- **The events of a task are a chain of confirmed changes exactly if the current line is never confirmed
as a change.**  And as long as the expected line stays, the state is switched exactly if the current line
is another one. -/
theorem linked_iff (normalizeReturnRouteLine : String → String) (inputs : List (Task × Probe)) :
    (Run.Justified (Linked normalizeReturnRouteLine) (watch normalizeReturnRouteLine inputs).history ↔
      Run.Along (Watch.step normalizeReturnRouteLine)
        (fun w input => ¬Restated normalizeReturnRouteLine w.status input) .initial inputs) ∧
    ∀ expected, (∀ input ∈ inputs, normalizeReturnRouteLine input.1.expectedLine = expected) →
      ((watch normalizeReturnRouteLine inputs).status.state = .switched ↔
        (watch normalizeReturnRouteLine inputs).status.currentLine ≠ "" ∧
          (watch normalizeReturnRouteLine inputs).status.currentLine ≠ expected) := by
  refine ⟨?_, fun expected h => switched_iff h⟩
  induction inputs using List.reverseRecOn with
  | nil => exact iff_of_true trivial trivial
  | append_singleton inputs input ih =>
    rw [watch_append, (inv_watch inputs).linked_step_iff, Run.Along.append, ih]
    simp [Run.Along, watch]

end

/-! ### An edit -/

/-- A task that expects a line, with two confirmations. -/
def taskFor (expectedLine : String) : Task :=
  ⟨1, "task", "client", "telecom", "", "192.0.2.1", 4, expectedLine, 2, 3⟩

/-- A probe that finds `CN2 GIA`. -/
def giaProbe : Probe := ⟨"CN2 GIA", by decide, 98 / 100, "", [], [], 0⟩

/-- The line has settled on `CN2 GIA`, then another one is expected: the next two probes make an event from
`CN2 GIA` to `CN2 GIA`. -/
theorem switch_to_itself :
    (((watch id [(taskFor "CN2 GIA", giaProbe), (taskFor "CN2 GT", giaProbe),
        (taskFor "CN2 GT", giaProbe)]).history.head?.bind Record.event).map
      fun e => (e.kind, e.fromLine, e.toLine)) = some (.switch, "CN2 GIA", "CN2 GIA") := by
  decide +kernel

end ReturnRoute

end Komari
