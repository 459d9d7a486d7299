import Komari.Traffic.Calibration

/-!
# The cache of calibrated cycles

Readers of the calibrated usages share a cache.  A reader that misses loads the usages of all clients
from the database, one client after the other, and publishes them unless the cache was invalidated in
the meantime.  A writer commits its change, and then invalidates the cache.

* `cache_honest` : every run is honest in which no load spans 2 ^ 64 invalidations.
* `generation_wraps` : in other runs the generation can come back to an old value.
-/

namespace Komari

namespace Traffic

open TrafficReset

/-- `calibratedCycleCacheTTL`: 15 seconds. -/
def calibratedCycleCacheTTL : ℤ := 15 * nanosPerSecond

/-- A state of the database, as far as calibrated cycles are read from it. -/
structure CycleDatabase where
  clients : List Client
  tables : CalibrationTables
  /-- What reads of the measured usage of a client answer. -/
  reads : Client → ℤ → Reads

/-- The clients that have cycles. -/
def CycleDatabase.cycleClients (state : CycleDatabase) : List Client :=
  state.clients.filter fun client =>
    client.trafficResetDay.any fun day => decide (1 ≤ day ∧ day ≤ 31)

/-- `calibratedCycleCache`; the generation counts the invalidations, and the code keeps it modulo
`2 ^ 64`. -/
structure CycleCache where
  generation : ℕ
  /-- The database that the values come from. -/
  db : Option ℕ
  /-- `from`: the values hold from here. -/
  start : ℤ
  expires : ℤ
  values : Option (Table String Usage)

/-- Two values of the counter of generations are equal. -/
def SameGeneration (generation generation' : ℕ) : Prop :=
  generation % 2 ^ 64 = generation' % 2 ^ 64

instance (generation generation' : ℕ) : Decidable (SameGeneration generation generation') :=
  inferInstanceAs (Decidable (_ = _))

/-- The values that the cache has for a reader. -/
def CycleCache.hit (cache : CycleCache) (db : ℕ) (now : ℤ) : Option (Table String Usage) :=
  if cache.db = some db ∧ ¬now < cache.start ∧ now < cache.expires then cache.values else none

/-- `InvalidateCalibratedCycleCache`. -/
def CycleCache.invalidate (cache : CycleCache) : CycleCache :=
  { cache with generation := cache.generation + 1, expires := zeroTime, values := none }

/-- A load on its way. -/
structure CycleLoad where
  generation : ℕ
  /-- The clients that are not loaded yet. -/
  rest : List Client
  expires : ℤ
  values : Table String Usage
  loadErr : List String

/-- What a reader got. -/
structure CycleResult where
  values : Option (Table String Usage)
  error : Option String

/-- Where a reader is. -/
inductive CyclePhase
  /-- It looks into the cache. -/
  | checking
  /-- It waits for `loadMu`. -/
  | waiting
  /-- It has `loadMu`, and looks into the cache again. -/
  | rechecking
  | listing (generation : ℕ)
  | loading (load : CycleLoad)
  | publishing (load : CycleLoad)
  | returned (result : CycleResult)

/-- A call of `CurrentCalibratedCycleUsages`. -/
structure CycleCall where
  db : ℕ
  now : ℤ
  /-- The newest commit to the database whose invalidation had returned when the call began. -/
  floor : ℕ
  phase : CyclePhase

/-- The cache, the databases, the readers and the writers. -/
structure CycleRun where
  cache : CycleCache
  /-- The call that has `loadMu`. -/
  loadMu : Option ℕ
  /-- The states that each database has had; the last one is the present one. -/
  states : ℕ → List CycleDatabase
  /-- The newest commit to each database whose invalidation has returned. -/
  floor : ℕ → ℕ
  /-- The commit of each writer: its database, and the number of the state. -/
  writers : List (ℕ × ℕ)
  calls : List CycleCall

/-- The sections of readers and writers. -/
inductive CycleOp
  /-- A writer commits a change. -/
  | commit (db : ℕ) (state : CycleDatabase)
  /-- A writer invalidates the cache. -/
  | invalidate (writer : ℕ)
  | start (db : ℕ) (now : ℤ)
  /-- It looks into the cache. -/
  | check (call : ℕ)
  /-- It gets `loadMu`, and sees whether its context is cancelled. -/
  | lock (call : ℕ) (cancelled : Bool)
  /-- It looks into the cache again, and remembers the generation. -/
  | recheck (call : ℕ)
  | list (call : ℕ) (answer : Except String Unit)
  /-- It reads the usage of the next client. -/
  | loadClient (call : ℕ) (answer : Except String Unit)
  /-- All clients are read; it sees whether its context is cancelled. -/
  | finish (call : ℕ) (cancelled : Bool)
  | publish (call : ℕ)

/-- The reader that moves. -/
def CycleOp.call? : CycleOp → Option ℕ
  | .check call | .lock call _ | .recheck call | .list call _ | .loadClient call _ | .finish call _
  | .publish call => some call
  | .commit _ _ | .invalidate _ | .start _ _ => none

namespace CycleRun

/-- The present state of a database, and its number. -/
def current (run : CycleRun) (db : ℕ) : Option CycleDatabase := (run.states db).getLast?

/-- A reader goes on. -/
def proceed (run : CycleRun) (call : ℕ) (phase : CyclePhase) : CycleRun :=
  { run with calls := run.calls.modify call fun c => { c with phase := phase } }

/-- A reader is done. -/
def finish (run : CycleRun) (call : ℕ) (values : Option (Table String Usage))
    (error : Option String) : CycleRun :=
  run.proceed call (.returned ⟨values, error⟩)

/-- `loadMu` is free. -/
def unlock (run : CycleRun) : CycleRun := { run with loadMu := none }

end CycleRun

/-- The error of a reader that left. -/
def contextCanceled : String := "context canceled"

section Sections

variable [TimezoneDatabase]

/-- `LoadCalibrationSnapshot` on a state of the database; the read may fail. -/
def CycleDatabase.snapshot (state : CycleDatabase) (client : Client) (now : ℤ) :
    Except String Unit → Except String CalibrationSnapshot
  | .error e => .error e
  | .ok _ => loadCalibrationSnapshot state.tables client now (state.reads client now)

/-- The next client of a load, from a state of the database. -/
def CycleLoad.next (load : CycleLoad) (state : CycleDatabase) (now : ℤ) (client : Client)
    (rest : List Client) (answer : Except String Unit) : CycleLoad :=
  let reset := (clientSchedule client).next now
  let expires := if reset ≠ zeroTime ∧ reset < load.expires then reset else load.expires
  match state.snapshot client now answer with
  | .error e =>
    { load with rest := rest, expires := expires,
                loadErr := load.loadErr ++ ["load calibrated cycle for " ++ client.uuid ++ ": " ++ e] }
  | .ok snapshot =>
    if snapshot.historyComplete = false then { load with rest := rest, expires := expires }
    else { load with rest := rest, expires := expires,
                     values := load.values.upsert client.uuid snapshot.effective }

/-- A step of one reader. -/
def CycleOp.readerStep (run : CycleRun) (index : ℕ) (c : CycleCall) : CycleOp → CycleRun
  | .check _ =>
    match c.phase with
    | .checking =>
      match run.cache.hit c.db c.now with
      | some values => run.finish index (some values) none
      | none => run.proceed index .waiting
    | _ => run
  | .lock _ cancelled =>
    match c.phase, run.loadMu with
    | .waiting, none =>
      if cancelled then run.finish index none (some contextCanceled)
      else { run.proceed index .rechecking with loadMu := some index }
    | _, _ => run
  | .recheck _ =>
    match c.phase with
    | .rechecking =>
      match run.cache.hit c.db c.now with
      | some values => (run.finish index (some values) none).unlock
      | none => run.proceed index (.listing run.cache.generation)
    | _ => run
  | .list _ answer =>
    match c.phase, run.current c.db with
    | .listing generation, some state =>
      match answer with
      | .error e => (run.finish index none (some ("load traffic cycle clients: " ++ e))).unlock
      | .ok _ =>
        run.proceed index
          (.loading ⟨generation, state.cycleClients, c.now + calibratedCycleCacheTTL, ∅, []⟩)
    | _, _ => run
  | .loadClient _ answer =>
    match c.phase, run.current c.db with
    | .loading load, some state =>
      match load.rest with
      | [] => run
      | client :: rest =>
        run.proceed index (.loading (load.next state c.now client rest answer))
    | _, _ => run
  | .finish _ cancelled =>
    match c.phase with
    | .loading load =>
      if load.rest ≠ [] then run
      else if cancelled then (run.finish index none (some contextCanceled)).unlock
      else if load.loadErr ≠ [] then
        (run.finish index (some load.values) (some ("\n".intercalate load.loadErr))).unlock
      else run.proceed index (.publishing load)
    | _ => run
  | .publish _ =>
    match c.phase with
    | .publishing load =>
      let published := if SameGeneration load.generation run.cache.generation then
          { run with
            cache := { run.cache with
              values := some load.values, expires := load.expires, start := c.now,
              db := some c.db } }
        else run
      (published.finish index (some load.values) none).unlock
    | _ => run
  | .commit _ _ | .invalidate _ | .start _ _ => run

/-- The sections of readers and writers, in any order. -/
def CycleOp.step (run : CycleRun) : CycleOp → CycleRun
  | .commit db state =>
    { run with
      states := fun db' => if db' = db then run.states db ++ [state] else run.states db',
      writers := run.writers ++ [(db, (run.states db).length)] }
  | .invalidate writer =>
    match run.writers[writer]? with
    | none => run
    | some (db, number) =>
      { run with
        cache := run.cache.invalidate,
        floor := fun db' => if db' = db then max (run.floor db) number else run.floor db' }
  | .start db now =>
    { run with calls := run.calls ++ [⟨db, now, run.floor db, .checking⟩] }
  | op =>
    match op.call? with
    | none => run
    | some index =>
      match run.calls[index]? with
      | none => run
      | some c => op.readerStep run index c

/-- An empty cache, and databases in given states. -/
def CycleRun.init (databases : ℕ → CycleDatabase) : CycleRun where
  cache := ⟨0, none, zeroTime, zeroTime, none⟩
  loadMu := none
  states db := [databases db]
  floor _ := 0
  writers := []
  calls := []

/-- No load spans `2 ^ 64` invalidations. -/
def ShortLoad (run : CycleRun) : CycleOp → Prop
  | .publish call => ∀ c load, run.calls[call]? = some c → c.phase = .publishing load →
      run.cache.generation < load.generation + 2 ^ 64
  | _ => True

/-! ### What is read -/

/-- A load at a time has the clients `rest` before it and has found `values`; it has read only states
of the database whose number is at least `floor`. -/
inductive LoadedFrom (states : List CycleDatabase) (floor : ℕ) (now : ℤ) :
    List Client → Table String Usage → Prop
  | list (number : ℕ) (state : CycleDatabase) : floor ≤ number → states[number]? = some state →
      LoadedFrom states floor now state.cycleClients ∅
  | failed (client : Client) (rest : List Client) (values : Table String Usage) :
      LoadedFrom states floor now (client :: rest) values → LoadedFrom states floor now rest values
  | incomplete (number : ℕ) (state : CycleDatabase) (snapshot : CalibrationSnapshot)
      (client : Client) (rest : List Client) (values : Table String Usage) :
      LoadedFrom states floor now (client :: rest) values →
      floor ≤ number → states[number]? = some state →
      loadCalibrationSnapshot state.tables client now (state.reads client now) = .ok snapshot →
      snapshot.historyComplete = false → LoadedFrom states floor now rest values
  | loaded (number : ℕ) (state : CycleDatabase) (snapshot : CalibrationSnapshot)
      (client : Client) (rest : List Client) (values : Table String Usage) :
      LoadedFrom states floor now (client :: rest) values →
      floor ≤ number → states[number]? = some state →
      loadCalibrationSnapshot state.tables client now (state.reads client now) = .ok snapshot →
      snapshot.historyComplete = true →
      LoadedFrom states floor now rest (values.upsert client.uuid snapshot.effective)

/-- The values were loaded at some time from states whose number is at least `floor`. -/
def ReadSince (states : List CycleDatabase) (floor : ℕ) (values : Table String Usage) : Prop :=
  ∃ now, LoadedFrom states floor now [] values

/-- What a reader that began at `floor` returns was read since, and a reader that fails has not changed
the cache. -/
structure Honest (start : CycleRun) (ops : List CycleOp) : Prop where
  fresh : ∀ c ∈ (ops.foldl CycleOp.step start).calls, ∀ result values, c.phase = .returned result →
    result.values = some values →
      ReadSince ((ops.foldl CycleOp.step start).states c.db) c.floor values
  unchanged : ∀ pre op post call c result e, ops = pre ++ op :: post → op.call? = some call →
    (ops.foldl CycleOp.step start).calls[call]? = some c → c.phase = .returned result →
      result.error = some e → (op.step (pre.foldl CycleOp.step start)).cache =
        (pre.foldl CycleOp.step start).cache

/-! ### What a section does -/

/-- The phases that a section of a reader leads to. -/
inductive CycleCall.Next (run : CycleRun) (c : CycleCall) : CyclePhase → Prop
  | hit (values : Table String Usage) : run.cache.hit c.db c.now = some values →
      Next run c (.returned ⟨some values, none⟩)
  | fail (e : String) : Next run c (.returned ⟨none, some e⟩)
  | waiting : Next run c .waiting
  | rechecking : Next run c .rechecking
  | listing : Next run c (.listing run.cache.generation)
  | listed (generation : ℕ) (state : CycleDatabase) (expires : ℤ) : c.phase = .listing generation →
      run.current c.db = some state →
      Next run c (.loading ⟨generation, state.cycleClients, expires, ∅, []⟩)
  | loaded (load : CycleLoad) (state : CycleDatabase) (client : Client) (rest : List Client)
      (answer : Except String Unit) : c.phase = .loading load → run.current c.db = some state →
      load.rest = client :: rest → Next run c (.loading (load.next state c.now client rest answer))
  | failed (load : CycleLoad) (e : String) : c.phase = .loading load → load.rest = [] →
      Next run c (.returned ⟨some load.values, some e⟩)
  | publishing (load : CycleLoad) : c.phase = .loading load → load.rest = [] →
      Next run c (.publishing load)
  | published (load : CycleLoad) : c.phase = .publishing load →
      Next run c (.returned ⟨some load.values, none⟩)

/-- A section of a reader leads to a phase. -/
structure CycleOp.LeadsTo (op : CycleOp) (run run' : CycleRun) (index : ℕ) (c : CycleCall)
    (phase : CyclePhase) : Prop where
  running : ∀ result, c.phase ≠ .returned result
  next : c.Next run phase
  calls : run'.calls = run.calls.modify index fun c => { c with phase := phase }
  states : run'.states = run.states
  floor : run'.floor = run.floor
  writers : run'.writers = run.writers
  cache : run'.cache = run.cache ∨ ∃ load call, op = .publish call ∧ c.phase = .publishing load ∧
    phase = .returned ⟨some load.values, none⟩ ∧
      SameGeneration load.generation run.cache.generation ∧
        run'.cache = { run.cache with
          values := some load.values, expires := load.expires, start := c.now, db := some c.db }

theorem readerStep_cases (run : CycleRun) (index : ℕ) (c : CycleCall) (op : CycleOp) :
    op.readerStep run index c = run ∨
      ∃ phase, op.LeadsTo run (op.readerStep run index c) index c phase := by
  have hto : ∀ {run' : CycleRun} {phase : CyclePhase}, (∀ result, c.phase ≠ .returned result) →
      c.Next run phase → run'.calls = run.calls.modify index (fun c => { c with phase := phase }) →
      run'.states = run.states → run'.floor = run.floor → run'.writers = run.writers →
      run'.cache = run.cache → run' = run ∨ ∃ phase, op.LeadsTo run run' index c phase :=
    fun hrunning hnext hcalls hstates hfloor hwriters hcache =>
      Or.inr ⟨_, hrunning, hnext, hcalls, hstates, hfloor, hwriters, Or.inl hcache⟩
  have hrunning : ∀ {phase : CyclePhase}, c.phase = phase → (∀ result, phase ≠ .returned result) →
      ∀ result, c.phase ≠ .returned result :=
    fun hphase hne result => hphase ▸ hne result
  cases op with
  | commit db state => exact Or.inl rfl
  | invalidate writer => exact Or.inl rfl
  | start db now => exact Or.inl rfl
  | check call =>
    unfold CycleOp.readerStep
    dsimp only
    split
    case h_2 => exact Or.inl rfl
    rename_i hphase
    split
    · rename_i values hhit
      exact hto (hrunning hphase (by simp)) (.hit values hhit) rfl rfl rfl rfl rfl
    · exact hto (hrunning hphase (by simp)) .waiting rfl rfl rfl rfl rfl
  | lock call cancelled =>
    unfold CycleOp.readerStep
    dsimp only
    split
    case h_2 => exact Or.inl rfl
    rename_i hphase _
    split_ifs
    · exact hto (hrunning hphase (by simp)) (.fail _) rfl rfl rfl rfl rfl
    · exact hto (hrunning hphase (by simp)) .rechecking rfl rfl rfl rfl rfl
  | recheck call =>
    unfold CycleOp.readerStep
    dsimp only
    split
    case h_2 => exact Or.inl rfl
    rename_i hphase
    split
    · rename_i values hhit
      exact hto (hrunning hphase (by simp)) (.hit values hhit) rfl rfl rfl rfl rfl
    · exact hto (hrunning hphase (by simp)) .listing rfl rfl rfl rfl rfl
  | list call answer =>
    unfold CycleOp.readerStep
    dsimp only
    split
    case h_2 => exact Or.inl rfl
    rename_i generation state hphase hstate
    cases answer with
    | error e => exact hto (hrunning hphase (by simp)) (.fail _) rfl rfl rfl rfl rfl
    | ok _ =>
      exact hto (hrunning hphase (by simp)) (.listed generation state _ hphase hstate) rfl rfl rfl rfl rfl
  | loadClient call answer =>
    unfold CycleOp.readerStep
    dsimp only
    split
    case h_2 => exact Or.inl rfl
    rename_i load state hphase hstate
    split
    · exact Or.inl rfl
    · rename_i client rest hrest
      exact hto (hrunning hphase (by simp)) (.loaded load state client rest _ hphase hstate hrest)
        rfl rfl rfl rfl rfl
  | finish call cancelled =>
    unfold CycleOp.readerStep
    dsimp only
    split
    case h_2 => exact Or.inl rfl
    rename_i load hphase
    split_ifs with hrest
    · exact Or.inl rfl
    · exact hto (hrunning hphase (by simp)) (.fail _) rfl rfl rfl rfl rfl
    · exact hto (hrunning hphase (by simp)) (.failed load _ hphase (not_not.mp hrest))
        rfl rfl rfl rfl rfl
    · exact hto (hrunning hphase (by simp)) (.publishing load hphase (not_not.mp hrest))
        rfl rfl rfl rfl rfl
  | publish call =>
    unfold CycleOp.readerStep
    dsimp only
    split
    case h_2 => exact Or.inl rfl
    rename_i load hphase
    split_ifs with hsame
    · exact Or.inr ⟨_, hrunning hphase (by simp), .published load hphase, rfl, rfl, rfl, rfl,
        Or.inr ⟨load, call, rfl, hphase, rfl, hsame, rfl⟩⟩
    · exact hto (hrunning hphase (by simp)) (.published load hphase) rfl rfl rfl rfl rfl

/-! ### The invariant -/

theorem LoadedFrom.mono {states states' : List CycleDatabase} {floor floor' : ℕ} {now : ℤ}
    {rest : List Client} {values : Table String Usage} (h : LoadedFrom states floor now rest values)
    (hstates : states <+: states') (hfloor : floor' ≤ floor) :
    LoadedFrom states' floor' now rest values := by
  have hget : ∀ {number : ℕ} {state : CycleDatabase}, states[number]? = some state →
      states'[number]? = some state := by
    intro number state hstate
    obtain ⟨more, rfl⟩ := hstates
    rw [List.getElem?_append_left (List.getElem?_eq_some_iff.mp hstate).1, hstate]
  induction h with
  | list number state hle hstate => exact .list number state (hfloor.trans hle) (hget hstate)
  | failed client rest values _ ih => exact .failed client rest values ih
  | incomplete number state snapshot client rest values _ hle hstate hload hcomplete ih =>
    exact .incomplete number state snapshot client rest values ih (hfloor.trans hle) (hget hstate) hload
      hcomplete
  | loaded number state snapshot client rest values _ hle hstate hload hcomplete ih =>
    exact .loaded number state snapshot client rest values ih (hfloor.trans hle) (hget hstate) hload
      hcomplete

theorem ReadSince.mono {states states' : List CycleDatabase} {floor floor' : ℕ}
    {values : Table String Usage} (h : ReadSince states floor values) (hstates : states <+: states')
    (hfloor : floor' ≤ floor) : ReadSince states' floor' values :=
  h.imp fun _ hloaded => hloaded.mono hstates hfloor

theorem LoadedFrom.next {states : List CycleDatabase} {floor : ℕ} {now : ℤ} {load : CycleLoad}
    {client : Client} {rest : List Client} (h : LoadedFrom states floor now load.rest load.values)
    (hrest : load.rest = client :: rest) {number : ℕ} {state : CycleDatabase} (hle : floor ≤ number)
    (hstate : states[number]? = some state) (answer : Except String Unit) :
    LoadedFrom states floor now rest (load.next state now client rest answer).values := by
  rw [hrest] at h
  unfold CycleLoad.next
  dsimp only
  cases answer with
  | error e => exact .failed client rest _ h
  | ok _ =>
    cases hload : loadCalibrationSnapshot state.tables client now (state.reads client now) with
    | error e =>
      simp only [CycleDatabase.snapshot, hload]
      exact .failed client rest _ h
    | ok snapshot =>
      simp only [CycleDatabase.snapshot, hload]
      cases hcomplete : snapshot.historyComplete with
      | false =>
        rw [if_pos rfl]
        exact .incomplete number state snapshot client rest _ h hle hstate hload hcomplete
      | true =>
        rw [if_neg (by decide)]
        exact .loaded number state snapshot client rest _ h hle hstate hload hcomplete

@[simp] theorem CycleLoad.next_rest (load : CycleLoad) (state : CycleDatabase) (now : ℤ)
    (client : Client) (rest : List Client) (answer : Except String Unit) :
    (load.next state now client rest answer).rest = rest := by
  unfold CycleLoad.next
  dsimp only
  split
  · rfl
  · split_ifs <;> rfl

@[simp] theorem CycleLoad.next_generation (load : CycleLoad) (state : CycleDatabase) (now : ℤ)
    (client : Client) (rest : List Client) (answer : Except String Unit) :
    (load.next state now client rest answer).generation = load.generation := by
  unfold CycleLoad.next
  dsimp only
  split
  · rfl
  · split_ifs <;> rfl

/-- What a load has read is as new as its call, and, if the cache was not invalidated in the meantime,
as new as the last invalidation. -/
structure CycleLoad.Sound (run : CycleRun) (c : CycleCall) (load : CycleLoad) : Prop where
  generation : load.generation ≤ run.cache.generation
  loaded : LoadedFrom (run.states c.db)
    (if load.generation = run.cache.generation then run.floor c.db else c.floor) c.now load.rest
      load.values

/-- What holds of a call where it is. -/
def CycleCall.Holds (run : CycleRun) (c : CycleCall) : CyclePhase → Prop
  | .listing generation => generation ≤ run.cache.generation
  | .loading load => load.Sound run c
  | .publishing load => load.Sound run c ∧ load.rest = []
  | .returned result => ∀ values, result.values = some values →
      ReadSince (run.states c.db) c.floor values
  | .checking | .waiting | .rechecking => True

/-- Holds in every reachable state. -/
structure CycleRun.Sane (run : CycleRun) : Prop where
  floor : ∀ db, run.floor db < (run.states db).length
  writers : ∀ w ∈ run.writers, w.2 < (run.states w.1).length
  cache : ∀ db values, run.cache.db = some db → run.cache.values = some values →
    ReadSince (run.states db) (run.floor db) values
  calls : ∀ c ∈ run.calls, c.floor ≤ run.floor c.db ∧ c.Holds run c.phase

/-- A run goes on: states are added, and the floors rise only when the generation does. -/
structure CycleRun.Later (run run' : CycleRun) : Prop where
  states : ∀ db, run.states db <+: run'.states db
  floor : ∀ db, run.floor db ≤ run'.floor db
  generation : run.cache.generation ≤ run'.cache.generation
  same : run.cache.generation = run'.cache.generation → run'.floor = run.floor

variable {run : CycleRun} {c : CycleCall}

variable {run' : CycleRun}

theorem CycleLoad.Sound.later {load : CycleLoad}
    (h : load.Sound run c) (hlater : run.Later run') (hfloor : c.floor ≤ run.floor c.db) :
    load.Sound run' c := by
  refine ⟨h.generation.trans hlater.generation, h.loaded.mono (hlater.states _) ?_⟩
  have hle := h.generation
  have hgeneration := hlater.generation
  by_cases heq : load.generation = run'.cache.generation
  · have hrun : load.generation = run.cache.generation := by omega
    rw [if_pos heq, if_pos hrun, hlater.same (hrun ▸ heq)]
  · rw [if_neg heq]
    split_ifs
    · exact hfloor
    · exact le_rfl

variable {phase : CyclePhase}

theorem CycleCall.Holds.later
    (h : c.Holds run phase) (hlater : run.Later run') (hfloor : c.floor ≤ run.floor c.db) :
    c.Holds run' phase := by
  cases phase with
  | listing generation => exact le_trans h hlater.generation
  | loading load => exact CycleLoad.Sound.later h hlater hfloor
  | publishing load => exact ⟨h.1.later hlater hfloor, h.2⟩
  | returned result => exact fun values hvalues => (h values hvalues).mono (hlater.states _) le_rfl
  | checking | waiting | rechecking => trivial

/-- What holds of a call does not depend on where the call is. -/
theorem CycleCall.Holds.withPhase
    (h : c.Holds run phase) (other : CyclePhase) : { c with phase := other }.Holds run phase := by
  cases phase with
  | loading load => exact ⟨h.generation, h.loaded⟩
  | publishing load => exact ⟨⟨h.1.generation, h.1.loaded⟩, h.2⟩
  | listing generation => exact h
  | returned result => exact h
  | checking | waiting | rechecking => trivial

theorem CycleLoad.Sound.readSince {load : CycleLoad}
    (h : load.Sound run c) (hrest : load.rest = []) (hfloor : c.floor ≤ run.floor c.db) :
    ReadSince (run.states c.db) c.floor load.values := by
  refine ⟨c.now, hrest ▸ h.loaded.mono List.prefix_rfl ?_⟩
  split_ifs
  · exact hfloor
  · exact le_rfl

/-- The present state of a database is newer than every invalidation. -/
theorem CycleRun.Sane.current (h : run.Sane) {db : ℕ} {state : CycleDatabase}
    (hstate : run.current db = some state) :
    ∃ number, run.floor db ≤ number ∧ (run.states db)[number]? = some state := by
  have hfloor := h.floor db
  refine ⟨(run.states db).length - 1, by omega, ?_⟩
  rw [← List.getLast?_eq_getElem?]
  exact hstate

/-- **Every phase that a section leads to holds what it should.** -/
theorem CycleRun.Sane.next (h : run.Sane) (hc : c ∈ run.calls)
    (hnext : c.Next run phase) : c.Holds run phase := by
  obtain ⟨hfloor, hholds⟩ := h.calls c hc
  cases hnext with
  | hit values hhit =>
    unfold CycleCache.hit at hhit
    split_ifs at hhit with hcache
    intro values' hvalues
    obtain rfl := Option.some.inj hvalues
    exact (h.cache c.db values hcache.1 hhit).mono List.prefix_rfl hfloor
  | fail e => exact fun values hvalues => nomatch hvalues
  | waiting => trivial
  | rechecking => trivial
  | listing => exact le_rfl
  | listed generation state expires hphase hstate =>
    rw [hphase] at hholds
    obtain ⟨number, hle, hget⟩ := h.current hstate
    refine ⟨hholds, .list number state ?_ hget⟩
    split_ifs
    · exact hle
    · exact hfloor.trans hle
  | loaded load state client rest answer hphase hstate hrest =>
    rw [hphase] at hholds
    obtain ⟨number, hle, hget⟩ := h.current hstate
    refine ⟨by simpa using hholds.generation, ?_⟩
    rw [CycleLoad.next_rest, CycleLoad.next_generation]
    refine LoadedFrom.next hholds.loaded hrest ?_ hget answer
    split_ifs
    · exact hle
    · exact hfloor.trans hle
  | failed load e hphase hrest =>
    rw [hphase] at hholds
    intro values hvalues
    obtain rfl := Option.some.inj hvalues
    exact hholds.readSince hrest hfloor
  | publishing load hphase hrest =>
    rw [hphase] at hholds
    exact ⟨hholds, hrest⟩
  | published load hphase =>
    rw [hphase] at hholds
    intro values hvalues
    obtain rfl := Option.some.inj hvalues
    exact hholds.1.readSince hholds.2 hfloor

variable {op : CycleOp}

/-- **A section of a reader** keeps the run sane. -/
theorem CycleRun.Sane.reads (h : run.Sane) {index : ℕ} (hc : run.calls[index]? = some c)
    (hto : op.LeadsTo run run' index c phase) (hop : op.call? = some index)
    (hshort : ShortLoad run op) : run'.Sane := by
  have hgeneration : run'.cache.generation = run.cache.generation := by
    rcases hto.cache with hcache | ⟨load, call, -, -, -, -, hcache⟩
    · rw [hcache]
    · rw [hcache]
  have hlater : run.Later run' :=
    ⟨fun db => hto.states ▸ List.prefix_rfl, fun db => hto.floor ▸ le_rfl, hgeneration.ge,
      fun _ => hto.floor⟩
  refine ⟨by rw [hto.floor, hto.states]; exact h.floor, by rw [hto.writers, hto.states]; exact h.writers,
    fun db values hdb hvalues => ?_, fun d hd => ?_⟩
  · rw [hto.floor, hto.states]
    rcases hto.cache with hcache | ⟨load, call, rfl, hphase, -, hsame, hcache⟩
    · rw [hcache] at hdb hvalues
      exact h.cache db values hdb hvalues
    · rw [hcache] at hdb hvalues
      obtain rfl := Option.some.inj hdb
      obtain rfl := Option.some.inj hvalues
      have hholds := (h.calls c (List.mem_of_getElem? hc)).2
      rw [hphase] at hholds
      obtain ⟨hsound, hrest⟩ := hholds
      -- the cache was not invalidated since the load began, so it has read only newer states
      have heq : load.generation = run.cache.generation := by
        have hle := hsound.generation
        obtain rfl := Option.some.inj hop
        have hlt := hshort c load hc hphase
        unfold SameGeneration at hsame
        omega
      have hloaded := hsound.loaded
      rw [if_pos heq, hrest] at hloaded
      exact ⟨c.now, hloaded⟩
  · rw [hto.calls] at hd
    obtain ⟨i, hi⟩ := List.mem_iff_getElem?.mp hd
    rw [List.getElem?_modify] at hi
    rw [hto.floor]
    split_ifs at hi with hindex
    · subst hindex
      rw [hc] at hi
      obtain rfl := Option.some.inj hi
      have hmem := List.mem_of_getElem? hc
      exact ⟨(h.calls c hmem).1, ((h.next hmem hto.next).withPhase phase).later hlater
        (h.calls c hmem).1⟩
    · have hmem : d ∈ run.calls := List.mem_of_getElem? (by simpa using hi)
      exact ⟨(h.calls d hmem).1, (h.calls d hmem).2.later hlater (h.calls d hmem).1⟩

theorem CycleOp.step_of_call {index : ℕ} (hop : op.call? = some index) :
    op.step run = match run.calls[index]? with
      | none => run
      | some c => op.readerStep run index c := by
  cases op <;> cases hop <;> rfl

/-- A section of a reader does nothing, or the reader goes on. -/
theorem CycleOp.step_cases (run : CycleRun) {index : ℕ} (hop : op.call? = some index) :
    op.step run = run ∨ ∃ c phase, run.calls[index]? = some c ∧
      op.LeadsTo run (op.step run) index c phase := by
  rw [CycleOp.step_of_call hop]
  cases hc : run.calls[index]? with
  | none => exact Or.inl rfl
  | some c =>
    rcases readerStep_cases run index c op with hsame | ⟨phase, hto⟩
    · exact Or.inl hsame
    · exact Or.inr ⟨c, phase, rfl, hto⟩

/-- **A writer's section, or a new call,** keeps the run sane. -/
theorem CycleRun.Sane.later (h : run.Sane) (hlater : run.Later run')
    (hfloor : ∀ db, run'.floor db < (run'.states db).length)
    (hwriters : ∀ w ∈ run'.writers, w.2 < (run'.states w.1).length)
    (hcache : run'.cache.values = none ∨ (run'.cache = run.cache ∧ run'.floor = run.floor))
    (hcalls : ∀ c ∈ run'.calls, c ∈ run.calls ∨ (c.phase = .checking ∧ c.floor ≤ run'.floor c.db)) :
    run'.Sane := by
  refine ⟨hfloor, hwriters, fun db values hdb hvalues => ?_, fun c hc => ?_⟩
  · rcases hcache with hnone | ⟨hsame, hfloors⟩
    · rw [hnone] at hvalues
      cases hvalues
    · rw [hsame] at hdb hvalues
      exact (h.cache db values hdb hvalues).mono (hlater.states db) (hfloors ▸ le_rfl)
  · rcases hcalls c hc with hold | ⟨hphase, hle⟩
    · obtain ⟨hle, hholds⟩ := h.calls c hold
      exact ⟨hle.trans (hlater.floor c.db), hholds.later hlater hle⟩
    · exact ⟨hle, hphase ▸ trivial⟩

/-- **Every section keeps the run sane.** -/
theorem CycleRun.Sane.step (h : run.Sane) (hshort : ShortLoad run op) : (op.step run).Sane := by
  cases hop : op.call? with
  | some index =>
    rcases CycleOp.step_cases run hop with hsame | ⟨c, phase, hc, hto⟩
    · rwa [hsame]
    · exact h.reads hc hto hop hshort
  | none =>
    cases op with
    | commit db state =>
      have hstates : ∀ db', run.states db' <+: (CycleOp.step run (.commit db state)).states db' := by
        intro db'
        simp only [CycleOp.step]
        split_ifs with heq
        · exact heq ▸ List.prefix_append _ _
        · exact List.prefix_rfl
      refine h.later ⟨hstates, fun _ => le_rfl, le_rfl, fun _ => rfl⟩
        (fun db' => (h.floor db').trans_le (hstates db').length_le) (fun w hw => ?_)
        (Or.inr ⟨rfl, rfl⟩) fun c hc => Or.inl hc
      rcases List.mem_append.mp hw with hw | hw
      · exact (h.writers w hw).trans_le (hstates w.1).length_le
      · rw [List.mem_singleton.mp hw]
        simp [CycleOp.step]
    | invalidate writer =>
      unfold CycleOp.step
      dsimp only
      cases hw : run.writers[writer]? with
      | none => exact h
      | some w =>
        obtain ⟨db, number⟩ := w
        dsimp only
        have hnumber := h.writers _ (List.mem_of_getElem? hw)
        refine h.later ⟨fun _ => List.prefix_rfl, fun db' => ?_, Nat.le_succ _, fun heq => ?_⟩
          (fun db' => ?_) h.writers (Or.inl rfl) fun c hc => Or.inl hc
        · dsimp only
          split_ifs with heq
          · exact heq ▸ le_max_left _ _
          · exact le_rfl
        · simp [CycleCache.invalidate] at heq
        · dsimp only
          split_ifs with heq
          · subst heq
            exact max_lt (h.floor db') hnumber
          · exact h.floor db'
    | start db now =>
      refine h.later ⟨fun _ => List.prefix_rfl, fun _ => le_rfl, le_rfl, fun _ => rfl⟩ h.floor h.writers
        (Or.inr ⟨rfl, rfl⟩) fun c hc => ?_
      rcases List.mem_append.mp hc with hc | hc
      · exact Or.inl hc
      · rw [List.mem_singleton.mp hc]
        exact Or.inr ⟨rfl, le_rfl⟩
    | _ => cases hop

theorem sane_init (databases : ℕ → CycleDatabase) : (CycleRun.init databases).Sane where
  floor _ := Nat.one_pos
  writers _ hw := nomatch hw
  cache _ _ hdb := nomatch hdb
  calls _ hc := nomatch hc

/-! ### Readers that fail -/

/-- A reader that has returned stays where it is. -/
theorem CycleOp.step_returned (op : CycleOp) {call : ℕ}
    (hc : run.calls[call]? = some c) {result : CycleResult} (hphase : c.phase = .returned result) :
    (op.step run).calls[call]? = some c := by
  cases hop : op.call? with
  | some index =>
    rcases CycleOp.step_cases run hop with hsame | ⟨c', phase, hc', hto⟩
    · rwa [hsame]
    · rw [hto.calls, List.getElem?_modify]
      split_ifs with heq
      · subst heq
        obtain rfl := Option.some.inj (hc.symm.trans hc')
        exact absurd hphase (hto.running result)
      · simpa using hc
  | none =>
    cases op with
    | commit db state => exact hc
    | invalidate writer =>
      unfold CycleOp.step
      dsimp only
      split
      · exact hc
      · exact hc
    | start db now => exact List.getElem?_append_left (List.getElem?_eq_some_iff.mp hc).1 ▸ hc
    | _ => cases hop

theorem foldl_returned (ops : List CycleOp) {call : ℕ}
    (hc : run.calls[call]? = some c) {result : CycleResult} (hphase : c.phase = .returned result) :
    (ops.foldl CycleOp.step run).calls[call]? = some c := by
  induction ops generalizing run with
  | nil => exact hc
  | cons op ops ih => exact ih (op.step_returned hc hphase)

/-- A section of a reader changes the cache only if the reader then returns without an error. -/
theorem CycleOp.cache_step (run : CycleRun) {call : ℕ} (hop : op.call? = some call) :
    (op.step run).cache = run.cache ∨ ∃ c values, (op.step run).calls[call]? = some c ∧
      c.phase = .returned ⟨some values, none⟩ := by
  rcases CycleOp.step_cases run hop with hsame | ⟨c, phase, hc, hto⟩
  · exact Or.inl (by rw [hsame])
  · rcases hto.cache with hcache | ⟨load, call', -, -, rfl, -, -⟩
    · exact Or.inl hcache
    · refine Or.inr ⟨{ c with phase := .returned ⟨some load.values, none⟩ }, load.values, ?_, rfl⟩
      simp [hto.calls, hc]

/-- **Every run is honest** in which no load spans `2 ^ 64` invalidations. -/
theorem cache_honest (databases : ℕ → CycleDatabase) (ops : List CycleOp)
    (h : Run.Along CycleOp.step ShortLoad (CycleRun.init databases) ops) :
    Honest (CycleRun.init databases) ops := by
  have hsane : (ops.foldl CycleOp.step (CycleRun.init databases)).Sane :=
    h.invariant (fun _ _ hsane hshort => hsane.step hshort) (sane_init databases)
  refine ⟨fun c hc result values hphase hvalues => ?_, ?_⟩
  · have hholds := (hsane.calls c hc).2
    rw [hphase] at hholds
    exact hholds values hvalues
  · rintro pre op post call c result e rfl hop hc hphase herror
    rcases CycleOp.cache_step (pre.foldl CycleOp.step (CycleRun.init databases)) hop with
      hsame | ⟨c', values, hc', hphase'⟩
    · exact hsame
    · -- the reader has published, so it has returned without an error
      rw [List.foldl_append, List.foldl_cons, foldl_returned post hc' hphase'] at hc
      obtain rfl := Option.some.inj hc
      rw [hphase] at hphase'
      obtain rfl := CyclePhase.returned.inj hphase'
      cases herror

/-! ### The counter wraps -/

/-- A run after `n` further invalidations of a commit. -/
def CycleRun.invalidated (run : CycleRun) (db number n : ℕ) : CycleRun :=
  { run with
    cache := { run.cache with
      generation := run.cache.generation + n, expires := zeroTime, values := none },
    floor := fun db' => if db' = db then max (run.floor db) number else run.floor db' }

/-- What a writer does that invalidates the cache again and again. -/
theorem invalidate_replicate {writer db number : ℕ}
    (hw : run.writers[writer]? = some (db, number)) (n : ℕ) :
    (List.replicate (n + 1) (CycleOp.invalidate writer)).foldl CycleOp.step run =
      run.invalidated db number (n + 1) := by
  induction n generalizing run with
  | zero => simp [CycleOp.step, hw, CycleCache.invalidate, CycleRun.invalidated]
  | succ n ih =>
    rw [List.replicate_succ, List.foldl_cons, ih (by simp [CycleOp.step, hw])]
    simp only [CycleOp.step, hw, CycleCache.invalidate, CycleRun.invalidated, if_true, max_assoc,
      max_self]
    congr 2
    · omega
    · funext db'
      split_ifs <;> rfl

end Sections

/-- A database in which `noonClient` has used something. -/
def usedDatabase : CycleDatabase where
  clients := [noonClient]
  tables := ⟨[], ∅⟩
  reads _ _ := ⟨.ok ⟨fun _ => none, none, ⟨120, 30⟩⟩, .ok ()⟩

/-- The database after all clients are deleted. -/
def emptyDatabase : CycleDatabase := { usedDatabase with clients := [] }

/-- A reader loads the usages while a writer deletes the clients. -/
def overtakenLoad : List CycleOp :=
  [.start 0 (instantAt 50000), .check 0, .lock 0 false, .recheck 0, .list 0 (.ok ()),
    .loadClient 0 (.ok ()), .finish 0 false, .commit 0 emptyDatabase]

/-- The reader publishes what it has loaded, and another reader begins. -/
def publishAndRead : List CycleOp := [.publish 0, .start 0 (instantAt 50001), .check 1]

theorem cache_honest_overtaken :
    @Honest noTimezones (CycleRun.init fun _ => usedDatabase)
      (overtakenLoad ++ .invalidate 0 :: publishAndRead) :=
  @cache_honest noTimezones (fun _ => usedDatabase) _
    ⟨trivial, trivial, trivial, trivial, trivial, trivial, trivial, trivial, trivial,
      fun _ _ _ _ => Nat.lt_add_left _ (by decide +kernel), trivial, trivial, trivial⟩

theorem LoadedFrom.eq_empty [TimezoneDatabase] {floor : ℕ} {states : List CycleDatabase} {now : ℤ}
    {rest : List Client} {values : Table String Usage}
    (hstates : ∀ number state, floor ≤ number → states[number]? = some state → state.cycleClients = [])
    (h : LoadedFrom states floor now rest values) : rest = [] ∧ values = ∅ := by
  induction h with
  | list number state hle hstate => exact ⟨hstates number state hle hstate, rfl⟩
  | failed client rest values _ ih => cases ih.1
  | incomplete number state snapshot client rest values _ _ _ _ _ ih => cases ih.1
  | loaded number state snapshot client rest values _ _ _ _ _ ih => cases ih.1

/-- The run in which the counter comes back to its first value. -/
def wrappedRun : CycleRun :=
  publishAndRead.foldl (@CycleOp.step noTimezones)
    ((overtakenLoad.foldl (@CycleOp.step noTimezones)
      (CycleRun.init fun _ => usedDatabase)).invalidated 0 1 (2 ^ 64 - 1 + 1))

theorem wrappedRun_eq : wrappedRun =
    (overtakenLoad ++ (List.replicate (2 ^ 64 - 1 + 1) (CycleOp.invalidate 0) ++
      publishAndRead)).foldl (@CycleOp.step noTimezones) (CycleRun.init fun _ => usedDatabase) := by
  let _ := noTimezones
  rw [List.foldl_append, List.foldl_append,
    invalidate_replicate (show _ = some (0, 1) by decide +kernel)]
  rfl

/-- The second reader returns the usage of a client. -/
theorem wrappedRun_reads : ∃ c ∈ wrappedRun.calls, c.floor = 1 ∧ c.db = 0 ∧
    ∃ result values, c.phase = .returned result ∧ result.values = some values ∧ values.rows ≠ [] := by
  have h : (wrappedRun.calls[1]?.any fun c => c.floor = 1 && c.db = 0 && match c.phase with
      | .returned result => result.values.any fun values => values.rows ≠ []
      | _ => false) = true := by
    decide +kernel
  cases hc : wrappedRun.calls[1]? with
  | none => simp [hc] at h
  | some c =>
    rw [hc] at h
    refine ⟨c, List.mem_of_getElem? hc, ?_⟩
    cases hphase : c.phase with
    | returned result =>
      cases hvalues : result.values with
      | none => simp [hphase, hvalues] at h
      | some values => simpa [hphase, hvalues, and_assoc] using h
    | _ => simp [hphase] at h

/-- **The generation wraps**: when `2 ^ 64` invalidations overtake a load, it publishes what it has read
before all of them, and the next reader returns it. -/
theorem generation_wraps :
    ¬@Honest noTimezones (CycleRun.init fun _ => usedDatabase)
      (overtakenLoad ++ (List.replicate (2 ^ 64 - 1 + 1) (.invalidate 0) ++ publishAndRead)) := by
  let _ := noTimezones
  intro h
  have hfresh := h.fresh
  rw [← wrappedRun_eq] at hfresh
  obtain ⟨c, hc, hfloor, hdb, result, values, hphase, hvalues, hrows⟩ := wrappedRun_reads
  obtain ⟨now, hloaded⟩ := hfresh c hc result values hphase hvalues
  rw [hfloor, hdb] at hloaded
  refine hrows (congrArg Table.rows (LoadedFrom.eq_empty (fun number state hle hstate => ?_) hloaded).2)
  have hstates : wrappedRun.states 0 = [usedDatabase, emptyDatabase] := rfl
  rw [hstates] at hstate
  rcases number with _ | _ | number
  · cases hle
  · obtain rfl := Option.some.inj hstate
    rfl
  · cases hstate

end Traffic

end Komari
