import Komari.Traffic.Total

/-!
# Calibration of the current cycle

An administrator corrects the traffic of the current cycle.  A correction is stored as signed deltas
of single days; the effective usage of a day is its measured usage plus the sum of its deltas, and
never negative.  A correction of the billable total is stored with its offset as well, which governs
the effective usage as long as no other calibration follows.

The measured usage comes from the ledger, the stored first day and the retained records; here it is
what a call reads (`Readings`), and so are the outcomes of the database (`Answers`).
-/

namespace Komari

namespace Traffic

open TrafficReset Calendar

/-! ### Arithmetic -/

/-- A difference in both directions. -/
structure SignedUsage where
  up : ℤ
  down : ℤ
deriving DecidableEq

/-- Adds a difference, down to zero. -/
def addSignedNonNegative (value delta : ℤ) : ℤ :=
  if 0 ≤ delta then saturatingAdd value delta
  else if delta ≤ int64 (-value) then 0
  else addInt64 value delta

/-- Addition that stops at both ends. -/
def saturatingAddSigned (left right : ℤ) : ℤ :=
  if 0 < right ∧ maxInt64 - right < left then maxInt64
  else if right < 0 ∧ left < minInt64 - right then minInt64
  else addInt64 left right

/-- Adds, unless it is too much. -/
def addUsage (left right : Usage) : Usage :=
  ⟨saturatingAdd left.up right.up, saturatingAdd left.down right.down⟩

/-- Adds two differences. -/
def addSignedUsage (left right : SignedUsage) : SignedUsage :=
  ⟨saturatingAddSigned left.up right.up, saturatingAddSigned left.down right.down⟩

/-! ### Stored calibrations -/

/-- What the rows of one calibration have in common. -/
structure CalibrationKey where
  calibrationID : String
  /-- `CalibrationMode`. -/
  mode : String
  billableOffset : Option ℤ
  targetTotal : Option ℤ
  /-- The usage that the calibration aims at. -/
  target : Usage
  operator : String
  createdAt : ℤ
deriving DecidableEq

/-- `TrafficCalibrationAdjustment`. -/
structure Adjustment extends CalibrationKey where
  client : String
  cycle : String
  day : ℤ
  delta : SignedUsage
deriving DecidableEq

/-- The tables of the package. -/
structure CalibrationTables where
  /-- The adjustments, in the order of their ids. -/
  adjustments : List Adjustment
  firstDays : FirstDays

/-- The adjustments of one cycle. -/
def cycleAdjustments (tables : CalibrationTables) (client cycle : String) : List Adjustment :=
  tables.adjustments.filter fun row => row.client = client && row.cycle = cycle

/-- The sum of the deltas of some rows. -/
def sumDeltas (rows : List Adjustment) : SignedUsage :=
  ⟨(rows.map fun row => row.delta.up).sum, (rows.map fun row => row.delta.down).sum⟩

/-- The sum of the deltas of one day. -/
def dayDeltas (rows : List Adjustment) (day : ℤ) : SignedUsage :=
  sumDeltas (rows.filter fun row => row.day = day)

/-- A calibration in a snapshot. -/
structure CalibrationHistory extends CalibrationKey where
  adjustment : SignedUsage
deriving DecidableEq

/-- `loadCalibrationHistory`: the latest ten calibrations, the newest first. -/
def loadCalibrationHistory (tables : CalibrationTables) (client cycle : String) :
    List CalibrationHistory :=
  let rows := cycleAdjustments tables client cycle
  -- the keys by their newest row, then by their creation
  let keys := (rows.map Adjustment.toCalibrationKey).dedup.reverse
  ((keys.insertionSort fun k k' => k'.createdAt ≤ k.createdAt).take 10).map fun key =>
    { key with adjustment := sumDeltas (rows.filter fun row => row.toCalibrationKey = key) }

/-- It was made for the total. -/
def CalibrationKey.isTotal (key : CalibrationKey) : Bool := "total:".isPrefixOf key.mode

/-! ### The days of the current cycle -/

/-- A day of a cycle. -/
structure CalibrationDay where
  day : ℤ
  raw : Usage
  adjustment : SignedUsage
  effective : Usage
deriving DecidableEq

/-- The cycle, day by day and in total. -/
structure CalibrationSnapshot where
  client : String
  cycle : String
  cycleStart : ℤ
  cycleEnd : ℤ
  raw : Usage := ⟨0, 0⟩
  adjustment : SignedUsage := ⟨0, 0⟩
  effective : Usage := ⟨0, 0⟩
  history : List CalibrationHistory := []
  historyComplete : Bool
  calibrationWarning : String := ""
deriving DecidableEq

/-- The measured usage of a cycle as a call reads it. -/
structure Readings where
  /-- The settled usage of a day (`EnsureRange` and the rows of the ledger). -/
  ledger : ℤ → Option Usage
  /-- The usage of the first day, if it is available (`syncCycleFirstDay`). -/
  firstDay : Option Usage
  /-- The usage of the current day (`metricUsageForCalibration`). -/
  current : Usage

/-- What the reads of a snapshot answer. -/
structure Reads where
  days : Except String Readings
  history : Except String Unit

/-- The first day that a calibration covers. -/
def calibrationStartDay (cycleStart today : ℤ) : ℤ :=
  if today < beijingDay cycleStart then today else beijingDay cycleStart

/-- `calibrationDaysByKey`: the days from the start of the cycle through today. -/
def calibrationDaysByKey (cycleStart today : ℤ) : List CalibrationDay :=
  (Int.range (calibrationStartDay cycleStart today) (today + 1)).map fun day =>
    ⟨day, ⟨0, 0⟩, ⟨0, 0⟩, ⟨0, 0⟩⟩

/-- Today is not settled yet. -/
def applyCurrentDayUsage (days : List CalibrationDay) (today : ℤ) (current : Usage) :
    List CalibrationDay :=
  if days.any fun d => d.day = today then
    days.map fun d => if d.day = today then { d with raw := current } else d
  else days ++ [⟨today, current, ⟨0, 0⟩, ⟨0, 0⟩⟩]

/-- The cycle shares its first day with the one before, and that day is over. -/
def hasStoredFirstDay (cycleStart today : ℤ) : Bool :=
  !isBeijingMidnight cycleStart && decide (calibrationStartDay cycleStart today < today)

/-- The days of the cycle with their measured usage. -/
def measuredDays (cycleStart today : ℤ) (readings : Readings) : List CalibrationDay :=
  let startDay := calibrationStartDay cycleStart today
  let ledgerStart := if isBeijingMidnight cycleStart then startDay else startDay + 1
  let days := (calibrationDaysByKey cycleStart today).map fun d =>
    if ledgerStart ≤ d.day ∧ d.day < today then
      { d with raw := (readings.ledger d.day).getD d.raw } else d
  let days :=
    match hasStoredFirstDay cycleStart today, readings.firstDay with
    | true, some first => applyCurrentDayUsage days startDay first
    | _, _ => days
  applyCurrentDayUsage days today readings.current

/-- The day with the sum of its deltas applied. -/
def CalibrationDay.applyDeltas (rows : List Adjustment) (d : CalibrationDay) : CalibrationDay :=
  let adjustment := dayDeltas rows d.day
  { d with adjustment := adjustment,
           effective := ⟨addSignedNonNegative d.raw.up adjustment.up,
             addSignedNonNegative d.raw.down adjustment.down⟩ }

/-- The sums of the deltas of every day are 64-bit integers. -/
def sumsFit (rows : List Adjustment) : Bool :=
  rows.all fun row => InInt64 (dayDeltas rows row.day).up && InInt64 (dayDeltas rows row.day).down

section Cycle

variable [TimezoneDatabase]

/-- `cycleEndDay`: the last nanosecond of the cycle. -/
def cycleEndDay (client : Client) (cycleStart : ℤ) : ℤ :=
  let next := (clientSchedule client).next cycleStart
  if next = zeroTime then zeroTime else next - 1

/-- The days of the cycle. -/
def loadCalibrationDays (tables : CalibrationTables) (client : Client) (now : ℤ)
    (reads : Except String Readings) : Except String (List CalibrationDay × CalibrationSnapshot) := do
  let (cycleStart, cycle) ← currentTrafficCycleFor client now
  let readings ← reads
  let today := beijingDay now
  let days := measuredDays cycleStart today readings
  let rows := cycleAdjustments tables client.uuid cycle
  if !sumsFit rows then throw "read traffic calibration adjustments: integer overflow"
  return (days.map (CalibrationDay.applyDeltas rows),
    { client := client.uuid, cycle := cycle, cycleStart := cycleStart,
      cycleEnd := cycleEndDay client cycleStart,
      historyComplete := !hasStoredFirstDay cycleStart today || readings.firstDay.isSome })

/-- The sums over the days of a cycle. -/
def CalibrationSnapshot.addDays (days : List CalibrationDay) (snapshot : CalibrationSnapshot) :
    CalibrationSnapshot :=
  days.foldl (fun snapshot d =>
    { snapshot with raw := addUsage snapshot.raw d.raw,
                    adjustment := addSignedUsage snapshot.adjustment d.adjustment,
                    effective := addUsage snapshot.effective d.effective }) snapshot

/-- The warning of a snapshot whose counting type has changed. -/
def countingTypeChanged : String := "计费口径已变化，原总量校准已停用，请重新校准"

/-- The offset of the latest calibration, applied to the snapshot if that calibration corrects a
total. -/
def CalibrationSnapshot.applyTotal (client : Client) (snapshot : CalibrationSnapshot) :
    Except String CalibrationSnapshot :=
  match snapshot.history with
  | ⟨⟨_, mode, some offset, _, _, _, _⟩, _⟩ :: _ =>
    if "total:".isPrefixOf mode then
      let kind := String.ofList (mode.toList.drop 6)
      if kind ≠ normalizedCountingType client.trafficLimitType then
        .ok { snapshot with effective := snapshot.raw, adjustment := ⟨0, 0⟩,
                            calibrationWarning := countingTypeChanged }
      else
        let target := addSignedNonNegative (snapshot.raw.billable kind) offset
        match calibrationTargetsForTotal kind snapshot.effective target with
        | .error e => .error e
        | .ok effective =>
          .ok { snapshot with effective := effective,
                              adjustment := ⟨subInt64 effective.up snapshot.raw.up,
                                subInt64 effective.down snapshot.raw.down⟩ }
    else .ok snapshot
  | _ => .ok snapshot

/-- The current cycle of a client. -/
def loadCalibrationSnapshot (tables : CalibrationTables) (client : Client) (now : ℤ)
    (reads : Reads) : Except String CalibrationSnapshot := do
  let (days, snapshot) ← loadCalibrationDays tables client now reads.days
  let snapshot := snapshot.addDays days
  reads.history
  let history := loadCalibrationHistory tables client.uuid snapshot.cycle
  { snapshot with history := history }.applyTotal client

end Cycle

/-! ### Calibrating -/

/-- The loop of `allocateCalibration` over the days, the latest first: what it takes from each day, and
what remains. -/
def takeBack (effective : CalibrationDay → ℤ) : ℤ → List CalibrationDay → List (ℤ × ℤ) × ℤ
  | remaining, [] => ([], remaining)
  | remaining, d :: days =>
    if 0 < remaining then
      let available := effective d
      if available ≤ 0 then takeBack effective remaining days
      else
        let take := if remaining < available then remaining else available
        let rest := takeBack effective (remaining - take) days
        ((d.day, -take) :: rest.1, rest.2)
    else ([], remaining)

/-- `allocateCalibration`: the delta of each day. -/
def allocateCalibration (days : List CalibrationDay) (delta : ℤ)
    (effective : CalibrationDay → ℤ) : Except String (List (ℤ × ℤ)) :=
  match days.getLast? with
  | none => .ok []
  | some latest =>
    if delta = 0 then .ok []
    else if 0 < delta then .ok [(latest.day, delta)]
    else
      let (allocated, remaining) := takeBack effective (int64 (-delta)) days.reverse
      if remaining ≠ 0 then .error "traffic calibration would make historical usage negative"
      else .ok allocated

/-- The delta that an allocation gives to a day. -/
def allocatedOn (allocated : List (ℤ × ℤ)) (day : ℤ) : ℤ := (allocated.lookup day).getD 0

/-- The row of a day, unless the day has no delta and another day has a row already. -/
def addRow (key : CalibrationKey) (client cycle : String) (up down : List (ℤ × ℤ))
    (rows : List Adjustment) (d : CalibrationDay) : List Adjustment :=
  let delta : SignedUsage := ⟨allocatedOn up d.day, allocatedOn down d.day⟩
  if delta.up = 0 ∧ delta.down = 0 ∧ rows ≠ [] then rows
  else rows ++ [{ key with client := client, cycle := cycle, day := d.day, delta := delta }]

/-- The adjustments, day by day. -/
def calibrationRows (key : CalibrationKey) (client cycle : String) (days : List CalibrationDay)
    (up down : List (ℤ × ℤ)) : List Adjustment :=
  days.foldl (addRow key client cycle up down) []

/-- What the database and the random source answer to a calibration. -/
structure Answers where
  reads : Reads
  /-- `newCalibrationID`. -/
  calibrationID : Except String String
  saved : Except String Unit
  reread : Reads

section Calibrate

variable [TimezoneDatabase]

/-- The first day was put right by hand. -/
def markCycleFirstDayRecovered (client : Client) (now : ℤ) (firstDays : FirstDays) :
    Except String FirstDays := do
  let (cycleStart, cycle) ← currentTrafficCycleFor client now
  match cycleFirstDayWindow cycleStart with
  | none => return firstDays
  | some (_, stop, startDay) =>
    let day := dateOnly startDay
    let row := (firstDays.find? (client.uuid, cycle)).getD ⟨day, 0, 0, zeroTime, false, false⟩
    let coveredUntil :=
      if row.coveredUntil = zeroTime ∧ stop ≠ zeroTime then stop + 1 else row.coveredUntil
    return firstDays.upsert (client.uuid, cycle)
      { row with coveredUntil := coveredUntil, day := day, sealed := true, recovered := true }

/-- The transaction of `calibrateCycle`. -/
def saveCalibration (client : Client) (now : ℤ) (historyComplete : Bool) (rows : List Adjustment)
    (saved : Except String Unit) (tables : CalibrationTables) : Except String CalibrationTables := do
  let firstDays ←
    if historyComplete then pure tables.firstDays
    else markCycleFirstDayRecovered client now tables.firstDays
  saved
  return { adjustments := tables.adjustments ++ rows, firstDays := firstDays }

/-- `calibrateCycle` up to its transaction: the snapshot and the rows to write, if there is something to
correct. -/
def planCalibration (client : Client) (target : Usage) (operator : String) (now : ℤ) (mode : String)
    (billableOffset targetTotal : Option ℤ) (answers : Answers) (tables : CalibrationTables) :
    Except String (CalibrationSnapshot × Option (List Adjustment)) := do
  if target.up < 0 ∨ target.down < 0 then
    throw "traffic calibration values cannot be negative"
  let (days, snapshot) ← loadCalibrationDays tables client now answers.reads.days
  let snapshot := snapshot.addDays days
  let upDelta := subInt64 target.up snapshot.effective.up
  let downDelta := subInt64 target.down snapshot.effective.down
  let history := loadCalibrationHistory tables client.uuid snapshot.cycle
  if upDelta = 0 ∧ downDelta = 0 then
    answers.reads.history
  if upDelta = 0 ∧ downDelta = 0 ∧ snapshot.historyComplete ∧ billableOffset = none ∧
      !(history.head?.any fun entry => entry.isTotal) then
    return ({ snapshot with history := history }, none)
  let up ← allocateCalibration days upDelta fun d => d.effective.up
  let down ← allocateCalibration days downDelta fun d => d.effective.down
  let calibrationID ← answers.calibrationID.mapError ("generate traffic calibration id: " ++ ·)
  let key : CalibrationKey := ⟨calibrationID, mode, billableOffset, targetTotal, target, operator, now⟩
  return (snapshot, some (calibrationRows key client.uuid snapshot.cycle days up down))

/-- The transaction of both calibrations. -/
def calibrateCycle (client : Client) (target : Usage) (operator : String) (now : ℤ) (mode : String)
    (billableOffset targetTotal : Option ℤ) (answers : Answers) (tables : CalibrationTables) :
    Except String CalibrationSnapshot × CalibrationTables :=
  match planCalibration client target operator now mode billableOffset targetTotal answers tables with
  | .error e => (.error e, tables)
  | .ok (snapshot, none) => (.ok snapshot, tables)
  | .ok (snapshot, some rows) =>
    match saveCalibration client now snapshot.historyComplete rows answers.saved tables with
    | .error e => (.error ("save traffic calibration: " ++ e), tables)
    | .ok tables => (loadCalibrationSnapshot tables client now answers.reread, tables)

/-- Both directions are set. -/
def calibrateCurrentCycle (client : Client) (target : Usage) (operator : String) (now : ℤ)
    (answers : Answers) (tables : CalibrationTables) :
    Except String CalibrationSnapshot × CalibrationTables :=
  calibrateCycle client target operator now "directions" none none answers tables

/-- `CalibrateBillableCycle`; `first` is what its own snapshot reads. -/
def calibrateBillableCycle (client : Client) (target : ℤ) (operator : String) (now : ℤ)
    (first : Reads) (answers : Answers) (tables : CalibrationTables) :
    Except String CalibrationSnapshot × CalibrationTables :=
  match loadCalibrationSnapshot tables client now first with
  | .error e => (.error e, tables)
  | .ok snapshot =>
    let kind := normalizedCountingType client.trafficLimitType
    match calibrationTargetsForTotal kind snapshot.effective target with
    | .error e => (.error e, tables)
    | .ok values =>
      let offset := subInt64 target (snapshot.raw.billable kind)
      calibrateCycle client values operator now ("total:" ++ kind) (some offset) (some target)
        answers tables

end Calibrate

end Traffic

end Komari
