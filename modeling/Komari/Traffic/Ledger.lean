import Mathlib.Data.Int.Range
import Mathlib.Data.List.Sort
import Mathlib.Data.Prod.Lex
import Komari.Table.Basic
import Komari.Traffic.Counter

/-!
# The daily traffic ledger

Report traffic is settled into one row for each client and Beijing calendar day.  A settlement
(`ensureRange`, and `maintain`, which also prunes old rows) scans the records of its whole range
once, with the totals before the range as the baseline, assigns each delta to the day of its record,
and writes the days that have no row yet; a row is never recalculated.

The model keeps the number of a calendar day where the source keeps its date as a string, and the
records of a client are a list sorted by time.
-/

namespace Komari

namespace Traffic

/-! ### Days and usages -/

def nanosPerDay : ℤ := 24 * 60 * 60 * 1000000000

/-- `BeijingLocation`: eight hours ahead of UTC, in nanoseconds. -/
def beijingOffset : ℤ := 8 * 60 * 60 * 1000000000

/-- `BeijingDay` and `dayKey`: the number of the Beijing calendar day that contains `t`. -/
def beijingDay (t : ℤ) : ℤ := (t + beijingOffset) / nanosPerDay

/-- The instant at which a Beijing calendar day starts. -/
def dayStart (day : ℤ) : ℤ := day * nanosPerDay - beijingOffset

/-- Bytes in both directions. -/
structure Usage where
  up : ℤ
  down : ℤ
deriving DecidableEq

/-- `usage.Up += up; usage.Down += down`. -/
def Usage.add (u v : Usage) : Usage := ⟨addInt64 u.up v.up, addInt64 u.down v.down⟩

/-- The usages of a list, added up from left to right. -/
def sumUsages (l : List Usage) : Usage := l.foldl Usage.add ⟨0, 0⟩

/-- Why days were not settled. -/
inductive LedgerError
  /-- The range does not contain a complete day. -/
  | emptyRange
  /-- The calculator omitted a day of the range. -/
  | calculatorOmitted (client : String) (day : ℤ)
  /-- Rows of the range are missing. -/
  | incomplete (client : String) (present expected : ℕ)
deriving DecidableEq

/-- `normalizeRange`: the days `[start, end)`. -/
def normalizeRange (startDay endDay : ℤ) : Except LedgerError (ℤ × ℤ) :=
  if beijingDay startDay < beijingDay endDay then .ok (beijingDay startDay, beijingDay endDay)
  else .error .emptyRange

/-! ### Reading the records of a client -/

/-- The retained records with `start ≤ time ≤ stop`. -/
def trafficRecordsByTime (records : List DeltaRecord) (start stop : ℤ) : List DeltaRecord :=
  records.filter fun r => decide (start ≤ r.time ∧ r.time ≤ stop)

/-- `GetLatestTrafficBefore`: the last totals before an instant. -/
def getLatestTrafficBefore (records : List DeltaRecord) (before : ℤ) : Option DeltaRecord :=
  ((records.filter fun r => decide (r.time < before)).getLast?).map fun r =>
    { time := before - 1, netTotalUp := r.netTotalUp, netTotalDown := r.netTotalDown,
      trafficUp := 0, trafficDown := 0, trafficUpSet := false, trafficDownSet := false }

/-- `MetricUsage`: the traffic of `[start, stop]`. -/
def metricUsage (records : List DeltaRecord) (start stop : ℤ) : Usage :=
  let total := sumTrafficDeltas (trafficRecordsByTime records start stop)
    (getLatestTrafficBefore records start)
  ⟨total.1, total.2⟩

/-- The records of a scan, each with its upload and download delta. -/
def deltaItems (previous : Option (ℤ × ℤ)) (records : List DeltaRecord) :
    List (DeltaRecord × Usage) :=
  records.zip (((trafficDeltasByRecord upCounter previous records).zip
    (trafficDeltasByRecord downCounter previous records)).map fun d => ⟨d.1, d.2⟩)

/-- Add a delta to the usage of its day, if that day is in the range. -/
def addToDay (result : List (ℤ × Usage)) (item : DeltaRecord × Usage) : List (ℤ × Usage) :=
  result.map fun e => if e.1 = beijingDay item.1.time then (e.1, e.2.add item.2) else e

/-- `usagesByDayFromRecords`: a usage for each day of the range. -/
def usagesByDayFromRecords (start stop : ℤ) (records : List DeltaRecord)
    (previous : Option DeltaRecord) : List (ℤ × Usage) :=
  (deltaItems (previous.map DeltaRecord.totals) records).foldl addToDay
    ((Int.range start stop).map fun day => (day, ⟨0, 0⟩))

/-- `MetricUsagesByDay` for the days `[start, stop)`. -/
def metricUsagesByDay (records : List DeltaRecord) (start stop : ℤ) : List (ℤ × Usage) :=
  usagesByDayFromRecords start stop
    (trafficRecordsByTime records (dayStart start) (dayStart stop - 1))
    (getLatestTrafficBefore records (dayStart start))

/-! ### Settling and pruning -/

/-- `TrafficDailyLedger`: one row for each client and day. -/
abbrev Ledger := Table (String × ℤ) Usage

/-- The body of `ensureRangeWithDailyCalculator` for one client; `existing` is the ledger at the
start of the call. -/
def ensureClient (records : String → List DeltaRecord) (existing : Ledger) (start stop : ℤ)
    (ledger : Ledger) (clientID : String) : Except LedgerError Ledger :=
  let days := Int.range start stop
  if days.all fun day => (existing.find? (clientID, day)).isSome then .ok ledger
  else
    let dailyUsage := metricUsagesByDay (records clientID) start stop
    match days.find? fun day => (dailyUsage.lookup day).isNone with
    | some day => .error (.calculatorOmitted clientID day)
    | none =>
      let rows := (days.filter fun day => (existing.find? (clientID, day)).isNone).map fun day =>
        ((clientID, day), (dailyUsage.lookup day).getD ⟨0, 0⟩)
      .ok (ledger.upsertAll rows)

/-- The clients that a settlement works on: no empty id, none twice, sorted. -/
def settledClients (clientIDs : List String) : List String :=
  ((clientIDs.filter (· ≠ "")).dedup).insertionSort (· ≤ ·)

/-- `EnsureRange`: create the missing rows of `[startDay, endDay)`. -/
def ensureRange (records : String → List DeltaRecord) (clientIDs : List String)
    (startDay endDay : ℤ) (ledger : Ledger) : Except LedgerError Ledger := do
  let (start, stop) ← normalizeRange startDay endDay
  (settledClients clientIDs).foldlM (ensureClient records ledger start stop) ledger

/-- `SumRange`: the sum of the rows of a complete range. -/
def sumRange (ledger : Ledger) (clientID : String) (startDay endDay : ℤ) :
    Except LedgerError Usage := do
  let (start, stop) ← normalizeRange startDay endDay
  let rows := ledger.rows.filter fun row =>
    decide (row.1.1 = clientID ∧ start ≤ row.1.2 ∧ row.1.2 < stop)
  let expected := (Int.range start stop).length
  if rows.length = expected then .ok (sumUsages (rows.map Prod.snd))
  else .error (.incomplete clientID rows.length expected)

def dashboardLedgerRetentionDays : ℕ := 31

def dashboardHistoryDays : ℤ := 30

/-- The retention of a client's rows: the dashboard's for an existing client, more if an enabled
report needs more, none for a client that is in neither list. -/
def ledgerRetentionDays (allClients : List String) (reportTargets : List (String × ℕ))
    (clientID : String) : ℕ :=
  ((reportTargets.filter (·.1 = clientID)).map Prod.snd).foldl max
    (if clientID ≠ "" ∧ clientID ∈ allClients then dashboardLedgerRetentionDays else 0)

/-- The clients whose days are settled. -/
def maintainedClients (allClients : List String) (reportTargets : List (String × ℕ)) :
    List String :=
  (allClients ++ reportTargets.map Prod.fst).filter fun clientID =>
    decide (0 < ledgerRetentionDays allClients reportTargets clientID)

/-- `Maintain`: settle the dashboard's days, then delete the rows that are past their retention and
those of clients that are gone. -/
def maintain (records : String → List DeltaRecord) (allClients : List String)
    (reportTargets : List (String × ℕ)) (now : ℤ) (ledger : Ledger) :
    Except LedgerError Ledger := do
  let clientIDs := maintainedClients allClients reportTargets
  let today := beijingDay now
  let ledger ←
    if clientIDs = [] then .ok ledger
    else
      ensureRange records clientIDs (dayStart (today - (dashboardHistoryDays - 1)))
        (dayStart today) ledger
  .ok (ledger.deleteWhere fun key _ =>
    if key.1 ∈ clientIDs then
      decide (key.2 < today - ledgerRetentionDays allClients reportTargets key.1)
    else key.1 ≠ "" || clientIDs ≠ [])

end Traffic

end Komari
