import Komari.Table.Basic
import Komari.Traffic.Counter
import Komari.TrafficReset.Schedule

/-!
# The points of a report

A report becomes points of the same time.  Its traffic is the increase of its counters over those of the
report before, which are read back from the store for the first report of a client.

Times are nanoseconds after the zero time of the source, and a report is not received before it.
-/

namespace Komari

namespace Reports

open TrafficReset (nanosPerSecond)

/-- Floating point values, to which counters are converted and back. -/
class MetricValue (F : Type) where
  /-- `float64(n)` -/
  ofInt : ℤ → F
  /-- `int64(value)` -/
  toInt : F → ℤ

/-- One GPU of a report. -/
structure GPUDeviceInfo (F : Type) where
  name : String
  memoryTotal : ℤ
  memoryUsed : ℤ
  utilization : F
  temperature : ℤ
deriving DecidableEq

/-- The GPUs of a report. -/
structure GPUDetailReport (F : Type) where
  averageUsage : F
  detailedInfo : List (GPUDeviceInfo F)
deriving DecidableEq

/-- Rates and counters. -/
structure NetworkReport where
  up : ℤ
  down : ℤ
  totalUp : ℤ
  totalDown : ℤ
deriving DecidableEq

/-- What an agent sends. -/
structure Report (F : Type) where
  uuid : String
  updatedAt : ℕ
  cpu : F
  ram : ℤ
  swap : ℤ
  load1 : F
  disk : ℤ
  network : NetworkReport
  tcp : ℤ
  udp : ℤ
  process : ℤ
  gpu : Option (GPUDetailReport F)
deriving DecidableEq

/-- A point of a metric. -/
structure Point (F : Type) where
  metricName : String
  entityID : String
  timestamp : ℕ
  value : F
  tags : List (String × String)
deriving DecidableEq

/-- A report that `WriteReport` has accepted; they are numbered. -/
structure Accepted (F : Type) where
  number : ℕ
  report : Report F
deriving DecidableEq

/-- A report as it is written. -/
structure Row (F : Type) where
  source : Accepted F
  /-- The report with the time of its points. -/
  report : Report F
  trafficUp : ℤ
  trafficDown : ℤ
deriving DecidableEq

/-- The counters of the last report. -/
structure ReportTrafficValues where
  initialized : Bool
  timestamp : ℕ
  hasUp : Bool
  totalUp : ℤ
  hasDown : Bool
  totalDown : ℤ
deriving DecidableEq

/-- The values of a client of which nothing was written. -/
def ReportTrafficValues.fresh : ReportTrafficValues := ⟨false, 0, false, 0, false, 0⟩

/-! ### Traffic -/

def reportTrafficRateMultiplier : ℤ := 4

def reportTrafficRateAllowance : ℤ := 64 * 1024 * 1024

/-- What fits the rate and the time. -/
def reportTrafficDeltaUpperBound (bytesPerSecond elapsed : ℤ) : ℤ :=
  if bytesPerSecond < 0 then reportTrafficRateAllowance
  else
    let seconds := (int64 (elapsed + nanosPerSecond - 1)).tdiv nanosPerSecond
    if seconds ≤ 0 ∨ bytesPerSecond = 0 then reportTrafficRateAllowance
    else if maxInt64.tdiv seconds < bytesPerSecond then maxInt64
    else
      let expected := bytesPerSecond * seconds
      if (maxInt64 - reportTrafficRateAllowance).tdiv reportTrafficRateMultiplier < expected then maxInt64
      else expected * reportTrafficRateMultiplier + reportTrafficRateAllowance

/-- The bytes since the last report, if they fit. -/
def reportTrafficCounterDelta (current previous bytesPerSecond elapsed : ℤ) : ℤ :=
  let delta := Traffic.trafficCounterDelta current previous
  if delta = 0 ∨ elapsed ≤ 0 then delta
  else if reportTrafficDeltaUpperBound bytesPerSecond elapsed < delta then 0
  else delta

/-- `Time.Sub`: a duration is a 64-bit word. -/
def elapsedSince (time before : ℕ) : ℤ := max minInt64 (min maxInt64 ((time : ℤ) - before))

/-- The counters that `latestReportCounter` finds for a metric, with their times. -/
abbrev Latest := String → Option (ℤ × ℕ)

/-- A time that is later than the one there was. -/
def laterTime (found : Option (ℤ × ℕ)) (timestamp : ℕ) : ℕ :=
  match found with
  | some (_, time) => if timestamp < time then time else timestamp
  | none => timestamp

/-- The counters of a client are read back. -/
def ReportTrafficValues.restore (latest : Latest) (values : ReportTrafficValues) : ReportTrafficValues :=
  let up := latest "net.total.up"
  let down := latest "net.total.down"
  { initialized := true,
    timestamp := laterTime down (laterTime up values.timestamp),
    hasUp := up.isSome, totalUp := (up.map Prod.fst).getD 0,
    hasDown := down.isSome, totalDown := (down.map Prod.fst).getD 0 }

/-- The time of the points of a report: after those of the report before. -/
def reportTime (values : ReportTrafficValues) (updatedAt : ℕ) : ℕ :=
  if values.timestamp ≠ 0 ∧ updatedAt ≤ values.timestamp then values.timestamp + 1 else updatedAt

/-- The counters of this report. -/
def ReportTrafficValues.after {F : Type} (report : Report F) : ReportTrafficValues :=
  ⟨true, report.updatedAt, true, report.network.totalUp, true, report.network.totalDown⟩

/-- One round of `writeReportBatch`. -/
def prepareReport {F : Type} (latest : Latest) (values : ReportTrafficValues) (a : Accepted F) : Row F :=
  let values := if values.initialized then values else values.restore latest
  let report := { a.report with updatedAt := reportTime values a.report.updatedAt }
  let elapsed := elapsedSince report.updatedAt values.timestamp
  ⟨a, report,
    if values.hasUp then
      reportTrafficCounterDelta report.network.totalUp values.totalUp report.network.up elapsed
    else 0,
    if values.hasDown then
      reportTrafficCounterDelta report.network.totalDown values.totalDown report.network.down elapsed
    else 0⟩

section Report

variable {F : Type}

@[simp] theorem prepareReport_source (latest : Latest) (values : ReportTrafficValues) (a : Accepted F) :
    (prepareReport latest values a).source = a := rfl

@[simp] theorem prepareReport_uuid (latest : Latest) (values : ReportTrafficValues) (a : Accepted F) :
    (prepareReport latest values a).report.uuid = a.report.uuid := rfl

variable {values : ReportTrafficValues}

/-- Counters that were read back are not read again. -/
theorem prepareReport_congr {latest latest' : Latest} (a : Accepted F)
    (h : values.initialized = false → latest = latest') :
    prepareReport latest values a = prepareReport latest' values a := by
  cases hvalues : values.initialized with
  | false => rw [h hvalues]
  | true => simp only [prepareReport, hvalues, if_true]

theorem reportTime_pos (values : ReportTrafficValues) {updatedAt : ℕ} (h : updatedAt ≠ 0) :
    0 < reportTime values updatedAt := by
  unfold reportTime
  split_ifs <;> omega

theorem lt_reportTime (h : values.timestamp ≠ 0) (updatedAt : ℕ) :
    values.timestamp < reportTime values updatedAt := by
  unfold reportTime
  split_ifs with hlate
  · omega
  · exact Nat.lt_of_not_le fun hle => hlate ⟨h, hle⟩

theorem prepareReport_pos (latest : Latest) (values : ReportTrafficValues) {a : Accepted F}
    (h : a.report.updatedAt ≠ 0) : 0 < (prepareReport latest values a).report.updatedAt :=
  reportTime_pos _ h

/-- The time of a report is later than that of the report before. -/
theorem lt_prepareReport {latest : Latest}
    (hinitialized : values.initialized = true) (h : values.timestamp ≠ 0) (a : Accepted F) :
    values.timestamp < (prepareReport latest values a).report.updatedAt := by
  simp only [prepareReport, hinitialized, if_true]
  exact lt_reportTime h _

end Report

section Store

variable {F : Type} [MetricValue F]

/-- The points of a report. -/
def reportMetricPoints (report : Report F) (trafficUp trafficDown : ℤ) : List (Point F) :=
  let point (metricName : String) (value : F) (tags : List (String × String)) : Point F :=
    ⟨metricName, report.uuid, report.updatedAt, value, tags⟩
  [point "cpu.usage" report.cpu [],
    point "memory.used" (MetricValue.ofInt report.ram) [],
    point "swap.used" (MetricValue.ofInt report.swap) [],
    point "load.average" report.load1 [],
    point "disk.used" (MetricValue.ofInt report.disk) [],
    point "net.in.rate" (MetricValue.ofInt report.network.down) [],
    point "net.out.rate" (MetricValue.ofInt report.network.up) [],
    point "net.total.up" (MetricValue.ofInt report.network.totalUp) [],
    point "net.total.down" (MetricValue.ofInt report.network.totalDown) [],
    point "traffic.up" (MetricValue.ofInt trafficUp) [],
    point "traffic.down" (MetricValue.ofInt trafficDown) [],
    point "process.count" (MetricValue.ofInt report.process) [],
    point "connections.tcp" (MetricValue.ofInt report.tcp) [],
    point "connections.udp" (MetricValue.ofInt report.udp) []] ++
  match report.gpu with
  | none => []
  | some gpu =>
    point "gpu.usage" gpu.averageUsage [] ::
      gpu.detailedInfo.zipIdx.flatMap fun (device, index) =>
        let tags := [("device_index", toString index), ("device_name", device.name)]
        [point "gpu.memory.used" (MetricValue.ofInt device.memoryUsed) tags,
          point "gpu.memory.total" (MetricValue.ofInt device.memoryTotal) tags,
          point "gpu.device.usage" device.utilization tags,
          point "gpu.temperature" (MetricValue.ofInt device.temperature) tags]

/-- The points that are written for a row. -/
def Row.points (row : Row F) : List (Point F) :=
  reportMetricPoints row.report row.trafficUp row.trafficDown

/-- What the store held of the metrics of a client before: `LatestBefore`. -/
abbrev History (F : Type) := String → String → ℕ → Option (F × ℕ)

/-- The later one of a point and the latest one up to now. -/
def laterPoint (latest : Option (F × ℕ)) (p : Point F) : Option (F × ℕ) :=
  match latest with
  | some (value, time) => if time ≤ p.timestamp then some (p.value, p.timestamp) else some (value, time)
  | none => some (p.value, p.timestamp)

/-- `LatestBefore`, of a store to which rows were added. -/
def latestBefore (history : History F) (rows : List (Row F)) (metricName entityID : String)
    (before : ℕ) : Option (F × ℕ) :=
  ((rows.flatMap Row.points).filter fun p =>
    decide (p.metricName = metricName ∧ p.entityID = entityID ∧ p.timestamp < before)).foldl laterPoint
      (history metricName entityID before)

/-- The last counter of a client. -/
def latestReportCounter (history : History F) (rows : List (Row F)) (report : Report F) : Latest :=
  fun metricName => (latestBefore history rows metricName report.uuid report.updatedAt).map fun latest =>
    (MetricValue.toInt latest.1, latest.2)

/-- The last counters of all clients. -/
abbrev ReportTrafficStates := Table String ReportTrafficValues

/-- The last counters of one client. -/
def valuesOf (states : ReportTrafficStates) (uuid : String) : ReportTrafficValues :=
  (states.find? uuid).getD .fresh

/-- The reports of a batch become rows; the values of their clients are staged. -/
def prepareBatch (history : History F) (rows : List (Row F)) :
    ReportTrafficStates → List (Accepted F) → ReportTrafficStates × List (Row F)
  | staged, [] => (staged, [])
  | staged, a :: batch =>
    let row := prepareReport (latestReportCounter history rows a.report) (valuesOf staged a.report.uuid) a
    let (staged, prepared) :=
      prepareBatch history rows (staged.upsert a.report.uuid (.after row.report)) batch
    (staged, row :: prepared)

/-- The rows of the reports of one client, and the values after them. -/
def clientRows (history : History F) :
    ReportTrafficValues → List (Accepted F) → ReportTrafficValues × List (Row F)
  | values, [] => (values, [])
  | values, a :: reports =>
    let row := prepareReport (latestReportCounter history [] a.report) values a
    let (values, rows) := clientRows history (.after row.report) reports
    (values, row :: rows)

/-! ### Points -/

theorem entityID_of_mem_points {row : Row F} {p : Point F} (hp : p ∈ row.points) :
    p.entityID = row.report.uuid := by
  unfold Row.points reportMetricPoints at hp
  rw [List.mem_append] at hp
  rcases hp with hp | hp
  · simp only [List.mem_cons, List.not_mem_nil, or_false] at hp
    rcases hp with rfl | rfl | rfl | rfl | rfl | rfl | rfl | rfl | rfl | rfl | rfl | rfl | rfl | rfl <;> rfl
  · cases hgpu : row.report.gpu with
    | none =>
      rw [hgpu] at hp
      cases hp
    | some gpu =>
      rw [hgpu] at hp
      rcases List.mem_cons.mp hp with rfl | hp
      · rfl
      · obtain ⟨⟨device, index⟩, -, hp⟩ := List.mem_flatMap.mp hp
        simp only [List.mem_cons, List.not_mem_nil, or_false] at hp
        rcases hp with rfl | rfl | rfl | rfl <;> rfl

theorem latestReportCounter_of_other (history : History F) {rows : List (Row F)} {report : Report F}
    (h : ∀ row ∈ rows, row.report.uuid ≠ report.uuid) :
    latestReportCounter history rows report = latestReportCounter history [] report := by
  funext metricName
  unfold latestReportCounter latestBefore
  have hnone : ((rows.flatMap Row.points).filter fun p =>
      decide (p.metricName = metricName ∧ p.entityID = report.uuid ∧ p.timestamp < report.updatedAt)) = [] := by
    refine List.filter_eq_nil_iff.mpr fun p hp => ?_
    obtain ⟨row, hrow, hp⟩ := List.mem_flatMap.mp hp
    rw [decide_eq_true_eq]
    rintro ⟨-, hentity, -⟩
    exact h row hrow ((entityID_of_mem_points hp).symm.trans hentity)
  rw [hnone]
  rfl

/-! ### The reports of one client -/

theorem clientRows_append (history : History F) (values : ReportTrafficValues)
    (reports reports' : List (Accepted F)) :
    clientRows history values (reports ++ reports') =
      ((clientRows history (clientRows history values reports).1 reports').1,
        (clientRows history values reports).2 ++
          (clientRows history (clientRows history values reports).1 reports').2) := by
  induction reports generalizing values with
  | nil => rfl
  | cons a reports ih =>
    show ((clientRows history _ (reports ++ reports')).1, _ :: (clientRows history _ (reports ++ reports')).2) = _
    rw [ih]
    rfl

theorem clientRows_initialized (history : History F) {values : ReportTrafficValues}
    {reports : List (Accepted F)} (h : values.initialized = true ∨ reports ≠ []) :
    (clientRows history values reports).1.initialized = true := by
  induction reports generalizing values with
  | nil => exact h.resolve_right fun hne => hne rfl
  | cons a reports ih => exact ih (Or.inl rfl)

/-- **The times of a client increase**, and they are later than that of the report before. -/
theorem clientRows_spec (history : History F) {values : ReportTrafficValues} {reports : List (Accepted F)}
    (h : ∀ a ∈ reports, a.report.updatedAt ≠ 0) :
    ((clientRows history values reports).2.map fun row => row.report.updatedAt).Pairwise (· < ·) ∧
      (values.initialized = true → values.timestamp ≠ 0 →
        ∀ row ∈ (clientRows history values reports).2, values.timestamp < row.report.updatedAt) := by
  induction reports generalizing values with
  | nil => exact ⟨List.Pairwise.nil, fun _ _ row hrow => by cases hrow⟩
  | cons a reports ih =>
    obtain ⟨ha, hreports⟩ := List.forall_mem_cons.mp h
    set row := prepareReport (latestReportCounter history [] a.report) values a with hrow
    have hpos : row.report.updatedAt ≠ 0 := (prepareReport_pos _ values ha).ne'
    obtain ⟨hpairwise, hlater⟩ := @ih (.after row.report) hreports
    have hafter := hlater rfl hpos
    show ((row :: (clientRows history _ reports).2).map _).Pairwise (· < ·) ∧ (_ → _ → ∀ row' ∈ row :: _, _)
    refine ⟨?_, fun hinitialized htime row' hrow' => ?_⟩
    · rw [List.map_cons, List.pairwise_cons]
      exact ⟨List.forall_mem_map.mpr hafter, hpairwise⟩
    · have hfirst : values.timestamp < row.report.updatedAt := lt_prepareReport hinitialized htime a
      rcases List.mem_cons.mp hrow' with rfl | hrow'
      · exact hfirst
      · exact hfirst.trans (hafter row' hrow')

/-! ### Batches -/

/-- The rows of one client. -/
def rowsOf (uuid : String) (rows : List (Row F)) : List (Row F) :=
  rows.filter fun row => decide (row.source.report.uuid = uuid)

/-- The rows of every client are those of its reports, from the values that there were, and its values
are those that they leave. -/
def Settled (history : History F) (base : ReportTrafficStates) (rows : List (Row F))
    (states : ReportTrafficStates) : Prop :=
  ∀ uuid, clientRows history (valuesOf base uuid) ((rowsOf uuid rows).map Row.source) =
    (valuesOf states uuid, rowsOf uuid rows)

/-- The rows keep the clients of their reports. -/
def SameClients (rows : List (Row F)) : Prop := ∀ row ∈ rows, row.report.uuid = row.source.report.uuid

variable {base : ReportTrafficStates}

/-- A report of a client, in a batch or not. -/
theorem Settled.prepareReport_eq {history : History F} {rows done : List (Row F)}
    {staged : ReportTrafficStates} (h : Settled history base (rows ++ done) staged) (hsame : SameClients rows)
    (a : Accepted F) :
    prepareReport (latestReportCounter history rows a.report) (valuesOf staged a.report.uuid) a =
      prepareReport (latestReportCounter history [] a.report) (valuesOf staged a.report.uuid) a := by
  refine prepareReport_congr a fun hfresh => latestReportCounter_of_other history fun row hrow heq => ?_
  -- a client with rows has values
  have hmem : row ∈ rowsOf a.report.uuid (rows ++ done) := by
    refine List.mem_filter.mpr ⟨List.mem_append_left _ hrow, ?_⟩
    rw [decide_eq_true_eq, ← hsame row hrow, heq]
  have hinitialized := @clientRows_initialized F _ history (valuesOf base a.report.uuid) _
    (Or.inr (List.ne_nil_of_mem (List.mem_map_of_mem (f := Row.source) hmem)))
  rw [h a.report.uuid, hfresh] at hinitialized
  cases hinitialized

theorem Settled.append {history : History F} {rows : List (Row F)} {states : ReportTrafficStates}
    (h : Settled history base rows states) (a : Accepted F) :
    Settled history base
      (rows ++ [prepareReport (latestReportCounter history [] a.report) (valuesOf states a.report.uuid) a])
      (states.upsert a.report.uuid (.after
        (prepareReport (latestReportCounter history [] a.report) (valuesOf states a.report.uuid) a).report)) := by
  intro uuid
  unfold rowsOf valuesOf
  rw [List.filter_append, Table.find?_upsert]
  by_cases huuid : a.report.uuid = uuid
  · subst huuid
    simp only [List.filter_cons, prepareReport_source, decide_true, if_true, List.filter_nil, List.map_append,
      List.map_cons, List.map_nil, Option.getD_some]
    rw [clientRows_append]
    have hbefore := h a.report.uuid
    unfold rowsOf valuesOf at hbefore
    rw [hbefore]
    rfl
  · simp only [List.filter_cons, prepareReport_source, huuid, decide_false, Bool.false_eq_true, if_false,
      List.filter_nil, List.append_nil, if_neg (Ne.symm huuid)]
    exact h uuid

theorem prepareBatch_source (history : History F) (rows : List (Row F)) (staged : ReportTrafficStates)
    (batch : List (Accepted F)) : (prepareBatch history rows staged batch).2.map Row.source = batch := by
  induction batch generalizing staged with
  | nil => rfl
  | cons a batch ih => exact congrArg (a :: ·) (ih _)

theorem prepareBatch_sameClients (history : History F) (rows : List (Row F)) (staged : ReportTrafficStates)
    (batch : List (Accepted F)) : SameClients (prepareBatch history rows staged batch).2 := by
  induction batch generalizing staged with
  | nil => exact fun row hrow => by cases hrow
  | cons a batch ih =>
    intro row hrow
    rcases List.mem_cons.mp hrow with rfl | hrow
    · rfl
    · exact ih _ row hrow

/-- **A batch adds the rows of its reports**, as if there were no batches. -/
theorem Settled.prepareBatch {history : History F} {rows done : List (Row F)}
    {staged : ReportTrafficStates} (h : Settled history base (rows ++ done) staged) (hsame : SameClients rows)
    (batch : List (Accepted F)) :
    Settled history base (rows ++ done ++ (prepareBatch history rows staged batch).2)
      (Reports.prepareBatch history rows staged batch).1 := by
  induction batch generalizing done staged with
  | nil =>
    show Settled history base (rows ++ done ++ []) staged
    rwa [List.append_nil]
  | cons a batch ih =>
    have hrow := h.append a
    rw [← h.prepareReport_eq hsame a, List.append_assoc] at hrow
    have hrest := ih hrow
    simp only [List.append_assoc, List.cons_append, List.nil_append] at hrest
    simpa only [Reports.prepareBatch, List.append_assoc] using hrest

end Store

end Reports

end Komari
