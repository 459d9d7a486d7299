import Komari.Answers.Groups

/-!
# Answering a request

`Series` answers a request from raw points, or from the tiers of rollups and the raw points behind
them, depending on how far back the window reaches.
-/

namespace Komari

namespace Answers

open Metric

variable {D : Type} [QuantileDigest D]

/-! ### Reading -/

/-- What the statements of a read return, for the state that they see. -/
structure Reads (D : Type) where
  /-- `GetMetric`: the retention of a metric that is defined. -/
  retentionDays : String → Option ℕ
  watermark : String → Option ℤ
  /-- The raw samples of the chosen series in an inclusive window, in the order they are visited. -/
  rawSamples : (SeriesRow → Bool) → ℤ → ℤ → Except String (List Sampled)
  /-- The rollups of the filtered series in a resolution whose buckets start in an inclusive range,
  with digests if needed, in the order they are visited. -/
  rollups : Query → ℤ → ℤ → ℤ → Bool → Except String (List (StoredRollup D))

variable (cfg : Config) (r : Reads D)

/-- Losses are stored with the latencies. -/
def Config.physicalRollupMetricName (metricName : String) : String :=
  if cfg.pingMerged && metricName == sqliteVirtualPingLossMetric then sqliteMergedPingLatencyMetric
  else metricName

/-- With the retention of the metric. -/
def rollupPolicyForMetric (metricName : String) : RollupPolicy :=
  if !cfg.policy.enabled then cfg.policy
  else
    match r.retentionDays (cfg.physicalRollupMetricName metricName) with
    | none => cfg.policy
    | some days => if days = 0 then cfg.policy else cfg.policy.withMetricRetention (days * day)

/-- Unless it is missing. -/
def compactionWatermark (metricName : String) : Option ℤ :=
  (r.watermark metricName).filter fun nano => 0 < nano

/-- A stored point in an answer. -/
def Sampled.point (s : Sampled) : Point := ⟨s.metricName, s.series.entityID, s.tsNano, s.value, s.tags⟩

/-- A point as a sample of its series. -/
def Point.sampled (p : Point) : Sampled :=
  ⟨p.metricName, ⟨p.entityID, cfg.tagsFingerprint p.tags⟩, p.tags, p.timestamp, p.value⟩

/-- The order of `querySQLiteV4`: by time, entity and tags. -/
def pointLE (order : Order) (p q : Point) : Bool :=
  if p.timestamp ≠ q.timestamp then
    if order = .desc then q.timestamp < p.timestamp else p.timestamp < q.timestamp
  else if p.entityID ≠ q.entityID then p.entityID < q.entityID
  else cfg.tagsLE p.tags q.tags

/-- The page of raw points that is asked for. -/
def pagePoints (points : List Point) (limit offset : ℤ) : List Point :=
  let points := points.drop offset.toNat
  if 0 < limit then points.take limit.toNat else points

/-- `Query`, on raw points. -/
def query (q : Query) : Except String (List Point) := do
  q.validate
  let q := q.normalized
  let virtualLoss := cfg.pingMerged && q.metricName == sqliteVirtualPingLossMetric
  let q := if virtualLoss then { q with metricName := sqliteMergedPingLatencyMetric } else q
  let samples ← r.rawSamples (fun row => row.selected q) q.start q.stop
  let points := (samples.map Sampled.point).mergeSort (pointLE cfg q.order)
  let points := pagePoints points q.limit q.offset
  pure (if virtualLoss then points.map virtualPingLossPoint else points)

/-- `Aggregate`: the answer from raw points. -/
def aggregate (q : AggregateQuery) : Except String (List AggregatePoint) := do
  q.validate
  let virtualLoss := cfg.pingMerged && q.metricName == sqliteVirtualPingLossMetric
  let q := if virtualLoss then
      { q with
        metricName := sqliteMergedPingLatencyMetric
        aggregation := q.aggregation.pingLossPhysicalAggregation }
    else q
  let points ← query cfg r { q.toQuery with limit := 0, offset := 0 }
  let buckets ← aggregatePoints cfg points q
  let buckets := pageBuckets buckets q.bucketLimit q.bucketOffset
  pure (if virtualLoss then restoreVirtualPingLossAggregates buckets else buckets)

/-! ### The route of an answer -/

/-- Where an answer is read from. -/
inductive Route
  | raw
  /-- Rollups before the boundary and raw points from it on; without a watermark the raw points of the
  whole window that no rollup covers. -/
  | tiers (boundary : ℤ) (hasWatermark : Bool)
deriving DecidableEq

/-- Some tier can be read. -/
def hasCompatibleTier (policy : RollupPolicy) (interval : ℤ) : Bool :=
  policy.tiers.any fun tier => tier.compatible interval

/-- The decisions of `seriesPhysical`, `collectSeriesPhysicalGroups`, `seriesPhysicalUsesOnlyRaw` and
`planDashboardSeriesBatch` under the policy of a metric. -/
def route (policy : RollupPolicy) (watermark : Option ℤ) (now : ℤ) (w : SeriesWindow) : Route :=
  match policy.rawCutoff now with
  | none => .raw
  | some rawCutoff =>
    if rawCutoff ≤ w.start then .raw
    else if !hasCompatibleTier policy w.interval then .raw
    else
      match watermark with
      | none => .tiers rawCutoff false
      | some watermark =>
        let boundary := if watermark < rawCutoff then watermark else rawCutoff
        if boundary ≤ w.start then .raw else .tiers boundary true

/-- Where the answer is read from. -/
def routeOf (q : AggregateQuery) (now : ℤ) : Route :=
  route (rollupPolicyForMetric cfg r q.metricName) (compactionWatermark r q.metricName) now q.window

/-! ### The buckets of an answer -/

/-- The raw points of a request. -/
def readRaw (q : AggregateQuery) (start : ℤ) : Except String (List Sampled) :=
  r.rawSamples (fun row => row.selected q.toQuery) start q.stop

/-- A rollup that was read covers the time of the sample. -/
def StoredRollup.coversSample (resolution : ℤ) (row : StoredRollup D) (s : Sampled) : Bool :=
  row.series == s.series && row.bucket ≤ s.tsNano && s.tsNano < row.bucket + resolution

/-- The tier loop of `collectSeriesAcrossHandoffTiers`: the buckets, and which samples are covered. -/
def collectTiers (q : AggregateQuery) (needDigest : Bool) :
    List TierScan → Groups D → Except String (Groups D × (Sampled → Bool))
  | [], groups => .ok (groups, fun _ => false)
  | scan :: scans, groups => do
    let rows ← r.rollups q.toQuery scan.interval scan.lower scan.upper needDigest
    let (groups, covered) ← collectTiers q needDigest scans (foldRollups q needDigest groups rows)
    pure (groups, fun s => rows.any (fun row => row.coversSample scan.interval s) || covered s)

/-- The buckets of all tiers and the raw points. -/
def collectSeriesAcrossHandoffTiers (q : AggregateQuery) (now : ℤ) (policy : RollupPolicy)
    (rawBoundary : ℤ) (hasWatermark needDigest : Bool) : Except String (Groups D) := do
  let (groups, covered) ← collectTiers r q needDigest (handoffScans now q.window rawBoundary policy.tiers) ∅
  let rawStart := if !hasWatermark || rawBoundary < q.start then q.start else rawBoundary
  if q.stop < rawStart then pure groups
  else if hasWatermark then do
    let samples ← readRaw r q rawStart
    pure (foldRaw q needDigest groups samples)
  else do
    -- points that a rollup covers are not counted again
    let points ← query cfg r { q.toQuery with start := rawStart, limit := 0, offset := 0 }
    let samples := (points.map (Point.sampled cfg)).filter fun s => !covered s
    pure (foldRaw q needDigest groups samples)

/-- The buckets of an answer. -/
def collectSeriesPhysicalGroups (q : AggregateQuery) (now : ℤ) (needDigest : Bool) :
    Except String (Groups D) := do
  let policy := rollupPolicyForMetric cfg r q.metricName
  match route policy (compactionWatermark r q.metricName) now q.window with
  | .raw => do
    let samples ← readRaw r q q.start
    pure (foldRaw q needDigest ∅ samples)
  | .tiers boundary hasWatermark =>
    collectSeriesAcrossHandoffTiers cfg r q now policy boundary hasWatermark needDigest

/-- The points of an answer. -/
def answerGroups (q : AggregateQuery) (groups : Groups D) : Except String (List AggregatePoint) := do
  let points ← rollupGroupsToPoints cfg groups q
  pure (pageBuckets points q.bucketLimit q.bucketOffset)

/-- `seriesPhysical`: a rate is answered from raw points, and so is a window that needs no rollups,
unless the store has no tiers. -/
def seriesPhysical (q : AggregateQuery) (now : ℤ) : Except String (List AggregatePoint) := do
  q.validate
  if q.aggregation.isRate then aggregate cfg r q
  else if !(rollupPolicyForMetric cfg r q.metricName).enabled || routeOf cfg r q now ≠ .raw then do
    let groups ← collectSeriesPhysicalGroups cfg r q now q.aggregation.isPercentile
    answerGroups cfg q groups
  else aggregate cfg r q

/-- The request for the stored series, when the metric is virtual. -/
def AggregateQuery.physical (q : AggregateQuery) : AggregateQuery :=
  if cfg.pingMerged && q.metricName == sqliteVirtualPingLossMetric then
    { q with
      metricName := sqliteMergedPingLatencyMetric
      aggregation := q.aggregation.pingLossPhysicalAggregation }
  else q

/-- The metric of a request is virtual. -/
def AggregateQuery.isVirtualLoss (q : AggregateQuery) : Bool :=
  cfg.pingMerged && q.metricName == sqliteVirtualPingLossMetric

/-- `Series`. -/
def series (q : AggregateQuery) (now : ℤ) : Except String (List AggregatePoint) := do
  q.validate
  let points ← seriesPhysical cfg r (q.physical cfg) now
  pure (if q.isVirtualLoss cfg then restoreVirtualPingLossAggregates points else points)

end Answers

end Komari
