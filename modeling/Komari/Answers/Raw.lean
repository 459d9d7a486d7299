import Komari.Answers.Request
import Komari.Metric.Bucket
import Komari.Table.Ordered
import Mathlib.Data.Prod.Lex
import Mathlib.Data.String.Basic
import Mathlib.Data.List.Dedup
import Mathlib.Data.Rat.Floor

/-!
# Aggregates of raw points

`AggregatePoints` sorts points by time, groups them by series and output bucket, and computes the
requested value of each group from its points.  Values are exact rationals.
-/

namespace Komari

namespace Answers

open Metric

/-- What the functions of the store use besides its data. -/
structure Config where
  /-- `RollupPolicy` of the configuration. -/
  policy : RollupPolicy
  /-- `sqlitePingMerged`: the loss of pings is not stored, but computed from their latency. -/
  pingMerged : Bool
  /-- `tagsFingerprint`: the SHA-256 hash of the canonical JSON. -/
  tagsFingerprint : Tags → String
  /-- The order of the canonical JSON texts. -/
  tagsLE : Tags → Tags → Bool
  /-- `math.Sqrt`. -/
  sqrt : ℚ → ℚ

/-- A point of an answer. -/
structure Point where
  metricName : String
  entityID : String
  timestamp : ℤ
  value : ℚ
  tags : Tags
deriving DecidableEq

/-- `AggregatePoint`; `none` is the nil map. -/
structure AggregatePoint where
  metricName : String
  entityID : String
  bucket : ℤ
  value : ℚ
  count : ℕ
  tags : Option Tags
deriving DecidableEq

def sqliteVirtualPingLossMetric : String := "ping.loss"

/-- A latency as zero or one. -/
def virtualPingLossPoint (p : Point) : Point :=
  { p with metricName := sqliteVirtualPingLossMetric, value := if p.value < 0 then 1 else 0 }

/-- The answers get their name back. -/
def restoreVirtualPingLossAggregates (points : List AggregatePoint) : List AggregatePoint :=
  points.map fun p => { p with metricName := sqliteVirtualPingLossMetric }

/-- The page of the answer that is asked for. -/
def pageBuckets (buckets : List AggregatePoint) (limit offset : ℤ) : List AggregatePoint :=
  let buckets := if 0 < offset then buckets.drop offset.toNat else buckets
  if 0 < limit ∧ limit < buckets.length then buckets.take limit.toNat else buckets

/-! ### The value of a group -/

/-- The sum of the values. -/
def sumValues (points : List Point) : ℚ := (points.map Point.value).sum

/-- `counterRate`: the upward movement for each second. -/
def counterRate (points : List Point) : ℚ :=
  match points.head?, points.getLast? with
  | some first, some last =>
    if points.length < 2 then 0
    else
      let seconds : ℚ := (last.timestamp - first.timestamp : ℤ) / 1000000000
      if seconds ≤ 0 then 0
      else (List.zipWith (fun p q => max (q.value - p.value) 0) points points.tail).sum / seconds
  | _, _ => 0

/-- In two passes, as the raw path does. -/
def stdDevPop (sqrt : ℚ → ℚ) (points : List Point) : ℚ :=
  let mean := sumValues points / points.length
  sqrt ((points.map fun p => (p.value - mean) * (p.value - mean)).sum / points.length)

/-- Between the two nearest values. -/
def percentileSorted (values : List ℚ) (p : ℚ) : ℚ :=
  if values.length = 0 then 0
  else if values.length = 1 then values.getD 0 0
  else
    let pos := p * (values.length - 1 : ℕ)
    let lower := ⌊pos⌋.toNat
    let upper := ⌈pos⌉.toNat
    if lower = upper then values.getD lower 0
    else
      let weight := pos - lower
      values.getD lower 0 * (1 - weight) + values.getD upper 0 * weight

/-- A percentile of points. -/
def percentile (points : List Point) (p : ℚ) : ℚ :=
  percentileSorted (sortOn id (points.map Point.value)) p

/-- The message for an aggregation that is not computed from these data. -/
def unsupportedAggregation : Aggregation → String
  | .other name => "metric: invalid argument: unsupported aggregation " ++ name.quote
  | _ => "metric: invalid argument: unsupported aggregation"

/-- `aggregateValue`, of points in time order. -/
def aggregateValue (sqrt : ℚ → ℚ) (points : List Point) (aggregation : Aggregation) :
    Except String ℚ :=
  match points with
  | [] => .ok 0
  | first :: rest =>
    match aggregation with
    | .avg => .ok (sumValues points / points.length)
    | .min => .ok (rest.foldl (fun v p => min v p.value) first.value)
    | .max => .ok (rest.foldl (fun v p => max v p.value) first.value)
    | .sum => .ok (sumValues points)
    | .count => .ok points.length
    | .first => .ok first.value
    | .last => .ok (rest.getLastD first).value
    | .rate => .ok (counterRate points)
    | .stdDev => .ok (stdDevPop sqrt points)
    | .percentile fraction => .ok (percentile points fraction)
    | aggregation => .error (unsupportedAggregation aggregation)

/-- The aggregation of the virtual loss points. -/
def PingLossAggregation.plain : PingLossAggregation → Aggregation
  | .avg => .avg
  | .sum => .sum
  | .min => .min
  | .max => .max
  | .first => .first
  | .last => .last
  | .stdDev => .stdDev
  | .rate => .rate
  | .percentile fraction => .percentile fraction

/-- `aggregateMetricValue`: lost pings do not enter the summaries of the latency. -/
def aggregateMetricValue (sqrt : ℚ → ℚ) (points : List Point) (aggregation : Aggregation) :
    Except String ℚ :=
  match points with
  | [] => .ok 0
  | first :: _ =>
    match aggregation with
    | .pingLoss loss => aggregateValue sqrt (points.map virtualPingLossPoint) loss.plain
    | _ =>
      if first.metricName ≠ sqliteMergedPingLatencyMetric ∨ aggregation = .count ∨
          aggregation = .first ∨ aggregation = .last ∨ aggregation = .rate then
        aggregateValue sqrt points aggregation
      else aggregateValue sqrt (points.filter fun p => 0 ≤ p.value) aggregation

/-! ### The rows of an answer -/

/-- A bucket of the raw path. -/
structure AggregateGroupKey where
  bucket : ℤ
  metricName : String
  entityID : String
  tagsHash : String
deriving DecidableEq

/-- `sortAggregateGroupKeys` sorts by bucket, metric, entity and fingerprint. -/
def AggregateGroupKey.order (key : AggregateGroupKey) : ℤ ×ₗ String ×ₗ String ×ₗ String :=
  toLex (key.bucket, toLex (key.metricName, toLex (key.entityID, key.tagsHash)))

/-- The start of a bucket. -/
def alignTime (t interval : ℤ) : ℤ := t - (t.tmod interval + interval).tmod interval

/-- In the order of time. -/
def sortedPoints (points : List Point) : List Point := sortOn Point.timestamp points

/-- A point without metric or entity takes those of the query. -/
def Point.resolve (q : AggregateQuery) (p : Point) : Point :=
  { p with
    metricName := if p.metricName = "" then q.metricName else p.metricName
    entityID := if p.entityID = "" then q.entityID else p.entityID }

/-- The bucket of a point. -/
def Point.groupKey (cfg : Config) (q : AggregateQuery) (p : Point) : AggregateGroupKey :=
  ⟨alignTime p.timestamp q.interval, p.metricName, p.entityID, cfg.tagsFingerprint p.tags⟩

/-- Buckets of one series. -/
def AggregateGroupKey.sameSeries (key other : AggregateGroupKey) : Bool :=
  key.metricName == other.metricName && key.entityID == other.entityID &&
    key.tagsHash == other.tagsHash

/-- One row of `AggregatePoints`. -/
def aggregateGroup (cfg : Config) (q : AggregateQuery) (points : List Point)
    (key : AggregateGroupKey) : Except String AggregatePoint := do
  let group := points.filter fun p => p.groupKey cfg q == key
  let value ← aggregateMetricValue cfg.sqrt group q.aggregation
  pure {
    metricName := key.metricName
    entityID := key.entityID
    bucket := key.bucket
    value := value
    count := group.length
    tags := some (((points.find? fun p => (p.groupKey cfg q).sameSeries key).map Point.tags).getD []) }

/-- The rows of an answer. -/
def aggregatePoints (cfg : Config) (points : List Point) (q : AggregateQuery) :
    Except String (List AggregatePoint) := do
  q.validate
  let points := (sortedPoints points).map (Point.resolve q)
  let keys := sortOn AggregateGroupKey.order (points.map (Point.groupKey cfg q)).dedup
  keys.mapM (aggregateGroup cfg q points)

end Answers

end Komari
