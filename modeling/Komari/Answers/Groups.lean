import Komari.Answers.Raw
import Komari.Metric.Store
import Komari.Table.Group

/-!
# Aggregates from buckets

The other way to an answer: samples and stored rollup buckets are folded into one bucket for each row
of the answer, and the value of the row is computed from the summary.
-/

namespace Komari

namespace Answers

open Metric

/-- A digest that answers percentiles. -/
class QuantileDigest (D : Type) extends TDigest D where
  quantile : D → ℚ → ℚ

/-- The digest that keeps every value answers the exact percentile. -/
instance : QuantileDigest (List ℚ) where
  quantile values p := percentileSorted (sortOn id values) p

/-! ### The value of a bucket -/

/-- A percentile of zeros and ones. -/
def pingLossPercentile (total loss : ℕ) (fraction : ℚ) : ℚ :=
  if total = 0 then 0
  else if loss = 0 then 0
  else if total ≤ loss then 1
  else
    let position := fraction * (total - 1 : ℕ)
    let lower := ⌊position⌋.toNat
    let upper := ⌈position⌉.toNat
    let zeros := total - loss
    let lowerValue : ℚ := if zeros ≤ lower then 1 else 0
    let upperValue : ℚ := if zeros ≤ upper then 1 else 0
    if lower = upper then lowerValue
    else lowerValue + (upperValue - lowerValue) * (position - lower)

variable {D : Type} [QuantileDigest D]

/-- The loss of pings from the summary of their latency. -/
def pingLossValue (sqrt : ℚ → ℚ) (b : RollupBucket D) : PingLossAggregation → Option ℚ
  | .avg => some (if b.count = 0 then 0 else b.lossCount / b.count)
  | .sum => some b.lossCount
  | .min => some (if 0 < b.count ∧ b.lossCount = b.count then 1 else 0)
  | .max => some (if 0 < b.lossCount then 1 else 0)
  | .first => some (if 0 < b.count ∧ b.firstVal < 0 then 1 else 0)
  | .last => some (if 0 < b.count ∧ b.lastVal < 0 then 1 else 0)
  | .stdDev =>
    if b.count = 0 then some 0
    else
      let p : ℚ := b.lossCount / b.count
      some (sqrt (p * (1 - p)))
  | .rate => none
  | .percentile fraction => some (pingLossPercentile b.count b.lossCount fraction)

/-- `rollupBucket.value`; `none` when the aggregation is not derivable. -/
def bucketValue (sqrt : ℚ → ℚ) (b : RollupBucket D) (aggregation : Aggregation) : Option ℚ :=
  let validCount := b.count - b.lossCount
  match aggregation with
  | .avg => some (if validCount = 0 then 0 else b.sum / validCount)
  | .min => some (if validCount = 0 then 0 else b.min)
  | .max => some (if validCount = 0 then 0 else b.max)
  | .sum => some b.sum
  | .count => some b.count
  | .first => some b.firstVal
  | .last => some b.lastVal
  | .stdDev =>
    if validCount = 0 then some 0
    else
      let mean := b.sum / validCount
      let variance := b.sumSq / validCount - mean * mean
      some (sqrt (if variance < 0 then 0 else variance))
  | .percentile fraction =>
    match b.digest with
    | none => some 0
    | some digest =>
      some (if TDigest.count digest = 0 then 0 else QuantileDigest.quantile digest fraction)
  | .pingLoss loss => pingLossValue sqrt b loss
  | .rate => none
  | .other _ => none

/-! ### Folding -/

/-- A sample with the series that it belongs to. -/
structure Sampled where
  metricName : String
  series : Series
  tags : Tags
  tsNano : ℤ
  value : ℚ
deriving DecidableEq

/-- A bucket and its series. -/
structure StoredRollup (D : Type) where
  series : Series
  tags : Tags
  bucket : ℤ
  data : RollupBucket D

/-- `rollupBucket` of an output row, with the tags of the first series that it met. -/
structure GroupBucket (D : Type) where
  data : RollupBucket D
  /-- `tagsJSON`. -/
  tags : Tags

/-- Buckets of an answer. -/
abbrev Groups (D : Type) := Table RollupKey (GroupBucket D)

/-- The bucket of an answer; one series, unless they are kept. -/
def foldedRollupKey (series : Series) (bucket : ℤ) (preserveSeries : Bool) : RollupKey :=
  if preserveSeries then ⟨series, bucket⟩ else ⟨⟨"", ""⟩, bucket⟩

/-- The bucket of a point. -/
def Sampled.key (q : AggregateQuery) (s : Sampled) : RollupKey :=
  foldedRollupKey s.series (floorDivNano s.tsNano q.interval) q.preserveSeries

/-- The bucket of a rollup. -/
def StoredRollup.key (q : AggregateQuery) (r : StoredRollup D) : RollupKey :=
  foldedRollupKey r.series (floorDivNano r.bucket q.interval) q.preserveSeries

/-- A point is folded in. -/
def GroupBucket.addSample (b : GroupBucket D) (s : Sampled) : GroupBucket D :=
  { b with data := b.data.addMetricPoint s.metricName s.value s.tsNano }

/-- Fold a stored bucket into its row. -/
def GroupBucket.addRollup (b : GroupBucket D) (r : StoredRollup D) : GroupBucket D :=
  { b with data := b.data.mergeStored r.data }

/-- Samples are folded in: `foldRawPoints`, and the loops of `foldSQLiteV4RawAggregate`. -/
def foldRaw (q : AggregateQuery) (needDigest : Bool) (groups : Groups D) (samples : List Sampled) :
    Groups D :=
  groups.collect (Sampled.key q) (fun s => ⟨RollupBucket.new needDigest, s.tags⟩)
    GroupBucket.addSample samples

/-- Stored buckets are folded in: `foldRollupRows`, and the loops of `foldSQLiteV4Rollups`. -/
def foldRollups (q : AggregateQuery) (needDigest : Bool) (groups : Groups D)
    (rows : List (StoredRollup D)) : Groups D :=
  groups.collect (StoredRollup.key q) (fun r => ⟨RollupBucket.new needDigest, r.tags⟩)
    GroupBucket.addRollup rows

/-! ### The rows of an answer -/

/-- `sortRollupKeys` sorts by bucket, entity and fingerprint. -/
def rollupKeyOrder (key : RollupKey) : ℤ ×ₗ String ×ₗ String :=
  toLex (key.bucket, toLex (key.series.entityID, key.series.tagsHash))

/-- The message for an aggregation that a summary does not determine. -/
def unsupportedOverRollups : Aggregation → String
  | .rate => "metric: invalid argument: aggregation \"rate\" not supported over rollups"
  | .pingLoss .rate =>
    "metric: invalid argument: aggregation \"__ping_loss_rate\" not supported over rollups"
  | .other name =>
    "metric: invalid argument: aggregation " ++ name.quote ++ " not supported over rollups"
  | _ => "metric: invalid argument: aggregation not supported over rollups"

/-- One row of `rollupGroupsToPoints`; merged series have the identity of the filter. -/
def rollupGroup (cfg : Config) (q : AggregateQuery) (row : RollupKey × GroupBucket D) :
    Except String AggregatePoint :=
  match bucketValue cfg.sqrt row.2.data q.aggregation with
  | none => .error (unsupportedOverRollups q.aggregation)
  | some value => .ok {
      metricName := q.metricName
      entityID := if q.preserveSeries then row.1.series.entityID else q.entityID
      bucket := row.1.bucket
      value := value
      count := row.2.data.count
      tags := if q.omitTags then none
        else some (if q.preserveSeries then row.2.tags else q.tags) }

/-- The rows of an answer. -/
def rollupGroupsToPoints (cfg : Config) (groups : Groups D) (q : AggregateQuery) :
    Except String (List AggregatePoint) :=
  (sortOn (fun row => rollupKeyOrder row.1) groups.rows).mapM (rollupGroup cfg q)

end Answers

end Komari
