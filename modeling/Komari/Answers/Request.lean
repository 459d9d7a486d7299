import Komari.Metric.ReadPlan
import Komari.TrafficReset.Schedule
import Mathlib.Algebra.Order.Field.Rat

/-!
# Requests for a series

What a caller asks for: a metric, a filter on entity and tags, a window, and an aggregation of the
samples in each output bucket.
-/

namespace Komari

namespace Answers

open Metric

/-! ### Series -/

/-- A tag map: its entries by ascending key.  It stands for its canonical JSON, too. -/
abbrev Tags := List (String × String)

/-- `sqliteV4Series`: a row of the table of series. -/
structure SeriesRow where
  id : ℤ
  metricName : String
  entityID : String
  tagsHash : String
  tags : Tags
deriving DecidableEq

/-! ### Aggregations -/

/-- The fraction that a percentile stands for. -/
abbrev Fraction := {f : ℚ // 0 < f ∧ f < 1}

/-- The aggregations of lost pings, computed from latencies in which a negative value is a loss. -/
inductive PingLossAggregation
  | avg
  | sum
  | min
  | max
  | first
  | last
  | stdDev
  | rate
  | percentile (fraction : Fraction)
deriving DecidableEq

/-- `Aggregation`; a name that is no aggregation is kept as it is. -/
inductive Aggregation
  | avg
  | min
  | max
  | sum
  | count
  | first
  | last
  | rate
  | stdDev
  | percentile (fraction : Fraction)
  | pingLoss (aggregation : PingLossAggregation)
  | other (name : String)
deriving DecidableEq

namespace Aggregation

/-- It needs a digest. -/
def isPercentile : Aggregation → Bool
  | .percentile _ => true
  | _ => false

/-- The aggregation needs the samples in their order: `AggRate` or `aggPingLossRate`. -/
def isRate : Aggregation → Bool
  | .rate => true
  | .pingLoss .rate => true
  | _ => false

/-- What is asked of the latencies instead. -/
def pingLossPhysicalAggregation : Aggregation → Aggregation
  | .avg => .pingLoss .avg
  | .sum => .pingLoss .sum
  | .min => .pingLoss .min
  | .max => .pingLoss .max
  | .first => .pingLoss .first
  | .last => .pingLoss .last
  | .stdDev => .pingLoss .stdDev
  | .rate => .pingLoss .rate
  | .percentile fraction => .pingLoss (.percentile fraction)
  | aggregation => aggregation

end Aggregation

/-! ### Queries -/

/-- The order of an answer. -/
inductive Order
  | unset
  | asc
  | desc
  | other (name : String)
deriving DecidableEq

/-- `Query`, a request for raw points. -/
structure Query where
  metricName : String
  /-- `EntityID`; a blank one does not filter. -/
  entityID : String
  /-- `Start`, inclusive. -/
  start : ℤ
  /-- `End`, inclusive. -/
  stop : ℤ
  /-- `Tags`: each entry has to match. -/
  tags : Tags
  limit : ℤ
  offset : ℤ
  order : Order
deriving DecidableEq

/-- A request for buckets. -/
structure AggregateQuery extends Query where
  aggregation : Aggregation
  /-- `Interval`: width of the output buckets. -/
  interval : ℤ
  /-- `PreserveSeries`: keep one output series for each stored series. -/
  preserveSeries : Bool
  omitTags : Bool
  bucketLimit : ℤ
  bucketOffset : ℤ
deriving DecidableEq

/-- The zero `time.Time`: the first instant of the year 1. -/
def zeroTime : ℤ := -62135596800 * 1000000000

/-- `strings.TrimSpace(s) == ""`. -/
def blank (s : String) : Bool := TrafficReset.trimSpace s == ""

/-- `Query.Validate`. -/
def Query.validate (q : Query) : Except String Unit :=
  if blank q.metricName then .error "metric: invalid argument: metric name is required"
  else if q.start = zeroTime ∨ q.stop = zeroTime then
    .error "metric: invalid argument: start and end time are required"
  else if q.stop < q.start then
    .error "metric: invalid argument: end time cannot be before start time"
  else if q.limit < 0 ∨ q.offset < 0 then
    .error "metric: invalid argument: limit and offset cannot be negative"
  else
    match q.order with
    | .other name => .error ("metric: invalid argument: unsupported order " ++ name.quote)
    | _ => .ok ()

/-- `AggregateQuery.Validate`. -/
def AggregateQuery.validate (q : AggregateQuery) : Except String Unit := do
  q.toQuery.validate
  if q.interval ≤ 0 then .error "metric: invalid argument: aggregate interval must be positive"
  else if q.bucketLimit < 0 ∨ q.bucketOffset < 0 then
    .error "metric: invalid argument: bucket limit and offset cannot be negative"
  else
    match q.aggregation with
    | .other name => .error ("metric: invalid argument: unsupported aggregation " ++ name.quote)
    | _ => .ok ()

/-- `Query.normalized`, whose times are UTC already. -/
def Query.normalized (q : Query) : Query :=
  if q.order = .unset then { q with order := .asc } else q

/-- Its times and the width of its buckets. -/
def AggregateQuery.window (q : AggregateQuery) : SeriesWindow := ⟨q.start, q.stop, q.interval⟩

/-- The filter of `sqliteV4MatchingSeries`: `json_extract` yields nothing for a missing tag, which is
equal to no value. -/
def SeriesRow.selected (row : SeriesRow) (q : Query) : Bool :=
  (blank q.metricName || row.metricName == q.metricName) &&
    (blank q.entityID || row.entityID == q.entityID) &&
    q.tags.all fun filter => row.tags.lookup filter.1 == some filter.2

end Answers

end Komari
