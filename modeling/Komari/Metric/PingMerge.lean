import Komari.Metric.Centroids
import Komari.Metric.Store

/-!
# Merging the ping series

Older stores keep two series for a ping task: the latency, where a lost probe has the value -1, and the
loss, which is 0 or 1.  A migration merges them into one, whose buckets count the losses themselves and
whose summaries leave the sentinels out.
-/

namespace Komari

namespace Metric

/-! ### One bucket -/

/-- Why the losses of a bucket are not known. -/
inductive LossCountError
  /-- `cannot derive an exact loss count from the latency digest`. -/
  | notExact
  /-- `latency/loss summaries do not describe the same samples`. -/
  | otherSamples
  /-- `loss summary is not an exact 0/1 count`. -/
  | notCount
  /-- `loss summary square count is inconsistent`. -/
  | squareCount
deriving DecidableEq

/-- Why a bucket is not converted. -/
inductive ConvertError
  /-- `invalid loss count %d/%d`. -/
  | invalidLossCount (lossCount count : ℕ)
  /-- `negative latency digest contains a non-sentinel mean %v`. -/
  | nonSentinel (mean : ℚ)
  /-- `latency digest loss weight=%v want=%d`. -/
  | lossWeight (removed : ℚ) (lossCount : ℕ)
  /-- `latency digest lost all valid centroids`. -/
  | noCentroids
deriving DecidableEq

/-- `sqliteV4RollupRecord`: the start of the bucket, and its summary with the digest decoded. -/
abbrev PingRecord := ℤ × RollupBucket Digest

variable [DigestConfig]

/-- `sqliteV8LossCount`. -/
def sqliteV8LossCount (latency loss : PingRecord) (paired : Bool) : Except LossCountError ℕ :=
  if paired then
    if loss.1 ≠ latency.1 ∨ loss.2.count ≠ latency.2.count then .error .otherSamples
    else
      let lossSum := loss.2.sum
      if (⌊lossSum⌋ : ℚ) ≠ lossSum ∨ lossSum < 0 ∨ (loss.2.count : ℚ) < lossSum then .error .notCount
      else if loss.2.sumSq ≠ lossSum then .error .squareCount
      else .ok ⌊lossSum⌋.toNat
  else
    match latency.2.digest with
    | none => .ok 0
    | some digest =>
      let count := ((digest.process.centroids.filter fun c => c.mean < 0).map Centroid.weight).sum
      if count < 0 ∨ (latency.2.count : ℚ) < count ∨ (⌊count⌋ : ℚ) ≠ count then .error .notExact
      else .ok ⌊count⌋.toNat

/-- The loop of `convertSQLiteV8LatencyRollup`: sentinels are removed, other centroids are kept. -/
def splitCentroids : List Centroid → Digest → ℚ → Except ConvertError (Digest × ℚ)
  | [], positive, removed => .ok (positive, removed)
  | c :: rest, positive, removed =>
    if c.mean < 0 then
      if c.mean ≠ -1 then .error (.nonSentinel c.mean)
      else splitCentroids rest positive (removed + c.weight)
    else
      splitCentroids rest
        { positive with centroids := positive.centroids ++ [c], count := positive.count + c.weight } removed

/-- `convertSQLiteV8LatencyRollup`. -/
def convertSQLiteV8LatencyRollup (record : PingRecord) (lossCount : ℕ) :
    Except ConvertError PingRecord :=
  let bucket := record.2
  if bucket.count < lossCount then .error (.invalidLossCount lossCount bucket.count)
  else if lossCount = 0 then .ok (record.1, { bucket with lossCount := lossCount })
  else if lossCount = bucket.count then
    .ok (record.1,
      { bucket with lossCount := lossCount, sum := 0, sumSq := 0, min := 0, max := 0, digest := none })
  else
    let bucket' : RollupBucket Digest :=
      { bucket with
        lossCount := lossCount
        sum := bucket.sum + lossCount
        sumSq := bucket.sumSq - lossCount }
    match bucket.digest with
    -- a digest that is already lost is no reason to fail
    | none => .ok (record.1, bucket')
    | some digest => do
      let digest := digest.process
      let (positive, removed) ← splitCentroids digest.centroids (newTDigest digest.compression) 0
      if removed ≠ lossCount then .error (.lossWeight removed lossCount)
      else
        match positive.centroids.head?, positive.centroids.getLast? with
        | some first, some last =>
          .ok (record.1,
            { bucket' with
              min := first.mean
              max := last.mean
              digest := some
                { positive with min := first.mean, max := last.mean, processed := true } })
        | _, _ => .error .noCentroids

/-! ### The store -/

/-- Why the store is not migrated. -/
inductive PingMergeError
  /-- `metric: cannot merge ping loss series %q without matching latency data`. -/
  | unmatchedLoss (identity : String)
  /-- `metric: ping point count mismatch series=%q latency=%d loss=%d`. -/
  | pointCount (entityID : String) (latency loss : ℕ)
  /-- `metric: ping loss point missing series=%q timestamp=%d`. -/
  | pointMissing (entityID : String) (timestamp : ℤ)
  /-- `metric: ping loss point mismatch series=%q timestamp=%d`. -/
  | pointMismatch (entityID : String) (timestamp : ℤ)
  /-- `metric: ping rollup resolution count mismatch series=%q latency=%d loss=%d`. -/
  | resolutionCount (entityID : String) (latency loss : ℕ)
  /-- `metric: ping rollup bucket count mismatch series=%q resolution=%d latency=%d loss=%d`. -/
  | bucketCount (entityID : String) (resolution : ℤ) (latency loss : ℕ)
  /-- `metric: ping loss rollup bucket missing series=%q resolution=%d bucket=%d`. -/
  | bucketMissing (entityID : String) (resolution bucket : ℤ)
  /-- `metric: merge ping rollup series=%q resolution=%d bucket=%d: %w`. -/
  | merge (entityID : String) (resolution bucket : ℤ) (why : LossCountError)
  /-- `metric: convert ping rollup series=%q resolution=%d bucket=%d: %w`. -/
  | convert (entityID : String) (resolution bucket : ℤ) (why : ConvertError)
deriving DecidableEq

/-- The data of one series, blocks and rows together: `loadSQLiteV8SeriesPointsTx` and
`loadSQLiteV8RollupsTx`. -/
structure PingSeries where
  /-- The values of the points, by time. -/
  points : Table ℤ ℚ
  rollups : Table ℤ (Table ℤ (RollupBucket Digest))

/-- The ping series of a store. -/
structure PingStore where
  /-- `PRAGMA user_version`. -/
  userVersion : ℕ
  /-- `sqlitePingMerged`. -/
  merged : Bool
  latency : List (Series × PingSeries)
  loss : List (Series × PingSeries)

def sqliteStorageVersionPingMerge : ℕ := 8

/-- `sqliteV8SeriesIdentity`. -/
def sqliteV8SeriesIdentity (series : Series) : String := series.entityID ++ "\x00" ++ series.tagsHash

/-- The loss of a probe with the latency. -/
def lossValue (latency : ℚ) : ℚ := if latency < 0 then 1 else 0

/-- `validateSQLiteV8PingPoints`. -/
def validateSQLiteV8PingPoints (series : Series) (latency loss : Table ℤ ℚ) :
    Except PingMergeError PUnit :=
  if latency.rows.length ≠ loss.rows.length then
    .error (.pointCount series.entityID latency.rows.length loss.rows.length)
  else
    latency.rows.forM fun (timestamp, latencyPoint) =>
      match loss.find? timestamp with
      | none => .error (.pointMissing series.entityID timestamp)
      | some lossPoint =>
        if lossValue latencyPoint ≠ lossPoint then .error (.pointMismatch series.entityID timestamp)
        else .ok ⟨⟩

/-- The body of the loops of `migrateSQLiteV8PingSeries`: one bucket, with the buckets of the loss unless
there is no series of the loss. -/
def mergePingBucket (series : Series) (resolution : ℤ)
    (pairedBuckets : Option (Table ℤ (RollupBucket Digest))) (record : PingRecord) :
    Except PingMergeError PingRecord :=
  let merge (lossRecord : PingRecord) (paired : Bool) : Except PingMergeError PingRecord := do
    let lossCount ← (sqliteV8LossCount record lossRecord paired).mapError
      (.merge series.entityID resolution record.1)
    (convertSQLiteV8LatencyRollup record lossCount).mapError (.convert series.entityID resolution record.1)
  match pairedBuckets with
  | none => merge (0, RollupBucket.new false) false
  | some buckets =>
    match buckets.find? record.1 with
    | none => .error (.bucketMissing series.entityID resolution record.1)
    | some lossBucket => merge (record.1, lossBucket) true

/-- One latency bucket gets its losses. -/
def mergePingBuckets (series : Series) (lossRollups : Option (Table ℤ (Table ℤ (RollupBucket Digest))))
    (row : ℤ × Table ℤ (RollupBucket Digest)) :
    Except PingMergeError (ℤ × Table ℤ (RollupBucket Digest)) :=
  let (resolution, buckets) := row
  let pairedBuckets := lossRollups.map fun rollups => (rollups.find? resolution).getD ∅
  let pairedCount := (pairedBuckets.map fun b => b.rows.length).getD buckets.rows.length
  if pairedCount ≠ buckets.rows.length then
    .error (.bucketCount series.entityID resolution buckets.rows.length pairedCount)
  else do
    let converted ← buckets.rows.mapM (mergePingBucket series resolution pairedBuckets)
    return (resolution, Table.upsertAll ∅ (sortByKey converted))

/-- One series gets its losses. -/
def mergePingSeries (lossByIdentity : Table String PingSeries) (latency : Series × PingSeries) :
    Except PingMergeError (Series × PingSeries) := do
  let loss := lossByIdentity.find? (sqliteV8SeriesIdentity latency.1)
  match loss with
  | none => pure ⟨⟩
  | some l => validateSQLiteV8PingPoints latency.1 latency.2.points l.points
  let lossRollups := loss.map PingSeries.rollups
  let latencyCount := latency.2.rollups.rows.length
  let lossCount := (lossRollups.map fun r => r.rows.length).getD latencyCount
  if lossCount ≠ latencyCount then
    .error (.resolutionCount latency.1.entityID latencyCount lossCount)
  else do
    let rollups ← latency.2.rollups.rows.mapM (mergePingBuckets latency.1 lossRollups)
    return (latency.1, { latency.2 with rollups := Table.upsertAll ∅ rollups })

/-- `migrateSQLiteV8PingSeries`, in a transaction: after an error the store is as it was.  What it reports
on its progress is left out. -/
def migrateSQLiteV8PingSeries (s : PingStore) : Except PingMergeError PingStore :=
  if sqliteStorageVersionPingMerge ≤ s.userVersion then .ok { s with merged := true }
  else
    let lossByIdentity : Table String PingSeries :=
      Table.upsertAll ∅ (s.loss.map fun l => (sqliteV8SeriesIdentity l.1, l.2))
    let latencyByIdentity := s.latency.map fun l => sqliteV8SeriesIdentity l.1
    match lossByIdentity.rows.find? fun l => !latencyByIdentity.contains l.1 with
    | some l => .error (.unmatchedLoss l.1)
    | none => do
      let latency ← s.latency.mapM (mergePingSeries lossByIdentity)
      return {
        userVersion := sqliteStorageVersionPingMerge
        merged := true
        latency := latency
        loss := [] }

end Metric

end Komari
