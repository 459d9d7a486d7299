import Mathlib.Data.List.Induction
import Komari.Codec.Result
import Komari.Metric.Bucket
import Komari.Metric.Policy
import Komari.Table.Measure
import Komari.Table.Ordered

/-!
# The store of a metric

The state of one metric: raw points, one row for each rollup bucket of each resolution, and the
compaction watermark.  The functions are those of the store; they are generic in the buckets.

How points and buckets are packed into blocks is left out: a table holds the logical rows.
-/

namespace Komari

namespace Metric

/-! ### State -/

/-- A series of a metric: its entity and the fingerprint of its tags. -/
structure Series where
  entityID : String
  tagsHash : String
deriving DecidableEq

/-- The key of a raw point. -/
structure PointKey where
  series : Series
  tsNano : ℤ
deriving DecidableEq

/-- A series and the start of a bucket. -/
structure RollupKey where
  series : Series
  bucket : ℤ
deriving DecidableEq

/-- The bucket of the point in a resolution. -/
def PointKey.rollupKey (key : PointKey) (interval : ℤ) : RollupKey :=
  ⟨key.series, floorDivNano key.tsNano interval⟩

/-- The bucket of a coarser resolution that contains the bucket. -/
def RollupKey.coarsen (key : RollupKey) (interval : ℤ) : RollupKey :=
  ⟨key.series, floorDivNano key.bucket interval⟩

/-- The stored data of one metric. -/
structure Store (B : Type) where
  points : Table PointKey ℚ
  rollups : Table (ℤ × RollupKey) B
  watermark : Option ℤ

/-- The definition of a metric, and the policy that the store is configured with. -/
structure MetricConfig where
  /-- `RetentionDays` of the definition. -/
  retentionDays : ℕ
  /-- `RollupPolicy` of the configuration. -/
  policy : RollupPolicy
deriving DecidableEq

/-- The policy that is in effect for the metric. -/
def MetricConfig.effective (cfg : MetricConfig) : RollupPolicy :=
  cfg.policy.withMetricRetention (cfg.retentionDays * day)

/-- The widths of the tiers. -/
def MetricConfig.intervals (cfg : MetricConfig) : List ℤ :=
  cfg.effective.tiers.map RollupTier.interval

/-- The configured resolutions that are not in effect. -/
def MetricConfig.obsolete (cfg : MetricConfig) : List ℤ :=
  rollupIntervalsOutsidePolicy cfg.policy.tiers cfg.effective.tiers

/-- Nothing is stored. -/
def Store.empty {B : Type} : Store B := ⟨∅, ∅, none⟩

/-! ### Summaries of points and of rows -/

section Buckets

variable {B : Type} (o : BucketOps B)

/-- Fold items into buckets by key; the bucket of a key starts as `fresh`. -/
def foldBuckets {ι : Type} (fresh : B) (keyOf : ι → RollupKey) (fold : B → ι → B) (items : List ι) :
    Table RollupKey B :=
  items.foldl (fun out i => out.upsert (keyOf i) (fold ((out.find? (keyOf i)).getD fresh) i)) ∅

/-- Points in buckets of one width, by series: `buildFinestTierRange`. -/
def groupPoints (interval : ℤ) (points : List (PointKey × ℚ)) : Table RollupKey B :=
  foldBuckets (o.new true) (fun p => p.1.rollupKey interval)
    (fun b p => o.addMetricPoint b p.2 p.1.tsNano) points

/-- Stored buckets in buckets of a coarser width, by series: `buildCoarserTier`. -/
def coarsenRows (includeDigest : Bool) (interval : ℤ) (rows : List (RollupKey × B)) :
    Table RollupKey B :=
  foldBuckets (o.new includeDigest) (fun r => r.1.coarsen interval)
    (fun b r => o.mergeStored b r.2) rows

/-- `coarsenStoredRollups`: a group of lost probes keeps no digest. -/
def coarsenStoredRollups (interval : ℤ) (rows : List (RollupKey × B)) : Table RollupKey B :=
  (coarsenRows o false interval rows).mapRows fun b =>
    if o.digestOptional b then o.dropDigest b else b

end Buckets

namespace Store

variable {B : Type}

/-! ### Statements -/

/-- `WriteBatch`: points with the series and time of a stored one replace it; a disabled metric drops
them. -/
def writeBatch (cfg : MetricConfig) (points : List (PointKey × ℚ)) (s : Store B) : Store B :=
  if 0 < cfg.retentionDays then { s with points := s.points.upsertAll points } else s

/-- `queryRawPointsRange`: the points of `[start, before)`; without a bound all on that side. -/
def queryRawPointsRange (start before : Option ℤ) (s : Store B) : List (PointKey × ℚ) :=
  sortOn (fun r => r.1.tsNano) (s.points.rows.filter fun r =>
    (start.all fun lo => decide (lo ≤ r.1.tsNano)) && before.all fun hi => decide (r.1.tsNano < hi))

/-- `scanRollupRowsRange`: the rows of a resolution that start before a time. -/
def scanRollupRows (interval : ℤ) (before : Option ℤ) (s : Store B) : List (RollupKey × B) :=
  sortOn (fun r => r.1.bucket) ((s.rollups.rows.filter fun r =>
    r.1.1 == interval && before.all fun hi => decide (r.1.2.bucket < hi)).map fun r => (r.1.2, r.2))

/-- `DeleteBeforeTx`. -/
def deletePointsBefore (before : ℤ) (s : Store B) : Store B :=
  { s with points := s.points.deleteWhere fun key _ => decide (key.tsNano < before) }

/-- `deleteRollupsBeforeTx`. -/
def deleteRollupsBefore (interval before : ℤ) (s : Store B) : Store B :=
  { s with rollups := s.rollups.deleteWhere fun key _ =>
      key.1 == interval && decide (key.2.bucket < before) }

/-- `deleteRollupsForIntervalsTx`. -/
def deleteRollupsForIntervals (intervals : List ℤ) (s : Store B) : Store B :=
  { s with rollups := s.rollups.deleteWhere fun key _ => decide (key.1 ∈ intervals) }

/-- `oldestRawTimestampBeforeTx`. -/
def oldestRawTimestampBefore (before : ℤ) (s : Store B) : Option ℤ :=
  ((s.points.rows.map fun r => r.1.tsNano).filter fun ts => decide (ts < before)).min?

/-- `compactionWatermark`: a watermark that is not positive counts as missing. -/
def compactionWatermark (s : Store B) : Option ℤ :=
  s.watermark.filter fun nano => 0 < nano

/-- `persistCompactionWatermarkTx`: the watermark does not move backwards; the zero time clears it. -/
def persistCompactionWatermark (watermark : Option ℤ) (s : Store B) : Store B :=
  match watermark with
  | none => { s with watermark := none }
  | some nano => { s with watermark := some (max nano (s.watermark.getD nano)) }

section Compaction

variable (o : BucketOps B)

/-- Store one bucket, put together from the stored bucket of its key and the new one. -/
def storeRow (combine : Option B → B → B) (interval : ℤ) (s : Store B) (r : RollupKey × B) :
    Except CompactError (Store B) := do
  let row ← o.storedRow (combine (s.rollups.find? (interval, r.1)) r.2)
  return { s with rollups := s.rollups.upsert (interval, r.1) row }

/-- Store buckets one by one; the source does so in the order of their keys. -/
def storeRows (combine : Option B → B → B) (interval : ℤ) (buckets : Table RollupKey B)
    (s : Store B) : Except CompactError (Store B) :=
  buckets.rows.foldlM (storeRow o combine interval) s

/-- A new bucket is merged into the stored one. -/
def mergeExisting (existing : Option B) (bucket : B) : B :=
  match existing with
  | some existing => o.mergeStored existing bucket
  | none => bucket

/-- New buckets are merged into a tier. -/
def mergeRollupBucketsTx (interval : ℤ) (buckets : Table RollupKey B) (s : Store B) :
    Except CompactError (Store B) :=
  s.storeRows o (mergeExisting o) interval buckets

/-- `writeRollupBucketsTx`: a new bucket replaces the stored one. -/
def writeRollupBucketsTx (interval : ℤ) (buckets : Table RollupKey B) (s : Store B) :
    Except CompactError (Store B) :=
  s.storeRows o (fun _ bucket => bucket) interval buckets

/-! ### Handing expired buckets down -/

/-- One tier of `handoffExpiredRollupTiersTx`: expired buckets are merged into the next tier and
deleted. -/
def handoffTier (now : ℤ) (fine coarse : RollupTier) (s : Store B) :
    Except CompactError (Store B) :=
  let cutoff := alignRollupRetentionCutoff (now - fine.retention) coarse.interval
  let rows := s.scanRollupRows fine.interval (some cutoff)
  if rows = [] then .ok s
  else
    match rows.find? fun r => !o.hasDigest r.2 && !o.digestOptional r.2 with
    | some r => .error (.missingDigest fine.interval r.1.bucket)
    | none => do
      let s ← s.mergeRollupBucketsTx o coarse.interval (coarsenStoredRollups o coarse.interval rows)
      return s.deleteRollupsBefore fine.interval cutoff

/-- Expired buckets move down the ladder. -/
def handoffExpiredRollupTiersTx (now : ℤ) : List RollupTier → Store B → Except CompactError (Store B)
  | [], s => .ok s
  | [last], s =>
    .ok (s.deleteRollupsBefore last.interval
      (alignRollupRetentionCutoff (now - last.retention) last.interval))
  | fine :: coarse :: rest, s => do
    let s ← s.handoffTier o now fine coarse
    handoffExpiredRollupTiersTx now (coarse :: rest) s

/-! ### Compaction with finite raw retention -/

/-- One transaction compacts so much. -/
def metricCompactionChunkWindow : ℤ := 5 * minute

/-- `compactMetricIncrementalRangeWithinTx`: raw points enter the finest tier. -/
def compactMetricIncrementalRangeWithinTx (policy : RollupPolicy) (start before : ℤ) (s : Store B) :
    Except CompactError (Store B) :=
  match policy.tiers with
  | [] => .ok s
  | finest :: _ =>
    s.mergeRollupBucketsTx o finest.interval
      (groupPoints o finest.interval (s.queryRawPointsRange (some start) (some before)))

/-- `compactMetricPreserveRawRangeWithinTx`: raw points enter every tier. -/
def compactMetricPreserveRawRangeWithinTx (policy : RollupPolicy) (start before : Option ℤ)
    (s : Store B) : Except CompactError (Store B) :=
  let points := s.queryRawPointsRange start before
  policy.tiers.foldlM (fun s tier =>
    s.mergeRollupBucketsTx o tier.interval (groupPoints o tier.interval points)) s

/-- Where the next chunk starts, when there is something to materialize. -/
def chunkStart (policy : RollupPolicy) (rawCutoff : ℤ) (s : Store B) : Option ℤ :=
  if policy.preservesRaw then
    match s.compactionWatermark with
    | some watermark => if watermark < rawCutoff then some watermark else none
    | none => s.oldestRawTimestampBefore rawCutoff
  else s.oldestRawTimestampBefore rawCutoff

/-- Where a chunk that starts at `start` would end. -/
def chunkCandidate (start : ℤ) : ℤ :=
  floorDivNano start metricCompactionChunkWindow + metricCompactionChunkWindow

/-- The raw points of a chunk are materialized, and deleted when the rollups own them. -/
def materializeChunk (policy : RollupPolicy) (start chunkEnd : ℤ) (s : Store B) :
    Except CompactError (Store B) :=
  if policy.preservesRaw then
    s.compactMetricPreserveRawRangeWithinTx o policy (some start) (some chunkEnd)
  else do
    let s ← s.compactMetricIncrementalRangeWithinTx o policy start chunkEnd
    return s.deletePointsBefore chunkEnd

/-- The end of a compaction: obsolete and expired buckets, then the watermark. -/
def completeChunk (now : ℤ) (policy : RollupPolicy) (obsolete : List ℤ) (rawCutoff : ℤ)
    (s : Store B) : Except CompactError (Store B) := do
  let s ← if policy.preservesRaw then .ok s
    else (s.deleteRollupsForIntervals obsolete).handoffExpiredRollupTiersTx o now policy.tiers
  return s.persistCompactionWatermark (some rawCutoff)

/-- `compactMetricIncrementalChunkOnce`: one transaction, and whether it was the last one.  It is
called with a finite raw retention only. -/
def compactMetricIncrementalChunkOnce (now : ℤ) (policy : RollupPolicy) (obsolete : List ℤ)
    (s : Store B) : Except CompactError (Store B × Bool) :=
  match policy.rawCutoff now with
  | none => .ok (s, true)
  | some rawCutoff =>
    match s.chunkStart policy rawCutoff with
    | none => do
      let s ← s.completeChunk o now policy obsolete rawCutoff
      return (s, true)
    | some start =>
      if chunkCandidate start < rawCutoff then do
        let s ← s.materializeChunk o policy start (chunkCandidate start)
        return (s.persistCompactionWatermark (some (chunkCandidate start)), false)
      else do
        let s ← s.materializeChunk o policy start rawCutoff
        let s ← s.completeChunk o now policy obsolete rawCutoff
        return (s, true)

/-! ### Compaction with raw points kept forever -/

/-- The coarser tiers of `compactMetricFullWithinTx`: each is rebuilt from the stored finer tier. -/
def rebuildCoarserTiers : ℤ → List RollupTier → Store B → Except CompactError (Store B)
  | _, [], s => .ok s
  | prevInterval, tier :: rest, s => do
    let s ← s.writeRollupBucketsTx o tier.interval
      (coarsenRows o true tier.interval (s.scanRollupRows prevInterval none))
    rebuildCoarserTiers tier.interval rest s

/-- `enforceRetentionWithinTx` without a raw cutoff. -/
def enforceRetention (now : ℤ) : List RollupTier → Store B → Store B
  | [], s => s
  | tier :: rest, s =>
    enforceRetention now rest (s.deleteRollupsBefore tier.interval (tierLower now tier rest))

/-- `compactMetricFullWithinTx`: every tier is rebuilt, the finest from all raw points. -/
def compactMetricFullWithinTx (now : ℤ) (policy : RollupPolicy) (s : Store B) :
    Except CompactError (Store B) :=
  match policy.tiers with
  | [] => .ok s
  | finest :: rest => do
    let s ← s.writeRollupBucketsTx o finest.interval
      (groupPoints o finest.interval (s.queryRawPointsRange none none))
    let s ← s.rebuildCoarserTiers o finest.interval rest
    return s.enforceRetention now policy.tiers

/-- `compactMetricWithinTx` without a raw cutoff. -/
def compactMetricWithinTx (now : ℤ) (policy : RollupPolicy) (s : Store B) :
    Except CompactError (Store B) :=
  if policy.preservesRaw then do
    let s ← s.compactMetricPreserveRawRangeWithinTx o policy none none
    return s.enforceRetention now policy.tiers
  else s.compactMetricFullWithinTx o now policy

/-- `compactMetricOnce`: the transaction of a compaction without a raw cutoff. -/
def compactMetricOnce (now : ℤ) (policy : RollupPolicy) (obsolete : List ℤ) (s : Store B) :
    Except CompactError (Store B) := do
  let s ← (s.deleteRollupsForIntervals obsolete).compactMetricWithinTx o now policy
  return s.persistCompactionWatermark (policy.rawCutoff now)

end Compaction

/-! ### Retention maintenance -/

/-- What one bounded cleanup step takes of the expired rows: its batches hold a limited number of rows
or blocks. -/
structure CleanupBatch where
  points : PointKey → Bool
  rollups : ℤ × RollupKey → Bool
  exhausted : Bool

/-- A batch that holds everything that is expired. -/
def CleanupBatch.full : CleanupBatch := ⟨fun _ => true, fun _ => true, false⟩

/-- Old buckets of some tiers go. -/
def cleanupRollupBatch (intervals : List ℤ) (before : Option ℤ) (batch : CleanupBatch)
    (s : Store B) : Store B :=
  { s with rollups := s.rollups.deleteWhere fun key _ =>
      decide (key.1 ∈ intervals) && (before.all fun hi => decide (key.2.bucket < hi)) &&
        batch.rollups key }

/-- The tiers whose expired buckets a cleanup step removes. -/
def cleanupTiers (cfg : MetricConfig) : List RollupTier :=
  if cfg.retentionDays = 0 then [] else cfg.effective.tiers

/-- The point is past the retention of the metric; with retention zero every point is. -/
def pointExpired (cfg : MetricConfig) (now : ℤ) (key : PointKey) : Bool :=
  cfg.retentionDays == 0 || decide (key.tsNano < now - cfg.retentionDays * day)

/-- The buckets of a tier that a cleanup removes: its cutoff is aligned to the tier itself. -/
def cleanupCutoff (now : ℤ) (tier : RollupTier) : ℤ :=
  alignRollupRetentionCutoff (now - tier.retention) tier.interval

/-- The part of `CleanupExpiredMetricStep` after the raw points: obsolete and expired buckets. -/
def cleanupRollupTiers (cfg : MetricConfig) (now : ℤ) (batch : CleanupBatch) (s : Store B) :
    Store B :=
  (cleanupTiers cfg).foldl
    (fun s tier => s.cleanupRollupBatch [tier.interval] (some (cleanupCutoff now tier)) batch)
    (s.cleanupRollupBatch (rollupIntervalsOutsidePolicy cfg.policy.tiers (cleanupTiers cfg)) none
      batch)

/-- The raw batch of `CleanupExpiredMetricStep`. -/
def cleanupPoints (cfg : MetricConfig) (now : ℤ) (batch : CleanupBatch) (s : Store B) : Store B :=
  { s with points := s.points.deleteWhere fun key _ => pointExpired cfg now key && batch.points key }

/-- The raw batch left nothing expired behind. -/
def pointsComplete (cfg : MetricConfig) (now : ℤ) (batch : CleanupBatch) (s : Store B) : Bool :=
  !batch.exhausted && !(s.points.rows.any fun r => pointExpired cfg now r.1)

/-- `CleanupExpiredMetricStep`.  A failed batch takes nothing; the number of removed rows and the
completion flag only schedule the next step. -/
def cleanupExpiredMetricStep (cfg : MetricConfig) (now : ℤ) (batch : CleanupBatch) (s : Store B) :
    Store B :=
  let s := s.cleanupPoints cfg now batch
  if s.pointsComplete cfg now batch then
    let s := s.cleanupRollupTiers cfg now batch
    -- a disabled metric whose data is gone loses its watermark
    if cfg.retentionDays = 0 ∧ s.rollups.rows.all fun r =>
        decide (r.1.1 ∉ cfg.policy.tiers.map RollupTier.interval) then
      { s with watermark := none }
    else s
  else s

/-- `CleanupExpiredMetric`: steps until nothing expired is left. -/
def cleanupExpiredMetric (cfg : MetricConfig) (now : ℤ) (s : Store B) : Store B :=
  s.cleanupExpiredMetricStep cfg now CleanupBatch.full

/-- `cleanupExpiredRollupsMetric`, the part of `CleanupExpiredRollups` for one metric. -/
def cleanupExpiredRollupsMetric (cfg : MetricConfig) (now : ℤ) (s : Store B) : Store B :=
  cfg.effective.tiers.foldl (fun s tier => s.deleteRollupsBefore tier.interval (cleanupCutoff now tier))
    { s with rollups := s.rollups.deleteWhere fun key _ =>
        decide (key.1 ∉ cfg.effective.tiers.map RollupTier.interval) }

/-! ### Runs -/

/-- One transaction of `CompactMetric`, and whether it was the last one. -/
def compactMetric (o : BucketOps B) (cfg : MetricConfig) (now : ℤ) (s : Store B) :
    Except CompactError (Store B × Bool) :=
  if cfg.retentionDays = 0 then .ok (s.cleanupExpiredMetric cfg now, true)
  else if cfg.policy.enabled = false then .ok (s, true)
  else if 0 < cfg.effective.rawRetention then
    s.compactMetricIncrementalChunkOnce o now cfg.effective cfg.obsolete
  else do
    let s ← s.compactMetricOnce o now cfg.effective cfg.obsolete
    return (s, true)

/-- A write, or a transaction of a job. -/
inductive Step
  | writeBatch (points : List (PointKey × ℚ))
  /-- One transaction of `CompactMetric`. -/
  | compact (now : ℤ)
  /-- `CleanupExpiredMetricStep`. -/
  | cleanupStep (now : ℤ) (batch : CleanupBatch)
  /-- `CleanupExpiredRollups`. -/
  | cleanupRollups (now : ℤ)

/-- When a job was started. -/
def Step.now? : Step → Option ℤ
  | .writeBatch _ => none
  | .compact now => some now
  | .cleanupStep now _ => some now
  | .cleanupRollups now => some now

/-- The state after a step; a transaction that fails is rolled back. -/
def step (o : BucketOps B) (cfg : MetricConfig) (s : Store B) : Step → Store B
  | .writeBatch points => s.writeBatch cfg points
  | .compact now =>
    match s.compactMetric o cfg now with
    | .ok (s', _) => s'
    | .error _ => s
  | .cleanupStep now batch => s.cleanupExpiredMetricStep cfg now batch
  | .cleanupRollups now => s.cleanupExpiredRollupsMetric cfg now

/-- The state after a list of steps. -/
def run (o : BucketOps B) (cfg : MetricConfig) (steps : List Step) : Store B :=
  steps.foldl (step o cfg) Store.empty

/-- Every step of the run meets the condition in the state in which it is taken. -/
def Along (o : BucketOps B) (cfg : MetricConfig) (good : Store B → Step → Prop)
    (steps : List Step) : Prop :=
  ∀ pre st post, steps = pre ++ st :: post → good (run o cfg pre) st

section Along

variable {o : BucketOps B} {cfg : MetricConfig} {good : Store B → Step → Prop}

theorem run_append_singleton (cfg : MetricConfig) (pre : List Step) (st : Step) :
    run o cfg (pre ++ [st]) = (run o cfg pre).step o cfg st := by
  rw [run, List.foldl_append]
  rfl

theorem along_nil : Along o cfg good [] := by
  intro pre st post heq
  cases pre <;> cases heq

theorem Along.append_singleton (steps : List Step) (st : Step) (h : Along o cfg good steps)
    (hlast : good (run o cfg steps) st) : Along o cfg good (steps ++ [st]) := by
  intro pre st' post heq
  rcases List.eq_nil_or_concat post with rfl | ⟨post', last, rfl⟩
  · obtain ⟨rfl, hst⟩ := List.append_inj' heq rfl
    cases hst
    exact hlast
  · rw [List.concat_eq_append, ← List.cons_append, ← List.append_assoc] at heq
    exact h pre st' post' (List.append_inj' heq rfl).1

theorem Along.initial {steps : List Step} (more : List Step)
    (h : Along o cfg good (steps ++ more)) : Along o cfg good steps := by
  intro pre st post heq
  refine h pre st (post ++ more) ?_
  rw [heq, List.append_assoc, List.cons_append]

/-- What every good step preserves holds after a run of good steps. -/
theorem Along.invariant {inv : Store B → Prop} (hempty : inv Store.empty)
    (hstep : ∀ s st, inv s → good s st → inv (s.step o cfg st)) {steps : List Step}
    (h : Along o cfg good steps) : inv (run o cfg steps) := by
  induction steps using List.reverseRecOn with
  | nil => exact hempty
  | append_singleton pre st ih =>
    rw [run_append_singleton]
    exact hstep _ st (ih (h.initial [st])) (h pre st [] rfl)

end Along

end Store

end Metric

end Komari
