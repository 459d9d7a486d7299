import Komari.Metric.Store

/-!
# Maps of buckets

A map of buckets that respects their operations respects the operations of the store: a run of the
store is the image of the run with buckets that carry their samples.
-/

namespace Komari

namespace Metric

namespace Store

variable {A B : Type} {o : BucketOps A} {p : BucketOps B} {f : A → B}

/-- The buckets of a store mapped. -/
def mapBuckets (f : A → B) (s : Store A) : Store B where
  points := s.points
  rollups := s.rollups.mapRows f
  watermark := s.watermark

@[simp] theorem mapBuckets_empty : mapBuckets f (Store.empty : Store A) = Store.empty := rfl

/-! ### Summaries -/

theorem mapRows_foldBuckets {ι κ : Type} (fresh : A) {keyOf : ι → RollupKey} (fold : A → ι → A)
    (fold' : B → κ → B) (keyOf' : κ → RollupKey) (g : ι → κ) (hkey : ∀ i, keyOf' (g i) = keyOf i)
    (hfold : ∀ b i, f (fold b i) = fold' (f b) (g i)) (items : List ι) :
    (foldBuckets fresh keyOf fold items).mapRows f =
      foldBuckets (f fresh) keyOf' fold' (items.map g) := by
  unfold foldBuckets
  rw [← Table.mapRows_empty (f := f)]
  generalize (∅ : Table RollupKey A) = out
  induction items generalizing out with
  | nil => rfl
  | cons i items ih =>
    rw [List.foldl_cons, List.map_cons, List.foldl_cons, ih, Table.mapRows_upsert, hfold, hkey,
      Table.find?_mapRows]
    cases out.find? (keyOf i) <;> rfl

theorem mapRows_groupPoints (h : o.Hom p f) (interval : ℤ) (points : List (PointKey × ℚ)) :
    (groupPoints o interval points).mapRows f = groupPoints p interval points := by
  have hmap := mapRows_foldBuckets (f := f) (o.new true)
    (fun b q => o.addMetricPoint b q.2 q.1.tsNano)
    (fun (b : B) (q : PointKey × ℚ) => p.addMetricPoint b q.2 q.1.tsNano)
    (fun q => q.1.rollupKey interval) id (fun _ => rfl) (fun b q => h.addMetricPoint b _ _) points
  rwa [List.map_id, h.new] at hmap

theorem mapRows_coarsenRows (h : o.Hom p f) (includeDigest : Bool) (interval : ℤ)
    (rows : List (RollupKey × A)) :
    (coarsenRows o includeDigest interval rows).mapRows f =
      coarsenRows p includeDigest interval (rows.map fun r => (r.1, f r.2)) := by
  have hmap := mapRows_foldBuckets (f := f) (o.new includeDigest)
    (fun b r => o.mergeStored b r.2)
    (fun (b : B) (r : RollupKey × B) => p.mergeStored b r.2)
    (fun r => r.1.coarsen interval) (fun r : RollupKey × A => (r.1, f r.2)) (fun _ => rfl)
    (fun b r => h.mergeStored b r.2) rows
  rwa [h.new] at hmap

theorem mapRows_coarsenStoredRollups (h : o.Hom p f) (interval : ℤ) (rows : List (RollupKey × A)) :
    (coarsenStoredRollups o interval rows).mapRows f =
      coarsenStoredRollups p interval (rows.map fun r => (r.1, f r.2)) := by
  rw [coarsenStoredRollups, coarsenStoredRollups, ← mapRows_coarsenRows h, Table.mapRows_mapRows,
    Table.mapRows_mapRows]
  congr 1
  funext b
  rw [h.digestOptional]
  split_ifs
  · exact h.dropDigest b
  · rfl

/-! ### Statements -/

theorem mapBuckets_writeBatch (cfg : MetricConfig) (points : List (PointKey × ℚ)) (s : Store A) :
    (s.writeBatch cfg points).mapBuckets f = (s.mapBuckets f).writeBatch cfg points := by
  unfold writeBatch
  split_ifs <;> rfl

theorem scanRollupRows_mapBuckets (interval : ℤ) (before : Option ℤ) (s : Store A) :
    (s.mapBuckets f).scanRollupRows interval before =
      (s.scanRollupRows interval before).map fun r => (r.1, f r.2) := by
  unfold scanRollupRows
  have hsort := sortOn_map (f := fun r : RollupKey × A => r.1.bucket)
    (g := fun r : RollupKey × B => r.1.bucket) (h := fun r => (r.1, f r.2)) fun r => rfl
  rw [← hsort, List.map_map, mapBuckets, Table.rows_mapRows, List.filter_map, List.map_map]
  rfl

theorem mapBuckets_deleteRollupsBefore (interval before : ℤ) (s : Store A) :
    (s.deleteRollupsBefore interval before).mapBuckets f =
      (s.mapBuckets f).deleteRollupsBefore interval before := by
  unfold deleteRollupsBefore mapBuckets
  rw [Table.mapRows_deleteWhere]

theorem mapBuckets_deleteRollupsForIntervals (intervals : List ℤ) (s : Store A) :
    (s.deleteRollupsForIntervals intervals).mapBuckets f =
      (s.mapBuckets f).deleteRollupsForIntervals intervals := by
  unfold deleteRollupsForIntervals mapBuckets
  rw [Table.mapRows_deleteWhere]

theorem mapBuckets_persistCompactionWatermark (watermark : Option ℤ) (s : Store A) :
    (s.persistCompactionWatermark watermark).mapBuckets f =
      (s.mapBuckets f).persistCompactionWatermark watermark := by
  cases watermark <;> rfl

section

variable (h : o.Hom p f)

include h

theorem map_storeRows {combine : Option A → A → A} {combine' : Option B → B → B}
    (hcombine : ∀ e b, f (combine e b) = combine' (e.map f) (f b)) (interval : ℤ)
    (buckets : Table RollupKey A) (s : Store A) :
    (s.storeRows o combine interval buckets).map (mapBuckets f) =
      (s.mapBuckets f).storeRows p combine' interval (buckets.mapRows f) := by
  unfold storeRows
  rw [Table.rows_mapRows]
  refine map_foldlM (storeRow p combine' interval) (fun s r => ?_) _ s
  have hfind : (s.mapBuckets f).rollups.find? (interval, r.1) =
      (s.rollups.find? (interval, r.1)).map f := Table.find?_mapRows _ _
  unfold storeRow
  rw [hfind, ← hcombine, ← h.storedRow]
  refine map_bind_eq fun row => ?_
  change Except.ok (mapBuckets f { s with rollups := s.rollups.upsert (interval, r.1) row }) = _
  rw [mapBuckets, Table.mapRows_upsert]
  rfl

theorem map_mergeRollupBucketsTx (interval : ℤ) (buckets : Table RollupKey A) (s : Store A) :
    (s.mergeRollupBucketsTx o interval buckets).map (mapBuckets f) =
      (s.mapBuckets f).mergeRollupBucketsTx p interval (buckets.mapRows f) := by
  refine map_storeRows h (fun e b => ?_) interval buckets s
  cases e with
  | none => rfl
  | some e => exact h.mergeStored e b

theorem map_writeRollupBucketsTx (interval : ℤ) (buckets : Table RollupKey A) (s : Store A) :
    (s.writeRollupBucketsTx o interval buckets).map (mapBuckets f) =
      (s.mapBuckets f).writeRollupBucketsTx p interval (buckets.mapRows f) :=
  map_storeRows h (fun _ _ => rfl) interval buckets s

/-! ### Compaction -/

theorem map_handoffTier (now : ℤ) (fine coarse : RollupTier) (s : Store A) :
    (s.handoffTier o now fine coarse).map (mapBuckets f) =
      (s.mapBuckets f).handoffTier p now fine coarse := by
  unfold handoffTier
  dsimp only
  rw [scanRollupRows_mapBuckets]
  generalize s.scanRollupRows _ _ = rows
  by_cases hrows : rows = []
  · subst hrows
    rfl
  · rw [if_neg hrows, if_neg (by simpa using hrows), List.find?_map]
    have hmissing : ((fun r : RollupKey × B => !p.hasDigest r.2 && !p.digestOptional r.2) ∘
        fun r : RollupKey × A => (r.1, f r.2)) =
        fun r => !o.hasDigest r.2 && !o.digestOptional r.2 := by
      funext r
      rw [Function.comp_apply, h.hasDigest, h.digestOptional]
    rw [hmissing]
    cases rows.find? fun r => !o.hasDigest r.2 && !o.digestOptional r.2 with
    | some r => rfl
    | none =>
      dsimp only [Option.map_none]
      rw [← mapRows_coarsenStoredRollups h, ← map_mergeRollupBucketsTx h]
      refine map_bind_eq fun s => ?_
      exact congrArg Except.ok (mapBuckets_deleteRollupsBefore _ _ s)

theorem map_handoffExpiredRollupTiersTx (now : ℤ) (tiers : List RollupTier) (s : Store A) :
    (handoffExpiredRollupTiersTx o now tiers s).map (mapBuckets f) =
      handoffExpiredRollupTiersTx p now tiers (s.mapBuckets f) := by
  induction tiers generalizing s with
  | nil => rfl
  | cons fine rest ih =>
    cases rest with
    | nil => exact congrArg Except.ok (mapBuckets_deleteRollupsBefore _ _ s)
    | cons coarse rest =>
      rw [handoffExpiredRollupTiersTx, handoffExpiredRollupTiersTx, ← map_handoffTier h]
      exact map_bind_eq ih

theorem map_compactMetricIncrementalRangeWithinTx (policy : RollupPolicy)
    (start before : ℤ) (s : Store A) :
    (s.compactMetricIncrementalRangeWithinTx o policy start before).map (mapBuckets f) =
      (s.mapBuckets f).compactMetricIncrementalRangeWithinTx p policy start before := by
  unfold compactMetricIncrementalRangeWithinTx
  cases policy.tiers with
  | nil => rfl
  | cons finest rest =>
    dsimp only
    rw [map_mergeRollupBucketsTx h, mapRows_groupPoints h]
    rfl

theorem map_compactMetricPreserveRawRangeWithinTx (policy : RollupPolicy)
    (start before : Option ℤ) (s : Store A) :
    (s.compactMetricPreserveRawRangeWithinTx o policy start before).map (mapBuckets f) =
      (s.mapBuckets f).compactMetricPreserveRawRangeWithinTx p policy start before := by
  unfold compactMetricPreserveRawRangeWithinTx
  dsimp only
  have hpoints : (s.mapBuckets f).queryRawPointsRange start before =
      s.queryRawPointsRange start before := rfl
  rw [hpoints]
  generalize s.queryRawPointsRange start before = points
  have hfold := map_foldlM (fun (s : Store B) (tier : RollupTier) =>
    s.mergeRollupBucketsTx p tier.interval (groupPoints p tier.interval points)) (G := id)
    (fun (s : Store A) tier => by rw [map_mergeRollupBucketsTx h, mapRows_groupPoints h])
    policy.tiers s
  rwa [List.map_id] at hfold

theorem map_materializeChunk (policy : RollupPolicy) (start chunkEnd : ℤ) (s : Store A) :
    (s.materializeChunk o policy start chunkEnd).map (mapBuckets f) =
      (s.mapBuckets f).materializeChunk p policy start chunkEnd := by
  unfold materializeChunk
  split_ifs
  · exact map_compactMetricPreserveRawRangeWithinTx h policy _ _ s
  · rw [← map_compactMetricIncrementalRangeWithinTx h]
    exact map_bind_eq fun s => rfl

theorem map_completeChunk (now : ℤ) (policy : RollupPolicy) (obsolete : List ℤ)
    (rawCutoff : ℤ) (s : Store A) :
    (s.completeChunk o now policy obsolete rawCutoff).map (mapBuckets f) =
      (s.mapBuckets f).completeChunk p now policy obsolete rawCutoff := by
  unfold completeChunk
  have hlast : ∀ s : Store A,
      (.ok (s.persistCompactionWatermark (some rawCutoff)) : Except CompactError (Store A)).map
          (mapBuckets f) =
        .ok ((s.mapBuckets f).persistCompactionWatermark (some rawCutoff)) :=
    fun s => congrArg Except.ok (mapBuckets_persistCompactionWatermark _ s)
  split_ifs
  · exact hlast s
  · rw [← mapBuckets_deleteRollupsForIntervals, ← map_handoffExpiredRollupTiersTx h]
    exact map_bind_eq hlast

end

/-- The image of a state with a completion flag. -/
def mapFlag (f : A → B) (r : Store A × Bool) : Store B × Bool := (r.1.mapBuckets f, r.2)

theorem map_compactMetricIncrementalChunkOnce (h : o.Hom p f) (now : ℤ) (policy : RollupPolicy)
    (obsolete : List ℤ) (s : Store A) :
    (s.compactMetricIncrementalChunkOnce o now policy obsolete).map (mapFlag f) =
      (s.mapBuckets f).compactMetricIncrementalChunkOnce p now policy obsolete := by
  unfold compactMetricIncrementalChunkOnce
  cases policy.rawCutoff now with
  | none => rfl
  | some rawCutoff =>
    dsimp only
    have hstart : (s.mapBuckets f).chunkStart policy rawCutoff = s.chunkStart policy rawCutoff := rfl
    rw [hstart]
    cases s.chunkStart policy rawCutoff with
    | none =>
      dsimp only
      rw [← map_completeChunk h]
      exact map_bind_eq fun s => rfl
    | some start =>
      dsimp only
      split_ifs
      · rw [← map_materializeChunk h]
        refine map_bind_eq fun s => ?_
        exact congrArg (fun t => Except.ok (t, false)) (mapBuckets_persistCompactionWatermark _ s)
      · rw [← map_materializeChunk h]
        refine map_bind_eq fun s => ?_
        rw [← map_completeChunk h]
        exact map_bind_eq fun s => rfl

theorem map_rebuildCoarserTiers (h : o.Hom p f) (prevInterval : ℤ) (tiers : List RollupTier)
    (s : Store A) :
    (s.rebuildCoarserTiers o prevInterval tiers).map (mapBuckets f) =
      (s.mapBuckets f).rebuildCoarserTiers p prevInterval tiers := by
  induction tiers generalizing prevInterval s with
  | nil => rfl
  | cons tier rest ih =>
    rw [rebuildCoarserTiers, rebuildCoarserTiers, scanRollupRows_mapBuckets,
      ← mapRows_coarsenRows h, ← map_writeRollupBucketsTx h]
    exact map_bind_eq fun s => ih tier.interval s

theorem mapBuckets_enforceRetention (now : ℤ) (tiers : List RollupTier) (s : Store A) :
    (s.enforceRetention now tiers).mapBuckets f = (s.mapBuckets f).enforceRetention now tiers := by
  induction tiers generalizing s with
  | nil => rfl
  | cons tier rest ih =>
    rw [enforceRetention, enforceRetention, ih, mapBuckets_deleteRollupsBefore]

theorem map_compactMetricOnce (h : o.Hom p f) (now : ℤ) (policy : RollupPolicy)
    (obsolete : List ℤ) (s : Store A) :
    (s.compactMetricOnce o now policy obsolete).map (mapBuckets f) =
      (s.mapBuckets f).compactMetricOnce p now policy obsolete := by
  have hlast : ∀ s : Store A, (.ok (s.enforceRetention now policy.tiers) :
      Except CompactError (Store A)).map (mapBuckets f) =
        .ok ((s.mapBuckets f).enforceRetention now policy.tiers) :=
    fun s => congrArg Except.ok (mapBuckets_enforceRetention now policy.tiers s)
  have hwithin : ∀ s : Store A, (s.compactMetricWithinTx o now policy).map (mapBuckets f) =
      (s.mapBuckets f).compactMetricWithinTx p now policy := by
    intro s
    unfold compactMetricWithinTx
    split_ifs
    · rw [← map_compactMetricPreserveRawRangeWithinTx h]
      exact map_bind_eq hlast
    · unfold compactMetricFullWithinTx
      cases htiers : policy.tiers with
      | nil => rfl
      | cons finest rest =>
        dsimp only
        have hpoints : (s.mapBuckets f).queryRawPointsRange none none =
            s.queryRawPointsRange none none := rfl
        rw [hpoints, ← mapRows_groupPoints h, ← map_writeRollupBucketsTx h]
        refine map_bind_eq fun s => ?_
        rw [← map_rebuildCoarserTiers h, ← htiers]
        exact map_bind_eq hlast
  unfold compactMetricOnce
  rw [← mapBuckets_deleteRollupsForIntervals, ← hwithin]
  refine map_bind_eq fun s => ?_
  exact congrArg Except.ok (mapBuckets_persistCompactionWatermark _ s)

/-! ### Maintenance -/

theorem mapBuckets_cleanupRollupBatch (intervals : List ℤ) (before : Option ℤ)
    (batch : CleanupBatch) (s : Store A) :
    (s.cleanupRollupBatch intervals before batch).mapBuckets f =
      (s.mapBuckets f).cleanupRollupBatch intervals before batch := by
  unfold cleanupRollupBatch mapBuckets
  rw [Table.mapRows_deleteWhere]

/-- A fold of steps that commute with a map commutes with it. -/
theorem map_foldl {ι : Type*} {step : Store A → ι → Store A} (step' : Store B → ι → Store B)
    (h : ∀ s i, (step s i).mapBuckets f = step' (s.mapBuckets f) i) (l : List ι) (s : Store A) :
    (l.foldl step s).mapBuckets f = l.foldl step' (s.mapBuckets f) := by
  induction l generalizing s with
  | nil => rfl
  | cons i l ih => rw [List.foldl_cons, List.foldl_cons, ih, h]

theorem mapBuckets_cleanupExpiredMetricStep (cfg : MetricConfig) (now : ℤ) (batch : CleanupBatch)
    (s : Store A) :
    (s.cleanupExpiredMetricStep cfg now batch).mapBuckets f =
      (s.mapBuckets f).cleanupExpiredMetricStep cfg now batch := by
  have htiers : ∀ s : Store A, (s.cleanupRollupTiers cfg now batch).mapBuckets f =
      (s.mapBuckets f).cleanupRollupTiers cfg now batch := by
    intro s
    unfold cleanupRollupTiers
    rw [map_foldl (fun (s : Store B) tier => s.cleanupRollupBatch [tier.interval]
      (some (cleanupCutoff now tier)) batch) fun s tier => mapBuckets_cleanupRollupBatch _ _ _ s,
      mapBuckets_cleanupRollupBatch]
  unfold cleanupExpiredMetricStep
  dsimp only
  have hpoints : (s.mapBuckets f).cleanupPoints cfg now batch =
      (s.cleanupPoints cfg now batch).mapBuckets f := rfl
  rw [hpoints]
  generalize s.cleanupPoints cfg now batch = s
  have hcomplete : (s.mapBuckets f).pointsComplete cfg now batch = s.pointsComplete cfg now batch :=
    rfl
  rw [hcomplete]
  by_cases hdone : s.pointsComplete cfg now batch = true
  · rw [if_pos hdone, if_pos hdone, ← htiers]
    generalize s.cleanupRollupTiers cfg now batch = s
    have hall : ((s.mapBuckets f).rollups.rows.all fun r =>
        decide (r.1.1 ∉ cfg.policy.tiers.map RollupTier.interval)) =
        s.rollups.rows.all fun r => decide (r.1.1 ∉ cfg.policy.tiers.map RollupTier.interval) := by
      rw [mapBuckets, Table.rows_mapRows, List.all_map]
      rfl
    rw [hall]
    split_ifs <;> rfl
  · rw [if_neg hdone, if_neg hdone]

theorem mapBuckets_cleanupExpiredRollupsMetric (cfg : MetricConfig) (now : ℤ) (s : Store A) :
    (s.cleanupExpiredRollupsMetric cfg now).mapBuckets f =
      (s.mapBuckets f).cleanupExpiredRollupsMetric cfg now := by
  unfold cleanupExpiredRollupsMetric
  rw [map_foldl (fun (s : Store B) tier => s.deleteRollupsBefore tier.interval
    (cleanupCutoff now tier)) fun s tier => mapBuckets_deleteRollupsBefore _ _ s]
  unfold mapBuckets
  rw [Table.mapRows_deleteWhere]

/-! ### Runs -/

theorem map_compactMetric (h : o.Hom p f) (cfg : MetricConfig) (now : ℤ) (s : Store A) :
    (s.compactMetric o cfg now).map (mapFlag f) = (s.mapBuckets f).compactMetric p cfg now := by
  unfold compactMetric
  split_ifs
  · exact congrArg (fun t => Except.ok (t, true)) (mapBuckets_cleanupExpiredMetricStep cfg now _ s)
  · rfl
  · exact map_compactMetricIncrementalChunkOnce h now _ _ s
  · rw [← map_compactMetricOnce h]
    exact map_bind_eq fun s => rfl

/-- A step of the image is the image of the step. -/
theorem mapBuckets_step (h : o.Hom p f) (cfg : MetricConfig) (s : Store A) (st : Step) :
    (s.step o cfg st).mapBuckets f = (s.mapBuckets f).step p cfg st := by
  cases st with
  | writeBatch points => exact mapBuckets_writeBatch cfg points s
  | compact now =>
    have hmap := map_compactMetric h cfg now s
    unfold step
    dsimp only
    rw [← hmap]
    cases s.compactMetric o cfg now <;> rfl
  | cleanupStep now batch => exact mapBuckets_cleanupExpiredMetricStep cfg now batch s
  | cleanupRollups now => exact mapBuckets_cleanupExpiredRollupsMetric cfg now s

/-- A run of the image is the image of the run. -/
theorem mapBuckets_run (h : o.Hom p f) (cfg : MetricConfig) (steps : List Step) :
    (run o cfg steps).mapBuckets f = run p cfg steps :=
  map_foldl _ (mapBuckets_step h cfg) steps Store.empty

/-- The run of the store is the run with the samples of all buckets, without the samples. -/
theorem run_eq_trace (D : Type) [TDigest D] (metricName : String) (cfg : MetricConfig)
    (steps : List Step) :
    run (RollupBucket.ops D metricName) cfg steps =
      (run (Traced.ops D metricName) cfg steps).mapBuckets Traced.bucket :=
  (mapBuckets_run Traced.hom_bucket cfg steps).symm

end Store

end Metric

end Komari
