import Komari.Answers.PingLoss
import Komari.Answers.Series

/-!
# Answers without rollups

A window that needs no rollups is answered by `Aggregate` from the points, or, in a store without tiers, by
the buckets that their samples are folded into.

* `series_eq_aggregate` : both ways to an answer that keeps the series apart are one.
-/

namespace Komari

namespace Answers

open Metric

/-- The samples of the chosen series: a fingerprint stands for one tag set, and a series has one sample at a
time. -/
structure SoundSamples (cfg : Config) (chosen : SeriesRow → Bool) (samples : List Sampled) : Prop where
  row : ∀ s ∈ samples, ∃ row : SeriesRow, chosen row = true ∧ row.metricName = s.metricName
  entity : ∀ s ∈ samples, s.series.entityID ≠ ""
  hash : ∀ s ∈ samples, s.series.tagsHash = cfg.tagsFingerprint s.tags
  tags : ∀ s ∈ samples, ∀ s' ∈ samples, s.series = s'.series → s.tags = s'.tags
  once : (samples.map fun s => (s.series, s.tsNano)).Nodup

/-- A read of raw samples returns those of the chosen series. -/
def Reads.Sound {D : Type} (cfg : Config) (r : Reads D) : Prop :=
  ∀ chosen lo hi samples, r.rawSamples chosen lo hi = .ok samples → SoundSamples cfg chosen samples

variable {D : Type} [QuantileDigest D] {cfg : Config} {sqrt : ℚ → ℚ}

/-! ### The value of a row -/

variable {metricName : String}

/-- Where no value is a loss, a summary is that of all points. -/
theorem bucketValue_plain {b : RollupBucket D} {points : List Point}
    (hmetric : metricName ≠ sqliteMergedPingLatencyMetric)
    (h : Represents metricName b (points.map Point.sample : List Sample))
    {aggregation : Aggregation} (hagg : aggregation ∈ [.avg, .sum, .min, .max, .stdDev]) :
    (bucketValue sqrt b aggregation).map .ok = some (aggregateValue sqrt points aggregation) := by
  have hloss : ∀ s : Sample, s.isLoss metricName = false := fun s => by simp [Sample.isLoss, hmetric]
  have hvalid : ∀ m : Multiset Sample, validSamples metricName m = m := fun m =>
    Multiset.filter_eq_self.mpr fun s _ => hloss s
  have hcount : b.count - b.lossCount = points.length := by
    rw [h.valid, hvalid, Multiset.coe_card, List.length_map]
  have hsum := h.sum
  have hsumSq := h.sumSq
  have hmin := h.min
  have hmax := h.max
  rw [hvalid, Multiset.map_coe, List.map_map] at hsum hsumSq hmin hmax
  rw [Multiset.sum_coe] at hsum hsumSq
  exact bucketValue_summary hcount hsum hsumSq hmin hmax hagg

/-- **The value of a bucket is that of its points**, for the aggregations of a stored metric and for those of
the virtual one. -/
theorem bucketValue_points {b : RollupBucket D} {points : List Point} (hne : points ≠ [])
    (hsorted : points.Pairwise fun p q => p.timestamp < q.timestamp)
    (hmetric : ∀ p ∈ points, p.metricName = metricName)
    (h : Represents metricName b (points.map Point.sample : List Sample))
    {aggregation : Aggregation} (hsummary : aggregation.isSummary = true) :
    (aggregation.isPercentile = false →
      (bucketValue sqrt b aggregation).map .ok = some (aggregateMetricValue sqrt points aggregation)) ∧
    (metricName = sqliteMergedPingLatencyMetric →
      (bucketValue sqrt b aggregation.pingLossPhysicalAggregation).map .ok =
        some (aggregateMetricValue sqrt points aggregation.pingLossPhysicalAggregation)) := by
  refine ⟨fun hpercentile => ?_, fun heq => ?_⟩
  · have hall : ∀ a ∈ [Aggregation.count, .first, .last], (bucketValue sqrt b a).map .ok =
        some (aggregateValue sqrt points a) := fun a ha =>
      bucketValue_all hsorted h (fun hnil => absurd hnil hne) ha
    have hvalue : ∀ a ∈ [Aggregation.avg, .sum, .min, .max, .stdDev], (bucketValue sqrt b a).map .ok =
        some (if metricName ≠ sqliteMergedPingLatencyMetric then aggregateValue sqrt points a
          else aggregateValue sqrt (validPoints points) a) := by
      intro a ha
      split_ifs with hother
      · exact bucketValue_plain hother h ha
      · rw [not_not] at hother
        subst hother
        exact bucketValue_latency h ha
    obtain ⟨p, rest, rfl⟩ := List.exists_cons_of_ne_nil hne
    have hp := hmetric p List.mem_cons_self
    cases aggregation with
    | avg | min | max | sum | stdDev =>
      rw [hvalue _ (by simp), aggregateMetricValue]
      · simp only [hp, reduceCtorEq, or_false]
        rfl
      all_goals simp
    | count | first | last =>
      rw [hall _ (by simp), aggregateMetricValue]
      · simp
      all_goals simp
    | percentile fraction => cases hpercentile
    | rate | pingLoss loss | other name => cases hsummary
  · subst heq
    rw [bucketValue_loss hsorted h hsummary, aggregateMetricValue_loss points hsummary]

/-! ### Rows -/

/-- The group of points behind a row. -/
def groupOf (metricName : String) (key : RollupKey) : AggregateGroupKey :=
  ⟨key.bucket, metricName, key.series.entityID, key.series.tagsHash⟩

theorem groupOf_inj {key key' : RollupKey} :
    groupOf metricName key = groupOf metricName key' ↔ key = key' := by
  constructor
  · intro h
    obtain ⟨hbucket, -, hentity, hhash⟩ := AggregateGroupKey.mk.inj h
    obtain ⟨⟨entityID, tagsHash⟩, bucket⟩ := key
    cases hbucket
    cases hentity
    cases hhash
    rfl
  · exact congrArg _

theorem sameSeries_groupOf {key key' : RollupKey} :
    (groupOf metricName key).sameSeries (groupOf metricName key') = true ↔ key.series = key'.series := by
  obtain ⟨⟨entityID, tagsHash⟩, bucket⟩ := key
  obtain ⟨⟨entityID', tagsHash'⟩, bucket'⟩ := key'
  simp [AggregateGroupKey.sameSeries, groupOf]

/-- Rows of one metric are sorted as their groups are. -/
theorem order_groupOf_le_iff {key key' : RollupKey} :
    (groupOf metricName key).order ≤ (groupOf metricName key').order ↔
      rollupKeyOrder key ≤ rollupKeyOrder key' := by
  simp [AggregateGroupKey.order, rollupKeyOrder, groupOf, Prod.Lex.toLex_le_toLex]

theorem order_inj {key key' : AggregateGroupKey} (h : key.order = key'.order) : key = key' := by
  obtain ⟨hbucket, hrest⟩ := Prod.mk.inj (toLex_inj.mp h)
  obtain ⟨hmetric, hrest⟩ := Prod.mk.inj (toLex_inj.mp hrest)
  obtain ⟨hentity, hhash⟩ := Prod.mk.inj (toLex_inj.mp hrest)
  cases key
  congr

theorem foldl_addSample {group : List Sampled}
    (hmetric : ∀ s ∈ group, s.metricName = metricName) (b : GroupBucket D) :
    group.foldl GroupBucket.addSample b =
      ⟨(group.map fun s => s.point.sample).foldl (fun d x => d.addMetricPoint metricName x.value x.ts) b.data,
        b.tags⟩ := by
  induction group generalizing b with
  | nil => rfl
  | cons s group ih =>
    obtain ⟨hs, hgroup⟩ := List.forall_mem_cons.mp hmetric
    rw [List.foldl_cons, ih hgroup, ← hs]
    rfl

/-- The summary determines the value of the aggregation. -/
def AggregateQuery.Summarized (q : AggregateQuery) : Prop :=
  ∃ a : Aggregation, a.isSummary = true ∧
    (q.aggregation = a ∧ a.isPercentile = false ∨
      q.aggregation = a.pingLossPhysicalAggregation ∧ q.metricName = sqliteMergedPingLatencyMetric)

section Rows

variable {q : AggregateQuery} {chosen : SeriesRow → Bool} {samples : List Sampled} {points : List Point}

theorem groupKey_point (hpreserve : q.preserveSeries = true) (hs : SoundSamples cfg chosen samples)
    {s : Sampled} (hmem : s ∈ samples) : s.point.groupKey cfg q = groupOf s.metricName (s.key q) := by
  rw [Sampled.key, foldedRollupKey, if_pos hpreserve, groupOf, hs.hash s hmem]
  rfl

/-- The points of a group, in the order of their times. -/
theorem group_points (hpreserve : q.preserveSeries = true) (hs : SoundSamples cfg chosen samples)
    (hmetric : ∀ s ∈ samples, s.metricName = q.metricName)
    (hperm : points.Perm (samples.map Sampled.point)) (key : RollupKey) :
    ((sortedPoints points).filter fun p => p.groupKey cfg q == groupOf q.metricName key).Perm
        ((samples.filter fun s => s.key q = key).map Sampled.point) ∧
      ((sortedPoints points).filter fun p => p.groupKey cfg q == groupOf q.metricName key).Pairwise
        fun p p' => p.timestamp < p'.timestamp := by
  set group := (sortedPoints points).filter fun p => p.groupKey cfg q == groupOf q.metricName key with hgroup
  have hgroupPerm : group.Perm ((samples.filter fun s => s.key q = key).map Sampled.point) := by
    refine (((sortOn_perm _ _).trans hperm).filter _).trans (List.Perm.of_eq ?_)
    rw [List.filter_map]
    refine congrArg _ (List.filter_congr fun s hmem => ?_)
    rw [Function.comp_apply, groupKey_point hpreserve hs hmem, hmetric s hmem, Bool.eq_iff_iff, beq_iff_eq,
      groupOf_inj, decide_eq_true_iff]
  refine ⟨hgroupPerm, ?_⟩
  have hle : group.Pairwise fun p p' => p.timestamp ≤ p'.timestamp :=
    (List.pairwise_insertionSort _ _ : (sortedPoints points).Pairwise _).sublist List.filter_sublist
  -- a series has one sample at a time
  have hnodup : (group.map Point.timestamp).Nodup := by
    rw [(hgroupPerm.map Point.timestamp).nodup_iff, List.map_map]
    have honce := hs.once.sublist ((List.filter_sublist (p := fun s => decide (s.key q = key))).map _)
    refine List.Nodup.map_on (fun s hsmem s' hsmem' hts => ?_) honce.of_map
    have hseries : ∀ s ∈ samples.filter fun s => s.key q = key, s.series = key.series := by
      intro s hmem
      rw [← of_decide_eq_true (List.mem_filter.mp hmem).2, Sampled.key, foldedRollupKey, if_pos hpreserve]
    have hpair : (s.series, s.tsNano) = (s'.series, s'.tsNano) := by
      rw [hseries s hsmem, hseries s' hsmem']
      exact congrArg _ hts
    exact List.inj_on_of_nodup_map honce hsmem hsmem' hpair
  exact hle.imp₂ (fun _ _ hle hne => lt_of_le_of_ne hle hne) (List.pairwise_map.mp hnodup)

/-- **A row from a bucket is the row from the points of its group.** -/
theorem rollupGroup_eq (hpreserve : q.preserveSeries = true) (homit : q.omitTags = false)
    (hsummarized : q.Summarized) (hs : SoundSamples cfg chosen samples)
    (hmetric : ∀ s ∈ samples, s.metricName = q.metricName)
    (hperm : points.Perm (samples.map Sampled.point)) {row : RollupKey × GroupBucket D}
    (hrow : (foldRaw q false ∅ samples).find? row.1 = some row.2) :
    rollupGroup cfg q row = aggregateGroup cfg q (sortedPoints points) (groupOf q.metricName row.1) := by
  obtain ⟨key, data, tags⟩ := row
  obtain ⟨hgroup, hsorted⟩ := group_points hpreserve hs hmetric hperm key
  set group := (sortedPoints points).filter fun p => p.groupKey cfg q == groupOf q.metricName key with hdef
  rw [foldRaw, Table.find?_collect] at hrow
  obtain ⟨first, hhead, hfold⟩ := Option.map_eq_some_iff.mp hrow
  have hfirst : first ∈ samples.filter fun s => s.key q = key := List.mem_of_mem_head? hhead
  rw [foldl_addSample fun s hmem => hmetric s (List.mem_of_mem_filter hmem)] at hfold
  obtain ⟨hdata, rfl⟩ := GroupBucket.mk.inj hfold
  have hrep : Represents q.metricName data (group.map Point.sample : List Sample) := by
    have hfolded := (@represents_new D q.metricName _ false).foldl
      ((samples.filter fun s => s.key q = key).map fun s => s.point.sample)
    have hsamples := hgroup.map Point.sample
    rw [List.map_map] at hsamples
    rw [zero_add, hdata] at hfolded
    rwa [Multiset.coe_eq_coe.mpr hsamples]
  have hin : first.point ∈ group := hgroup.mem_iff.mpr (List.mem_map_of_mem hfirst)
  have hne := List.ne_nil_of_mem hin
  have hgroupMetric : ∀ p ∈ group, p.metricName = q.metricName := by
    intro p hp
    obtain ⟨s, hmem, rfl⟩ := List.mem_map.mp (hgroup.mem_iff.mp hp)
    exact hmetric s (List.mem_of_mem_filter hmem)
  have hvalue : (bucketValue cfg.sqrt data q.aggregation).map .ok =
      some (aggregateMetricValue cfg.sqrt group q.aggregation) := by
    obtain ⟨a, ha, ⟨hagg, hpercentile⟩ | ⟨hagg, hping⟩⟩ := hsummarized
    · rw [hagg]
      exact (bucketValue_points hne hsorted hgroupMetric hrep ha).1 hpercentile
    · rw [hagg]
      exact (bucketValue_points hne hsorted hgroupMetric hrep ha).2 hping
  -- all points of the series have the tags of the first one
  have htags : ((sortedPoints points).find? fun p =>
      (p.groupKey cfg q).sameSeries (groupOf q.metricName key)).map Point.tags = some first.tags := by
    obtain ⟨hsortedMem, hkey⟩ := List.mem_filter.mp hin
    rw [beq_iff_eq] at hkey
    cases hfind : (sortedPoints points).find? fun p =>
        (p.groupKey cfg q).sameSeries (groupOf q.metricName key) with
    | none =>
      refine absurd ?_ (List.find?_eq_none.mp hfind _ hsortedMem)
      rw [hkey]
      exact sameSeries_groupOf.mpr rfl
    | some p =>
      have hsame := List.find?_some hfind
      have hp := hperm.mem_iff.mp (mem_sortOn.mp (List.mem_of_find?_eq_some hfind))
      obtain ⟨s, hmem, rfl⟩ := List.mem_map.mp hp
      rw [groupKey_point hpreserve hs hmem, hmetric s hmem, sameSeries_groupOf] at hsame
      have hmemFirst := List.mem_of_mem_filter hfirst
      rw [groupKey_point hpreserve hs hmemFirst, hmetric first hmemFirst, groupOf_inj] at hkey
      rw [← hkey, Sampled.key, Sampled.key, foldedRollupKey, foldedRollupKey, if_pos hpreserve,
        if_pos hpreserve] at hsame
      exact congrArg some (hs.tags s hmem first hmemFirst hsame)
  obtain ⟨value, hbucket, hok⟩ := Option.map_eq_some_iff.mp hvalue
  have hcount : data.count = group.length := count_eq hrep
  rw [rollupGroup, aggregateGroup, ← hdef, ← hok, htags]
  simp only [hbucket, hpreserve, homit, hcount, if_true, Bool.false_eq_true, if_false]
  rfl

theorem mapM_congr {α β : Type} {f g : α → Except String β} {l : List α} (h : ∀ a ∈ l, f a = g a) :
    l.mapM f = l.mapM g := by
  induction l with
  | nil => rfl
  | cons a l ih =>
    obtain ⟨ha, hl⟩ := List.forall_mem_cons.mp h
    rw [List.mapM_cons, List.mapM_cons, ha, ih hl]

/-- The groups of the rows, in the order in which they are answered. -/
theorem groups_foldRaw (hpreserve : q.preserveSeries = true) (hs : SoundSamples cfg chosen samples)
    (hmetric : ∀ s ∈ samples, s.metricName = q.metricName)
    (hperm : points.Perm (samples.map Sampled.point)) :
    (sortOn (fun row => rollupKeyOrder row.1) (foldRaw q false ∅ samples : Groups D).rows).map
        (fun row => groupOf q.metricName row.1) =
      sortOn AggregateGroupKey.order ((sortedPoints points).map (Point.groupKey cfg q)).dedup := by
  set rows := sortOn (fun row => rollupKeyOrder row.1) (foldRaw q false ∅ samples : Groups D).rows with hrows
  have hrowsPerm := sortOn_perm (fun row => rollupKeyOrder row.1) (foldRaw q false ∅ samples : Groups D).rows
  have hmem : ∀ key, key ∈ rows.map Prod.fst ↔ ∃ s ∈ samples, s.key q = key := by
    intro key
    rw [(hrowsPerm.map Prod.fst).mem_iff, mem_keys_rows, foldRaw, Table.find?_collect, Option.isSome_map,
      List.isSome_head?, ne_eq, List.filter_eq_nil_iff]
    simp
  have hnodup : (rows.map fun row => groupOf q.metricName row.1).Nodup := by
    have hkeys : (rows.map Prod.fst).Nodup :=
      (hrowsPerm.map Prod.fst).nodup_iff.mpr (Table.nodup_map_fst_rows _)
    have hgroups := hkeys.map (f := groupOf q.metricName) fun _ _ => groupOf_inj.mp
    rwa [List.map_map] at hgroups
  -- both lists have the same groups, in the order of their keys
  have hsorted : (rows.map fun row => groupOf q.metricName row.1).Pairwise
      fun group group' => group.order ≤ group'.order :=
    List.pairwise_map.mpr ((List.pairwise_insertionSort _ _ : rows.Pairwise _).imp fun hle =>
      order_groupOf_le_iff.mpr hle)
  have hsame : (rows.map fun row => groupOf q.metricName row.1).Perm
      ((sortedPoints points).map (Point.groupKey cfg q)).dedup := by
    refine (List.perm_ext_iff_of_nodup hnodup (List.nodup_dedup _)).mpr fun group => ?_
    rw [List.mem_dedup, List.mem_map, List.mem_map]
    constructor
    · rintro ⟨row, hrow, rfl⟩
      obtain ⟨s, hs', hkey⟩ := (hmem row.1).mp (List.mem_map_of_mem hrow)
      refine ⟨s.point, mem_sortOn.mpr (hperm.mem_iff.mpr (List.mem_map_of_mem hs')), ?_⟩
      rw [groupKey_point hpreserve hs hs', hmetric s hs', hkey]
    · rintro ⟨p, hp, rfl⟩
      obtain ⟨s, hs', rfl⟩ := List.mem_map.mp (hperm.mem_iff.mp (mem_sortOn.mp hp))
      obtain ⟨row, hrow, hkey⟩ := List.mem_map.mp ((hmem _).mpr ⟨s, hs', rfl⟩)
      exact ⟨row, hrow, by rw [groupKey_point hpreserve hs hs', hmetric s hs', hkey]⟩
  exact (hsame.trans (sortOn_perm _ _).symm).eq_of_pairwise
    (fun _ _ _ _ hle hle' => order_inj (le_antisymm hle hle')) hsorted (List.pairwise_insertionSort _ _)

/-- **The rows from buckets are those from points.** -/
theorem rollupGroupsToPoints_foldRaw (hvalid : q.validate = .ok ()) (hpreserve : q.preserveSeries = true)
    (homit : q.omitTags = false) (hsummarized : q.Summarized) (hs : SoundSamples cfg chosen samples)
    (hmetric : ∀ s ∈ samples, s.metricName = q.metricName)
    (hperm : points.Perm (samples.map Sampled.point)) :
    rollupGroupsToPoints cfg (foldRaw q false ∅ samples : Groups D) q = aggregatePoints cfg points q := by
  have hresolve : (sortedPoints points).map (Point.resolve q) = sortedPoints points := by
    refine (List.map_congr_left fun p hp => ?_).trans (List.map_id _)
    obtain ⟨s, hmem, rfl⟩ := List.mem_map.mp (hperm.mem_iff.mp (mem_sortOn.mp hp))
    have hentity : s.point.entityID ≠ "" := hs.entity s hmem
    have hname : s.point.metricName = q.metricName := hmetric s hmem
    rw [Point.resolve, if_neg hentity, hname, ite_self, ← hname, id]
  rw [aggregatePoints, hvalid]
  change _ = (sortOn AggregateGroupKey.order
    (((sortedPoints points).map (Point.resolve q)).map (Point.groupKey cfg q)).dedup).mapM
      (aggregateGroup cfg q ((sortedPoints points).map (Point.resolve q)))
  rw [hresolve, ← groups_foldRaw (D := D) hpreserve hs hmetric hperm, List.mapM_map]
  refine mapM_congr fun row hrow => ?_
  exact rollupGroup_eq hpreserve homit hsummarized hs hmetric hperm (Table.mem_rows.mp (mem_sortOn.mp hrow))

end Rows

/-! ### Both ways to an answer -/

theorem Query.validate_eq_ok_iff {q : Query} : q.validate = .ok () ↔
    blank q.metricName = false ∧ ¬(q.start = zeroTime ∨ q.stop = zeroTime) ∧ ¬q.stop < q.start ∧
      ¬(q.limit < 0 ∨ q.offset < 0) ∧ ∀ name, q.order ≠ .other name := by
  unfold Query.validate
  split_ifs <;> cases q.order <;> simp_all

variable {q : AggregateQuery}

theorem AggregateQuery.validate_eq_ok_iff : q.validate = .ok () ↔
    q.toQuery.validate = .ok () ∧ ¬q.interval ≤ 0 ∧ ¬(q.bucketLimit < 0 ∨ q.bucketOffset < 0) ∧
      ∀ name, q.aggregation ≠ .other name := by
  unfold AggregateQuery.validate
  cases q.toQuery.validate with
  | error e => exact Iff.intro (fun h => nomatch h) fun h => nomatch h.1
  | ok u =>
    change (if _ then _ else _) = _ ↔ _
    split_ifs <;> cases q.aggregation <;> simp_all

variable (cfg) (r : Reads D)

/-- The answer from raw points, for a metric that is stored. -/
def rawAnswer (q : AggregateQuery) : Except String (List AggregatePoint) := do
  let points ← query cfg r { q.toQuery with limit := 0, offset := 0 }
  let buckets ← aggregatePoints cfg points q
  pure (pageBuckets buckets q.bucketLimit q.bucketOffset)

/-- An answer has the name that was asked for. -/
def restored (q : AggregateQuery) (points : List AggregatePoint) : List AggregatePoint :=
  if q.isVirtualLoss cfg then restoreVirtualPingLossAggregates points else points

theorem ok_bind {α β : Type} (a : α) (f : α → Except String β) : (Except.ok a >>= f) = f a := rfl

theorem error_bind {α β : Type} (e : String) (f : α → Except String β) : (Except.error e >>= f) = .error e := rfl

omit [QuantileDigest D] in
theorem aggregate_eq (q : AggregateQuery) : aggregate cfg r q =
    q.validate >>= fun _ => restored cfg q <$> rawAnswer cfg r (q.physical cfg) := by
  unfold aggregate rawAnswer restored AggregateQuery.physical AggregateQuery.isVirtualLoss
  congr 1
  funext u
  cases cfg.pingMerged && q.metricName == sqliteVirtualPingLossMetric <;>
    simp only [Bool.false_eq_true, if_false, if_true, map_bind, map_pure]

theorem series_eq (q : AggregateQuery) (now : ℤ) : series cfg r q now =
    q.validate >>= fun _ => restored cfg q <$> seriesPhysical cfg r (q.physical cfg) now := by
  unfold series restored
  simp only [bind_pure_comp]

/-- The request for the stored series of a valid one is valid, and its metric is stored. -/
theorem validate_physical (hvalid : q.validate = .ok ()) :
    (q.physical cfg).validate = .ok () ∧ (q.physical cfg).isVirtualLoss cfg = false := by
  rw [AggregateQuery.validate_eq_ok_iff, Query.validate_eq_ok_iff] at hvalid
  obtain ⟨⟨hmetric, hquery⟩, hinterval, hlimits, hagg⟩ := hvalid
  rw [AggregateQuery.physical]
  split_ifs with hvirtual
  · refine ⟨AggregateQuery.validate_eq_ok_iff.mpr ⟨Query.validate_eq_ok_iff.mpr ⟨?_, hquery⟩, hinterval, hlimits,
      fun name => ?_⟩, ?_⟩
    · change blank sqliteMergedPingLatencyMetric = false
      decide
    · have hname := hagg name
      cases hq : q.aggregation <;> simp_all [Aggregation.pingLossPhysicalAggregation]
    · simp [AggregateQuery.isVirtualLoss, sqliteMergedPingLatencyMetric, sqliteVirtualPingLossMetric]
  · exact ⟨AggregateQuery.validate_eq_ok_iff.mpr ⟨Query.validate_eq_ok_iff.mpr ⟨hmetric, hquery⟩, hinterval,
      hlimits, hagg⟩, eq_false_of_ne_true hvirtual⟩

omit [QuantileDigest D] in
/-- A request for a stored metric reads the points of its samples. -/
theorem query_eq (hvalid : q.validate = .ok ()) (hvirtual : q.isVirtualLoss cfg = false) :
    ∃ sorted : List Point → List Point, (∀ points, (sorted points).Perm points) ∧
      query cfg r { q.toQuery with limit := 0, offset := 0 } =
        (readRaw r q q.start).map fun samples => sorted (samples.map Sampled.point) := by
  have hquery : Query.validate { q.toQuery with limit := 0, offset := 0 } = .ok () := by
    obtain ⟨hmetric, htimes, hwindow, -, horder⟩ :=
      Query.validate_eq_ok_iff.mp (AggregateQuery.validate_eq_ok_iff.mp hvalid).1
    exact Query.validate_eq_ok_iff.mpr ⟨hmetric, htimes, hwindow, by simp, horder⟩
  set n := Query.normalized { q.toQuery with limit := 0, offset := 0 } with hn
  have hfields : n.start = q.start ∧ n.stop = q.stop ∧ n.limit = 0 ∧ n.offset = 0 ∧
      n.metricName = q.metricName ∧ (fun row : SeriesRow => row.selected n) = fun row => row.selected q.toQuery := by
    rw [hn, Query.normalized]
    split_ifs <;> exact ⟨rfl, rfl, rfl, rfl, rfl, rfl⟩
  obtain ⟨hstart, hstop, hlimit, hoffset, hmetric, hselected⟩ := hfields
  refine ⟨fun points => points.mergeSort (pointLE cfg n.order), fun points => List.mergeSort_perm _ _, ?_⟩
  have hplain : (cfg.pingMerged && n.metricName == sqliteVirtualPingLossMetric) = false := by
    rw [hmetric]
    exact hvirtual
  rw [query, hquery]
  simp only [← hn, hplain, Bool.false_eq_true, if_false, hselected, hstart, hstop]
  change (readRaw r q q.start >>= fun samples => _) = _
  cases readRaw r q q.start with
  | error e => rfl
  | ok samples =>
    change Except.ok _ = Except.ok _
    rw [pagePoints, hlimit, hoffset]
    rfl

variable {cfg r}

/-- A request for a stored metric is answered alike from buckets and from points. -/
theorem answerGroups_foldRaw (hr : r.Sound cfg) (hvalid : q.validate = .ok ())
    (hvirtual : q.isVirtualLoss cfg = false) (hpreserve : q.preserveSeries = true) (homit : q.omitTags = false)
    (hsummarized : q.Summarized) :
    (readRaw r q q.start >>= fun samples => answerGroups cfg q (foldRaw q false ∅ samples : Groups D)) =
      rawAnswer cfg r q := by
  obtain ⟨sorted, hsorted, hquery⟩ := query_eq cfg r hvalid hvirtual
  rw [rawAnswer, hquery]
  cases hread : readRaw r q q.start with
  | error e => rfl
  | ok samples =>
    have hs := hr _ _ _ _ hread
    have hblank := (Query.validate_eq_ok_iff.mp (AggregateQuery.validate_eq_ok_iff.mp hvalid).1).1
    have hmetric : ∀ s ∈ samples, s.metricName = q.metricName := by
      intro s hmem
      obtain ⟨row, hchosen, hrow⟩ := hs.row s hmem
      rw [SeriesRow.selected, hblank, Bool.false_or, Bool.and_eq_true, Bool.and_eq_true, beq_iff_eq] at hchosen
      rw [← hrow, hchosen.1.1]
    have hrows := rollupGroupsToPoints_foldRaw (D := D) hvalid hpreserve homit hsummarized hs hmetric (hsorted _)
    change (rollupGroupsToPoints cfg (foldRaw q false ∅ samples : Groups D) q >>= fun points => _) =
      (aggregatePoints cfg (sorted (samples.map Sampled.point)) q >>= fun buckets => _)
    rw [hrows]

/-- The summary of the stored series determines the value that was asked for, without a digest. -/
theorem summarized_physical (hsummary : q.aggregation.isSummary = true)
    (hpercentile : q.aggregation.isPercentile = false ∨ q.isVirtualLoss cfg = true) :
    (q.physical cfg).Summarized ∧ (q.physical cfg).aggregation.isPercentile = false := by
  rw [AggregateQuery.physical]
  split_ifs with hvirtual
  · refine ⟨⟨q.aggregation, hsummary, .inr ⟨rfl, rfl⟩⟩, ?_⟩
    cases hq : q.aggregation <;> rfl
  · have hpercentile := hpercentile.resolve_right hvirtual
    exact ⟨⟨q.aggregation, hsummary, .inl ⟨rfl, hpercentile⟩⟩, hpercentile⟩

omit [QuantileDigest D] in
theorem aggregate_plain (hvalid : q.validate = .ok ()) (hvirtual : q.isVirtualLoss cfg = false) :
    aggregate cfg r q = rawAnswer cfg r q := by
  have hself : q.physical cfg = q := if_neg (ne_true_of_eq_false hvirtual)
  have hrestored : restored cfg q = id := by
    funext points
    exact if_neg (ne_true_of_eq_false hvirtual)
  rw [aggregate_eq, hvalid, ok_bind, hself, hrestored, id_map]

/-- **Without rollups a store with tiers and one without answer alike.** -/
theorem series_eq_aggregate (hr : r.Sound cfg) (q : AggregateQuery) (now : ℤ)
    (hraw : routeOf cfg r (q.physical cfg) now = .raw) (hpreserve : q.preserveSeries = true)
    (homit : q.omitTags = false) (hsummary : q.aggregation.isSummary = true)
    (hpercentile : q.aggregation.isPercentile = false ∨ q.isVirtualLoss cfg = true) :
    series cfg r q now = aggregate cfg r q := by
  rw [series_eq, aggregate_eq]
  cases hvalid : q.validate with
  | error e => rw [error_bind, error_bind]
  | ok u =>
    obtain ⟨hphysical, hvirtual⟩ := validate_physical cfg hvalid
    have hkept : (q.physical cfg).preserveSeries = true ∧ (q.physical cfg).omitTags = false := by
      rw [AggregateQuery.physical]
      split_ifs <;> exact ⟨hpreserve, homit⟩
    obtain ⟨hsummarized, hdigest⟩ := summarized_physical hsummary hpercentile
    have hplain : aggregate cfg r (q.physical cfg) = rawAnswer cfg r (q.physical cfg) :=
      aggregate_plain hphysical hvirtual
    have hsame : seriesPhysical cfg r (q.physical cfg) now = rawAnswer cfg r (q.physical cfg) := by
      rw [seriesPhysical, hphysical, ok_bind]
      split_ifs
      · exact hplain
      · rw [collectSeriesPhysicalGroups, hdigest]
        rw [routeOf] at hraw
        simp only [hraw]
        rw [← answerGroups_foldRaw hr hphysical hvirtual hkept.1 hkept.2 hsummarized]
        simp only [bind_assoc, pure_bind]
      · exact hplain
    rw [hsame]

/-- No rollups, and pings merged. -/
def plainConfig : Config := ⟨⟨.unset, 0, false, []⟩, true, fun _ => "", fun _ _ => true, id⟩

def onePing : Reads (List ℚ) where
  retentionDays _ := some 30
  watermark _ := none
  rawSamples chosen _ _ :=
    .ok (if chosen ⟨1, sqliteMergedPingLatencyMetric, "node", "", []⟩ then
      [⟨sqliteMergedPingLatencyMetric, ⟨"node", ""⟩, [], 5, -1⟩] else [])
  rollups _ _ _ _ _ := .ok []

theorem sound_onePing : onePing.Sound plainConfig := by
  rintro chosen lo hi samples ⟨⟩
  split_ifs with hchosen
  · refine ⟨?_, by simp, by simp [plainConfig], by simp, by simp⟩
    simpa using ⟨_, hchosen, rfl⟩
  · exact ⟨by simp, by simp, by simp, by simp, by simp⟩

/-- The median of the losses. -/
def medianLoss : AggregateQuery :=
  ⟨⟨sqliteVirtualPingLossMetric, "", 1, 20, [], 0, 0, .unset⟩, .percentile ⟨1 / 2, by norm_num⟩, 10, true, false, 0, 0⟩

theorem series_medianLoss : series plainConfig onePing medianLoss 30 = aggregate plainConfig onePing medianLoss :=
  series_eq_aggregate sound_onePing medianLoss 30 rfl rfl rfl rfl (.inr rfl)

end Answers

end Komari
