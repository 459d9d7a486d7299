import Komari.Metric.Conserve
import Komari.Metric.Trace

/-!
# Merging buckets

A bucket that is merged from parts is the bucket of all samples, whatever the parts are and however
they are merged.  So the tiers can be composed one from the other.

* `rollup_homomorphism` : the merged bucket is the folded one, and a tier that is made from finer
  tiers is the one that is made from the points.
-/

namespace Komari

namespace Metric

/-! ### Trees of merges -/

/-- Parts of a list of samples, and how their buckets are merged. -/
inductive MergeTree
  /-- Samples that are folded into an empty bucket, with or without a digest. -/
  | leaf (includeDigest : Bool) (samples : List Sample)
  /-- The right bucket is merged into the left one. -/
  | node (left right : MergeTree)

section Trees

variable {D : Type} [TDigest D] {metricName : String}

/-- The bucket of some samples. -/
def foldSamples (D : Type) [TDigest D] (metricName : String) (includeDigest : Bool)
    (samples : List Sample) : RollupBucket D :=
  samples.foldl (fun b s => b.addMetricPoint metricName s.value s.ts) (RollupBucket.new includeDigest)

/-- The samples of a tree, from left to right. -/
def MergeTree.samples : MergeTree → List Sample
  | .leaf _ samples => samples
  | .node left right => left.samples ++ right.samples

/-- The leaves folded, in the order of the tree. -/
def MergeTree.bucket (D : Type) [TDigest D] (metricName : String) : MergeTree → RollupBucket D
  | .leaf includeDigest samples => foldSamples D metricName includeDigest samples
  | .node left right => (left.bucket D metricName).mergeStored (right.bucket D metricName)

/-- The bucket is a summary, and without samples it has its initial values. -/
structure Summary (metricName : String) (b : RollupBucket D) (samples : List Sample) : Prop where
  represents : Represents metricName b samples
  blank : samples = [] → b.dropDigest = (RollupBucket.new false : RollupBucket D).dropDigest

/-- **Samples at different times determine the summary**, but for the digest. -/
theorem Summary.unique {b o : RollupBucket D} {samples samples' : List Sample}
    (hb : Summary metricName b samples) (ho : Summary metricName o samples')
    (hperm : samples.Perm samples') (hts : (samples.map Sample.ts).Nodup) :
    b.dropDigest = o.dropDigest := by
  by_cases hnil : samples = []
  · subst hnil
    rw [hb.blank rfl, ho.blank hperm.nil_eq.symm]
  · have hrep := ho.represents
    rw [← Multiset.coe_eq_coe.mpr hperm] at hrep
    refine hb.represents.unique hrep (by simpa using hnil) fun s hs s' hs' h => ?_
    exact List.inj_on_of_nodup_map hts (Multiset.mem_coe.mp hs) (Multiset.mem_coe.mp hs') h

theorem Represents.foldl {b : RollupBucket D} {m : Multiset Sample} (hb : Represents metricName b m)
    (samples : List Sample) :
    Represents metricName
      (samples.foldl (fun b s => b.addMetricPoint metricName s.value s.ts) b) (m + samples) := by
  induction samples generalizing b m with
  | nil => simpa using hb
  | cons s samples ih =>
    have hstep := ih (hb.addMetricPoint s.value s.ts)
    rwa [add_assoc, Multiset.singleton_add, Multiset.cons_coe] at hstep

theorem summary_foldSamples (includeDigest : Bool) (samples : List Sample) :
    Summary metricName (foldSamples D metricName includeDigest samples) samples where
  represents := by
    have h := (@represents_new D metricName _ includeDigest).foldl samples
    rwa [zero_add] at h
  blank h := by subst h; rfl

/-- **A merged bucket** is the summary of both parts. -/
theorem Summary.mergeStored {b o : RollupBucket D} {samples samples' : List Sample}
    (hb : Summary metricName b samples) (ho : Summary metricName o samples') :
    Summary metricName (b.mergeStored o) (samples ++ samples') where
  represents := by
    rw [← Multiset.coe_add]
    exact hb.represents.mergeStored ho.represents
  blank h := by
    obtain ⟨hleft, hright⟩ := List.append_eq_nil_iff.mp h
    have hcount : o.count = 0 := by simp [ho.represents.count, hright]
    rw [RollupBucket.mergeStored, if_pos hcount]
    exact hb.blank hleft

theorem MergeTree.summary (tree : MergeTree) :
    Summary metricName (tree.bucket D metricName) tree.samples := by
  induction tree with
  | leaf includeDigest samples => exact summary_foldSamples includeDigest samples
  | node left right ihl ihr => exact ihl.mergeStored ihr

end Trees

/-! ### Tiers -/

section Tiers

variable {B : Type} (o : BucketOps B)

/-- `sortRollupKeys`: the order of keys. -/
def RollupKey.before (key key' : RollupKey) : Prop :=
  if key.bucket ≠ key'.bucket then key.bucket < key'.bucket
  else if key.series.entityID ≠ key'.series.entityID then key.series.entityID < key'.series.entityID
  else key.series.tagsHash ≤ key'.series.tagsHash

instance (key key' : RollupKey) : Decidable (key.before key') := by
  unfold RollupKey.before
  infer_instance

/-- New buckets, summed up to a coarser tier. -/
def buildCoarserBucketsFromDelta (interval : ℤ) (delta : Table RollupKey B) : Table RollupKey B :=
  if delta.rows = [] then ∅
  else coarsenRows o true interval (delta.rows.insertionSort fun r r' => r.1.before r'.1)

/-- The rows of a table as they are stored. -/
def StoredRows (t : Table RollupKey B) (rows : List (RollupKey × B)) : Prop :=
  List.Forall₂ (fun r r' => r'.1 = r.1 ∧ o.storedRow r.2 = .ok r'.2) t.rows rows

/-- The tables of the tiers over some raw points: the finest is made from the points, and a coarser one
from the rows of a finer one, in any order, or from a finer table. -/
inductive TierOf (points : List (PointKey × ℚ)) : ℤ → Table RollupKey B → Prop
  | finest (interval : ℤ) (raw : List (PointKey × ℚ)) : 0 < interval → raw.Perm points →
      TierOf points interval (groupPoints o interval raw)
  | handoff (fine coarse : ℤ) (t : Table RollupKey B) (stored rows : List (RollupKey × B)) :
      TierOf points fine t → 0 < coarse → fine ∣ coarse → StoredRows o t stored → rows.Perm stored →
      TierOf points coarse (coarsenStoredRollups o coarse rows)
  | delta (fine coarse : ℤ) (t : Table RollupKey B) : TierOf points fine t → 0 < coarse →
      fine ∣ coarse → TierOf points coarse (buildCoarserBucketsFromDelta o coarse t)

/-- The samples of the points that are in a bucket. -/
def samplesIn (points : List (PointKey × ℚ)) (interval : ℤ) (key : RollupKey) : List Sample :=
  (points.filter fun p => decide (p.1.rollupKey interval = key)).map fun p => ⟨p.1.tsNano, p.2⟩

theorem rollupKey_coarsen {fine coarse : ℤ} (hfine : 0 < fine) (hcoarse : 0 < coarse)
    (hdvd : fine ∣ coarse) (key : PointKey) :
    (key.rollupKey fine).coarsen coarse = key.rollupKey coarse := by
  unfold PointKey.rollupKey RollupKey.coarsen
  rw [floorDivNano_floorDivNano hfine hcoarse hdvd]

/-- **The fibres of a tier**: a coarse bucket has the samples of its fine buckets. -/
theorem sum_samplesIn {fine coarse : ℤ} (hfine : 0 < fine) (hcoarse : 0 < coarse) (hdvd : fine ∣ coarse)
    {keys : List RollupKey} (hkeys : keys.Nodup) {points : List (PointKey × ℚ)}
    (hall : ∀ p ∈ points, p.1.rollupKey fine ∈ keys) (key : RollupKey) :
    ((keys.filter fun k => decide (k.coarsen coarse = key)).map fun k =>
      (samplesIn points fine k : Multiset Sample)).sum = samplesIn points coarse key := by
  induction points with
  | nil => simp [samplesIn]
  | cons p points ih =>
    obtain ⟨hp, hall⟩ := List.forall_mem_cons.mp hall
    have hcons : ∀ interval k, (samplesIn (p :: points) interval k : Multiset Sample) =
        (if p.1.rollupKey interval = k then {⟨p.1.tsNano, p.2⟩} else 0) +
          samplesIn points interval k := by
      intro interval k
      unfold samplesIn
      by_cases hk : p.1.rollupKey interval = k <;> simp [hk]
    simp only [hcons, List.sum_map_add, ih hall]
    congr 1
    rw [List.sum_map_eq_nsmul_single (p.1.rollupKey fine) _ fun k hk _ => if_neg (Ne.symm hk), if_pos rfl,
      ← rollupKey_coarsen hfine hcoarse hdvd]
    split_ifs with hkey
    · rw [List.count_filter (by simpa using hkey), List.count_eq_one_of_mem hkeys hp, one_nsmul]
    · rw [List.count_eq_zero_of_not_mem (by simp [hkey]), zero_nsmul]

/-- The rows are those of the buckets of a resolution that hold points, each the summary of its points. -/
structure Summarizes {D : Type} (metricName : String) (points : List (PointKey × ℚ)) (interval : ℤ)
    (rows : List (RollupKey × RollupBucket D)) : Prop where
  positive : 0 < interval
  nodup : (rows.map Prod.fst).Nodup
  keys : ∀ key, key ∈ rows.map Prod.fst ↔ ∃ p ∈ points, p.1.rollupKey interval = key
  represents : ∀ r ∈ rows, Represents metricName r.2 (samplesIn points interval r.1)

section Summarizes

variable {D : Type} {metricName : String} {points : List (PointKey × ℚ)} {interval : ℤ}
  {rows rows' : List (RollupKey × RollupBucket D)}

theorem Summarizes.perm (h : Summarizes metricName points interval rows) (hperm : rows'.Perm rows) :
    Summarizes metricName points interval rows' where
  positive := h.positive
  nodup := (hperm.map Prod.fst).nodup_iff.mpr h.nodup
  keys key := ((hperm.map Prod.fst).mem_iff).trans (h.keys key)
  represents r hr := h.represents r (hperm.mem_iff.mp hr)

/-- A change of the buckets that keeps their summaries. -/
theorem Summarizes.forall₂ (h : Summarizes metricName points interval rows)
    (hrows : List.Forall₂ (fun r r' => r'.1 = r.1 ∧
      ∀ m, Represents metricName r.2 m → Represents metricName r'.2 m) rows rows') :
    Summarizes metricName points interval rows' := by
  obtain ⟨hpositive, hnodup, hkeys, hrep⟩ := h
  have hsame : rows'.map Prod.fst = rows.map Prod.fst := by
    clear hnodup hkeys hrep
    induction hrows with
    | nil => rfl
    | cons hr _ ih => rw [List.map_cons, List.map_cons, ih, hr.1]
  refine ⟨hpositive, hsame ▸ hnodup, fun key => hsame ▸ hkeys key, ?_⟩
  clear hnodup hkeys hsame
  induction hrows with
  | nil => simp
  | cons hr _ ih =>
    obtain ⟨hhead, htail⟩ := List.forall_mem_cons.mp hrep
    exact List.forall_mem_cons.mpr ⟨hr.1 ▸ hr.2 _ hhead, ih htail⟩

theorem Summarizes.stored [TDigest D] {t : Table RollupKey (RollupBucket D)}
    (h : Summarizes metricName points interval t.rows)
    (hrows : StoredRows (RollupBucket.ops D metricName) t rows) :
    Summarizes metricName points interval rows :=
  h.forall₂ (hrows.imp fun _ _ hr => ⟨hr.1, fun _ hrep => hrep.storedRow hr.2⟩)

theorem mem_keys_rows {α : Type} {t : Table RollupKey α} {key : RollupKey} :
    key ∈ t.rows.map Prod.fst ↔ (t.find? key).isSome = true := by
  simp [Option.isSome_iff_exists, Table.mem_rows]

/-- The rows with the samples that they summarize. -/
def traceRows (rows : List (RollupKey × RollupBucket D)) (h : ∀ r ∈ rows,
    Represents metricName r.2 (samplesIn points interval r.1)) :
    List (RollupKey × Traced D metricName) :=
  rows.pmap (fun r hr => (r.1, ⟨r.2, samplesIn points interval r.1, hr⟩)) h

theorem map_bucket_traceRows (h : ∀ r ∈ rows,
    Represents metricName r.2 (samplesIn points interval r.1)) :
    (traceRows rows h).map (fun r => (r.1, r.2.bucket)) = rows := by
  simp [traceRows, List.map_pmap]

theorem samples_traceRows (h : ∀ r ∈ rows,
    Represents metricName r.2 (samplesIn points interval r.1)) (chosen : RollupKey → Bool) :
    ((traceRows rows h).filter fun r => chosen r.1).map (fun r => r.2.samples) =
      ((rows.map Prod.fst).filter chosen).map fun key =>
        (samplesIn points interval key : Multiset Sample) := by
  induction rows with
  | nil => rfl
  | cons r rows ih =>
    have htail := ih fun r hr => h r (List.mem_cons_of_mem _ hr)
    cases hchosen : chosen r.1 with
    | true => simpa [traceRows, List.filter_cons, hchosen] using htail
    | false => simpa [traceRows, List.filter_cons, hchosen] using htail

/-- **A coarser tier** summarizes the same points. -/
theorem Summarizes.coarsenRows [TDigest D] {coarse : ℤ} (h : Summarizes metricName points interval rows)
    (hcoarse : 0 < coarse) (hdvd : interval ∣ coarse) (includeDigest : Bool) :
    Summarizes metricName points coarse
      (Metric.coarsenRows (RollupBucket.ops D metricName) includeDigest coarse rows).rows := by
  let traced := traceRows rows h.represents
  have hmap := Store.mapRows_coarsenRows (@Traced.hom_bucket D _ metricName)
    includeDigest coarse traced
  rw [map_bucket_traceRows] at hmap
  refine ⟨hcoarse, Table.nodup_map_fst_rows _, fun key => ?_, fun r hr => ?_⟩
  · rw [mem_keys_rows, Metric.coarsenRows, isSome_foldBuckets]
    constructor
    · rintro ⟨r, hr, rfl⟩
      obtain ⟨p, hp, hkey⟩ := (h.keys r.1).mp (List.mem_map_of_mem hr)
      exact ⟨p, hp, by rw [← hkey, rollupKey_coarsen h.positive hcoarse hdvd]⟩
    · rintro ⟨p, hp, rfl⟩
      obtain ⟨r, hr, hkey⟩ := List.mem_map.mp ((h.keys _).mpr ⟨p, hp, rfl⟩)
      exact ⟨r, hr, by rw [hkey, rollupKey_coarsen h.positive hcoarse hdvd]⟩
  · rw [← hmap, Table.rows_mapRows] at hr
    obtain ⟨⟨key, b⟩, hb, rfl⟩ := List.mem_map.mp hr
    have hweight := weightAt_coarsenRows (@Traced.additive_samples D _ metricName)
      includeDigest coarse traced key
    rw [Table.weightAt_of_some (Table.mem_rows.mp hb)] at hweight
    have hsamples : b.samples = samplesIn points coarse key := by
      rw [hweight, samples_traceRows h.represents fun k => decide (k.coarsen coarse = key)]
      exact sum_samplesIn h.positive hcoarse hdvd h.nodup
        (fun p hp => (h.keys _).mpr ⟨p, hp, rfl⟩) key
    exact hsamples ▸ b.represents

/-- **The finest tier** summarizes the points. -/
theorem summarizes_groupPoints [TDigest D] (hpositive : 0 < interval) {raw : List (PointKey × ℚ)}
    (hraw : raw.Perm points) : Summarizes metricName points interval
      (groupPoints (RollupBucket.ops D metricName) interval raw).rows := by
  have hmap := Store.mapRows_groupPoints (@Traced.hom_bucket D _ metricName)
    interval raw
  refine ⟨hpositive, Table.nodup_map_fst_rows _, fun key => ?_, fun r hr => ?_⟩
  · rw [mem_keys_rows, groupPoints, isSome_foldBuckets]
    exact exists_congr fun p => and_congr_left fun _ => hraw.mem_iff
  · rw [← hmap, Table.rows_mapRows] at hr
    obtain ⟨⟨key, b⟩, hb, rfl⟩ := List.mem_map.mp hr
    have hweight := weightAt_groupPoints (@Traced.additive_samples D _ metricName)
      interval raw key
    rw [Table.weightAt_of_some (Table.mem_rows.mp hb)] at hweight
    have hsamples : b.samples = samplesIn points interval key := by
      have hsum : ∀ l : List (PointKey × ℚ), (l.map fun p => ({⟨p.1.tsNano, p.2⟩} : Multiset Sample)).sum =
          (l.map fun p => (⟨p.1.tsNano, p.2⟩ : Sample) : List Sample) := by
        intro l
        induction l with
        | nil => rfl
        | cons p l ih => simp [ih]
      rw [hweight, hsum, samplesIn]
      exact Multiset.coe_eq_coe.mpr ((hraw.filter _).map _)
    exact hsamples ▸ b.represents

/-- **Every tier** summarizes the points. -/
theorem TierOf.summarizes [TDigest D] {t : Table RollupKey (RollupBucket D)}
    (h : TierOf (RollupBucket.ops D metricName) points interval t) :
    Summarizes metricName points interval t.rows := by
  induction h with
  | finest interval raw hpositive hraw => exact summarizes_groupPoints hpositive hraw
  | handoff fine coarse t stored rows _ hcoarse hdvd hstored hperm ih =>
    refine (((ih.stored hstored).perm hperm).coarsenRows hcoarse hdvd false).forall₂ ?_
    rw [coarsenStoredRollups, Table.rows_mapRows]
    refine List.forall₂_map_right_iff.mpr (List.forall₂_same.mpr fun r _ => ⟨rfl, fun m hrep => ?_⟩)
    dsimp only
    split_ifs
    · exact hrep.digest none
    · exact hrep
  | delta fine coarse t _ hcoarse hdvd ih =>
    rw [buildCoarserBucketsFromDelta]
    split_ifs with hnil
    · rw [hnil] at ih
      exact ih.coarsenRows hcoarse hdvd true
    · exact (ih.perm (List.perm_insertionSort _ _)).coarsenRows hcoarse hdvd true

/-- Two tables that summarize the same points have the same buckets, but for their digests. -/
theorem Summarizes.unique {t t' : Table RollupKey (RollupBucket D)}
    (h : Summarizes metricName points interval t.rows)
    (h' : Summarizes metricName points interval t'.rows) (hpoints : (points.map Prod.fst).Nodup)
    (key : RollupKey) :
    (t.find? key).map RollupBucket.dropDigest = (t'.find? key).map RollupBucket.dropDigest := by
  have hsome : (t.find? key).isSome = true ↔ (t'.find? key).isSome = true := by
    rw [← mem_keys_rows, ← mem_keys_rows, h.keys, h'.keys]
  cases hb : t.find? key with
  | none =>
    rw [hb, Option.isSome_none] at hsome
    rw [Option.not_isSome_iff_eq_none.mp fun hsome' => nomatch hsome.mpr hsome']
  | some b =>
    obtain ⟨b', hb'⟩ := Option.isSome_iff_exists.mp (hsome.mp (by rw [hb]; rfl))
    rw [hb', Option.map_some, Option.map_some]
    have hrow := Table.mem_rows.mpr hb
    obtain ⟨p, hp, hkey⟩ := (h.keys key).mp (List.mem_map_of_mem hrow)
    have hin : ⟨p.1.tsNano, p.2⟩ ∈ samplesIn points interval key :=
      List.mem_map_of_mem (List.mem_filter.mpr ⟨hp, by simpa using hkey⟩)
    refine congrArg some ((h.represents _ hrow).unique (h'.represents _ (Table.mem_rows.mpr hb'))
      (fun hzero => ?_) fun s hs s' hs' hts => ?_)
    · rw [← Multiset.mem_coe, hzero] at hin
      exact Multiset.notMem_zero _ hin
    · -- points of one series at one time have one key
      obtain ⟨q, hq, rfl⟩ := List.mem_map.mp (Multiset.mem_coe.mp hs)
      obtain ⟨q', hq', rfl⟩ := List.mem_map.mp (Multiset.mem_coe.mp hs')
      obtain ⟨hq, hqkey⟩ := List.mem_filter.mp hq
      obtain ⟨hq', hqkey'⟩ := List.mem_filter.mp hq'
      have hseries : q.1.series = q'.1.series := congrArg RollupKey.series
        ((of_decide_eq_true hqkey).trans (of_decide_eq_true hqkey').symm)
      have hpoint : q.1 = q'.1 := by
        rw [PointKey.mk.injEq]
        exact ⟨hseries, hts⟩
      rw [List.inj_on_of_nodup_map hpoints hq hq' hpoint]

end Summarizes

end Tiers

/-- **Merging is a homomorphism**: parts of a list of samples merge to the bucket of the whole list; and
a tier that is composed from finer tiers has the buckets that are built from the raw points. -/
theorem rollup_homomorphism (D : Type) [TDigest D] (metricName : String) :
    (∀ (tree : MergeTree) (samples : List Sample), tree.samples.Perm samples →
      (samples.map Sample.ts).Nodup → ∀ includeDigest, (tree.bucket D metricName).dropDigest =
        (foldSamples D metricName includeDigest samples).dropDigest) ∧
    ∀ (points : List (PointKey × ℚ)) (interval : ℤ) (t : Table RollupKey (RollupBucket D)),
      (points.map Prod.fst).Nodup → TierOf (RollupBucket.ops D metricName) points interval t →
        ∀ key, (t.find? key).map RollupBucket.dropDigest =
          ((groupPoints (RollupBucket.ops D metricName) interval points).find? key).map
            RollupBucket.dropDigest := by
  refine ⟨fun tree samples hperm hts includeDigest => ?_, fun points interval t hpoints htier key => ?_⟩
  · refine tree.summary.unique (summary_foldSamples includeDigest samples) hperm ?_
    exact (hperm.map Sample.ts).nodup_iff.mpr hts
  · have h := htier.summarizes
    exact h.unique (summarizes_groupPoints h.positive (List.Perm.refl _)) hpoints key

def pingPoints : List (PointKey × ℚ) :=
  [(⟨⟨"node", ""⟩, 30⟩, -1), (⟨⟨"node", ""⟩, 10⟩, 7), (⟨⟨"node", ""⟩, 25⟩, 4)]

theorem rollup_homomorphism_ping :
    ((MergeTree.node (.node (.leaf false []) (.leaf true [⟨30, -1⟩]))
        (.leaf true [⟨25, 4⟩, ⟨10, 7⟩])).bucket (List ℚ) sqliteMergedPingLatencyMetric).dropDigest =
      (foldSamples (List ℚ) sqliteMergedPingLatencyMetric true
        [⟨10, 7⟩, ⟨25, 4⟩, ⟨30, -1⟩]).dropDigest ∧
    ((buildCoarserBucketsFromDelta (RollupBucket.ops (List ℚ) sqliteMergedPingLatencyMetric) 40
        (groupPoints (RollupBucket.ops (List ℚ) sqliteMergedPingLatencyMetric) 20 pingPoints)).find?
          ⟨⟨"node", ""⟩, 0⟩).map RollupBucket.dropDigest =
      ((groupPoints (RollupBucket.ops (List ℚ) sqliteMergedPingLatencyMetric) 40 pingPoints).find?
          ⟨⟨"node", ""⟩, 0⟩).map RollupBucket.dropDigest :=
  ⟨(rollup_homomorphism (List ℚ) sqliteMergedPingLatencyMetric).1 _ _ (by decide) (by decide) true,
    (rollup_homomorphism (List ℚ) sqliteMergedPingLatencyMetric).2 pingPoints 40 _ (by decide)
      (.delta 20 40 _ (.finest 20 pingPoints (by decide) (List.Perm.refl _)) (by decide) (by decide)) _⟩

end Metric

end Komari
