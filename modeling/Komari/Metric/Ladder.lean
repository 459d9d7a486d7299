import Mathlib.Data.Multiset.Count
import Komari.Metric.Conserve

/-!
# Samples on the ladder

Where the samples of a metric are: in raw points, or in the bucket of a tier that contains them.
-/

namespace Komari

namespace Metric

namespace Store

variable {B : Type}

/-! ### Samples of a store -/

/-- Those of a bucket. -/
def samplesAt (samples : B → Multiset Sample) (s : Store B) (interval : ℤ) (key : RollupKey) :
    Multiset Sample :=
  s.rollups.weightAt samples (interval, key)

/-- The samples of the raw points, with their series. -/
def pointSamples (points : Table PointKey ℚ) : Multiset (Series × Sample) :=
  points.total fun key v => {(key.series, ⟨key.tsNano, v⟩)}

/-- The samples of the buckets, with their series. -/
def rollupSamples (samples : B → Multiset Sample) (rollups : Table (ℤ × RollupKey) B) :
    Multiset (Series × Sample) :=
  rollups.total fun key b => (samples b).map (Prod.mk key.2.series)

/-- All samples of a store. -/
def contents (samples : B → Multiset Sample) (s : Store B) : Multiset (Series × Sample) :=
  pointSamples s.points + rollupSamples samples s.rollups

end Store

section Samples

variable {B : Type} {o : BucketOps B} {samples : B → Multiset Sample}

/-- The measure of a bucket is the multiset of its samples. -/
abbrev CarriesSamples (o : BucketOps B) (samples : B → Multiset Sample) : Prop :=
  o.Additive samples fun v ts => ({⟨ts, v⟩} : Multiset Sample)

theorem CarriesSamples.withSeries (h : CarriesSamples o samples) (σ : Series) :
    o.Additive (fun b => (samples b).map (Prod.mk σ))
      fun v ts => ({(σ, ⟨ts, v⟩)} : Multiset (Series × Sample)) where
  new d := by rw [h.new, Multiset.map_zero]
  addMetricPoint b v ts := by rw [h.addMetricPoint, Multiset.map_add, Multiset.map_singleton]
  mergeStored b c := by rw [h.mergeStored, Multiset.map_add]
  dropDigest b := by rw [h.dropDigest]
  storedRow b c hrow := by rw [h.storedRow b c hrow]

theorem mem_sum_map {ι α : Type*} {f : ι → Multiset α} {l : List ι} {x : α} :
    x ∈ (l.map f).sum ↔ ∃ i ∈ l, x ∈ f i := by
  induction l with
  | nil => simp
  | cons i l ih => rw [List.map_cons, List.sum_cons, Multiset.mem_add, ih, List.exists_mem_cons_iff]

namespace Store

/-! ### Placement -/

/-- Every bucket belongs to one of the resolutions, holds a sample, and only samples of its interval. -/
def Placed (samples : B → Multiset Sample) (intervals : List ℤ) (s : Store B) : Prop :=
  ∀ interval key, (s.rollups.find? (interval, key)).isSome = true →
    interval ∈ intervals ∧ s.samplesAt samples interval key ≠ 0 ∧
      ∀ smp ∈ s.samplesAt samples interval key, floorDivNano smp.ts interval = key.bucket

theorem placed_empty (intervals : List ℤ) : Placed samples intervals (Store.empty : Store B) := by
  intro interval key h
  cases h

variable {intervals : List ℤ} {s : Store B}

variable {s' : Store B}

theorem Placed.congr (h : Placed samples intervals s)
    (hrollups : ∀ key, s'.rollups.find? key = s.rollups.find? key) :
    Placed samples intervals s' := by
  intro interval key hsome
  rw [hrollups] at hsome
  rw [samplesAt, Table.weightAt_congr (hrollups (interval, key))]
  exact h interval key hsome

/-- A deletion of rows leaves the placement of the others. -/
theorem Placed.deleteWhere (h : Placed samples intervals s) (p : ℤ × RollupKey → Bool) :
    Placed samples intervals { s with rollups := s.rollups.deleteWhere fun key _ => p key } := by
  intro interval key hsome
  obtain ⟨b, hb⟩ := Option.isSome_iff_exists.mp hsome
  have hfind : s.rollups.find? (interval, key) = some b := by
    rw [Table.find?_deleteWhere, Option.filter_eq_some_iff] at hb
    exact hb.1
  have hat : samplesAt samples { s with rollups := s.rollups.deleteWhere fun key _ => p key }
      interval key = s.samplesAt samples interval key :=
    Table.weightAt_congr (hb.trans hfind.symm)
  rw [hat]
  exact h interval key (by rw [hfind]; rfl)

variable {interval : ℤ}

/-- Raw points that are merged into a resolution are placed. -/
theorem Placed.mergePoints (hs : CarriesSamples o samples)
    (hmem : interval ∈ intervals) {points : List (PointKey × ℚ)} (h : Placed samples intervals s)
    (hok : s.mergeRollupBucketsTx o interval (groupPoints o interval points) = .ok s') :
    Placed samples intervals s' := by
  have hspec := storeRows_eq_ok hok
  intro i key hsome
  by_cases hi : i = interval ∧ ((groupPoints o interval points).find? key).isSome = true
  · obtain ⟨rfl, hbucket⟩ := hi
    have hat : s'.samplesAt samples i key = s.samplesAt samples i key +
        ((points.filter fun p => decide (p.1.rollupKey i = key)).map fun p =>
          ({⟨p.1.tsNano, p.2⟩} : Multiset Sample)).sum := by
      rw [samplesAt, samplesAt, weightAt_mergeRollupBucketsTx hs hok, weightAt_groupPoints hs]
    refine ⟨hmem, ?_, fun smp hsmp => ?_⟩
    · obtain ⟨p, hp, hkey⟩ := (isSome_foldBuckets _ _).mp hbucket
      intro hzero
      have hin : (⟨p.1.tsNano, p.2⟩ : Sample) ∈ s'.samplesAt samples i key := by
        rw [hat, Multiset.mem_add, mem_sum_map]
        exact Or.inr ⟨p, List.mem_filter.mpr ⟨hp, by simpa using hkey⟩, Multiset.mem_singleton_self _⟩
      rw [hzero] at hin
      exact Multiset.notMem_zero _ hin
    · rw [hat, Multiset.mem_add, mem_sum_map] at hsmp
      rcases hsmp with hold | ⟨p, hp, hnew⟩
      · cases hb : s.rollups.find? (i, key) with
        | none =>
          rw [samplesAt, Table.weightAt_of_none hb] at hold
          exact absurd hold (Multiset.notMem_zero _)
        | some b => exact (h i key (by rw [hb]; rfl)).2.2 smp hold
      · rw [Multiset.mem_singleton.mp hnew]
        have hkey : p.1.rollupKey i = key := by simpa using (List.mem_filter.mp hp).2
        exact congrArg RollupKey.bucket hkey
  · have hsame := hspec.other (i, key) fun hint => by
      have := not_and.mp hi hint
      simpa using this
    rw [hsame] at hsome
    rw [samplesAt, Table.weightAt_congr hsame]
    exact h i key hsome

/-- Buckets that are handed to a multiple of their resolution are placed. -/
theorem Placed.handsOff (hs : CarriesSamples o samples) {fine coarse cutoff : ℤ}
    (hfine : 0 < fine) (hcoarse : 0 < coarse) (hdvd : fine ∣ coarse) (hmem : coarse ∈ intervals)
    (h : Placed samples intervals s) (hoff : HandsOff o fine coarse cutoff s s') :
    Placed samples intervals s' := by
  intro i key hsome
  by_cases hc : i = coarse
  · subst hc
    have hat := hoff.received hs key
    -- an expired bucket of the fine tier that goes into this one
    have hmoved : ∀ r ∈ (s.scanRollupRows fine (some cutoff)).filter fun r =>
        decide (r.1.coarsen i = key), r.1.coarsen i = key ∧ samples r.2 ≠ 0 ∧
          ∀ smp ∈ samples r.2, floorDivNano smp.ts i = key.bucket := by
      intro r hr
      obtain ⟨hscan, hkey⟩ := List.mem_filter.mp hr
      have hkey : r.1.coarsen i = key := by simpa using hkey
      obtain ⟨hfind, -⟩ := mem_scanRollupRows.mp hscan
      obtain ⟨-, hne, hbucket⟩ := h fine r.1 (by rw [hfind]; rfl)
      rw [samplesAt, Table.weightAt_of_some hfind] at hne hbucket
      refine ⟨hkey, hne, fun smp hsmp => ?_⟩
      rw [← hkey, RollupKey.coarsen, ← hbucket smp hsmp, floorDivNano_floorDivNano hfine hcoarse hdvd]
    refine ⟨hmem, ?_, fun smp hsmp => ?_⟩
    · rw [samplesAt, hat]
      rcases (hoff.present key).mp hsome with hold | ⟨fineKey, hkey, hlt, hfineSome⟩
      · intro hzero
        rw [← Multiset.card_eq_zero, Multiset.card_add, Nat.add_eq_zero_iff] at hzero
        exact (h i key hold).2.1 (Multiset.card_eq_zero.mp hzero.1)
      · obtain ⟨b, hb⟩ := Option.isSome_iff_exists.mp hfineSome
        have hin : (fineKey, b) ∈ (s.scanRollupRows fine (some cutoff)).filter fun r =>
            decide (r.1.coarsen i = key) :=
          List.mem_filter.mpr ⟨mem_scanRollupRows.mpr ⟨hb, fun hi hhi => by cases hhi; exact hlt⟩,
            by simpa using hkey⟩
        obtain ⟨smp, hsmp⟩ := Multiset.exists_mem_of_ne_zero (hmoved _ hin).2.1
        intro hzero
        have hmem : smp ∈ s.rollups.weightAt samples (i, key) +
            (((s.scanRollupRows fine (some cutoff)).filter fun r =>
              decide (r.1.coarsen i = key)).map fun r => samples r.2).sum :=
          Multiset.mem_add.mpr (Or.inr (mem_sum_map.mpr ⟨_, hin, hsmp⟩))
        rw [hzero] at hmem
        exact Multiset.notMem_zero _ hmem
    · rw [samplesAt, hat, Multiset.mem_add, mem_sum_map] at hsmp
      rcases hsmp with hold | ⟨r, hr, hnew⟩
      · cases hb : s.rollups.find? (i, key) with
        | none =>
          rw [Table.weightAt_of_none hb] at hold
          exact absurd hold (Multiset.notMem_zero _)
        | some b => exact (h i key (by rw [hb]; rfl)).2.2 smp hold
      · exact (hmoved r hr).2.2 smp hnew
  · -- a row of another resolution is an old row
    have hold : ∃ b, s.rollups.find? (i, key) = some b ∧ s'.rollups.find? (i, key) = some b := by
      obtain ⟨b, hb⟩ := Option.isSome_iff_exists.mp hsome
      by_cases hf : i = fine
      · subst hf
        have hfilter := hoff.expired key
        rw [hb, eq_comm, Option.filter_eq_some_iff] at hfilter
        exact ⟨b, hfilter.1, hb⟩
      · exact ⟨b, (hoff.other (i, key) hf hc).symm.trans hb, hb⟩
    obtain ⟨b, hb, hb'⟩ := hold
    have hat : s'.samplesAt samples i key = s.samplesAt samples i key :=
      Table.weightAt_congr (hb'.trans hb.symm)
    rw [hat]
    exact h i key (by rw [hb]; rfl)

/-! ### Keeping samples -/

/-- The samples from an instant on are the same in both stores. -/
def Keeps (samples : B → Multiset Sample) (since : ℤ) (s s' : Store B) : Prop :=
  ∀ y, since ≤ y.2.ts → (s'.contents samples).count y = (s.contents samples).count y

theorem Keeps.refl (since : ℤ) (s : Store B) : Keeps samples since s s := fun _ _ => rfl

variable {since : ℤ}

theorem Keeps.trans {s'' : Store B} (h : Keeps samples since s s')
    (h' : Keeps samples since s' s'') : Keeps samples since s s'' :=
  fun y hy => (h' y hy).trans (h y hy)

theorem keeps_of_contents_eq
    (h : s'.contents samples = s.contents samples) : Keeps samples since s s' :=
  fun y _ => by rw [h]

theorem count_total_deleteWhere {κ α β : Type*} [DecidableEq β] {w : κ → α → Multiset β}
    {t : Table κ α} {p : κ → α → Bool} {y : β}
    (h : ∀ k v, (k, v) ∈ t.rows → p k v = true → y ∉ w k v) :
    ((t.deleteWhere p).total w).count y = (t.total w).count y := by
  have hremoved : y ∉ ((t.rows.filter fun r => p r.1 r.2).map fun r => w r.1 r.2).sum := by
    rw [mem_sum_map]
    rintro ⟨r, hr, hy⟩
    obtain ⟨hr, hp⟩ := List.mem_filter.mp hr
    exact h r.1 r.2 hr hp hy
  rw [← Table.total_deleteWhere p t, Multiset.count_add, Multiset.count_eq_zero.mpr hremoved,
    add_zero]

theorem keeps_deletePoints {p : PointKey → Bool}
    (h : ∀ key v, s.points.find? key = some v → p key = true → key.tsNano < since) :
    Keeps samples since s { s with points := s.points.deleteWhere fun key _ => p key } := by
  intro y hy
  have hcount : (pointSamples (s.points.deleteWhere fun key _ => p key)).count y =
      (pointSamples s.points).count y := by
    unfold pointSamples
    refine count_total_deleteWhere fun key v hmem hp hin => ?_
    have hlt := h key v (Table.mem_rows.mp hmem) hp
    rw [Multiset.mem_singleton.mp hin] at hy
    exact absurd hy (not_le.mpr hlt)
  rw [contents, contents, Multiset.count_add, Multiset.count_add, hcount]

theorem keeps_deleteRollups {p : ℤ × RollupKey → Bool}
    (h : ∀ interval key, (s.rollups.find? (interval, key)).isSome = true →
      p (interval, key) = true → ∀ smp ∈ s.samplesAt samples interval key, smp.ts < since) :
    Keeps samples since s { s with rollups := s.rollups.deleteWhere fun key _ => p key } := by
  intro y hy
  have hcount : (rollupSamples samples (s.rollups.deleteWhere fun key _ => p key)).count y =
      (rollupSamples samples s.rollups).count y := by
    unfold rollupSamples
    refine count_total_deleteWhere fun key b hmem hp hin => ?_
    have hfind := Table.mem_rows.mp hmem
    obtain ⟨smp, hsmp, rfl⟩ := Multiset.mem_map.mp hin
    have hlt := h key.1 key.2 (by rw [hfind]; rfl) hp smp
      (by rwa [samplesAt, Table.weightAt_of_some hfind])
    exact absurd hy (not_le.mpr hlt)
  rw [contents, contents, Multiset.count_add, Multiset.count_add, hcount]

variable {key : RollupKey}

/-- A bucket that starts before a multiple of its width holds samples before it. -/
theorem Placed.lt_of_bucket_lt (h : Placed samples intervals s) {cutoff : ℤ} (hpos : 0 < interval)
    (hdvd : interval ∣ cutoff)
    (hsome : (s.rollups.find? (interval, key)).isSome = true) (hlt : key.bucket < cutoff) :
    ∀ smp ∈ s.samplesAt samples interval key, smp.ts < cutoff := by
  intro smp hsmp
  obtain ⟨-, -, hbucket⟩ := h interval key hsome
  rw [← floorDivNano_lt_iff hpos hdvd, hbucket smp hsmp]
  exact hlt

/-! ### Compaction -/

/-- No stored point before the cutoff is older than the oldest one. -/
theorem oldestRawTimestampBefore_le {before oldest : ℤ}
    (h : s.oldestRawTimestampBefore before = some oldest) {key : PointKey} {v : ℚ}
    (hfind : s.points.find? key = some v) (hlt : key.tsNano < before) : oldest ≤ key.tsNano := by
  refine (List.min?_eq_some_iff.mp h).2 key.tsNano (List.mem_filter.mpr ⟨?_, by simpa using hlt⟩)
  exact List.mem_map.mpr ⟨(key, v), Table.mem_rows.mpr hfind, rfl⟩

theorem oldestRawTimestampBefore_lt {before oldest : ℤ}
    (h : s.oldestRawTimestampBefore before = some oldest) : oldest < before := by
  have hmem := (List.mem_filter.mp (List.min?_eq_some_iff.mp h).1).2
  simpa using hmem

theorem exists_oldestRawTimestampBefore {before oldest : ℤ}
    (h : s.oldestRawTimestampBefore before = some oldest) :
    ∃ key v, s.points.find? key = some v ∧ key.tsNano = oldest := by
  obtain ⟨hmem, -⟩ := List.mem_filter.mp (List.min?_eq_some_iff.mp h).1
  obtain ⟨r, hr, hts⟩ := List.mem_map.mp hmem
  exact ⟨r.1, r.2, Table.mem_rows.mp hr, hts⟩

theorem le_of_oldestRawTimestampBefore_eq_none {before : ℤ}
    (h : s.oldestRawTimestampBefore before = none) {key : PointKey} {v : ℚ}
    (hfind : s.points.find? key = some v) : before ≤ key.tsNano := by
  by_contra hlt
  have hmem : key.tsNano ∈ (s.points.rows.map fun r => r.1.tsNano).filter fun ts =>
      decide (ts < before) :=
    List.mem_filter.mpr ⟨List.mem_map.mpr ⟨(key, v), Table.mem_rows.mpr hfind, rfl⟩,
      by simpa using hlt⟩
  rw [oldestRawTimestampBefore, List.min?_eq_none_iff] at h
  rw [h] at hmem
  cases hmem

/-- The points that a chunk deletes are those it has merged. -/
theorem pointSamples_split (start before : ℤ) (s : Store B)
    (hstart : ∀ key v, s.points.find? key = some v → key.tsNano < before → start ≤ key.tsNano) :
    pointSamples s.points = pointSamples (s.deletePointsBefore before).points +
      ((s.queryRawPointsRange (some start) (some before)).map fun p =>
        ({(p.1.series, ⟨p.1.tsNano, p.2⟩)} : Multiset (Series × Sample))).sum := by
  have hperm : (s.queryRawPointsRange (some start) (some before)).Perm
      (s.points.rows.filter fun r => decide (r.1.tsNano < before)) := by
    rw [queryRawPointsRange]
    refine (sortOn_perm _ _).trans (List.Perm.of_eq (List.filter_congr fun r hr => ?_))
    by_cases hlt : r.1.tsNano < before
    · have hle := hstart r.1 r.2 (Table.mem_rows.mp hr) hlt
      simp [hlt, hle]
    · simp [hlt]
  have htotal := Table.total_deleteWhere
    (w := fun (key : PointKey) v => ({(key.series, ⟨key.tsNano, v⟩)} : Multiset (Series × Sample)))
    (fun key _ => decide (key.tsNano < before)) s.points
  rw [(hperm.map _).sum_eq, pointSamples, ← htotal]
  rfl

/-- A chunk moves raw points into the finest tier. -/
theorem materializeChunk_eq_ok (hs : CarriesSamples o samples) {policy : RollupPolicy}
    (hmode : policy.preservesRaw = false) {finest : RollupTier} {rest : List RollupTier}
    (htiers : policy.tiers = finest :: rest) {start chunkEnd : ℤ}
    (hstart : ∀ key v, s.points.find? key = some v → key.tsNano < chunkEnd → start ≤ key.tsNano)
    (h : s.materializeChunk o policy start chunkEnd = .ok s') :
    ∃ s₁, s.mergeRollupBucketsTx o finest.interval (groupPoints o finest.interval
        (s.queryRawPointsRange (some start) (some chunkEnd))) = .ok s₁ ∧
      s' = s₁.deletePointsBefore chunkEnd ∧ s'.contents samples = s.contents samples := by
  rw [materializeChunk, hmode] at h
  simp only [Bool.false_eq_true, if_false, compactMetricIncrementalRangeWithinTx, htiers] at h
  obtain ⟨s₁, hmerge, h⟩ := bind_eq_ok.mp h
  cases h
  refine ⟨s₁, hmerge, rfl, ?_⟩
  have hrollups := total_mergeRollupBucketsTx (fun σ => hs.withSeries σ) hmerge
  rw [total_groupPoints fun σ => hs.withSeries σ] at hrollups
  have hpoints := pointSamples_split start chunkEnd s hstart
  have hsame : s₁.points = s.points := (storeRows_eq_ok hmerge).points
  unfold contents rollupSamples
  change pointSamples (s₁.points.deleteWhere _) + Table.total _ s₁.rollups = _
  rw [hrollups, hpoints, hsame, add_assoc]
  congr 1
  rw [add_comm]

/-! ### Handing buckets down the ladder -/

/-- A bucket of `s` is still there, has gone into a coarser bucket that contains it, or holds only
samples before an instant. -/
def Moved (samples : B → Multiset Sample) (tiers : List RollupTier) (since : ℤ) (s s' : Store B)
    (interval : ℤ) (key : RollupKey) : Prop :=
  ((s'.rollups.find? (interval, key)).isSome = true ∧
      s.samplesAt samples interval key ≤ s'.samplesAt samples interval key) ∨
    (∃ coarser ∈ tiers, interval < coarser.interval ∧
      s.samplesAt samples interval key ≤
        s'.samplesAt samples coarser.interval (key.coarsen coarser.interval)) ∨
    ∀ smp ∈ s.samplesAt samples interval key, smp.ts < since

variable {tiers : List RollupTier}

theorem Moved.mono {tiers' : List RollupTier} (h : Moved samples tiers since s s' interval key)
    (hsub : ∀ tier ∈ tiers, tier ∈ tiers') : Moved samples tiers' since s s' interval key := by
  rcases h with h | ⟨coarser, hmem, h⟩ | h
  · exact Or.inl h
  · exact Or.inr (Or.inl ⟨coarser, hsub coarser hmem, h⟩)
  · exact Or.inr (Or.inr h)

/-- What happened to a bucket that held more samples happened to those of the bucket. -/
theorem Moved.of_le {s₀ : Store B}
    (hle : s₀.samplesAt samples interval key ≤ s.samplesAt samples interval key)
    (h : Moved samples tiers since s s' interval key) :
    Moved samples tiers since s₀ s' interval key := by
  rcases h with ⟨hsome, hin⟩ | ⟨coarser, hmem, hlt, hin⟩ | hold
  · exact Or.inl ⟨hsome, hle.trans hin⟩
  · exact Or.inr (Or.inl ⟨coarser, hmem, hlt, hle.trans hin⟩)
  · exact Or.inr (Or.inr fun smp hsmp => hold smp (Multiset.mem_of_le hle hsmp))

/-- The samples before the retention of the last tier are expired. -/
def Expires (tiers : List RollupTier) (now since : ℤ) : Prop :=
  ∀ last ∈ tiers.getLast?, cleanupCutoff now last ≤ since

/-- What `handoffExpiredRollupTiersTx` preserves. -/
structure HandsDown (samples : B → Multiset Sample) (tiers : List RollupTier) (intervals : List ℤ)
    (since : ℤ) (s s' : Store B) : Prop where
  points : s'.points = s.points
  watermark : s'.watermark = s.watermark
  other : ∀ key, key.1 ∉ tiers.map RollupTier.interval →
    s'.rollups.find? key = s.rollups.find? key
  placed : Placed samples intervals s'
  keeps : Keeps samples since s s'
  moved : ∀ tier ∈ tiers, ∀ key, (s.rollups.find? (tier.interval, key)).isSome = true →
    Moved samples tiers since s s' tier.interval key

theorem contents_eq_of_handsOff (hs : CarriesSamples o samples) {fine coarse cutoff : ℤ}
    (h : HandsOff o fine coarse cutoff s s') :
    s'.contents samples = s.contents samples := by
  unfold contents rollupSamples
  rw [h.points, h.total fun σ => hs.withSeries σ]

/-- A bucket of the finer tier either stays, or goes into the next tier. -/
theorem HandsOff.fine (hs : CarriesSamples o samples) {fine coarse cutoff : ℤ}
    (h : HandsOff o fine coarse cutoff s s') (hsome : (s.rollups.find? (fine, key)).isSome = true) :
    s'.rollups.find? (fine, key) = s.rollups.find? (fine, key) ∨
      (s'.rollups.find? (coarse, key.coarsen coarse)).isSome = true ∧
        s.samplesAt samples fine key ≤ s'.samplesAt samples coarse (key.coarsen coarse) := by
  obtain ⟨b, hb⟩ := Option.isSome_iff_exists.mp hsome
  by_cases hlt : key.bucket < cutoff
  · refine Or.inr ⟨(h.present _).mpr (Or.inr ⟨key, rfl, hlt, hsome⟩), ?_⟩
    have hmem : (key, b) ∈ (s.scanRollupRows fine (some cutoff)).filter fun r =>
        decide (r.1.coarsen coarse = key.coarsen coarse) := by
      refine List.mem_filter.mpr ⟨mem_scanRollupRows.mpr ⟨hb, fun hi hhi => ?_⟩, by simp⟩
      cases hhi
      exact hlt
    obtain ⟨before, after, hsplit⟩ := List.append_of_mem hmem
    rw [samplesAt, samplesAt, Table.weightAt_of_some hb, h.received hs, hsplit, List.map_append,
      List.map_cons, List.sum_append, List.sum_cons]
    refine Multiset.le_iff_exists_add.mpr ⟨s.rollups.weightAt samples (coarse, key.coarsen coarse) +
      ((before.map fun r => samples r.2).sum + (after.map fun r => samples r.2).sum), ?_⟩
    ac_rfl
  · left
    rw [h.expired, hb]
    simp [hlt]

theorem HandsOff.coarse_le (hs : CarriesSamples o samples) {fine coarse cutoff : ℤ}
    (h : HandsOff o fine coarse cutoff s s') (key : RollupKey) :
    s.samplesAt samples coarse key ≤ s'.samplesAt samples coarse key := by
  rw [samplesAt, samplesAt, h.received hs]
  exact Multiset.le_add_right _ _

theorem handsDown_last {last : RollupTier} {now : ℤ}
    (hpos : 0 < last.interval) (hsince : cleanupCutoff now last ≤ since)
    (hplaced : Placed samples intervals s) :
    HandsDown samples [last] intervals since s
      (s.deleteRollupsBefore last.interval (cleanupCutoff now last)) := by
  have hcutoff : last.interval ∣ cleanupCutoff now last := by
    rw [cleanupCutoff, alignRollupRetentionCutoff, if_neg (not_le.mpr hpos)]
    exact dvd_floorDivNano hpos _
  -- the buckets that are deleted hold expired samples only
  have hold : ∀ key, (s.rollups.find? (last.interval, key)).isSome = true →
      key.bucket < cleanupCutoff now last →
      ∀ smp ∈ s.samplesAt samples last.interval key, smp.ts < since :=
    fun key hsome hlt smp hsmp =>
      (hplaced.lt_of_bucket_lt hpos hcutoff hsome hlt smp hsmp).trans_le hsince
  refine ⟨rfl, rfl, fun key hkey => ?_, hplaced.deleteWhere _, keeps_deleteRollups ?_, ?_⟩
  · rw [find?_deleteRollupsBefore, beq_eq_false_iff_ne.mpr (by simpa using hkey)]
    simp
  · intro interval key hsome hp
    obtain ⟨hi, hlt⟩ := (Bool.and_eq_true _ _).mp hp
    obtain rfl : interval = last.interval := beq_iff_eq.mp hi
    exact hold key hsome (by simpa using hlt)
  · intro tier htier key hsome
    obtain rfl := List.mem_singleton.mp htier
    by_cases hlt : key.bucket < cleanupCutoff now tier
    · exact Or.inr (Or.inr (hold key hsome hlt))
    · have hfind : (s.deleteRollupsBefore tier.interval (cleanupCutoff now tier)).rollups.find?
          (tier.interval, key) = s.rollups.find? (tier.interval, key) := by
        rw [find?_deleteRollupsBefore]
        simp [hlt]
      refine Or.inl ⟨hfind ▸ hsome, ?_⟩
      rw [samplesAt, samplesAt, Table.weightAt_congr hfind]

/-- Handing expired buckets down loses no sample that the last tier still retains. -/
theorem handsDown_of_eq_ok (hs : CarriesSamples o samples) {now : ℤ}
    (hpos : ∀ tier ∈ tiers, 0 < tier.interval)
    (hpair : tiers.Pairwise (Coarser true)) (hmem : ∀ tier ∈ tiers, tier.interval ∈ intervals)
    (hsince : Expires tiers now since) (hplaced : Placed samples intervals s)
    (h : handoffExpiredRollupTiersTx o now tiers s = .ok s') :
    HandsDown samples tiers intervals since s s' := by
  induction tiers generalizing s with
  | nil =>
    cases h
    exact ⟨rfl, rfl, fun _ _ => rfl, hplaced, Keeps.refl _ _, fun tier ht =>
      absurd ht List.not_mem_nil⟩
  | cons fine rest ih =>
    cases rest with
    | nil =>
      cases h
      exact handsDown_last (hpos fine List.mem_cons_self) (hsince fine rfl) hplaced
    | cons coarse rest =>
      obtain ⟨s₁, hfirst, h⟩ := bind_eq_ok.mp h
      obtain ⟨hcoarser, hpairs⟩ := List.pairwise_cons.mp hpair
      obtain ⟨hlt, hdvd⟩ := hcoarser coarse List.mem_cons_self
      have hposrest : ∀ tier ∈ coarse :: rest, 0 < tier.interval := fun t ht =>
        hpos t (List.mem_cons_of_mem _ ht)
      have hoff := handoffTier_eq_ok hlt.ne hfirst
      have hplaced₁ := hplaced.handsOff hs (hpos fine List.mem_cons_self)
        (hposrest coarse List.mem_cons_self) (hdvd rfl)
        (hmem coarse (List.mem_cons_of_mem _ List.mem_cons_self)) hoff
      have hrest := ih hposrest hpairs (fun t ht => hmem t (List.mem_cons_of_mem _ ht))
        (fun last hlast => hsince last (by rwa [List.getLast?_cons_cons])) hplaced₁ h
      have hfineNotMem : fine.interval ∉ (coarse :: rest).map RollupTier.interval := by
        rintro hin
        obtain ⟨t, ht, heq⟩ := List.mem_map.mp hin
        exact absurd heq (hcoarser t ht).1.ne'
      refine ⟨hrest.points.trans hoff.points, hrest.watermark.trans hoff.watermark,
        fun key hkey => ?_, hrest.placed,
        (keeps_of_contents_eq (contents_eq_of_handsOff hs hoff)).trans hrest.keeps,
        fun tier htier key hsome => ?_⟩
      · rw [List.map_cons, List.map_cons, List.mem_cons, not_or, List.mem_cons, not_or] at hkey
        rw [hrest.other key (by
          rw [List.map_cons, List.mem_cons, not_or]
          exact hkey.2), hoff.other key hkey.1 hkey.2.1]
      · rcases List.mem_cons.mp htier with rfl | htier
        · rcases hoff.fine hs hsome with hstay | ⟨hsome₁, hle⟩
          · -- the later tiers do not touch a bucket that stays
            have hfind := (hrest.other (tier.interval, key) hfineNotMem).trans hstay
            refine Or.inl ⟨hfind ▸ hsome, ?_⟩
            rw [samplesAt, samplesAt, Table.weightAt_congr hfind]
          · rcases hrest.moved coarse List.mem_cons_self _ hsome₁ with
              ⟨-, hin⟩ | ⟨coarser, hcmem, hclt, hin⟩ | hold
            · exact Or.inr (Or.inl ⟨coarse, List.mem_cons_of_mem _ List.mem_cons_self, hlt,
                hle.trans hin⟩)
            · refine Or.inr (Or.inl ⟨coarser, List.mem_cons_of_mem _ hcmem, hlt.trans hclt, ?_⟩)
              have hcdvd : coarse.interval ∣ coarser.interval := by
                rcases List.mem_cons.mp hcmem with rfl | hcmem
                · exact dvd_rfl
                · exact ((List.pairwise_cons.mp hpairs).1 coarser hcmem).2 rfl
              have hkey : (key.coarsen coarse.interval).coarsen coarser.interval =
                  key.coarsen coarser.interval := by
                simp only [RollupKey.coarsen]
                rw [floorDivNano_floorDivNano (hposrest coarse List.mem_cons_self)
                  (hposrest coarser hcmem) hcdvd]
              rw [hkey] at hin
              exact hle.trans hin
            · exact Or.inr (Or.inr fun smp hsmp => hold smp (Multiset.mem_of_le hle hsmp))
        · have hne : tier.interval ≠ fine.interval := (hcoarser tier htier).1.ne'
          have hle : s.samplesAt samples tier.interval key ≤
              s₁.samplesAt samples tier.interval key := by
            by_cases hc : tier.interval = coarse.interval
            · rw [hc]
              exact hoff.coarse_le hs key
            · rw [samplesAt, samplesAt, Table.weightAt_congr (hoff.other (tier.interval, key) hne hc)]
          have hsome₁ : (s₁.rollups.find? (tier.interval, key)).isSome = true := by
            by_cases hc : tier.interval = coarse.interval
            · rw [hc] at hsome ⊢
              exact (hoff.present key).mpr (Or.inl hsome)
            · rwa [hoff.other (tier.interval, key) hne hc]
          exact ((hrest.moved tier htier key hsome₁).of_le hle).mono
            fun t ht => List.mem_cons_of_mem _ ht

/-! ### One transaction -/

/-- Every bucket of `s` is still there with its samples. -/
def Grows (samples : B → Multiset Sample) (s s' : Store B) : Prop :=
  ∀ interval key, (s.rollups.find? (interval, key)).isSome = true →
    (s'.rollups.find? (interval, key)).isSome = true ∧
      s.samplesAt samples interval key ≤ s'.samplesAt samples interval key

theorem grows_of_mergeRollupBucketsTx (hs : CarriesSamples o samples)
    {buckets : Table RollupKey B}
    (h : s.mergeRollupBucketsTx o interval buckets = .ok s') : Grows samples s s' := by
  intro i key hsome
  have hspec := storeRows_eq_ok h
  by_cases hi : i = interval
  · subst hi
    constructor
    · cases hb : buckets.find? key with
      | none => rwa [hspec.other (i, key) fun _ => by rw [hb]; rfl]
      | some b =>
        obtain ⟨row, -, hfind⟩ := hspec.stored key b hb
        rw [hfind]
        rfl
    · rw [samplesAt, samplesAt, weightAt_mergeRollupBucketsTx hs h]
      exact Multiset.le_add_right _ _
  · have hsame := hspec.other (i, key) fun hint => absurd hint hi
    rw [samplesAt, samplesAt, Table.weightAt_congr hsame, hsame]
    exact ⟨hsome, le_rfl⟩

/-- What a compaction does to the tiers. -/
structure Compacts (samples : B → Multiset Sample) (tiers : List RollupTier) (intervals : List ℤ)
    (since : ℤ) (s s' : Store B) : Prop where
  placed : Placed samples intervals s'
  keeps : Keeps samples since s s'
  moved : ∀ tier ∈ tiers, ∀ key, (s.rollups.find? (tier.interval, key)).isSome = true →
    Moved samples tiers since s s' tier.interval key

theorem Compacts.of_grows
    {s₀ : Store B} (hgrows : Grows samples s₀ s) (hkeeps : Keeps samples since s₀ s)
    (h : Compacts samples tiers intervals since s s') :
    Compacts samples tiers intervals since s₀ s' := by
  refine ⟨h.placed, hkeeps.trans h.keeps, fun tier htier key hsome => ?_⟩
  obtain ⟨hsome', hle⟩ := hgrows tier.interval key hsome
  exact (h.moved tier htier key hsome').of_le hle

theorem Compacts.watermark
    (h : Compacts samples tiers intervals since s s') (watermark : Option ℤ) :
    Compacts samples tiers intervals since s (s'.persistCompactionWatermark watermark) := by
  cases watermark <;> exact ⟨h.placed, h.keeps, h.moved⟩

/-- Nothing is stored in a resolution that is not in effect. -/
theorem Placed.find?_deleteRollupsForIntervals {obsolete : List ℤ}
    (h : Placed samples intervals s) (hobsolete : ∀ i ∈ obsolete, i ∉ intervals)
    (key : ℤ × RollupKey) :
    (s.deleteRollupsForIntervals obsolete).rollups.find? key = s.rollups.find? key := by
  rw [deleteRollupsForIntervals, Table.find?_deleteWhere]
  cases hb : s.rollups.find? key with
  | none => rfl
  | some b =>
    have hmem := (h key.1 key.2 (by rw [hb]; rfl)).1
    have hnot : key.1 ∉ obsolete := fun hin => hobsolete key.1 hin hmem
    simp [Option.filter, hnot]

theorem contents_deleteRollupsForIntervals {obsolete : List ℤ}
    (h : Placed samples intervals s) (hobsolete : ∀ i ∈ obsolete, i ∉ intervals) :
    (s.deleteRollupsForIntervals obsolete).contents samples = s.contents samples := by
  unfold contents rollupSamples
  rw [Table.total_congr_find? (h.find?_deleteRollupsForIntervals hobsolete)]
  rfl

section Compaction

variable {policy : RollupPolicy} {intervals obsolete : List ℤ} {now since : ℤ}

/-- The end of a compaction hands the expired buckets of every tier down. -/
theorem compacts_completeChunk (hs : CarriesSamples o samples) (hmode : policy.preservesRaw = false)
    (hpos : ∀ tier ∈ policy.tiers, 0 < tier.interval) (hpair : policy.tiers.Pairwise (Coarser true))
    (hmem : ∀ tier ∈ policy.tiers, tier.interval ∈ intervals)
    (hobsolete : ∀ i ∈ obsolete, i ∉ intervals) (hsince : Expires policy.tiers now since)
    {rawCutoff : ℤ} {s s' : Store B} (hplaced : Placed samples intervals s)
    (h : s.completeChunk o now policy obsolete rawCutoff = .ok s') :
    Compacts samples policy.tiers intervals since s s' := by
  unfold completeChunk at h
  rw [hmode] at h
  obtain ⟨s₁, hhand, h⟩ := bind_eq_ok.mp h
  cases h
  have hfind := hplaced.find?_deleteRollupsForIntervals hobsolete
  have hdown := handsDown_of_eq_ok hs hpos hpair hmem hsince (hplaced.congr hfind) hhand
  refine Compacts.watermark ⟨hdown.placed, ?_, fun tier htier key hsome => ?_⟩ _
  · exact (keeps_of_contents_eq (contents_deleteRollupsForIntervals hplaced hobsolete)).trans
      hdown.keeps
  · have hle : s.samplesAt samples tier.interval key ≤
        (s.deleteRollupsForIntervals obsolete).samplesAt samples tier.interval key := by
      rw [samplesAt, samplesAt, Table.weightAt_congr (hfind (tier.interval, key))]
    refine (hdown.moved tier htier key ?_).of_le hle
    rwa [hfind]

/-- A chunk of raw points enters the finest tier. -/
theorem grows_materializeChunk (hs : CarriesSamples o samples) (hmode : policy.preservesRaw = false)
    {finest : RollupTier} {rest : List RollupTier} (htiers : policy.tiers = finest :: rest)
    (hmem : finest.interval ∈ intervals) {start chunkEnd : ℤ} {s s' : Store B}
    (hplaced : Placed samples intervals s)
    (hstart : ∀ key v, s.points.find? key = some v → key.tsNano < chunkEnd → start ≤ key.tsNano)
    (h : s.materializeChunk o policy start chunkEnd = .ok s') :
    Placed samples intervals s' ∧ Grows samples s s' ∧ Keeps samples since s s' := by
  obtain ⟨s₁, hmerge, rfl, hcontents⟩ := materializeChunk_eq_ok hs hmode htiers hstart h
  have hgrows := grows_of_mergeRollupBucketsTx hs hmerge
  have hplaced₁ := hplaced.mergePoints hs hmem hmerge
  exact ⟨fun i key hsome => hplaced₁ i key hsome, fun i key hsome => hgrows i key hsome,
    keeps_of_contents_eq hcontents⟩

/-- One transaction of a compaction loses no sample that the last tier still retains. -/
theorem compacts_chunkOnce (hs : CarriesSamples o samples) (hmode : policy.preservesRaw = false)
    (hpos : ∀ tier ∈ policy.tiers, 0 < tier.interval) (hpair : policy.tiers.Pairwise (Coarser true))
    (hmem : ∀ tier ∈ policy.tiers, tier.interval ∈ intervals)
    (hobsolete : ∀ i ∈ obsolete, i ∉ intervals) (hsince : Expires policy.tiers now since)
    {s : Store B} {r : Store B × Bool} (hplaced : Placed samples intervals s)
    (h : s.compactMetricIncrementalChunkOnce o now policy obsolete = .ok r) :
    Compacts samples policy.tiers intervals since s r.1 := by
  have hrefl : Compacts samples policy.tiers intervals since s s :=
    ⟨hplaced, Keeps.refl _ _, fun tier _ key hsome => Or.inl ⟨hsome, le_rfl⟩⟩
  unfold compactMetricIncrementalChunkOnce at h
  cases htiers : policy.tiers with
  | nil =>
    have hcutoff : policy.rawCutoff now = none := by rw [RollupPolicy.rawCutoff, htiers]
    rw [hcutoff] at h
    cases h
    rwa [htiers] at hrefl
  | cons finest rest =>
    rw [← htiers]
    have hfinest := hmem finest (htiers ▸ List.mem_cons_self)
    split at h
    · cases h
      exact hrefl
    · rename_i rawCutoff _
      split at h
      · obtain ⟨s₁, hcomplete, h⟩ := bind_eq_ok.mp h
        cases h
        exact compacts_completeChunk hs hmode hpos hpair hmem hobsolete hsince hplaced hcomplete
      · rename_i start hstart
        rw [chunkStart, hmode] at hstart
        simp only [Bool.false_eq_true, if_false] at hstart
        -- the chunk starts at the oldest point
        have holdest : ∀ chunkEnd ≤ rawCutoff, ∀ key v, s.points.find? key = some v →
            key.tsNano < chunkEnd → start ≤ key.tsNano := fun chunkEnd hle key v hfind hlt =>
          oldestRawTimestampBefore_le hstart hfind (hlt.trans_le hle)
        split_ifs at h with hlt
        · obtain ⟨s₁, hmat, h⟩ := bind_eq_ok.mp h
          cases h
          obtain ⟨hplaced₁, hgrows, hkeeps⟩ := grows_materializeChunk hs hmode htiers hfinest hplaced
            (holdest _ hlt.le) hmat
          have hcompacts : Compacts samples policy.tiers intervals since s s₁ :=
            ⟨hplaced₁, hkeeps, fun tier _ key hsome => Or.inl (hgrows tier.interval key hsome)⟩
          exact hcompacts.watermark (some (chunkCandidate start))
        · obtain ⟨s₁, hmat, h⟩ := bind_eq_ok.mp h
          obtain ⟨s₂, hcomplete, h⟩ := bind_eq_ok.mp h
          cases h
          obtain ⟨hplaced₁, hgrows, hkeeps⟩ := grows_materializeChunk hs hmode htiers hfinest hplaced
            (holdest _ le_rfl) hmat
          exact (compacts_completeChunk hs hmode hpos hpair hmem hobsolete hsince hplaced₁
            hcomplete).of_grows hgrows hkeeps

end Compaction

end Store

end Samples

end Metric

end Komari
