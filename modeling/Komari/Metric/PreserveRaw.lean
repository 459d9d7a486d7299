import Mathlib.Algebra.BigOperators.Group.Finset.Basic
import Komari.Metric.Ladder
import Komari.Metric.ReadPlan
import Komari.Metric.Trace

/-!
# Rollups of raw points that stay

With raw points kept, every chunk of them is merged into every tier, and the persisted watermark says
up to where.  A write before the watermark is never materialized.

* `rollups_eq_raw` : the result; `late_point_missed` : a late point that no bucket counts.
* `plannedCount_eq_raw` : so a query counts the raw points of its window.
-/

namespace Komari

namespace Metric

namespace Store

variable {B : Type} {o : BucketOps B} {samples : B → Multiset Sample}

/-! ### Materialized points -/

/-- A row as a sample. -/
def sampleOf (r : PointKey × ℚ) : Multiset Sample := {⟨r.1.tsNano, r.2⟩}

/-- The raw points of a bucket that satisfy a condition on their time. -/
def rawSamplesAt (s : Store B) (p : ℤ → Bool) (interval : ℤ) (key : RollupKey) : Multiset Sample :=
  ((s.points.rows.filter fun r => p r.1.tsNano && decide (r.1.rollupKey interval = key)).map
    sampleOf).sum

/-- The instant is before the persisted watermark. -/
def beforeWatermark (s : Store B) (ts : ℤ) : Bool := s.watermark.any fun w => decide (ts < w)

variable {s : Store B}

theorem beforeWatermark_iff {ts : ℤ} : s.beforeWatermark ts = true ↔ ∃ w ∈ s.watermark, ts < w := by
  rw [beforeWatermark, Option.any_eq_true]
  simp

/-- Every bucket of a tier holds the raw points of its interval that are before the watermark. -/
structure Materialized (samples : B → Multiset Sample) (tiers : List RollupTier)
    (intervals : List ℤ) (s : Store B) : Prop where
  placed : Placed samples intervals s
  exact : ∀ tier ∈ tiers, ∀ key, s.samplesAt samples tier.interval key =
    s.rawSamplesAt s.beforeWatermark tier.interval key
  -- a watermark that counts as missing has no points before it
  early : ∀ w ∈ s.watermark, w ≤ 0 → ∀ key v, s.points.find? key = some v → w ≤ key.tsNano

theorem rawSamplesAt_congr {s' : Store B} {p p' : ℤ → Bool} (interval : ℤ) (key : RollupKey)
    (h : ∀ k v, (s.points.find? k = some v ∧ p k.tsNano = true) ↔
      (s'.points.find? k = some v ∧ p' k.tsNano = true)) :
    s.rawSamplesAt p interval key = s'.rawSamplesAt p' interval key := by
  have hperm : (s.points.rows.filter fun r =>
        p r.1.tsNano && decide (r.1.rollupKey interval = key)).Perm
      (s'.points.rows.filter fun r =>
        p' r.1.tsNano && decide (r.1.rollupKey interval = key)) := by
    refine (List.perm_ext_iff_of_nodup ((Table.nodup_rows _).filter _)
      ((Table.nodup_rows _).filter _)).mpr fun r => ?_
    have hr := h r.1 r.2
    rw [List.mem_filter, List.mem_filter, Bool.and_eq_true, Bool.and_eq_true, ← and_assoc,
      ← and_assoc, Table.mem_rows, Table.mem_rows, hr]
  rw [rawSamplesAt, rawSamplesAt, (hperm.map _).sum_eq]

theorem materialized_empty (tiers : List RollupTier) (intervals : List ℤ) :
    Materialized samples tiers intervals (Store.empty : Store B) := by
  refine ⟨placed_empty _, fun tier _ key => rfl, fun w hw => ?_⟩
  cases hw

/-! ### Merging points into every tier -/

/-- What merging points into every tier does. -/
structure MergesPoints (o : BucketOps B) (samples : B → Multiset Sample) (tiers : List RollupTier)
    (new : List (PointKey × ℚ)) (s s' : Store B) : Prop where
  points : s'.points = s.points
  watermark : s'.watermark = s.watermark
  other : ∀ key, key.1 ∉ tiers.map RollupTier.interval →
    s'.rollups.find? key = s.rollups.find? key
  added : ∀ tier ∈ tiers, ∀ key, s'.samplesAt samples tier.interval key =
    s.samplesAt samples tier.interval key + ((new.filter fun r =>
      decide (r.1.rollupKey tier.interval = key)).map sampleOf).sum

theorem mergesPoints_of_eq_ok (hs : CarriesSamples o samples) {intervals : List ℤ}
    {points : List (PointKey × ℚ)} {tiers : List RollupTier}
    (hnodup : (tiers.map RollupTier.interval).Nodup)
    (hmem : ∀ tier ∈ tiers, tier.interval ∈ intervals) {s' : Store B}
    (hplaced : Placed samples intervals s)
    (h : tiers.foldlM (fun s tier => s.mergeRollupBucketsTx o tier.interval
      (groupPoints o tier.interval points)) s = .ok s') :
    Placed samples intervals s' ∧ MergesPoints o samples tiers points s s' := by
  induction tiers generalizing s with
  | nil =>
    cases h
    exact ⟨hplaced, rfl, rfl, fun _ _ => rfl, fun tier htier => absurd htier List.not_mem_nil⟩
  | cons fine rest ih =>
    rw [List.foldlM_cons] at h
    obtain ⟨s₁, hmerge, h⟩ := bind_eq_ok.mp h
    rw [List.map_cons, List.nodup_cons] at hnodup
    have hspec := storeRows_eq_ok hmerge
    obtain ⟨hplaced', hrest⟩ := ih hnodup.2 (fun tier ht => hmem tier (List.mem_cons_of_mem _ ht))
      (hplaced.mergePoints hs (hmem fine List.mem_cons_self) hmerge) h
    refine ⟨hplaced', hrest.points.trans hspec.points, hrest.watermark.trans hspec.watermark,
      fun key hkey => ?_, fun tier htier key => ?_⟩
    · rw [List.map_cons, List.mem_cons, not_or] at hkey
      rw [hrest.other key hkey.2, hspec.other key fun heq => absurd heq hkey.1]
    · rcases List.mem_cons.mp htier with rfl | htier
      · -- the coarser tiers leave the finest alone
        rw [samplesAt, Table.weightAt_congr (hrest.other (tier.interval, key) hnodup.1),
          weightAt_mergeRollupBucketsTx hs hmerge, weightAt_groupPoints hs]
        rfl
      · have hne : tier.interval ≠ fine.interval := by
          intro heq
          exact hnodup.1 (heq ▸ List.mem_map_of_mem htier)
        rw [hrest.added tier htier key, samplesAt, samplesAt,
          Table.weightAt_congr (hspec.other (tier.interval, key) fun heq => absurd heq hne)]

/-- The raw points of a range are those of the table that lie in it. -/
theorem sum_queryRawPointsRange (s : Store B) (start before interval : ℤ) (key : RollupKey) :
    (((s.queryRawPointsRange (some start) (some before)).filter fun r =>
        decide (r.1.rollupKey interval = key)).map sampleOf).sum =
      s.rawSamplesAt (fun ts => decide (start ≤ ts) && decide (ts < before)) interval key := by
  have hperm := (sortOn_perm (fun r : PointKey × ℚ => r.1.tsNano)
    (s.points.rows.filter fun r => ((some start).all fun lo => decide (lo ≤ r.1.tsNano)) &&
      (some before).all fun hi => decide (r.1.tsNano < hi))).filter fun r =>
        decide (r.1.rollupKey interval = key)
  rw [queryRawPointsRange, (hperm.map _).sum_eq, List.filter_filter, rawSamplesAt]
  congr 2
  refine List.filter_congr fun r _ => ?_
  rw [Bool.and_comm]
  rfl

/-- The raw points before the end of a range are those before its start and those of the range. -/
theorem rawSamplesAt_split (s : Store B) {p q r : ℤ → Bool} (interval : ℤ) (key : RollupKey)
    (h : ∀ k v, s.points.find? k = some v →
      r k.tsNano = (p k.tsNano || q k.tsNano) ∧ ¬(p k.tsNano = true ∧ q k.tsNano = true)) :
    s.rawSamplesAt r interval key = s.rawSamplesAt p interval key + s.rawSamplesAt q interval key := by
  unfold rawSamplesAt
  have hrows : ∀ row ∈ s.points.rows, r row.1.tsNano = (p row.1.tsNano || q row.1.tsNano) ∧
      ¬(p row.1.tsNano = true ∧ q row.1.tsNano = true) := fun row hrow =>
    h row.1 row.2 (Table.mem_rows.mp hrow)
  generalize s.points.rows = rows at hrows ⊢
  induction rows with
  | nil => rfl
  | cons row rows ih =>
    obtain ⟨hor, hnot⟩ := hrows row List.mem_cons_self
    have hrest := ih fun row' hrow' => hrows row' (List.mem_cons_of_mem _ hrow')
    by_cases hkey : row.1.rollupKey interval = key
    · cases hp : p row.1.tsNano <;> cases hq : q row.1.tsNano <;>
        simp_all [add_assoc, add_left_comm]
    · simpa [List.filter_cons, hkey] using hrest

/-! ### Writes -/

/-- A metric whose raw points stay, and enter the rollups after a finite time. -/
structure PreservesRaw (cfg : MetricConfig) : Prop where
  valid : cfg.policy.validate = .ok ()
  mode : cfg.policy.preservesRaw = true
  raw : 0 < cfg.policy.rawRetention

/-- A write adds no point before the watermark, and a compaction finds no negative timestamp. -/
def Step.OnTime (cfg : MetricConfig) (s : Store B) : Step → Prop
  | .writeBatch points => ∀ r ∈ points,
      (∀ w ∈ s.watermark, w ≤ r.1.tsNano) ∨ s.points.find? r.1 = some r.2
  | .compact now => ∀ cutoff ∈ cfg.effective.rawCutoff now, ∀ r ∈ s.points.rows,
      0 ≤ r.1.tsNano ∨ cutoff ≤ r.1.tsNano
  | .cleanupStep _ _ => False
  | .cleanupRollups _ => False

instance (cfg : MetricConfig) (s : Store B) (st : Step) : Decidable (st.OnTime cfg s) :=
  match st with
  | .writeBatch points => inferInstanceAs (Decidable (∀ r ∈ points, (∀ w ∈ s.watermark, _) ∨ _))
  | .compact now => inferInstanceAs
      (Decidable (∀ cutoff ∈ cfg.effective.rawCutoff now, ∀ r ∈ s.points.rows, _))
  | .cleanupStep _ _ => inferInstanceAs (Decidable False)
  | .cleanupRollups _ => inferInstanceAs (Decidable False)

/-- A batch whose rows before a bound are stored already leaves the points before the bound. -/
theorem find?_upsertAll_of_late {new : List (PointKey × ℚ)} {t : Table PointKey ℚ} {w : ℤ}
    (h : ∀ r ∈ new, w ≤ r.1.tsNano ∨ t.find? r.1 = some r.2) {k : PointKey} (hk : k.tsNano < w) :
    (t.upsertAll new).find? k = t.find? k := by
  by_cases hmem : k ∈ new.map Prod.fst
  · obtain ⟨v, hv, hfind⟩ := Table.exists_find?_upsertAll (t := t) hmem
    rcases h (k, v) hv with hle | hsame
    · exact absurd hk (not_lt.mpr hle)
    · rw [hfind, hsame]
  · exact Table.find?_upsertAll_of_notMem hmem

variable {cfg : MetricConfig} {tiers : List RollupTier} {intervals : List ℤ}

theorem materialized_writeBatch (h : Materialized samples tiers intervals s)
    {points : List (PointKey × ℚ)} (hlate : Step.OnTime cfg s (.writeBatch points)) :
    Materialized samples tiers intervals (s.writeBatch cfg points) := by
  unfold writeBatch
  split_ifs
  · have hold : ∀ w ∈ s.watermark, ∀ k : PointKey, k.tsNano < w →
        (s.points.upsertAll points).find? k = s.points.find? k := by
      intro w hw k hk
      refine find?_upsertAll_of_late (fun r hr => ?_) hk
      exact (hlate r hr).imp_left fun hle => hle w hw
    refine ⟨h.placed, fun tier htier key => ?_, fun w hw hneg key v hfind => ?_⟩
    · refine (h.exact tier htier key).trans (rawSamplesAt_congr _ _ fun k v => ?_)
      refine and_congr_left fun hbefore => ?_
      obtain ⟨w, hw, hlt⟩ := beforeWatermark_iff.mp hbefore
      dsimp only
      rw [hold w hw k hlt]
    · by_contra hlt
      have hfind' : s.points.find? key = some v := (hold w hw key (not_le.mp hlt)).symm.trans hfind
      exact hlt (h.early w hw hneg key v hfind')
  · exact h

/-! ### Compactions -/

theorem Materialized.advance (h : Materialized samples tiers intervals s) {w : ℤ}
    (hnone : ∀ k v, s.points.find? k = some v → k.tsNano < w → s.beforeWatermark k.tsNano = true)
    (hearly : w ≤ 0 → ∀ k v, s.points.find? k = some v → w ≤ k.tsNano) :
    Materialized samples tiers intervals (s.persistCompactionWatermark (some w)) := by
  refine ⟨h.placed, fun tier htier key => ?_, fun w' hw' hneg key v hfind => ?_⟩
  · refine (h.exact tier htier key).trans (rawSamplesAt_congr _ _ fun k v => ?_)
    refine and_congr_right fun hfind => ?_
    rw [beforeWatermark_iff, beforeWatermark_iff]
    constructor
    · rintro ⟨w', hw', hlt⟩
      refine ⟨max w (s.watermark.getD w), rfl, ?_⟩
      rw [Option.mem_def] at hw'
      rw [hw', Option.getD_some]
      exact lt_max_of_lt_right hlt
    · rintro ⟨w', hw', hlt⟩
      cases hw'
      cases hmark : s.watermark with
      | none =>
        rw [hmark, Option.getD_none, max_self] at hlt
        obtain ⟨w', hw', -⟩ := beforeWatermark_iff.mp (hnone k v hfind hlt)
        rw [hmark] at hw'
        cases hw'
      | some old =>
        rw [hmark, Option.getD_some] at hlt
        rcases lt_max_iff.mp hlt with hlt | hlt
        · obtain ⟨w', hw', hlt'⟩ := beforeWatermark_iff.mp (hnone k v hfind hlt)
          exact ⟨w', hmark ▸ hw', hlt'⟩
        · exact ⟨old, rfl, hlt⟩
  · cases hw'
    cases hmark : s.watermark with
    | none =>
      rw [hmark, Option.getD_none, max_self] at hneg
      rw [Option.getD_none, max_self]
      exact hearly hneg key v hfind
    | some old =>
      rw [hmark, Option.getD_some] at hneg
      rw [Option.getD_some]
      exact max_le (hearly ((le_max_left _ _).trans hneg) key v hfind)
        (h.early old hmark ((le_max_right _ _).trans hneg) key v hfind)

theorem compactionWatermark_eq_some {w : ℤ} :
    s.compactionWatermark = some w ↔ s.watermark = some w ∧ 0 < w := by
  rw [compactionWatermark, Option.filter_eq_some_iff, decide_eq_true_eq]

theorem compactionWatermark_eq_none : s.compactionWatermark = none ↔ ∀ w ∈ s.watermark, w ≤ 0 := by
  cases hmark : s.watermark with
  | none => simp [compactionWatermark, hmark]
  | some w => simp [compactionWatermark, hmark, Option.filter]

theorem Materialized.beforeWatermark_eq_false
    (h : Materialized samples tiers intervals s) (hmark : s.compactionWatermark = none)
    {k : PointKey} {v : ℚ} (hfind : s.points.find? k = some v) :
    s.beforeWatermark k.tsNano = false := by
  rw [Bool.eq_false_iff, ne_eq, beforeWatermark_iff]
  rintro ⟨w, hw, hlt⟩
  exact absurd (h.early w hw (compactionWatermark_eq_none.mp hmark w hw) k v hfind) (not_le.mpr hlt)

variable {policy : RollupPolicy}

/-- Merging the points from the watermark up to the end of a chunk. -/
theorem Materialized.chunk (hs : CarriesSamples o samples) (hmode : policy.preservesRaw = true)
    (hnodup : (policy.tiers.map RollupTier.interval).Nodup)
    (hmem : ∀ tier ∈ policy.tiers, tier.interval ∈ intervals) {s' : Store B}
    (h : Materialized samples policy.tiers intervals s) {start chunkEnd : ℤ}
    (hpos : 0 < chunkEnd)
    (hstart : ∀ k v, s.points.find? k = some v → k.tsNano < chunkEnd →
      (s.beforeWatermark k.tsNano = true ↔ k.tsNano < start))
    (hmark : ∀ w ∈ s.watermark, w ≤ chunkEnd)
    (hmat : s.materializeChunk o policy start chunkEnd = .ok s') :
    Materialized samples policy.tiers intervals (s'.persistCompactionWatermark (some chunkEnd)) := by
  rw [materializeChunk, if_pos hmode] at hmat
  obtain ⟨hplaced, hmerges⟩ := mergesPoints_of_eq_ok hs hnodup hmem h.placed hmat
  refine ⟨hplaced, fun tier htier key => ?_, fun w hw hneg => ?_⟩
  · have hadded := hmerges.added tier htier key
    rw [sum_queryRawPointsRange, h.exact tier htier key] at hadded
    have hsplit := rawSamplesAt_split s (p := s.beforeWatermark)
      (q := fun ts => decide (start ≤ ts) && decide (ts < chunkEnd))
      (r := fun ts => decide (ts < chunkEnd)) tier.interval key fun k v hfind => ?_
    · rw [← hsplit] at hadded
      refine hadded.trans (rawSamplesAt_congr _ _ fun k v => ?_)
      change _ ↔ s'.points.find? k = some v ∧ _
      rw [hmerges.points, beforeWatermark_iff]
      refine and_congr_right fun _ => ?_
      have hmax : (s'.persistCompactionWatermark (some chunkEnd)).watermark = some chunkEnd := by
        rw [persistCompactionWatermark, hmerges.watermark]
        cases hold : s.watermark with
        | none => simp
        | some old => simpa using hmark old hold
      rw [hmax]
      simp
    · by_cases hlt : k.tsNano < chunkEnd
      · have hiff := hstart k v hfind hlt
        by_cases hbefore : s.beforeWatermark k.tsNano = true
        · have := hiff.mp hbefore
          simp [hbefore, hlt, this]
        · have hge := not_lt.mp fun hlt' => hbefore (hiff.mpr hlt')
          simp [Bool.eq_false_iff.mpr hbefore, hlt, hge]
      · have hbefore : s.beforeWatermark k.tsNano = false := by
          rw [Bool.eq_false_iff, ne_eq, beforeWatermark_iff]
          rintro ⟨w, hw, hltw⟩
          exact hlt (hltw.trans_le (hmark w hw))
        simp [hbefore, hlt]
  · cases hw
    exact absurd (le_max_left _ _) (not_le.mpr (hneg.trans_lt hpos))

theorem Materialized.chunkStart (hmode : policy.preservesRaw = true)
    (h : Materialized samples tiers intervals s) {cutoff start : ℤ}
    (hneg : ∀ k v, s.points.find? k = some v → k.tsNano < cutoff → 0 ≤ k.tsNano)
    (hstart : s.chunkStart policy cutoff = some start) :
    0 ≤ start ∧ start < cutoff ∧ (∀ w ∈ s.watermark, w ≤ start) ∧
      ∀ k v, s.points.find? k = some v → k.tsNano < cutoff →
        (s.beforeWatermark k.tsNano = true ↔ k.tsNano < start) := by
  rw [Store.chunkStart, if_pos hmode] at hstart
  cases hmark : s.compactionWatermark with
  | some w =>
    obtain ⟨hw, hpos⟩ := compactionWatermark_eq_some.mp hmark
    rw [hmark] at hstart
    dsimp only at hstart
    split_ifs at hstart with hlt
    cases hstart
    refine ⟨hpos.le, hlt, fun w' hw' => ?_, fun k v _ _ => ?_⟩
    · rw [hw] at hw'
      cases hw'
      exact le_rfl
    · rw [beforeWatermark_iff, hw]
      simp
  | none =>
    rw [hmark] at hstart
    obtain ⟨k, v, hfind, rfl⟩ := exists_oldestRawTimestampBefore hstart
    have hlt := oldestRawTimestampBefore_lt hstart
    have hpos := hneg k v hfind hlt
    refine ⟨hpos, hlt, fun w hw => (compactionWatermark_eq_none.mp hmark w hw).trans hpos,
      fun k' v' hfind' hlt' => ?_⟩
    rw [h.beforeWatermark_eq_false hmark hfind']
    simpa using oldestRawTimestampBefore_le hstart hfind' hlt'

theorem beforeWatermark_of_chunkStart_eq_none (hmode : policy.preservesRaw = true) {cutoff : ℤ}
    (hstart : s.chunkStart policy cutoff = none) {k : PointKey} {v : ℚ}
    (hfind : s.points.find? k = some v) (hlt : k.tsNano < cutoff) :
    s.beforeWatermark k.tsNano = true := by
  rw [Store.chunkStart, if_pos hmode] at hstart
  cases hmark : s.compactionWatermark with
  | some w =>
    obtain ⟨hw, -⟩ := compactionWatermark_eq_some.mp hmark
    rw [hmark] at hstart
    dsimp only at hstart
    split_ifs at hstart with hle
    exact beforeWatermark_iff.mpr ⟨w, hw, hlt.trans_le (not_lt.mp hle)⟩
  | none =>
    rw [hmark] at hstart
    exact absurd hlt (not_lt.mpr (le_of_oldestRawTimestampBefore_eq_none hstart hfind))

theorem lt_chunkCandidate (start : ℤ) : start < chunkCandidate start :=
  lt_floorDivNano_add (by decide) start

theorem materialized_chunkOnce (hs : CarriesSamples o samples) (hmode : policy.preservesRaw = true)
    (hnodup : (policy.tiers.map RollupTier.interval).Nodup)
    (hmem : ∀ tier ∈ policy.tiers, tier.interval ∈ intervals) {now : ℤ} {obsolete : List ℤ}
    (h : Materialized samples policy.tiers intervals s)
    (hneg : ∀ cutoff ∈ policy.rawCutoff now, ∀ r ∈ s.points.rows,
      0 ≤ r.1.tsNano ∨ cutoff ≤ r.1.tsNano) {r : Store B × Bool}
    (hok : s.compactMetricIncrementalChunkOnce o now policy obsolete = .ok r) :
    Materialized samples policy.tiers intervals r.1 := by
  unfold compactMetricIncrementalChunkOnce at hok
  split at hok
  · cases hok
    exact h
  · rename_i cutoff hcutoff
    have hneg' : ∀ k v, s.points.find? k = some v → k.tsNano < cutoff → 0 ≤ k.tsNano :=
      fun k v hfind hlt => (hneg cutoff hcutoff (k, v) (Table.mem_rows.mpr hfind)).resolve_right
        (not_le.mpr hlt)
    have hcomplete : ∀ {s s' : Store B}, s.completeChunk o now policy obsolete cutoff = .ok s' →
        s' = s.persistCompactionWatermark (some cutoff) := by
      intro s s' hok
      rw [completeChunk, if_pos hmode] at hok
      cases hok
      rfl
    split at hok
    · rename_i hstart
      obtain ⟨s₁, hdone, hok⟩ := bind_eq_ok.mp hok
      cases hok
      rw [hcomplete hdone]
      refine h.advance (fun k v hfind hlt =>
        beforeWatermark_of_chunkStart_eq_none hmode hstart hfind hlt) fun hle k v hfind => ?_
      by_contra hlt
      have hnonneg := hneg' k v hfind (not_le.mp hlt)
      omega
    · rename_i start hstart
      obtain ⟨hnonneg, hlt, hmark, hbefore⟩ := h.chunkStart hmode hneg' hstart
      have hend : ∀ chunkEnd s₁, start < chunkEnd → chunkEnd ≤ cutoff →
          s.materializeChunk o policy start chunkEnd = .ok s₁ →
          Materialized samples policy.tiers intervals
            (s₁.persistCompactionWatermark (some chunkEnd)) := by
        intro chunkEnd s₁ hgt hle hmat
        exact h.chunk hs hmode hnodup hmem (hnonneg.trans_lt hgt)
          (fun k v hfind hk => hbefore k v hfind (hk.trans_le hle))
          (fun w hw => (hmark w hw).trans hgt.le) hmat
      split_ifs at hok with hchunk
      · obtain ⟨s₁, hmat, hok⟩ := bind_eq_ok.mp hok
        cases hok
        exact hend _ s₁ (lt_chunkCandidate start) hchunk.le hmat
      · obtain ⟨s₁, hmat, hok⟩ := bind_eq_ok.mp hok
        obtain ⟨s₂, hdone, hok⟩ := bind_eq_ok.mp hok
        cases hok
        rw [hcomplete hdone]
        exact hend cutoff s₁ hlt le_rfl hmat

theorem PreservesRaw.effective_intervals (h : PreservesRaw cfg) :
    cfg.effective.tiers.map RollupTier.interval = cfg.policy.tiers.map RollupTier.interval := by
  rw [MetricConfig.effective, RollupPolicy.withMetricRetention, if_pos h.mode]
  split_ifs
  · rfl
  · rw [List.map_map]
    refine List.map_congr_left fun tier _ => ?_
    rw [Function.comp_apply]
    split_ifs <;> rfl

theorem PreservesRaw.ladder (h : PreservesRaw cfg) :
    (cfg.effective.tiers.map RollupTier.interval).Pairwise (· < ·) ∧
      ∀ tier ∈ cfg.effective.tiers, 0 < tier.interval := by
  have hladder := cfg.policy.ladder_of_validate h.valid
  rw [h.effective_intervals]
  refine ⟨List.pairwise_map.mpr (hladder.pairwise.imp fun hstep => hstep.1), fun tier htier => ?_⟩
  have hmem : tier.interval ∈ cfg.policy.tiers.map RollupTier.interval := by
    rw [← h.effective_intervals]
    exact List.mem_map_of_mem htier
  obtain ⟨tier', htier', heq⟩ := List.mem_map.mp hmem
  exact heq ▸ (hladder.positive tier' htier').1

theorem materialized_cleanupExpiredMetric (hcfg : PreservesRaw cfg) (hdays : cfg.retentionDays = 0)
    (now : ℤ) (h : Materialized samples cfg.effective.tiers cfg.intervals s) :
    Materialized samples cfg.effective.tiers cfg.intervals (s.cleanupExpiredMetric cfg now) := by
  have hpoints : (s.cleanupPoints cfg now CleanupBatch.full).points.rows = [] := by
    rw [cleanupPoints, Table.rows_deleteWhere, List.filter_eq_nil_iff]
    intro r _
    simp [pointExpired, hdays, CleanupBatch.full]
  have hrollups : ∀ key, ((s.cleanupPoints cfg now CleanupBatch.full).cleanupRollupTiers cfg now
      CleanupBatch.full).rollups.find? key = none := by
    intro key
    rw [cleanupRollupTiers, cleanupTiers, if_pos hdays, List.foldl_nil]
    refine (Table.find?_deleteWhere _ _ key).trans ?_
    cases hb : s.rollups.find? key with
    | none =>
      change Option.filter _ (s.rollups.find? key) = none
      rw [hb]
      rfl
    | some b =>
      have hmem := (h.placed key.1 key.2 (by rw [hb]; rfl)).1
      rw [MetricConfig.intervals, hcfg.effective_intervals] at hmem
      change Option.filter _ (s.rollups.find? key) = none
      rw [hb]
      simpa [rollupIntervalsOutsidePolicy, CleanupBatch.full] using hmem
  have hcomplete : (s.cleanupPoints cfg now CleanupBatch.full).pointsComplete cfg now
      CleanupBatch.full = true := by
    rw [pointsComplete, hpoints]
    rfl
  have hnone : (s.cleanupExpiredMetric cfg now).points.rows = [] ∧
      ∀ key, (s.cleanupExpiredMetric cfg now).rollups.find? key = none := by
    have hraw : ((s.cleanupPoints cfg now CleanupBatch.full).cleanupRollupTiers cfg now
        CleanupBatch.full).points.rows = [] := by
      rw [cleanupRollupTiers, cleanupTiers, if_pos hdays]
      exact hpoints
    unfold cleanupExpiredMetric cleanupExpiredMetricStep
    dsimp only
    rw [if_pos hcomplete]
    split_ifs
    · exact ⟨hraw, hrollups⟩
    · exact ⟨hraw, hrollups⟩
  generalize s.cleanupExpiredMetric cfg now = s' at hnone
  obtain ⟨hraw, hrollup⟩ := hnone
  refine ⟨fun i key hsome => ?_, fun tier _ key => ?_, fun w _ _ key v hfind => ?_⟩
  · rw [hrollup] at hsome
    cases hsome
  · rw [samplesAt, Table.weightAt_of_none (hrollup _), rawSamplesAt, hraw]
    rfl
  · have hmem := Table.mem_rows.mpr hfind
    rw [hraw] at hmem
    cases hmem

theorem materialized_step (hcfg : PreservesRaw cfg) (hs : CarriesSamples o samples)
    {st : Step} (h : Materialized samples cfg.effective.tiers cfg.intervals s)
    (hlate : st.OnTime cfg s) :
    Materialized samples cfg.effective.tiers cfg.intervals (s.step o cfg st) := by
  cases st with
  | writeBatch points => exact materialized_writeBatch h hlate
  | cleanupStep now batch => exact hlate.elim
  | cleanupRollups now => exact hlate.elim
  | compact now =>
    rw [step]
    split
    · rename_i s' _ hok
      unfold compactMetric at hok
      split_ifs at hok with hdays henabled hraw
      · cases hok
        exact materialized_cleanupExpiredMetric hcfg hdays now h
      · cases hok
        exact h
      · refine materialized_chunkOnce hs ?_ (hcfg.ladder.1.imp fun hlt => hlt.ne)
          (fun tier htier => List.mem_map_of_mem htier) h hlate hok
        rw [MetricConfig.effective, RollupPolicy.preservesRaw_withMetricRetention, hcfg.mode]
      · refine absurd ?_ hraw
        rw [MetricConfig.effective, RollupPolicy.rawRetention_withMetricRetention]
        exact hcfg.raw
    · exact h

/-! ### Runs -/

/-- The samples of different raw points of a bucket have different times. -/
theorem rawSamplesAt_inj (s : Store B) (p : ℤ → Bool) (interval : ℤ) (key : RollupKey) :
    ∀ x ∈ s.rawSamplesAt p interval key, ∀ y ∈ s.rawSamplesAt p interval key, x.ts = y.ts → x = y := by
  intro x hx y hy hts
  rw [rawSamplesAt, mem_sum_map] at hx hy
  obtain ⟨r, hr, hx⟩ := hx
  obtain ⟨q, hq, hy⟩ := hy
  rw [sampleOf, Multiset.mem_singleton] at hx hy
  subst hx hy
  obtain ⟨hr, hrkey⟩ := List.mem_filter.mp hr
  obtain ⟨hq, hqkey⟩ := List.mem_filter.mp hq
  have hrkey : r.1.rollupKey interval = key := by simpa using ((Bool.and_eq_true _ _).mp hrkey).2
  have hqkey : q.1.rollupKey interval = key := by simpa using ((Bool.and_eq_true _ _).mp hqkey).2
  have hseries : r.1.series = q.1.series :=
    congrArg RollupKey.series (hrkey.trans hqkey.symm)
  have hkey : r.1 = q.1 := by
    obtain ⟨⟨σ, ts⟩, v⟩ := r
    obtain ⟨⟨σ', ts'⟩, v'⟩ := q
    dsimp only at hseries hts
    rw [hseries, hts]
  have hfind := Table.mem_rows.mp hr
  rw [hkey, Table.mem_rows.mp hq] at hfind
  rw [hkey, Option.some.inj hfind]

/-- A bucket before the watermark holds all raw points of its interval. -/
theorem Materialized.samplesAt_eq (h : Materialized samples tiers intervals s)
    {tier : RollupTier} (htier : tier ∈ tiers) (hpos : 0 < tier.interval) {key : RollupKey} {w : ℤ}
    (hw : s.watermark = some w) (hle : key.bucket + tier.interval ≤ w) :
    s.samplesAt samples tier.interval key = s.rawSamplesAt (fun _ => true) tier.interval key := by
  rw [h.exact tier htier key, rawSamplesAt, rawSamplesAt]
  congr 2
  refine List.filter_congr fun r _ => ?_
  by_cases hkey : r.1.rollupKey tier.interval = key
  · have hbucket : floorDivNano r.1.tsNano tier.interval = key.bucket :=
      congrArg RollupKey.bucket hkey
    have hlt := lt_floorDivNano_add hpos r.1.tsNano
    rw [beforeWatermark_iff.mpr ⟨w, hw, by omega⟩]
  · simp [hkey]

theorem weightAt_groupPoints_rows (hs : CarriesSamples o samples) (s : Store B) (interval : ℤ)
    (key : RollupKey) :
    (groupPoints o interval s.points.rows).weightAt samples key =
      s.rawSamplesAt (fun _ => true) interval key := by
  rw [weightAt_groupPoints hs, rawSamplesAt]
  simp only [Bool.true_and]
  rfl

/-- The summaries of a bucket before the watermark and of the raw points of its interval are equal. -/
theorem Materialized.find?_eq {D : Type} [TDigest D] {metricName : String}
    {s : Store (Traced D metricName)} (h : Materialized Traced.samples tiers intervals s)
    {tier : RollupTier} (htier : tier ∈ tiers) (hpos : 0 < tier.interval) {key : RollupKey} {w : ℤ}
    (hw : s.watermark = some w) (hle : key.bucket + tier.interval ≤ w) :
    (s.rollups.find? (tier.interval, key)).map (fun b => b.bucket.dropDigest) =
      ((groupPoints (Traced.ops D metricName) tier.interval s.points.rows).find? key).map
        fun b => b.bucket.dropDigest := by
  have hat := h.samplesAt_eq htier hpos hw hle
  have hraw := weightAt_groupPoints_rows
    (Traced.additive_samples (D := D)) s tier.interval key
  cases hb : s.rollups.find? (tier.interval, key) with
  | none =>
    rw [samplesAt, Table.weightAt_of_none hb] at hat
    cases hc : (groupPoints (Traced.ops D metricName) tier.interval s.points.rows).find? key with
    | none => rfl
    | some c =>
      -- a bucket of points holds one of them
      obtain ⟨r, hr, hkey⟩ := (isSome_foldBuckets _ _).mp
        (show ((groupPoints (Traced.ops D metricName) tier.interval s.points.rows).find? key).isSome
          = true by rw [hc]; rfl)
      have hmem : (⟨r.1.tsNano, r.2⟩ : Sample) ∈
          s.rawSamplesAt (fun _ => true) tier.interval key := by
        rw [rawSamplesAt, mem_sum_map]
        exact ⟨r, List.mem_filter.mpr ⟨hr, by simpa using hkey⟩, Multiset.mem_singleton_self _⟩
      rw [← hat] at hmem
      exact absurd hmem (Multiset.notMem_zero _)
  | some b =>
    have hne := (h.placed tier.interval key (by rw [hb]; rfl)).2.1
    rw [hat] at hne
    rw [samplesAt, Table.weightAt_of_some hb] at hat
    cases hc : (groupPoints (Traced.ops D metricName) tier.interval s.points.rows).find? key with
    | none =>
      rw [Table.weightAt_of_none hc] at hraw
      exact absurd hraw.symm hne
    | some c =>
      rw [Table.weightAt_of_some hc] at hraw
      have hc' : Represents metricName c.bucket b.samples := by
        rw [hat, ← hraw]
        exact c.represents
      rw [Option.map_some, Option.map_some, b.represents.unique hc' (hat ▸ hne)
        (hat ▸ s.rawSamplesAt_inj _ _ _)]

theorem nodup_scanRollupRows (interval : ℤ) (before : Option ℤ) (s : Store B) :
    ((s.scanRollupRows interval before).map Prod.fst).Nodup := by
  have hperm := sortOn_perm (fun r : RollupKey × B => r.1.bucket) ((s.rollups.rows.filter fun r =>
    r.1.1 == interval && before.all fun hi => decide (r.1.2.bucket < hi)).map fun r => (r.1.2, r.2))
  rw [scanRollupRows, (hperm.map Prod.fst).nodup_iff, List.map_map]
  refine List.Nodup.map_on (fun r hr q hq heq => ?_) ((Table.nodup_rows _).filter _)
  have hri : r.1.1 = interval := by
    simpa using ((Bool.and_eq_true _ _).mp (List.mem_filter.mp hr).2).1
  have hqi : q.1.1 = interval := by
    simpa using ((Bool.and_eq_true _ _).mp (List.mem_filter.mp hq).2).1
  have hkey : r.1 = q.1 := Prod.ext (hri.trans hqi.symm) heq
  exact List.inj_on_of_nodup_map (Table.nodup_map_fst_rows s.rollups) (List.mem_filter.mp hr).1
    (List.mem_filter.mp hq).1 hkey

theorem card_rawSamplesAt (s : Store B) (p : ℤ → Bool) (interval : ℤ) (key : RollupKey) :
    (s.rawSamplesAt p interval key).card = s.points.rows.countP fun r =>
      p r.1.tsNano && decide (r.1.rollupKey interval = key) := by
  rw [rawSamplesAt, List.countP_eq_length_filter]
  induction s.points.rows.filter fun r =>
      p r.1.tsNano && decide (r.1.rollupKey interval = key) with
  | nil => rfl
  | cons r rows ih =>
    rw [List.map_cons, List.sum_cons, Multiset.card_add, ih, List.length_cons, sampleOf,
      Multiset.card_singleton, Nat.add_comm]

/-- The counts of the buckets that are selected are those of their raw points before the watermark. -/
theorem Materialized.sum_count {D : Type} [TDigest D] {metricName : String}
    {s : Store (Traced D metricName)} (h : Materialized Traced.samples tiers intervals s)
    {tier : RollupTier} (htier : tier ∈ tiers) (selected : RollupKey → Bool) :
    (((s.scanRollupRows tier.interval none).filter fun r => selected r.1).map fun r =>
        r.2.bucket.count).sum =
      s.points.rows.countP fun r =>
        selected (r.1.rollupKey tier.interval) && s.beforeWatermark r.1.tsNano := by
  let picked : PointKey × ℚ → Bool := fun r =>
    selected (r.1.rollupKey tier.interval) && s.beforeWatermark r.1.tsNano
  let keys : Multiset RollupKey :=
    ((s.points.rows.filter picked).map fun r => r.1.rollupKey tier.interval : List RollupKey)
  let buckets := (s.scanRollupRows tier.interval none).filter fun r => selected r.1
  have hnodup : (buckets.map Prod.fst).Nodup :=
    (nodup_scanRollupRows tier.interval none s).sublist (List.filter_sublist.map _)
  -- every point that is picked is in one of the buckets
  have hsub : ∀ key ∈ keys, key ∈ (buckets.map Prod.fst).toFinset := by
    intro key hkey
    obtain ⟨r, hr, rfl⟩ := List.mem_map.mp (Multiset.mem_coe.mp hkey)
    obtain ⟨hr, hpicked⟩ := List.mem_filter.mp hr
    obtain ⟨hselected, hbefore⟩ := (Bool.and_eq_true _ _).mp hpicked
    have hmem : (⟨r.1.tsNano, r.2⟩ : Sample) ∈
        s.samplesAt Traced.samples tier.interval (r.1.rollupKey tier.interval) := by
      rw [h.exact tier htier, rawSamplesAt, mem_sum_map]
      exact ⟨r, List.mem_filter.mpr ⟨hr, by simpa using hbefore⟩, Multiset.mem_singleton_self _⟩
    cases hb : s.rollups.find? (tier.interval, r.1.rollupKey tier.interval) with
    | none =>
      rw [samplesAt, Table.weightAt_of_none hb] at hmem
      exact absurd hmem (Multiset.notMem_zero _)
    | some b =>
      refine List.mem_toFinset.mpr (List.mem_map.mpr ⟨(r.1.rollupKey tier.interval, b), ?_, rfl⟩)
      exact List.mem_filter.mpr
        ⟨mem_scanRollupRows.mpr ⟨hb, fun _ hnone => by cases hnone⟩, hselected⟩
  -- the count of a bucket is the number of points with its key
  have hcount : ∀ r ∈ buckets, r.2.bucket.count = keys.count r.1 := by
    rintro ⟨key, b⟩ hr
    obtain ⟨hscan, hselected⟩ := List.mem_filter.mp hr
    obtain ⟨hb, -⟩ := mem_scanRollupRows.mp hscan
    have hat := h.exact tier htier key
    rw [samplesAt, Table.weightAt_of_some hb] at hat
    rw [b.represents.count, hat, card_rawSamplesAt, Multiset.coe_count, List.count_eq_countP,
      List.countP_map, List.countP_filter]
    refine List.countP_congr fun r _ => ?_
    by_cases hkey : r.1.rollupKey tier.interval = key
    · simp [hkey, hselected, picked]
    · simp [hkey]
  have hsum := Multiset.sum_count_eq_card hsub
  rw [List.sum_toFinset _ hnodup, List.map_map] at hsum
  rw [List.map_congr_left hcount, List.countP_eq_length_filter]
  refine Eq.trans hsum ?_
  simp [keys, picked]

/-- The invariant of runs with every write on time. -/
theorem materialized_run (D : Type) [TDigest D] (metricName : String) {cfg : MetricConfig}
    (hcfg : PreservesRaw cfg) {steps : List Step}
    (hlate : Along (RollupBucket.ops D metricName) cfg (fun s st => st.OnTime cfg s) steps) :
    Materialized Traced.samples cfg.effective.tiers cfg.intervals
      (run (Traced.ops D metricName) cfg steps) := by
  have hs : CarriesSamples (Traced.ops D metricName) Traced.samples := Traced.additive_samples
  have hlate' : Along (Traced.ops D metricName) cfg (fun s st => st.OnTime cfg s) steps := by
    intro pre st post heq
    have h := hlate pre st post heq
    rw [run_eq_trace] at h
    cases st <;> exact h
  exact hlate'.invariant (materialized_empty _ _) fun s st h hst => materialized_step hcfg hs h hst

/-- With every write on time, each bucket before the watermark is the summary of the raw points that
are stored in its interval, and the counts of a window are those of its raw points. -/
theorem rollups_eq_raw (D : Type) [TDigest D] (metricName : String) (cfg : MetricConfig)
    (hcfg : PreservesRaw cfg) (steps : List Step)
    (hlate : Along (RollupBucket.ops D metricName) cfg (fun s st => st.OnTime cfg s) steps) (w : ℤ)
    (hw : (run (RollupBucket.ops D metricName) cfg steps).watermark = some w) :
    ∀ tier ∈ cfg.effective.tiers,
      (∀ key : RollupKey, key.bucket + tier.interval ≤ w →
        ((run (RollupBucket.ops D metricName) cfg steps).rollups.find? (tier.interval, key)).map
            RollupBucket.dropDigest =
          ((groupPoints (RollupBucket.ops D metricName) tier.interval
            (run (RollupBucket.ops D metricName) cfg steps).points.rows).find? key).map
              RollupBucket.dropDigest) ∧
      ∀ (selected : Series → Bool) (lo hi : ℤ), tier.interval ∣ lo → tier.interval ∣ hi → hi ≤ w →
        ((((run (RollupBucket.ops D metricName) cfg steps).scanRollupRows tier.interval none).filter
          fun r => selected r.1.series && decide (lo ≤ r.1.bucket) &&
            decide (r.1.bucket < hi)).map fun r => r.2.count).sum =
        (run (RollupBucket.ops D metricName) cfg steps).points.rows.countP fun r =>
          selected r.1.series && decide (lo ≤ r.1.tsNano) && decide (r.1.tsNano < hi) := by
  have hinv := materialized_run D metricName hcfg hlate
  rw [run_eq_trace] at hw ⊢
  intro tier htier
  have hpos := hcfg.ladder.2 tier htier
  refine ⟨fun key hle => ?_, fun selected lo hi hlo hhi hle => ?_⟩
  · have hfind := hinv.find?_eq htier hpos hw hle
    rw [← mapRows_groupPoints Traced.hom_bucket, Table.find?_mapRows, mapBuckets,
      Table.find?_mapRows, Option.map_map, Option.map_map]
    exact hfind
  · rw [scanRollupRows_mapBuckets, List.filter_map, List.map_map]
    refine (hinv.sum_count htier fun key => selected key.series && decide (lo ≤ key.bucket) &&
      decide (key.bucket < hi)).trans (List.countP_congr fun r _ => ?_)
    -- a bucket lies in the window exactly when its points do
    simp only [PointKey.rollupKey, le_floorDivNano_iff hpos hlo, floorDivNano_lt_iff hpos hhi,
      Bool.and_eq_true, decide_eq_true_eq, beforeWatermark_iff]
    exact and_iff_left_of_imp fun hin => ⟨w, hw, hin.2.trans_le hle⟩

/-! ### The count of a query -/

/-- The counts that a query adds up whose plan hands over to raw points at the boundary: those of the
buckets that its scans read, and the raw points from there on. -/
def plannedCount {D : Type} (s : Store (RollupBucket D)) (selected : Series → Bool) (q : SeriesWindow)
    (boundary : ℤ) (scans : List TierScan) : ℕ :=
  (scans.map fun scan => (((s.scanRollupRows scan.interval none).filter fun r =>
    selected r.1.series && (decide (scan.lower ≤ r.1.bucket) && decide (r.1.bucket ≤ scan.upper))).map
      fun r => r.2.count).sum).sum +
    s.points.rows.countP fun r =>
      selected r.1.series && (decide (boundary ≤ r.1.tsNano) && decide (r.1.tsNano ≤ q.stop))

theorem sum_ite_eq_countP {α : Type*} (p : α → Bool) (l : List α) :
    (l.map fun x => if p x = true then 1 else 0).sum = l.countP p := by
  induction l with
  | nil => rfl
  | cons x l ih => rw [List.map_cons, List.sum_cons, ih, List.countP_cons, Nat.add_comm]

/-- Points are counted scan by scan, or one after the other. -/
theorem sum_countP_covers {ρ : Type*} {scans : List TierScan} {rows : List ρ} {time : ρ → ℤ}
    {early late inside : ρ → Bool}
    (h : ∀ r ∈ rows, ((if early r then scans.countP fun scan => scan.covers (time r) else 0) +
      if late r then 1 else 0) = if inside r then 1 else 0) :
    (scans.map fun scan => rows.countP fun r => early r && scan.covers (time r)).sum +
      rows.countP late = rows.countP inside := by
  induction rows with
  | nil => simp
  | cons r rows ih =>
    have hrow : (scans.map fun scan => if (early r && scan.covers (time r)) = true then 1 else 0).sum =
        if early r then scans.countP fun scan => scan.covers (time r) else 0 := by
      cases early r with
      | false => simp
      | true => exact sum_ite_eq_countP _ scans
    have hrows := ih fun r' hr' => h r' (List.mem_cons_of_mem _ hr')
    have hhead := h r List.mem_cons_self
    simp only [List.countP_cons, List.sum_map_add, hrow]
    omega

/-- **A query counts the raw points of its window**, when each of them before the watermark is served by
one tier of the plan, as it is if no tier is skipped and none cuts off its bucket. A tier that the query
cannot use makes the count smaller (`spanCount_preserveRaw`). -/
theorem plannedCount_eq_raw (D : Type) [TDigest D] (metricName : String) (cfg : MetricConfig)
    (hcfg : PreservesRaw cfg) (steps : List Step)
    (hlate : Along (RollupBucket.ops D metricName) cfg (fun s st => st.OnTime cfg s) steps) (w : ℤ)
    (hw : (run (RollupBucket.ops D metricName) cfg steps).watermark = some w)
    (selected : Series → Bool) (now : ℤ) (q : SeriesWindow) (hstart : q.start ≤ w)
    (haligned : ∀ tier ∈ cfg.effective.tiers, tier.compatible q.interval = true →
      tier.interval ∣ q.start ∧ tier.interval ∣ q.stop + 1)
    (hserved : ∀ r ∈ (run (RollupBucket.ops D metricName) cfg steps).points.rows,
      selected r.1.series = true → q.start ≤ r.1.tsNano → r.1.tsNano ≤ q.stop → r.1.tsNano < w →
        (strata now w cfg.effective.tiers).countP
          (fun s => s.serves q.interval r.1.tsNano && s.holds r.1.tsNano) = 1) :
    (run (RollupBucket.ops D metricName) cfg steps).plannedCount selected q w
        (handoffScans now q w cfg.effective.tiers) =
      (run (RollupBucket.ops D metricName) cfg steps).points.rows.countP fun r =>
        selected r.1.series && (decide (q.start ≤ r.1.tsNano) && decide (r.1.tsNano ≤ q.stop)) := by
  have hinv := materialized_run D metricName hcfg hlate
  rw [run_eq_trace] at hw hserved ⊢
  set s := run (Traced.ops D metricName) cfg steps
  have hpos : ∀ tier ∈ cfg.effective.tiers, 0 < tier.interval := hcfg.ladder.2
  have hscan : ∀ scan ∈ handoffScans now q w cfg.effective.tiers,
      ((((s.mapBuckets Traced.bucket).scanRollupRows scan.interval none).filter fun r =>
        selected r.1.series && (decide (scan.lower ≤ r.1.bucket) &&
          decide (r.1.bucket ≤ scan.upper))).map fun r => r.2.count).sum =
      s.points.rows.countP fun r =>
        (selected r.1.series && decide (r.1.tsNano < w)) && scan.covers r.1.tsNano := by
    intro scan hscan
    obtain ⟨⟨tier, htier, -, hinterval⟩, -⟩ := mem_handoffScans hscan
    rw [scanRollupRows_mapBuckets, List.filter_map, List.map_map, hinterval]
    refine (hinv.sum_count htier fun key => selected key.series && (decide (scan.lower ≤ key.bucket) &&
      decide (key.bucket ≤ scan.upper))).trans (List.countP_congr fun r _ => ?_)
    have hbefore : s.beforeWatermark r.1.tsNano = decide (r.1.tsNano < w) := by
      rw [beforeWatermark, show s.watermark = some w from hw, Option.any_some]
    rw [hbefore, TierScan.covers, hinterval, PointKey.rollupKey, Bool.and_right_comm]
  rw [plannedCount, List.map_congr_left hscan]
  refine sum_countP_covers fun r hr => ?_
  cases hselected : selected r.1.series with
  | false => simp
  | true =>
    by_cases hlt : r.1.tsNano < w
    · have hcount := countP_handoffScans_aligned hpos haligned hlt (hserved r hr hselected · · hlt)
      simp [hlt, hcount, not_le.mpr hlt]
    · have hle := not_lt.mp hlt
      simp [hlt, hle, hstart.trans hle]

/-! ### A point that comes too late -/

/-- Raw points stay; they enter buckets of one minute after two minutes. -/
def keptRaw : MetricConfig where
  retentionDays := 1
  policy := ⟨.preserveRaw, 2 * minute, false, [⟨minute, 60 * minute⟩]⟩

theorem preservesRaw_keptRaw : PreservesRaw keptRaw :=
  ⟨by decide +kernel, by decide +kernel, by decide +kernel⟩

/-- A point in minute 1, a compaction at minute 10, and a point that is written afterwards. -/
def lateRun (ts : ℤ) : List Step :=
  [.writeBatch [(⟨⟨"node", "tags"⟩, minute⟩, 7)], .compact (10 * minute), .compact (10 * minute),
    .writeBatch [(⟨⟨"node", "tags"⟩, ts⟩, 9)], .compact (10 * minute)]

/-- A point in minute 2 that comes after the watermark of minute 8 is in no bucket. -/
theorem late_point_missed :
    PreservesRaw keptRaw ∧
      (run (RollupBucket.ops (List ℚ) "load") keptRaw (lateRun (2 * minute))).watermark =
        some (8 * minute) ∧
      (run (RollupBucket.ops (List ℚ) "load") keptRaw (lateRun (2 * minute))).points.find?
        ⟨⟨"node", "tags"⟩, 2 * minute⟩ = some 9 ∧
      (run (RollupBucket.ops (List ℚ) "load") keptRaw (lateRun (2 * minute))).rollups.find?
        (minute, ⟨⟨"node", "tags"⟩, 2 * minute⟩) = none :=
  ⟨preservesRaw_keptRaw, by decide +kernel, by decide +kernel, by decide +kernel⟩

theorem onTime_lateRun : Along (RollupBucket.ops (List ℚ) "load") keptRaw
    (fun s st => st.OnTime keptRaw s) (lateRun (9 * minute)) := by
  refine Along.append_singleton [_, _, _, _] _ ?_ (by decide +kernel)
  refine Along.append_singleton [_, _, _] _ ?_ (by decide +kernel)
  refine Along.append_singleton [_, _] _ ?_ (by decide +kernel)
  refine Along.append_singleton [_] _ ?_ (by decide +kernel)
  exact Along.append_singleton [] _ along_nil (by decide +kernel)

theorem rollups_eq_raw_lateRun :
    ((run (RollupBucket.ops (List ℚ) "load") keptRaw (lateRun (9 * minute))).rollups.find?
        (minute, ⟨⟨"node", "tags"⟩, minute⟩)).map RollupBucket.dropDigest =
      ((groupPoints (RollupBucket.ops (List ℚ) "load") minute
        (run (RollupBucket.ops (List ℚ) "load") keptRaw (lateRun (9 * minute))).points.rows).find?
          ⟨⟨"node", "tags"⟩, minute⟩).map RollupBucket.dropDigest :=
  (rollups_eq_raw (List ℚ) "load" keptRaw preservesRaw_keptRaw (lateRun (9 * minute)) onTime_lateRun
    (8 * minute) (by decide +kernel) ⟨minute, 60 * minute⟩ (by decide +kernel)).1
    ⟨⟨"node", "tags"⟩, minute⟩ (by decide +kernel)

end Store

end Metric

end Komari
