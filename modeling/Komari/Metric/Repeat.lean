import Komari.Metric.Handoff

/-!
# Compaction again

A compaction that has come to its end leaves nothing to do: at the same time it is its own repetition.

* `compactMetric_again` : a compaction of a store that was compacted changes nothing.
-/

namespace Komari

namespace Metric

/-- A deletion that selects no row keeps the table. -/
theorem Table.deleteWhere_eq_self {κ α : Type} [DecidableEq κ] {t : Table κ α} {p : κ → α → Bool}
    (h : ∀ k v, t.find? k = some v → p k v = false) : t.deleteWhere p = t := by
  refine AList.ext (List.filter_eq_self.mpr fun e he => ?_)
  have hrow : (e.1, e.2) ∈ t.rows := List.mem_map.mpr ⟨e, he, rfl⟩
  rw [h e.1 e.2 (Table.mem_rows.mp hrow)]
  rfl

namespace Store

variable {B : Type} {o : BucketOps B} {s s' : Store B} {now : ℤ}

theorem scanRollupRows_eq_nil {interval before : ℤ}
    (h : ∀ key b, s.rollups.find? (interval, key) = some b → before ≤ key.bucket) :
    s.scanRollupRows interval (some before) = [] := by
  refine List.eq_nil_iff_forall_not_mem.mpr fun r hr => ?_
  obtain ⟨hfind, hlt⟩ := mem_scanRollupRows.mp hr
  exact absurd (hlt before rfl) (not_lt.mpr (h r.1 r.2 hfind))

/-- No tier holds a bucket before its cutoff; that of the last one is aligned to itself. -/
def HandedDown (now : ℤ) (s : Store B) : List RollupTier → Prop
  | [] => True
  | [last] => ∀ key b, s.rollups.find? (last.interval, key) = some b →
      alignRollupRetentionCutoff (now - last.retention) last.interval ≤ key.bucket
  | fine :: coarse :: rest => (∀ key b, s.rollups.find? (fine.interval, key) = some b →
      alignRollupRetentionCutoff (now - fine.retention) coarse.interval ≤ key.bucket) ∧
        HandedDown now s (coarse :: rest)

theorem HandedDown.congr {tiers : List RollupTier} (h : HandedDown now s tiers)
    (heq : s'.rollups = s.rollups) : HandedDown now s' tiers := by
  induction tiers with
  | nil => trivial
  | cons fine rest ih =>
    cases rest with
    | nil => rwa [HandedDown, heq]
    | cons coarse rest => exact ⟨heq ▸ h.1, ih h.2⟩

/-- A store in which nothing is expired passes the handoff unchanged. -/
theorem handoff_of_handedDown {tiers : List RollupTier} (h : HandedDown now s tiers) :
    s.handoffExpiredRollupTiersTx o now tiers = .ok s := by
  induction tiers with
  | nil => rfl
  | cons fine rest ih =>
    cases rest with
    | nil =>
      have hnone : s.deleteRollupsBefore fine.interval
          (alignRollupRetentionCutoff (now - fine.retention) fine.interval) = s := by
        have hrows := Table.deleteWhere_eq_self (t := s.rollups) (p := fun key _ => key.1 == fine.interval &&
          decide (key.2.bucket < alignRollupRetentionCutoff (now - fine.retention) fine.interval)) ?_
        · rw [deleteRollupsBefore, hrows]
        · rintro ⟨interval, key⟩ b hfind
          by_cases hi : interval = fine.interval
          · subst hi
            simpa using h key b hfind
          · simp [hi]
      rw [handoffExpiredRollupTiersTx, hnone]
    | cons coarse rest =>
      have htier : s.handoffTier o now fine coarse = .ok s := if_pos (scanRollupRows_eq_nil h.1)
      rw [handoffExpiredRollupTiersTx, htier]
      exact ih h.2

/-- What a handoff leaves: the expired buckets are gone, and other resolutions are not touched. -/
structure Settled (now : ℤ) (tiers : List RollupTier) (s s' : Store B) : Prop where
  points : s'.points = s.points
  handed : HandedDown now s' tiers
  other : ∀ key, key.1 ∉ tiers.map RollupTier.interval → s'.rollups.find? key = s.rollups.find? key

/-- **After a handoff nothing is left to hand down.** -/
theorem settled_handoff {tiers : List RollupTier} (hnodup : (tiers.map RollupTier.interval).Nodup)
    (h : s.handoffExpiredRollupTiersTx o now tiers = .ok s') : Settled now tiers s s' := by
  induction tiers generalizing s with
  | nil =>
    cases h
    exact ⟨rfl, trivial, fun _ _ => rfl⟩
  | cons fine rest ih =>
    cases rest with
    | nil =>
      cases h
      refine ⟨rfl, fun key b hfind => ?_, fun key hkey => ?_⟩
      · rw [find?_deleteRollupsBefore, Option.filter_eq_some_iff] at hfind
        simpa using hfind.2
      · rw [find?_deleteRollupsBefore, beq_eq_false_iff_ne.mpr (by simpa using hkey)]
        simp
    | cons coarse rest =>
      obtain ⟨s₁, htier, h⟩ := bind_eq_ok.mp h
      obtain ⟨hfine, hnodup⟩ := List.nodup_cons.mp hnodup
      have hne : fine.interval ≠ coarse.interval := fun heq => hfine (heq ▸ List.mem_cons_self)
      have hoff := handoffTier_eq_ok hne htier
      have hrest := ih hnodup h
      refine ⟨hrest.points.trans hoff.points, ⟨fun key b hfind => ?_, hrest.handed⟩, fun key hkey => ?_⟩
      · -- the tiers behind are filled, but never this one
        rw [hrest.other _ hfine, hoff.expired, Option.filter_eq_some_iff] at hfind
        simpa using hfind.2
      · rw [List.map_cons, List.mem_cons, not_or] at hkey
        rw [hrest.other key hkey.2, hoff.other key hkey.1 fun heq => hkey.2 (heq ▸ List.mem_cons_self)]

theorem oldestRawTimestampBefore_eq_none {before : ℤ}
    (h : ∀ key v, s.points.find? key = some v → before ≤ key.tsNano) :
    s.oldestRawTimestampBefore before = none := by
  rw [oldestRawTimestampBefore, List.min?_eq_none_iff, List.filter_eq_nil_iff]
  intro ts hts
  obtain ⟨r, hr, rfl⟩ := List.mem_map.mp hts
  simpa using h r.1 r.2 (Table.mem_rows.mp hr)

theorem persistCompactionWatermark_again (nano : ℤ) (s : Store B) :
    (s.persistCompactionWatermark (some nano)).persistCompactionWatermark (some nano) =
      s.persistCompactionWatermark (some nano) := by
  simp [persistCompactionWatermark]

section Again

variable {policy : RollupPolicy} {obsolete : List ℤ} {rawCutoff : ℤ}

/-- The end of a compaction is its own repetition. -/
theorem completeChunk_again (hnodup : policy.preservesRaw = false → (policy.tiers.map RollupTier.interval).Nodup)
    (hobsolete : ∀ i ∈ obsolete, i ∉ policy.tiers.map RollupTier.interval)
    (h : s.completeChunk o now policy obsolete rawCutoff = .ok s') :
    s'.points = s.points ∧ (∃ nano, s'.watermark = some nano ∧ rawCutoff ≤ nano) ∧
      s'.completeChunk o now policy obsolete rawCutoff = .ok s' := by
  unfold completeChunk at h ⊢
  cases hmode : policy.preservesRaw with
  | true =>
    rw [hmode] at h
    cases h
    exact ⟨rfl, ⟨_, rfl, le_max_left _ _⟩, congrArg Except.ok (persistCompactionWatermark_again rawCutoff s)⟩
  | false =>
    rw [hmode] at h
    obtain ⟨s₁, hhandoff, h⟩ := bind_eq_ok.mp h
    cases h
    have hsettled := settled_handoff (hnodup hmode) hhandoff
    refine ⟨hsettled.points, ⟨_, rfl, le_max_left _ _⟩, ?_⟩
    have hkept : ((s₁.persistCompactionWatermark (some rawCutoff)).deleteRollupsForIntervals obsolete) =
        s₁.persistCompactionWatermark (some rawCutoff) := by
      have hrows := Table.deleteWhere_eq_self (t := s₁.rollups) (p := fun key _ => decide (key.1 ∈ obsolete))
        fun key b hfind => ?_
      · simp only [deleteRollupsForIntervals, persistCompactionWatermark, hrows]
      · -- the obsolete rows are gone, and the handoff adds none
        refine decide_eq_false fun hin => ?_
        rw [hsettled.other key (hobsolete key.1 hin)] at hfind
        have hdeleted := (Table.find?_deleteWhere_eq_some.mp hfind).2
        simp [hin] at hdeleted
    have hdown := handoff_of_handedDown (o := o) (hsettled.handed.congr
      (rfl : (s₁.persistCompactionWatermark (some rawCutoff)).rollups = s₁.rollups))
    simp only [Bool.false_eq_true, if_false, hkept, hdown]
    exact congrArg Except.ok (persistCompactionWatermark_again rawCutoff s₁)

/-- The last transaction of a compaction finds nothing more to materialize. -/
theorem chunkOnce_again (hnodup : policy.preservesRaw = false → (policy.tiers.map RollupTier.interval).Nodup)
    (hobsolete : ∀ i ∈ obsolete, i ∉ policy.tiers.map RollupTier.interval)
    (hnow : policy.preservesRaw = true → ∀ cutoff ∈ policy.rawCutoff now, 0 < cutoff)
    (h : s.compactMetricIncrementalChunkOnce o now policy obsolete = .ok (s', true)) :
    s'.compactMetricIncrementalChunkOnce o now policy obsolete = .ok (s', true) := by
  unfold compactMetricIncrementalChunkOnce at h ⊢
  cases hcutoff : policy.rawCutoff now with
  | none => rfl
  | some rawCutoff =>
    rw [hcutoff] at h
    dsimp only at h
    -- what is left to do before the end, and what is there of raw points then
    obtain ⟨s₁, hend, hpoints⟩ : ∃ s₁ : Store B, s₁.completeChunk o now policy obsolete rawCutoff = .ok s' ∧
        (policy.preservesRaw = false → ∀ key v, s₁.points.find? key = some v → rawCutoff ≤ key.tsNano) := by
      cases hchunk : s.chunkStart policy rawCutoff with
      | none =>
        rw [hchunk] at h
        obtain ⟨s₁, hend, heq⟩ := bind_eq_ok.mp h
        cases heq
        refine ⟨s, hend, fun hmode key v hfind => ?_⟩
        rw [chunkStart, hmode] at hchunk
        exact le_of_oldestRawTimestampBefore_eq_none hchunk hfind
      | some start =>
        rw [hchunk] at h
        dsimp only at h
        split_ifs at h
        · obtain ⟨_, _, heq⟩ := bind_eq_ok.mp h
          cases heq
        · obtain ⟨s₁, hchunk, h⟩ := bind_eq_ok.mp h
          obtain ⟨s₂, hend, heq⟩ := bind_eq_ok.mp h
          cases heq
          refine ⟨s₁, hend, fun hmode key v hfind => ?_⟩
          rw [materializeChunk, hmode] at hchunk
          obtain ⟨s₀, -, heq⟩ := bind_eq_ok.mp hchunk
          cases heq
          simpa using (Table.find?_deleteWhere_eq_some.mp hfind).2
    obtain ⟨hsame, ⟨nano, hwatermark, hle⟩, hagain⟩ := completeChunk_again hnodup hobsolete hend
    have hstart : s'.chunkStart policy rawCutoff = none := by
      rw [chunkStart]
      cases hmode : policy.preservesRaw with
      | true =>
        have hpos := hnow hmode rawCutoff hcutoff
        have hstored : s'.compactionWatermark = some nano := by
          rw [compactionWatermark, hwatermark]
          simp [Option.filter, hpos.trans_le hle]
        simp [hstored, hle]
      | false =>
        exact oldestRawTimestampBefore_eq_none fun key v hfind => hpoints hmode key v (hsame ▸ hfind)
    simp only [hstart, hagain]
    rfl

end Again

/-- **A compaction that has come to its end is its own repetition.** -/
theorem compactMetric_again {cfg : MetricConfig} (hvalid : cfg.policy.validate = .ok ())
    (hraw : 0 < cfg.policy.rawRetention) (hdays : 0 < cfg.retentionDays)
    (hnow : cfg.policy.preservesRaw = true → ∀ cutoff ∈ cfg.effective.rawCutoff now, 0 < cutoff)
    (h : s.compactMetric o cfg now = .ok (s', true)) : s'.compactMetric o cfg now = .ok (s', true) := by
  have hretention : 0 < cfg.effective.rawRetention := by
    rwa [MetricConfig.effective, RollupPolicy.rawRetention_withMetricRetention]
  have hmode : cfg.effective.preservesRaw = cfg.policy.preservesRaw :=
    RollupPolicy.preservesRaw_withMetricRetention _ _
  rw [compactMetric, if_neg hdays.ne', if_pos hretention] at h ⊢
  split_ifs at h ⊢ with henabled
  · cases h
    rfl
  · refine chunkOnce_again (fun hdown => ?_) (fun i => notMem_of_mem_rollupIntervalsOutsidePolicy)
      (fun hkept => hnow (hmode ▸ hkept)) h
    have hladder := cfg.policy.ladder_withMetricRetention hvalid (hmode ▸ hdown) (cfg.retentionDays * day)
    exact (List.pairwise_map.mpr (hladder.pairwise.imp fun hstep => hstep.1.ne) : _)

/-- The same tiers, with raw points kept. -/
def preservingTiers : MetricConfig :=
  { twoTiers with policy := { twoTiers.policy with mode := .preserveRaw, preserveRaw := true } }

/-- Points of two series before the cutoff, and one behind it. -/
def fourPoints (cfg : MetricConfig) : Store (RollupBucket (List ℚ)) :=
  Store.empty.writeBatch cfg [(⟨⟨"node", "tags"⟩, 95 * minute⟩, 7), (⟨⟨"node", "tags"⟩, 96 * minute⟩, 3),
    (⟨⟨"other", "tags"⟩, 97 * minute⟩, 5), (⟨⟨"node", "tags"⟩, 99 * minute⟩, 1)]

/-- Three points are compacted, and then there is nothing to do, whether raw points are kept or not. -/
theorem compactMetric_again_twoTiers :
    (∃ s' : Store (RollupBucket (List ℚ)), s'.points.rows.length = 1 ∧ s'.rollups.rows.length = 3 ∧
      s'.compactMetric (RollupBucket.ops (List ℚ) "load") twoTiers (100 * minute) = .ok (s', true)) ∧
    ∃ s' : Store (RollupBucket (List ℚ)), s'.points.rows.length = 4 ∧ s'.rollups.rows.length = 5 ∧
      s'.compactMetric (RollupBucket.ops (List ℚ) "load") preservingTiers (100 * minute) = .ok (s', true) := by
  have hagain : ∀ (cfg : MetricConfig) (points rollups : ℕ), (cfg.policy.validate = .ok () ∧
      0 < cfg.policy.rawRetention ∧ 0 < cfg.retentionDays ∧
        ∀ cutoff ∈ cfg.effective.rawCutoff (100 * minute), 0 < cutoff) →
      ((fourPoints cfg).compactMetric (RollupBucket.ops (List ℚ) "load") cfg (100 * minute)).map
        (fun r => (r.1.points.rows.length, r.1.rollups.rows.length, r.2)) = .ok (points, rollups, true) →
      ∃ s' : Store (RollupBucket (List ℚ)), s'.points.rows.length = points ∧
        s'.rollups.rows.length = rollups ∧
          s'.compactMetric (RollupBucket.ops (List ℚ) "load") cfg (100 * minute) = .ok (s', true) := by
    rintro cfg points rollups ⟨hvalid, hraw, hdays, hnow⟩ hrun
    cases h : (fourPoints cfg).compactMetric (RollupBucket.ops (List ℚ) "load") cfg (100 * minute) with
    | error e =>
      rw [h] at hrun
      cases hrun
    | ok r =>
      rw [h] at hrun
      obtain ⟨s', complete⟩ := r
      cases hrun
      exact ⟨s', rfl, rfl, compactMetric_again hvalid hraw hdays (fun _ => hnow) h⟩
  exact ⟨hagain twoTiers 1 3 (by decide +kernel) (by decide +kernel),
    hagain preservingTiers 4 5 (by decide +kernel) (by decide +kernel)⟩

end Store

end Metric

end Komari
