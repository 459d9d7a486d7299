import Komari.Metric.TierMigration

/-!
# What the migration to handed-off tiers keeps

* `handedOff_iff` : the migration does what it is meant to exactly then.
-/

namespace Komari

namespace Metric

namespace Store

variable {D : Type} [TDigest D] {metricName : String} {now : ℤ}

/-! ### The ladder -/

/-- Each tier is a multiple of the finer one. -/
structure Growing (tiers : List RollupTier) : Prop where
  positive : ∀ tier ∈ tiers, 0 < tier.interval
  grow : tiers.Pairwise fun fine coarse => fine.interval < coarse.interval

theorem growing_of_validate {p : RollupPolicy} (h : p.validate = .ok ()) : Growing p.tiers := by
  have hladder := p.ladder_of_validate h
  exact ⟨fun tier htier => (hladder.positive tier htier).1, hladder.pairwise.imp fun hcoarser => hcoarser.1⟩

theorem Growing.sublist {tiers tiers' : List RollupTier} (h : Growing tiers)
    (hsub : (tiers'.map RollupTier.interval).Sublist (tiers.map RollupTier.interval)) : Growing tiers' := by
  refine ⟨fun tier htier => ?_, ?_⟩
  · obtain ⟨other, hother, heq⟩ := List.mem_map.mp (hsub.subset (List.mem_map_of_mem htier))
    rw [← heq]
    exact h.positive other hother
  · have hgrow : (tiers.map RollupTier.interval).Pairwise (· < ·) := List.pairwise_map.mpr h.grow
    exact List.pairwise_map.mp (hgrow.sublist hsub)

theorem capTiers_sublist (retention : ℤ) (kept : Option RollupTier) (tiers : List RollupTier) :
    ((RollupPolicy.capTiers retention kept tiers).map RollupTier.interval).Sublist
      (tiers.map RollupTier.interval) := by
  induction tiers generalizing kept with
  | nil => exact List.Sublist.refl _
  | cons tier rest ih =>
    unfold RollupPolicy.capTiers
    dsimp only
    generalize hcapped : (if rest = [] ∨ retention < tier.retention then
      { tier with retention := retention } else tier : RollupTier) = capped
    have hinterval : capped.interval = tier.interval := by
      rw [← hcapped]
      split_ifs <;> rfl
    have hkeep : ((capped :: RollupPolicy.capTiers retention (some capped) rest).map RollupTier.interval).Sublist
        ((tier :: rest).map RollupTier.interval) := by
      rw [List.map_cons, List.map_cons, hinterval]
      exact (ih _).cons_cons _
    cases kept with
    | none => exact hkeep
    | some last =>
      dsimp only
      split_ifs
      · exact (ih _).cons _
      · exact hkeep

/-- The retention of a metric keeps intervals as they are, or leaves tiers out. -/
theorem growing_withMetricRetention {p : RollupPolicy} (h : p.validate = .ok ()) (retention : ℤ) :
    Growing (p.withMetricRetention retention).tiers := by
  refine (growing_of_validate h).sublist ?_
  rw [RollupPolicy.withMetricRetention]
  split_ifs
  · exact List.Sublist.refl _
  · have hsame : ∀ tier : RollupTier,
        (if retention < tier.retention then { tier with retention := retention } else tier).interval = tier.interval := by
      intro tier
      split_ifs <;> rfl
    simp only [List.map_map, Function.comp_def, hsame]
    exact List.Sublist.refl _
  · exact capTiers_sublist retention none p.tiers

theorem Growing.pair {pre post : List RollupTier} {fine coarse : RollupTier}
    (h : Growing (pre ++ fine :: coarse :: post)) : 0 < coarse.interval ∧ fine.interval ≠ coarse.interval := by
  have hsub : (fine :: coarse :: post).Sublist (pre ++ fine :: coarse :: post) := List.sublist_append_right _ _
  have hlt := (List.pairwise_cons.mp (h.grow.sublist hsub)).1 coarse List.mem_cons_self
  exact ⟨h.positive coarse (by simp), hlt.ne⟩

/-! ### Steps of a ladder -/

variable {n : ℕ}

theorem migrate_cons {fine coarse : RollupTier} {rest : List RollupTier} {s s' : Store (RollupBucket D)}
    (h : s.migrateSQLiteV7MetricTiersTx metricName now (fine :: coarse :: rest) = .ok (s', n)) :
    ∃ s₁ n₁ n₂, s.migrateTier metricName now fine coarse = .ok (s₁, n₁) ∧
      s₁.migrateSQLiteV7MetricTiersTx metricName now (coarse :: rest) = .ok (s', n₂) ∧ n = n₁ + n₂ := by
  rw [migrateSQLiteV7MetricTiersTx] at h
  obtain ⟨⟨s₁, n₁⟩, hfirst, h⟩ := bind_eq_ok.mp h
  obtain ⟨⟨s₂, n₂⟩, hrest, h⟩ := bind_eq_ok.mp h
  cases h
  exact ⟨s₁, n₁, n₂, hfirst, hrest, rfl⟩

/-- **A ladder step by step**: the state before a pair of tiers, and the one after it. -/
theorem migrate_append {pre post : List RollupTier} {fine coarse : RollupTier} {s s' : Store (RollupBucket D)}
    (h : s.migrateSQLiteV7MetricTiersTx metricName now (pre ++ fine :: coarse :: post) = .ok (s', n)) :
    ∃ s₁ n₁ s₂ n₂ m m', s.migrateSQLiteV7MetricTiersTx metricName now (pre ++ [fine]) = .ok (s₁, n₁) ∧
      s₁.migrateTier metricName now fine coarse = .ok (s₂, m) ∧
      s.migrateSQLiteV7MetricTiersTx metricName now (pre ++ [fine, coarse]) = .ok (s₂, n₂) ∧
      s₂.migrateSQLiteV7MetricTiersTx metricName now (coarse :: post) = .ok (s', m') := by
  induction pre generalizing s n with
  | nil =>
    obtain ⟨s₁, n₁, n₂, hfirst, hrest, -⟩ := migrate_cons h
    refine ⟨s, 0, s₁, n₁ + 0, n₁, n₂, rfl, hfirst, ?_, hrest⟩
    rw [List.nil_append, migrateSQLiteV7MetricTiersTx, hfirst]
    rfl
  | cons tier pre ih =>
    -- the next tier, in the rest of the prefix or after it
    obtain ⟨next, tail, hnext, tail₁, hnext₁, tail₂, hnext₂⟩ : ∃ next tail,
        pre ++ fine :: coarse :: post = next :: tail ∧ ∃ tail₁, pre ++ [fine] = next :: tail₁ ∧
          ∃ tail₂, pre ++ [fine, coarse] = next :: tail₂ := by
      cases pre with
      | nil => exact ⟨fine, _, rfl, _, rfl, _, rfl⟩
      | cons next pre => exact ⟨next, _, rfl, _, rfl, _, rfl⟩
    rw [List.cons_append, hnext] at h
    obtain ⟨s₀, n₀, k, hfirst, hrest, -⟩ := migrate_cons h
    rw [← hnext] at hrest
    obtain ⟨s₁, n₁, s₂, n₂, m, m', hbefore, hstep, hafter, hpost⟩ := ih hrest
    refine ⟨s₁, n₀ + n₁, s₂, n₀ + n₂, m, m', ?_, hstep, ?_, hpost⟩
    · rw [List.cons_append, hnext₁, migrateSQLiteV7MetricTiersTx, hfirst, ← hnext₁]
      exact bind_eq_ok.mpr ⟨_, rfl, bind_eq_ok.mpr ⟨_, hbefore, rfl⟩⟩
    · rw [List.cons_append, hnext₂, migrateSQLiteV7MetricTiersTx, hfirst, ← hnext₂]
      exact bind_eq_ok.mpr ⟨_, rfl, bind_eq_ok.mpr ⟨_, hafter, rfl⟩⟩

theorem migrate_append_singleton {pre : List RollupTier} {fine coarse : RollupTier}
    {s s₁ s₂ : Store (RollupBucket D)} {m : ℕ}
    (h : s.migrateSQLiteV7MetricTiersTx metricName now (pre ++ [fine]) = .ok (s₁, n))
    (hstep : s₁.migrateTier metricName now fine coarse = .ok (s₂, m)) :
    ∃ k, s.migrateSQLiteV7MetricTiersTx metricName now (pre ++ [fine, coarse]) = .ok (s₂, k) := by
  induction pre generalizing s n with
  | nil =>
    cases h
    exact ⟨m + 0, bind_eq_ok.mpr ⟨_, hstep, rfl⟩⟩
  | cons tier pre ih =>
    obtain ⟨next, tail₁, hnext₁, tail₂, hnext₂⟩ : ∃ next tail₁, pre ++ [fine] = next :: tail₁ ∧
        ∃ tail₂, pre ++ [fine, coarse] = next :: tail₂ := by
      cases pre with
      | nil => exact ⟨fine, _, rfl, _, rfl⟩
      | cons next pre => exact ⟨next, _, rfl, _, rfl⟩
    rw [List.cons_append, hnext₁] at h
    obtain ⟨s₀, n₀, n₁, hfirst, hrest, -⟩ := migrate_cons h
    rw [← hnext₁] at hrest
    obtain ⟨k, hk⟩ := ih hrest
    rw [hnext₂] at hk
    rw [List.cons_append, hnext₂]
    exact ⟨n₀ + k, bind_eq_ok.mpr ⟨_, hfirst, bind_eq_ok.mpr ⟨_, hk, rfl⟩⟩⟩

theorem migrateTier_skip {fine coarse : RollupTier} {s s' : Store (RollupBucket D)}
    (hbound : handoffBoundary now fine coarse = minInt64) (h : s.migrateTier metricName now fine coarse = .ok (s', n)) :
    s' = s := by
  rw [migrateTier, if_pos hbound] at h
  cases h
  rfl

theorem find?_migrate {tiers : List RollupTier} (hgrowing : Growing tiers) {s s' : Store (RollupBucket D)}
    (h : s.migrateSQLiteV7MetricTiersTx metricName now tiers = .ok (s', n)) {key : ℤ × RollupKey}
    (hkey : key.1 ∉ tiers.map RollupTier.interval) : s'.rollups.find? key = s.rollups.find? key := by
  induction tiers generalizing s n with
  | nil =>
    cases h
    rfl
  | cons fine tiers ih =>
    cases tiers with
    | nil =>
      cases h
      rfl
    | cons coarse rest =>
      obtain ⟨s₁, n₁, n₂, hfirst, hrest, -⟩ := migrate_cons h
      have hlater : Growing (coarse :: rest) := hgrowing.sublist ((List.sublist_cons_self _ _).map _)
      simp only [List.map_cons, List.mem_cons, not_or] at hkey
      rw [ih hlater hrest (by simpa using hkey.2)]
      by_cases hbound : handoffBoundary now fine coarse = minInt64
      · rw [migrateTier_skip hbound hfirst]
      · obtain ⟨hpos, hne⟩ := @Growing.pair [] _ _ _ hgrowing
        exact (migrates_of_migrateTier hpos hne hbound hfirst).other key hkey.1 hkey.2.1

/-! ### What is kept -/

/-- What a bucket counted is still counted. -/
inductive Kept (metricName : String) (now : ℤ) (tiers : List RollupTier) (s s' : Store (RollupBucket D)) :
    RollupTier → RollupKey → RollupBucket D → Prop
  | stored {tier : RollupTier} {key : RollupKey} {b b' : RollupBucket D}
      (hfind : s'.rollups.find? (tier.interval, key) = some b') (hsame : b'.dropDigest = b.dropDigest) :
      Kept metricName now tiers s s' tier key b
  /-- In the coarse bucket that it went into, with the other fine ones that were there when it did. -/
  | merged {pre post : List RollupTier} {fine coarse : RollupTier} {key : RollupKey} {s₁ : Store (RollupBucket D)}
      {n : ℕ} {b b₁ b' : RollupBucket D} (htiers : tiers = pre ++ fine :: coarse :: post)
      (hbefore : s.migrateSQLiteV7MetricTiersTx metricName now (pre ++ [fine]) = .ok (s₁, n))
      (hfind : s₁.rollups.find? (fine.interval, key) = some b₁) (hsame : b₁.dropDigest = b.dropDigest)
      (hequal : sqliteV4RollupSummariesEqual
        (mergeRows (s₁.fineRows fine coarse (key.coarsen coarse.interval))) b' = true)
      (hkept : Kept metricName now tiers s s' coarse (key.coarsen coarse.interval) b') :
      Kept metricName now tiers s s' fine key b
  /-- In the fine buckets that it was the summary of. -/
  | split {pre post : List RollupTier} {fine coarse : RollupTier} {key : RollupKey} {b : RollupBucket D}
      (htiers : tiers = pre ++ fine :: coarse :: post) (hrows : s.fineRows fine coarse key ≠ [])
      (hequal : sqliteV4RollupSummariesEqual (mergeRows (s.fineRows fine coarse key)) b = true)
      (hkept : ∀ r ∈ s.fineRows fine coarse key, Kept metricName now tiers s s' fine r.1 r.2) :
      Kept metricName now tiers s s' coarse key b

/-- What the step of a pair of tiers is meant to do, from the state `s₁` to `s₂`, in the migration of `s`. -/
structure HandsOver (fine coarse : RollupTier) (upper : ℤ) (s s₁ s₂ : Store (RollupBucket D)) : Prop where
  /-- Before the boundary, the coarse bucket is the summary of its fine ones, if there are any. -/
  summary : ∀ key : RollupKey, minInt64 ≤ key.bucket → key.bucket < upper → s₁.fineRows fine coarse key ≠ [] →
    ∃ b, s₂.rollups.find? (coarse.interval, key) = some b ∧
      sqliteV4RollupSummariesEqual (mergeRows (s₁.fineRows fine coarse key)) b = true
  /-- Otherwise it is what it was. -/
  otherwise : ∀ key : RollupKey, minInt64 ≤ key.bucket → key.bucket < upper → s₁.fineRows fine coarse key = [] →
    s₂.rollups.find? (coarse.interval, key) = s₁.rollups.find? (coarse.interval, key)
  /-- From the boundary on, it is removed only if it is the summary of fine buckets. -/
  removed : ∀ key : RollupKey, upper ≤ key.bucket → ∀ b, s.rollups.find? (coarse.interval, key) = some b →
    s₂.rollups.find? (coarse.interval, key) = none →
      s.fineRows fine coarse key ≠ [] ∧
        sqliteV4RollupSummariesEqual (mergeRows (s.fineRows fine coarse key)) b = true

/-- **What the migration of a ladder is meant to do.** -/
structure HandedOff (metricName : String) (now : ℤ) (tiers : List RollupTier) (s s' : Store (RollupBucket D)) :
    Prop where
  /-- Every pair of tiers hands over. -/
  steps : ∀ pre post fine coarse, tiers = pre ++ fine :: coarse :: post → ∀ s₁ n₁ s₂ n₂,
    s.migrateSQLiteV7MetricTiersTx metricName now (pre ++ [fine]) = .ok (s₁, n₁) →
    s.migrateSQLiteV7MetricTiersTx metricName now (pre ++ [fine, coarse]) = .ok (s₂, n₂) →
      HandsOver fine coarse (handoffBoundary now fine coarse) s s₁ s₂
  /-- What any tier counted is still counted. -/
  kept : ∀ tier ∈ tiers, ∀ key b, s.rollups.find? (tier.interval, key) = some b →
    Kept metricName now tiers s s' tier key b

/-- Every coarse bucket that starts at the boundary or later is the summary of fine ones. -/
def Covered (now : ℤ) (tiers : List RollupTier) (s : Store (RollupBucket D)) : Prop :=
  ∀ pre post fine coarse, tiers = pre ++ fine :: coarse :: post → handoffBoundary now fine coarse ≠ minInt64 →
    ∀ key : RollupKey, handoffBoundary now fine coarse ≤ key.bucket →
      ∀ b, s.rollups.find? (coarse.interval, key) = some b →
        s.fineRows fine coarse key ≠ [] ∧
          sqliteV4RollupSummariesEqual (mergeRows (s.fineRows fine coarse key)) b = true

variable {tiers : List RollupTier} {s s' : Store (RollupBucket D)}

theorem Kept.congr {tier : RollupTier} {key : RollupKey} {b b' : RollupBucket D}
    (h : Kept metricName now tiers s s' tier key b') (hb : b'.dropDigest = b.dropDigest) :
    Kept metricName now tiers s s' tier key b := by
  cases h with
  | stored hfind hsame => exact .stored hfind (hsame.trans hb)
  | merged htiers hbefore hfind hsame hequal hkept =>
    exact .merged htiers hbefore hfind (hsame.trans hb) hequal hkept
  | split htiers hrows hequal hkept =>
    refine .split htiers hrows ?_ hkept
    rwa [← sqliteV4RollupSummariesEqual_congr rfl hb]

section

variable (hgrowing : Growing tiers)

include hgrowing

/-- **What a tier holds when its turn comes is kept**, by induction on the tiers that follow. -/
theorem kept_of_migrate {post : List RollupTier} :
    ∀ {pre : List RollupTier} {tier : RollupTier} {s₁ : Store (RollupBucket D)} {n m : ℕ},
      tiers = pre ++ tier :: post →
      s.migrateSQLiteV7MetricTiersTx metricName now (pre ++ [tier]) = .ok (s₁, n) →
      s₁.migrateSQLiteV7MetricTiersTx metricName now (tier :: post) = .ok (s', m) →
      ∀ key b, s₁.rollups.find? (tier.interval, key) = some b → Kept metricName now tiers s s' tier key b := by
  induction post with
  | nil =>
    intro pre tier s₁ n m _ _ h key b hb
    cases h
    exact .stored hb rfl
  | cons coarse post ih =>
    intro pre fine s₁ n m htiers hbefore h key b hb
    obtain ⟨s₂, n₁, n₂, hstep, hrest, -⟩ := migrate_cons h
    have hsuffix : Growing (fine :: coarse :: post) := by
      refine hgrowing.sublist (List.Sublist.map _ ?_)
      rw [htiers]
      exact List.sublist_append_right _ _
    have hlater : Growing (coarse :: post) := hsuffix.sublist ((List.sublist_cons_self _ _).map _)
    have hnot : fine.interval ∉ (coarse :: post).map RollupTier.interval := by
      intro hmem
      obtain ⟨other, hother, heq⟩ := List.mem_map.mp hmem
      exact absurd heq ((List.pairwise_cons.mp hsuffix.grow).1 other hother).ne'
    have hstays : s₂.rollups.find? (fine.interval, key) = s₁.rollups.find? (fine.interval, key) →
        Kept metricName now tiers s s' fine key b := by
      intro hsame
      have hlast : s'.rollups.find? (fine.interval, key) = s₂.rollups.find? (fine.interval, key) :=
        find?_migrate hlater hrest hnot
      exact .stored (hlast.trans (hsame.trans hb)) rfl
    by_cases hbound : handoffBoundary now fine coarse = minInt64
    · exact hstays (by rw [migrateTier_skip hbound hstep])
    obtain ⟨hpos, hne⟩ := @Growing.pair [] _ _ _ hsuffix
    have hmigrates := migrates_of_migrateTier hpos hne hbound hstep
    by_cases hkey : handoffBoundary now fine coarse ≤ key.bucket
    · exact hstays (hmigrates.handed key hkey)
    -- the bucket goes into the coarse one, which is kept
    have hcoarse := (coarsen_bucket_lt hpos (dvd_handoffBoundary hpos now fine) key).mpr (not_le.mp hkey)
    have hmem : (key, b) ∈ s₁.fineRows fine coarse (key.coarsen coarse.interval) := mem_fineRows.mpr ⟨hb, rfl⟩
    obtain ⟨b', hb', hequal, -⟩ := hmigrates.merged _ hcoarse (List.ne_nil_of_mem hmem)
    obtain ⟨k, hafter⟩ := migrate_append_singleton hbefore hstep
    have hpre : pre ++ [fine, coarse] = (pre ++ [fine]) ++ [coarse] := by simp
    rw [hpre] at hafter
    have hkept := ih (by rw [htiers]; simp) hafter hrest _ b' hb'
    exact .merged htiers hbefore hb rfl hequal hkept

/-- The steps before leave the coarse tier of a pair alone. -/
theorem find?_before_step {pre post : List RollupTier} {fine coarse : RollupTier}
    (htiers : tiers = pre ++ fine :: coarse :: post) {s₁ : Store (RollupBucket D)}
    (hbefore : s.migrateSQLiteV7MetricTiersTx metricName now (pre ++ [fine]) = .ok (s₁, n)) (key : RollupKey) :
    s₁.rollups.find? (coarse.interval, key) = s.rollups.find? (coarse.interval, key) := by
  have hsplit : tiers = (pre ++ [fine]) ++ coarse :: post := by rw [htiers]; simp
  have hfirst : Growing (pre ++ [fine]) := by
    refine hgrowing.sublist (List.Sublist.map _ ?_)
    rw [hsplit]
    exact List.sublist_append_left _ _
  refine find?_migrate hfirst hbefore fun hmem => ?_
  obtain ⟨other, hother, heq⟩ := List.mem_map.mp hmem
  have hgrow := hgrowing.grow
  rw [hsplit] at hgrow
  exact absurd heq ((List.pairwise_append.mp hgrow).2.2 other hother coarse List.mem_cons_self).ne

/-- **What any tier counted is kept**, by induction on the tiers before it. -/
theorem kept_of_covered (hcovered : Covered now tiers s)
    (h : s.migrateSQLiteV7MetricTiersTx metricName now tiers = .ok (s', n)) {pre : List RollupTier} :
    ∀ {tier : RollupTier} {post : List RollupTier}, tiers = pre ++ tier :: post →
      ∀ key b, s.rollups.find? (tier.interval, key) = some b → Kept metricName now tiers s s' tier key b := by
  induction pre using List.reverseRecOn with
  | nil =>
    intro tier post htiers key b hb
    rw [htiers, List.nil_append] at h
    exact kept_of_migrate hgrowing htiers rfl h key b hb
  | append_singleton pre fine ih =>
    intro coarse post htiers key b hb
    rw [List.append_assoc, List.singleton_append] at htiers
    have hpair := hgrowing
    rw [htiers] at h hpair
    obtain ⟨hpos, hne⟩ := hpair.pair
    obtain ⟨s₁, n₁, s₂, n₂, m, m', hbefore, hstep, hafter, hpost⟩ := migrate_append h
    have hpre : pre ++ [fine, coarse] = (pre ++ [fine]) ++ [coarse] := by simp
    rw [hpre] at hafter
    have hlater : ∀ b', s₂.rollups.find? (coarse.interval, key) = some b' →
        Kept metricName now tiers s s' coarse key b' := fun b' hb' =>
      kept_of_migrate hgrowing (by rw [htiers]; simp) hafter hpost key b' hb'
    have hcoarse : s₁.rollups.find? (coarse.interval, key) = some b :=
      (find?_before_step hgrowing htiers hbefore key).trans hb
    by_cases hbound : handoffBoundary now fine coarse = minInt64
    · exact hlater b (by rw [migrateTier_skip hbound hstep, hcoarse])
    by_cases hkey : handoffBoundary now fine coarse ≤ key.bucket
    · obtain ⟨hrows, hequal⟩ := hcovered pre post fine coarse htiers hbound key hkey b hb
      exact .split htiers hrows hequal fun r hr => ih htiers r.1 r.2 (mem_fineRows.mp hr).1
    have hmigrates := migrates_of_migrateTier hpos hne hbound hstep
    by_cases hrows : s₁.fineRows fine coarse key = []
    · exact hlater b ((hmigrates.same key (not_le.mp hkey) hrows).trans hcoarse)
    · obtain ⟨b', hb', -, hsame⟩ := hmigrates.merged key (not_le.mp hkey) hrows
      exact (hlater b' hb').congr (hsame b hcoarse)

theorem covered_of_handedOff (h : s.migrateSQLiteV7MetricTiersTx metricName now tiers = .ok (s', n))
    (hhanded : HandedOff metricName now tiers s s') : Covered now tiers s := by
  intro pre post fine coarse htiers hbound key hkey b hb
  have hpair := hgrowing
  rw [htiers] at h hpair
  obtain ⟨hpos, hne⟩ := hpair.pair
  obtain ⟨s₁, n₁, s₂, n₂, m, m', hbefore, hstep, hafter, -⟩ := migrate_append h
  have hmigrates := migrates_of_migrateTier hpos hne hbound hstep
  exact (hhanded.steps pre post fine coarse htiers s₁ n₁ s₂ n₂ hbefore hafter).removed key hkey b hb
    (hmigrates.removed key hkey)

theorem handedOff_of_covered (h : s.migrateSQLiteV7MetricTiersTx metricName now tiers = .ok (s', n))
    (hcovered : Covered now tiers s) : HandedOff metricName now tiers s s' := by
  refine ⟨fun pre post fine coarse htiers s₁ n₁ s₂ n₂ hbefore hafter => ?_, fun tier htier key b hb => ?_⟩
  · have hpair := hgrowing
    have hall := h
    rw [htiers] at hall hpair
    obtain ⟨hpos, hne⟩ := hpair.pair
    obtain ⟨s₁', n₁', s₂', n₂', m, m', hbefore', hstep, hafter', -⟩ := migrate_append hall
    rw [hbefore] at hbefore'
    rw [hafter] at hafter'
    cases hbefore'
    cases hafter'
    by_cases hbound : handoffBoundary now fine coarse = minInt64
    · rw [hbound, migrateTier_skip hbound hstep]
      refine ⟨fun key hmin hkey => absurd hkey (not_lt.mpr hmin), fun key hmin hkey => absurd hkey (not_lt.mpr hmin),
        fun key _ b hb hnone => ?_⟩
      rw [find?_before_step hgrowing htiers hbefore key, hb] at hnone
      cases hnone
    · have hmigrates := migrates_of_migrateTier hpos hne hbound hstep
      refine ⟨fun key _ hkey hrows => ?_, fun key _ => hmigrates.same key, fun key hkey b hb _ => ?_⟩
      · obtain ⟨b, hb, hequal, -⟩ := hmigrates.merged key hkey hrows
        exact ⟨b, hb, hequal⟩
      · exact hcovered pre post fine coarse htiers hbound key hkey b hb
  · obtain ⟨pre, post, htiers⟩ := List.append_of_mem htier
    exact kept_of_covered hgrowing hcovered h htiers key b hb

end

/-- **The migration does what it is meant to if and only if every coarse bucket from the boundary on is the summary of
fine ones.**  Those buckets are removed without a look at the fine tier. -/
theorem handedOff_iff {p : RollupPolicy} (hvalid : p.validate = .ok ()) (retention : ℤ)
    {s s' : Store (RollupBucket D)} {n : ℕ}
    (h : s.migrateSQLiteV7MetricTiersTx metricName now (p.withMetricRetention retention).tiers = .ok (s', n)) :
    HandedOff metricName now (p.withMetricRetention retention).tiers s s' ↔
      Covered now (p.withMetricRetention retention).tiers s :=
  ⟨covered_of_handedOff (growing_withMetricRetention hvalid retention) h,
    handedOff_of_covered (growing_withMetricRetention hvalid retention) h⟩

/-! ### A gap in the fine tier -/

/-- Buckets of one minute for an hour, and of five minutes for ten hours. -/
def hourPolicy : RollupPolicy :=
  ⟨.downsample, 2 * minute, false, [⟨minute, 60 * minute⟩, ⟨5 * minute, 600 * minute⟩]⟩

def sampleBucket : RollupBucket (List ℚ) := (RollupBucket.new true).addPoint 7 (990 * minute)

/-- The sample in buckets of these widths. -/
def storeOf (intervals : List ℤ) : Store (RollupBucket (List ℚ)) :=
  ⟨∅, Table.upsertAll ∅ (intervals.map fun interval => ((interval, ⟨⟨"node", "tags"⟩, 990 * minute⟩), sampleBucket)),
    none⟩

theorem covered_overlap : Covered (1000 * minute) (hourPolicy.withMetricRetention day).tiers
    (storeOf [minute, 5 * minute]) := by
  intro pre post fine coarse htiers _ key _ b hb
  have htwo : (hourPolicy.withMetricRetention day).tiers = [⟨minute, 60 * minute⟩, ⟨5 * minute, day⟩] := by
    decide +kernel
  have hrows : ∀ r ∈ (storeOf [minute, 5 * minute]).rollups.rows,
      r.1.2 = ⟨⟨"node", "tags"⟩, 990 * minute⟩ ∧ r.2 = sampleBucket := by decide +kernel
  obtain ⟨hkey, hsample⟩ := hrows _ (Table.mem_rows.mpr hb)
  dsimp only at hkey hsample
  subst hkey hsample
  rw [htwo] at htiers
  match pre with
  | [] =>
    obtain ⟨rfl, rfl, -⟩ : fine = ⟨minute, 60 * minute⟩ ∧ coarse = ⟨5 * minute, day⟩ ∧ post = [] := by
      simpa [eq_comm] using htiers
    exact ⟨by decide +kernel, by decide +kernel⟩
  | [_] => simp at htiers
  | _ :: _ :: _ => simp at htiers

theorem handedOff_overlap : ∃ s' n,
    (storeOf [minute, 5 * minute]).migrateSQLiteV7MetricTiersTx "load" (1000 * minute)
      (hourPolicy.withMetricRetention day).tiers = .ok (s', n) ∧
    HandedOff "load" (1000 * minute) (hourPolicy.withMetricRetention day).tiers (storeOf [minute, 5 * minute]) s' := by
  have hok : ((storeOf [minute, 5 * minute]).migrateSQLiteV7MetricTiersTx "load" (1000 * minute)
      (hourPolicy.withMetricRetention day).tiers).isOk = true := by decide +kernel
  cases h : (storeOf [minute, 5 * minute]).migrateSQLiteV7MetricTiersTx "load" (1000 * minute)
      (hourPolicy.withMetricRetention day).tiers with
  | error e =>
    rw [h] at hok
    cases hok
  | ok r => exact ⟨r.1, r.2, rfl, (handedOff_iff (by decide +kernel) day h).mpr covered_overlap⟩

/-- Only the coarse tier holds the sample: the migration removes it. -/
theorem not_handedOff_gap : ∃ s' n,
    (storeOf [5 * minute]).migrateSQLiteV7MetricTiersTx "load" (1000 * minute)
      (hourPolicy.withMetricRetention day).tiers = .ok (s', n) ∧ s'.rollups.rows = [] ∧
    ¬HandedOff "load" (1000 * minute) (hourPolicy.withMetricRetention day).tiers (storeOf [5 * minute]) s' := by
  have hrows : ((storeOf [5 * minute]).migrateSQLiteV7MetricTiersTx "load" (1000 * minute)
      (hourPolicy.withMetricRetention day).tiers).map (fun r => r.1.rollups.rows) = .ok [] := by decide +kernel
  cases h : (storeOf [5 * minute]).migrateSQLiteV7MetricTiersTx "load" (1000 * minute)
      (hourPolicy.withMetricRetention day).tiers with
  | error e =>
    rw [h] at hrows
    cases hrows
  | ok r =>
    rw [h] at hrows
    refine ⟨r.1, r.2, rfl, Except.ok.inj hrows, fun hhanded => ?_⟩
    have hgrowing := growing_withMetricRetention (p := hourPolicy) (by decide +kernel) day
    have hcovered := covered_of_handedOff hgrowing h hhanded [] [] ⟨minute, 60 * minute⟩ ⟨5 * minute, day⟩
      (by decide +kernel) (by decide +kernel) ⟨⟨"node", "tags"⟩, 990 * minute⟩ (by decide +kernel) sampleBucket
      (by decide +kernel)
    exact hcovered.1 (by decide +kernel)

end Store

end Metric

end Komari
