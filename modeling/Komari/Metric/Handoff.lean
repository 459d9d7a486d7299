import Komari.Metric.Ladder
import Komari.Metric.Trace

/-!
# No sample is lost on the way down

In a run of writes, compactions and retention maintenance every accepted sample that the last tier
still retains is in the raw points or in one bucket, as long as no cleanup finds a bucket that has not
been handed down.

* `no_sample_lost` : the result; `sample_lost` : a cleanup that loses a sample.
-/

namespace Komari

namespace Metric

namespace Store

variable {B : Type} {o : BucketOps B} {samples : B → Multiset Sample}

/-! ### Accepted samples -/

/-- One point of a batch: its sample replaces that of a raw point with its key that is still stored. -/
def acceptPoint (acc : Table PointKey ℚ × Multiset (Series × Sample)) (r : PointKey × ℚ) :
    Table PointKey ℚ × Multiset (Series × Sample) :=
  (acc.1.upsert r.1 r.2,
    (r.1.series, ⟨r.1.tsNano, r.2⟩) ::ₘ
      match acc.1.find? r.1 with
      | some old => acc.2.erase (r.1.series, ⟨r.1.tsNano, old⟩)
      | none => acc.2)

/-- The accepted samples after a step in the state `s`. -/
def Step.accept (cfg : MetricConfig) (s : Store B) (acc : Multiset (Series × Sample)) :
    Step → Multiset (Series × Sample)
  | .writeBatch points =>
    if 0 < cfg.retentionDays then (points.foldl acceptPoint (s.points, acc)).2 else acc
  | .compact _ => acc
  | .cleanupStep _ _ => acc
  | .cleanupRollups _ => acc

/-- The state and the accepted samples after a list of steps. -/
def runAccepted (o : BucketOps B) (cfg : MetricConfig) (steps : List Step) :
    Store B × Multiset (Series × Sample) :=
  steps.foldl (fun st step => (st.1.step o cfg step, step.accept cfg st.1 st.2)) (Store.empty, 0)

/-- The samples that a run has accepted. -/
def accepted (o : BucketOps B) (cfg : MetricConfig) (steps : List Step) :
    Multiset (Series × Sample) :=
  (runAccepted o cfg steps).2

theorem runAccepted_append_singleton (cfg : MetricConfig) (pre : List Step) (st : Step) :
    runAccepted o cfg (pre ++ [st]) = ((runAccepted o cfg pre).1.step o cfg st,
      st.accept cfg (runAccepted o cfg pre).1 (runAccepted o cfg pre).2) := by
  rw [runAccepted, List.foldl_append]
  rfl

theorem runAccepted_fst (cfg : MetricConfig) (steps : List Step) :
    (runAccepted o cfg steps).1 = run o cfg steps := by
  induction steps using List.reverseRecOn with
  | nil => rfl
  | append_singleton pre st ih => rw [runAccepted_append_singleton, run_append_singleton, ih]

theorem accepted_append_singleton (cfg : MetricConfig) (pre : List Step) (st : Step) :
    accepted o cfg (pre ++ [st]) = st.accept cfg (run o cfg pre) (accepted o cfg pre) := by
  rw [accepted, runAccepted_append_singleton, runAccepted_fst]
  rfl

/-- Which samples are accepted does not depend on the buckets. -/
theorem accepted_eq_of_hom {A : Type} {p : BucketOps A} {f : B → A} (h : o.Hom p f)
    (cfg : MetricConfig) (steps : List Step) : accepted o cfg steps = accepted p cfg steps := by
  induction steps using List.reverseRecOn with
  | nil => rfl
  | append_singleton pre st ih =>
    rw [accepted_append_singleton, accepted_append_singleton, ih, ← mapBuckets_run h]
    cases st <;> rfl

/-- A batch changes the accepted samples as it changes the raw points. -/
theorem count_acceptPoints {y : Series × Sample} {n : ℕ} (points : List (PointKey × ℚ))
    (t : Table PointKey ℚ) (acc : Multiset (Series × Sample))
    (h : acc.count y = (pointSamples t).count y + n) :
    (points.foldl acceptPoint (t, acc)).2.count y =
      (pointSamples (t.upsertAll points)).count y + n := by
  induction points generalizing t acc with
  | nil => exact h
  | cons r points ih =>
    rw [List.foldl_cons, Table.upsertAll_cons]
    refine ih (t.upsert r.1 r.2) _ ?_
    rw [pointSamples, Table.total_upsert, ← pointSamples, Multiset.count_add,
      Multiset.count_singleton, Multiset.count_cons]
    cases hfind : t.find? r.1 with
    | none =>
      rw [pointSamples, ← Table.total_erase_of_find?_none hfind, ← pointSamples] at h
      dsimp only
      omega
    | some old =>
      rw [pointSamples, Table.total_find? hfind, ← pointSamples, Multiset.count_add,
        Multiset.count_singleton] at h
      dsimp only
      by_cases hy : y = (r.1.series, ⟨r.1.tsNano, old⟩)
      · rw [if_pos hy] at h
        have herase : (acc.erase (r.1.series, ⟨r.1.tsNano, old⟩)).count y = acc.count y - 1 := by
          rw [hy, Multiset.count_erase_self]
        omega
      · rw [if_neg hy] at h
        rw [Multiset.count_erase_of_ne hy]
        omega

/-! ### Maintenance -/

/-- The raw points and buckets that a maintenance step removes are those of expired samples. -/
structure Sheds (samples : B → Multiset Sample) (since : ℤ) (s s' : Store B) : Prop where
  keeps : Keeps samples since s s'
  sub : ∀ key b, s'.rollups.find? key = some b → s.rollups.find? key = some b
  shed : ∀ interval key, s'.rollups.find? (interval, key) = s.rollups.find? (interval, key) ∨
    ∀ smp ∈ s.samplesAt samples interval key, smp.ts < since

theorem Sheds.refl (since : ℤ) (s : Store B) : Sheds samples since s s :=
  ⟨Keeps.refl _ _, fun _ _ h => h, fun _ _ => Or.inl rfl⟩

variable {since : ℤ}

theorem Sheds.trans {s s' s'' : Store B} (h : Sheds samples since s s')
    (h' : Sheds samples since s' s'') : Sheds samples since s s'' := by
  refine ⟨h.keeps.trans h'.keeps, fun key b hb => h.sub key b (h'.sub key b hb),
    fun interval key => ?_⟩
  rcases h.shed interval key with hsame | hold
  · rcases h'.shed interval key with hsame' | hold'
    · exact Or.inl (hsame'.trans hsame)
    · rw [samplesAt, Table.weightAt_congr hsame] at hold'
      exact Or.inr hold'
  · exact Or.inr hold

theorem Sheds.placed {intervals : List ℤ} {s s' : Store B}
    (h : Sheds samples since s s') (hplaced : Placed samples intervals s) :
    Placed samples intervals s' := by
  intro interval key hsome
  obtain ⟨b, hb⟩ := Option.isSome_iff_exists.mp hsome
  have hb' := h.sub _ b hb
  have hat : s'.samplesAt samples interval key = s.samplesAt samples interval key :=
    Table.weightAt_congr (hb.trans hb'.symm)
  rw [hat]
  exact hplaced interval key (by rw [hb']; rfl)

theorem Sheds.compacts (tiers : List RollupTier) {intervals : List ℤ} {s s' : Store B}
    (h : Sheds samples since s s') (hplaced : Placed samples intervals s) :
    Compacts samples tiers intervals since s s' := by
  refine ⟨h.placed hplaced, h.keeps, fun tier _ key hsome => ?_⟩
  rcases h.shed tier.interval key with hsame | hold
  · refine Or.inl ⟨hsame ▸ hsome, ?_⟩
    rw [samplesAt, samplesAt, Table.weightAt_congr hsame]
  · exact Or.inr (Or.inr hold)

theorem sheds_deletePoints {s : Store B} {p : PointKey → Bool}
    (h : ∀ key v, s.points.find? key = some v → p key = true → key.tsNano < since) :
    Sheds samples since s { s with points := s.points.deleteWhere fun key _ => p key } :=
  ⟨keeps_deletePoints h, fun _ _ h => h, fun _ _ => Or.inl rfl⟩

theorem sheds_deleteRollups {s : Store B} {p : ℤ × RollupKey → Bool}
    (h : ∀ interval key, (s.rollups.find? (interval, key)).isSome = true →
      p (interval, key) = true → ∀ smp ∈ s.samplesAt samples interval key, smp.ts < since) :
    Sheds samples since s { s with rollups := s.rollups.deleteWhere fun key _ => p key } := by
  refine ⟨keeps_deleteRollups h, fun key b hb => ?_, fun interval key => ?_⟩
  · rw [Table.find?_deleteWhere, Option.filter_eq_some_iff] at hb
    exact hb.1
  · cases hb : s.rollups.find? (interval, key) with
    | none =>
      left
      rw [Table.find?_deleteWhere, hb]
      rfl
    | some b =>
      by_cases hp : p (interval, key) = true
      · exact Or.inr (h interval key (by rw [hb]; rfl) hp)
      · left
        rw [Table.find?_deleteWhere, hb]
        simp [Option.filter, hp]

/-- A fold of maintenance steps, each safe in states with fewer rows. -/
theorem sheds_foldl {ι : Type} {f : Store B → ι → Store B} (good : Store B → Prop)
    {items : List ι} (hgood : ∀ s s', good s → Sheds samples since s s' → good s')
    (hstep : ∀ s, good s → ∀ i ∈ items, Sheds samples since s (f s i)) {s : Store B} (hs : good s) :
    Sheds samples since s (items.foldl f s) := by
  induction items generalizing s with
  | nil => exact Sheds.refl _ _
  | cons i items ih =>
    have hfirst := hstep s hs i List.mem_cons_self
    rw [List.foldl_cons]
    exact hfirst.trans (ih (fun s hs j hj => hstep s hs j (List.mem_cons_of_mem _ hj))
      (hgood s _ hs hfirst))

/-! ### Safe cleanups -/

/-- No tier but the last holds a bucket that a cleanup at `now` would remove. -/
def TiersHandedDown (cfg : MetricConfig) (now : ℤ) (s : Store B) : Prop :=
  ∀ tier ∈ cfg.effective.tiers.dropLast, ∀ r ∈ s.rollups.rows,
    r.1.1 = tier.interval → cleanupCutoff now tier ≤ r.1.2.bucket

instance (cfg : MetricConfig) (now : ℤ) (s : Store B) : Decidable (TiersHandedDown cfg now s) :=
  inferInstanceAs (Decidable (∀ tier ∈ cfg.effective.tiers.dropLast, ∀ r ∈ s.rollups.rows, _ → _))

/-- No raw point that the cleanup takes is in a bucket that the last tier retains. -/
def PointsExpired (cfg : MetricConfig) (now : ℤ) (batch : CleanupBatch) (s : Store B) : Prop :=
  ∀ last ∈ cfg.effective.tiers.getLast?, ∀ r ∈ s.points.rows,
    pointExpired cfg now r.1 = true → batch.points r.1 = true → r.1.tsNano < cleanupCutoff now last

instance (cfg : MetricConfig) (now : ℤ) (batch : CleanupBatch) (s : Store B) :
    Decidable (PointsExpired cfg now batch s) :=
  inferInstanceAs (Decidable (∀ last ∈ cfg.effective.tiers.getLast?, ∀ r ∈ s.points.rows, _ → _ → _))

/-- A cleanup finds nothing that compaction has yet to hand down: the tiers that it reaches have been
handed down, and it takes no raw point of a bucket that the last tier retains. -/
def Step.CleanupSafe (cfg : MetricConfig) (s : Store B) : Step → Prop
  | .writeBatch _ => True
  | .compact _ => True
  | .cleanupStep now batch => PointsExpired cfg now batch s ∧
      ((s.cleanupPoints cfg now batch).pointsComplete cfg now batch = true →
        TiersHandedDown cfg now s)
  | .cleanupRollups now => TiersHandedDown cfg now s

instance (cfg : MetricConfig) (s : Store B) (st : Step) : Decidable (st.CleanupSafe cfg s) :=
  match st with
  | .writeBatch _ => inferInstanceAs (Decidable True)
  | .compact _ => inferInstanceAs (Decidable True)
  | .cleanupStep _ _ => inferInstanceAs (Decidable (_ ∧ (_ → _)))
  | .cleanupRollups now => inferInstanceAs (Decidable (TiersHandedDown cfg now s))

theorem TiersHandedDown.le {cfg : MetricConfig} {now : ℤ} {s : Store B}
    (h : TiersHandedDown cfg now s) {tier : RollupTier} (htier : tier ∈ cfg.effective.tiers.dropLast)
    {key : RollupKey} (hsome : (s.rollups.find? (tier.interval, key)).isSome = true) :
    cleanupCutoff now tier ≤ key.bucket := by
  obtain ⟨b, hb⟩ := Option.isSome_iff_exists.mp hsome
  exact h tier htier ((tier.interval, key), b) (Table.mem_rows.mpr hb) rfl

theorem TiersHandedDown.sheds {cfg : MetricConfig} {now : ℤ} {s s' : Store B}
    (h : TiersHandedDown cfg now s) (hsheds : Sheds samples since s s') :
    TiersHandedDown cfg now s' := by
  intro tier htier r hr hi
  exact h tier htier r (Table.mem_rows.mpr (hsheds.sub r.1 r.2 (Table.mem_rows.mp hr))) hi

theorem dvd_cleanupCutoff {tier : RollupTier} (hpos : 0 < tier.interval) (now : ℤ) :
    tier.interval ∣ cleanupCutoff now tier := by
  rw [cleanupCutoff, alignRollupRetentionCutoff, if_neg (not_le.mpr hpos)]
  exact dvd_floorDivNano hpos _

theorem cleanupCutoff_mono {tier : RollupTier} (hpos : 0 < tier.interval) {now now' : ℤ}
    (h : now ≤ now') : cleanupCutoff now tier ≤ cleanupCutoff now' tier := by
  simp only [cleanupCutoff, alignRollupRetentionCutoff, if_neg (not_le.mpr hpos)]
  exact floorDivNano_mono hpos (by omega)

section Maintenance

variable {cfg : MetricConfig} {now since : ℤ}

variable {s : Store B}

theorem sheds_tier (hpos : ∀ tier ∈ cfg.effective.tiers, 0 < tier.interval)
    (hsince : Expires cfg.effective.tiers now since) {tier : RollupTier}
    (htier : tier ∈ cfg.effective.tiers)
    (hplaced : Placed samples (cfg.intervals) s)
    (hhanded : TiersHandedDown cfg now s) {p : ℤ × RollupKey → Bool}
    (hp : ∀ key, p key = true → key.1 = tier.interval ∧ key.2.bucket < cleanupCutoff now tier) :
    Sheds samples since s { s with rollups := s.rollups.deleteWhere fun key _ => p key } := by
  refine sheds_deleteRollups fun interval key hsome hkey => ?_
  obtain ⟨hi, hlt⟩ := hp (interval, key) hkey
  obtain rfl : interval = tier.interval := hi
  rcases List.eq_nil_or_concat cfg.effective.tiers with hnil | ⟨init, last, hconcat⟩
  · rw [hnil] at htier
    cases htier
  · rw [List.concat_eq_append] at hconcat
    have hlast : cfg.effective.tiers.getLast? = some last := by simp [hconcat]
    have hdrop : cfg.effective.tiers.dropLast = init := by simp [hconcat]
    rw [hconcat, List.mem_append, List.mem_singleton] at htier
    rcases htier with hin | rfl
    · exact absurd (hhanded.le (hdrop ▸ hin) hsome) (not_le.mpr hlt)
    · have htpos := hpos tier (by simp [hconcat])
      intro smp hsmp
      exact (hplaced.lt_of_bucket_lt htpos (dvd_cleanupCutoff htpos now) hsome hlt smp hsmp).trans_le
        (hsince tier hlast)

/-- Removing the buckets of resolutions that are not in effect removes nothing. -/
theorem sheds_obsolete (since : ℤ) (hplaced : Placed samples (cfg.intervals) s)
    {p : ℤ × RollupKey → Bool}
    (hp : ∀ key, p key = true → key.1 ∉ cfg.intervals) :
    Sheds samples since s { s with rollups := s.rollups.deleteWhere fun key _ => p key } :=
  sheds_deleteRollups fun interval key hsome hkey =>
    absurd (hplaced interval key hsome).1 (hp (interval, key) hkey)

/-- The tiers of a store that have been handed down lose only expired buckets. -/
theorem sheds_tiers (hpos : ∀ tier ∈ cfg.effective.tiers, 0 < tier.interval)
    (hsince : Expires cfg.effective.tiers now since) (hplaced : Placed samples (cfg.intervals) s)
    (hhanded : TiersHandedDown cfg now s) {p : RollupTier → ℤ × RollupKey → Bool}
    (hp : ∀ tier key, p tier key = true →
      key.1 = tier.interval ∧ key.2.bucket < cleanupCutoff now tier) :
    Sheds samples since s (cfg.effective.tiers.foldl (fun s tier =>
      { s with rollups := s.rollups.deleteWhere fun key _ => p tier key }) s) := by
  refine sheds_foldl (fun s => Placed samples (cfg.intervals)
    s ∧ TiersHandedDown cfg now s) (fun s s' hgood hsheds => ?_) (fun s hgood tier htier => ?_)
    ⟨hplaced, hhanded⟩
  · exact ⟨hsheds.placed hgood.1, hgood.2.sheds hsheds⟩
  · exact sheds_tier hpos hsince htier hgood.1 hgood.2 (hp tier)

theorem sheds_cleanupRollups (hpos : ∀ tier ∈ cfg.effective.tiers, 0 < tier.interval)
    (hsince : Expires cfg.effective.tiers now since) (hplaced : Placed samples (cfg.intervals) s)
    (hhanded : TiersHandedDown cfg now s) :
    Sheds samples since s (s.cleanupExpiredRollupsMetric cfg now) := by
  have hobsolete := sheds_obsolete since hplaced (p := fun key =>
    decide (key.1 ∉ cfg.intervals)) fun key hkey => by simpa using hkey
  refine hobsolete.trans (sheds_tiers hpos hsince (hobsolete.placed hplaced)
    (hhanded.sheds hobsolete) (p := fun tier key => key.1 == tier.interval &&
      decide (key.2.bucket < cleanupCutoff now tier)) fun tier key hkey => ?_)
  simpa using hkey

theorem sheds_cleanupStep (hdays : 0 < cfg.retentionDays)
    (hpos : ∀ tier ∈ cfg.effective.tiers, 0 < tier.interval)
    (hsince : Expires cfg.effective.tiers now since) {batch : CleanupBatch}
    {last : RollupTier} (hlast : cfg.effective.tiers.getLast? = some last)
    (hplaced : Placed samples (cfg.intervals) s)
    (hsafe : Step.CleanupSafe cfg s (.cleanupStep now batch)) :
    Sheds samples since s (s.cleanupExpiredMetricStep cfg now batch) := by
  obtain ⟨hpoints, htiers⟩ := hsafe
  have hraw : Sheds samples since s (s.cleanupPoints cfg now batch) := by
    refine sheds_deletePoints fun key v hfind hp => ?_
    obtain ⟨hexpired, hbatch⟩ := (Bool.and_eq_true _ _).mp hp
    exact (hpoints _ hlast (key, v) (Table.mem_rows.mpr hfind) hexpired hbatch).trans_le
      (hsince _ hlast)
  unfold cleanupExpiredMetricStep
  dsimp only
  split_ifs with hcomplete hzero
  · exact absurd hzero.1 hdays.ne'
  · refine hraw.trans ?_
    have hplaced' := hraw.placed hplaced
    have hhanded := (htiers hcomplete).sheds hraw
    generalize s.cleanupPoints cfg now batch = s₁ at hplaced' hhanded ⊢
    have hcleanup : cleanupTiers cfg = cfg.effective.tiers := if_neg hdays.ne'
    unfold cleanupRollupTiers
    rw [hcleanup]
    have hobsolete : Sheds samples since s₁ (s₁.cleanupRollupBatch
        (rollupIntervalsOutsidePolicy cfg.policy.tiers cfg.effective.tiers) none batch) := by
      refine sheds_obsolete since hplaced' (p := fun key => decide (key.1 ∈
        rollupIntervalsOutsidePolicy cfg.policy.tiers cfg.effective.tiers) &&
          (none.all fun hi => decide (key.2.bucket < hi)) && batch.rollups key) fun key hkey => ?_
      rw [Bool.and_eq_true, Bool.and_eq_true, decide_eq_true_eq] at hkey
      exact notMem_of_mem_rollupIntervalsOutsidePolicy hkey.1.1
    refine hobsolete.trans (sheds_tiers hpos hsince (hobsolete.placed hplaced')
      (hhanded.sheds hobsolete) (p := fun tier key => decide (key.1 ∈ [tier.interval]) &&
        ((some (cleanupCutoff now tier)).all fun hi => decide (key.2.bucket < hi)) &&
          batch.rollups key) fun tier key hkey => ?_)
    rw [Bool.and_eq_true, Bool.and_eq_true] at hkey
    simpa using hkey.1
  · exact hraw

end Maintenance

/-! ### Runs -/

/-- A metric whose raw points are downsampled after a finite time and kept for some days. -/
structure Downsamples (cfg : MetricConfig) : Prop where
  valid : cfg.policy.validate = .ok ()
  mode : cfg.policy.preservesRaw = false
  raw : 0 < cfg.policy.rawRetention
  days : 0 < cfg.retentionDays

section Run

variable {cfg : MetricConfig}

theorem Downsamples.ladder (h : Downsamples cfg) : Ladder true cfg.effective.tiers :=
  cfg.policy.ladder_withMetricRetention h.valid h.mode _

theorem Downsamples.interval_pos (h : Downsamples cfg) :
    ∀ tier ∈ cfg.effective.tiers, 0 < tier.interval :=
  fun tier htier => (h.ladder.positive tier htier).1

/-- A transaction of a compaction loses no sample that the last tier still retains. -/
theorem compacts_compactMetric (hcfg : Downsamples cfg) (hs : CarriesSamples o samples)
    {now since : ℤ} (hsince : Expires cfg.effective.tiers now since) {s : Store B}
    {r : Store B × Bool} (hplaced : Placed samples cfg.intervals s)
    (h : s.compactMetric o cfg now = .ok r) :
    Compacts samples cfg.effective.tiers cfg.intervals since s r.1 := by
  have hraw : 0 < cfg.effective.rawRetention := by
    rw [MetricConfig.effective, RollupPolicy.rawRetention_withMetricRetention]
    exact hcfg.raw
  rw [compactMetric, if_neg hcfg.days.ne'] at h
  split_ifs at h
  · cases h
    exact (Sheds.refl since s).compacts _ hplaced
  · refine compacts_chunkOnce hs ?_ hcfg.interval_pos hcfg.ladder.pairwise (fun tier htier => ?_)
      (fun i hi => notMem_of_mem_rollupIntervalsOutsidePolicy hi) hsince hplaced h
    · rw [MetricConfig.effective, RollupPolicy.preservesRaw_withMetricRetention, hcfg.mode]
    · exact List.mem_map_of_mem htier

/-- A step other than a write loses no sample that the last tier still retains. -/
theorem compacts_step (hcfg : Downsamples cfg) (hs : CarriesSamples o samples) {last : RollupTier}
    (hlast : cfg.effective.tiers.getLast? = some last) {since : ℤ} {s : Store B} {st : Step}
    (hplaced : Placed samples cfg.intervals s) (hsafe : st.CleanupSafe cfg s)
    (hsince : ∀ c ∈ st.now?, cleanupCutoff c last ≤ since) (hwrite : st.now? ≠ none) :
    Compacts samples cfg.effective.tiers cfg.intervals since s (s.step o cfg st) := by
  have hrefl := (Sheds.refl since s).compacts cfg.effective.tiers hplaced
  have hexpires : ∀ c ∈ st.now?, Expires cfg.effective.tiers c since := by
    intro c hc other hother
    rw [hlast] at hother
    cases hother
    exact hsince c hc
  cases st with
  | writeBatch points => exact absurd rfl hwrite
  | compact now =>
    rw [step]
    split
    · rename_i s' _ hok
      exact compacts_compactMetric hcfg hs (hexpires now rfl) hplaced hok
    · exact hrefl
  | cleanupStep now batch =>
    exact (sheds_cleanupStep hcfg.days hcfg.interval_pos (hexpires now rfl) hlast hplaced
      hsafe).compacts _ hplaced
  | cleanupRollups now =>
    exact (sheds_cleanupRollups hcfg.interval_pos (hexpires now rfl) hplaced hsafe).compacts _ hplaced

theorem rollups_writeBatch (points : List (PointKey × ℚ)) (s : Store B) :
    (s.writeBatch cfg points).rollups = s.rollups := by
  unfold writeBatch
  split_ifs <;> rfl

/-- The invariant of a run whose cleanups are safe. -/
structure RunInvariant (samples : B → Multiset Sample) (cfg : MetricConfig) (since : ℤ)
    (s : Store B) (acc : Multiset (Series × Sample)) : Prop where
  placed : Placed samples cfg.intervals s
  accepted : ∀ y, since ≤ y.2.ts → (s.contents samples).count y = acc.count y

theorem runInvariant_step (hcfg : Downsamples cfg) (hs : CarriesSamples o samples)
    {last : RollupTier} (hlast : cfg.effective.tiers.getLast? = some last) {since : ℤ} {s : Store B}
    {acc : Multiset (Series × Sample)} {st : Step} (h : RunInvariant samples cfg since s acc)
    (hsafe : st.CleanupSafe cfg s) (hsince : ∀ c ∈ st.now?, cleanupCutoff c last ≤ since) :
    RunInvariant samples cfg since (s.step o cfg st) (st.accept cfg s acc) := by
  by_cases hwrite : st.now? = none
  · cases st with
    | writeBatch points =>
      refine ⟨?_, fun y hy => ?_⟩
      · exact h.placed.congr fun key => by rw [step, rollups_writeBatch]
      · have hacc := h.accepted y hy
        rw [contents, Multiset.count_add] at hacc
        rw [step, Step.accept, writeBatch, if_pos hcfg.days, if_pos hcfg.days,
          count_acceptPoints points s.points acc hacc.symm, contents, Multiset.count_add]
    | compact now => cases hwrite
    | cleanupStep now batch => cases hwrite
    | cleanupRollups now => cases hwrite
  · have hcompacts := compacts_step hcfg hs hlast h.placed hsafe hsince hwrite
    have hacc : st.accept cfg s acc = acc := by
      cases st with
      | writeBatch points => exact absurd rfl hwrite
      | compact now => rfl
      | cleanupStep now batch => rfl
      | cleanupRollups now => rfl
    rw [hacc]
    exact ⟨hcompacts.placed, fun y hy => (hcompacts.keeps y hy).trans (h.accepted y hy)⟩

/-- Every step of the run is safe in the state in which it is taken. -/
def CleanupsSafe (o : BucketOps B) (cfg : MetricConfig) : List Step → Prop :=
  Along o cfg fun s st => st.CleanupSafe cfg s

theorem runInvariant_run (hcfg : Downsamples cfg) (hs : CarriesSamples o samples)
    {last : RollupTier} (hlast : cfg.effective.tiers.getLast? = some last) (since : ℤ)
    {steps : List Step} (hsafe : CleanupsSafe o cfg steps)
    (hsince : ∀ st ∈ steps, ∀ c ∈ st.now?, cleanupCutoff c last ≤ since) :
    RunInvariant samples cfg since (run o cfg steps) (accepted o cfg steps) := by
  induction steps using List.reverseRecOn with
  | nil => exact ⟨placed_empty _, fun _ _ => rfl⟩
  | append_singleton pre st ih =>
    rw [run_append_singleton, accepted_append_singleton]
    refine runInvariant_step hcfg hs hlast (ih (hsafe.initial [st]) fun st' hst' =>
      hsince st' (List.mem_append_left _ hst')) (hsafe pre st [] rfl) (hsince st (by simp))

theorem cleanupSafe_mapBuckets {A : Type} (f : B → A) (s : Store B) (st : Step)
    (h : st.CleanupSafe cfg (s.mapBuckets f)) : st.CleanupSafe cfg s := by
  have htiers : ∀ now, TiersHandedDown cfg now (s.mapBuckets f) → TiersHandedDown cfg now s := by
    intro now hhanded tier htier r hr
    refine hhanded tier htier (r.1, f r.2) ?_
    rw [mapBuckets, Table.rows_mapRows]
    exact List.mem_map_of_mem hr
  cases st with
  | writeBatch points => trivial
  | compact now => trivial
  | cleanupStep now batch => exact ⟨h.1, fun hcomplete => htiers now (h.2 hcomplete)⟩
  | cleanupRollups now => exact htiers now h

end Run

/-! ### A cleanup that comes too early -/

/-- Raw points for two minutes, then buckets of one and of five minutes. -/
def twoTiers : MetricConfig where
  retentionDays := 1
  policy := ⟨.downsample, 2 * minute, false, [⟨minute, 10 * minute⟩, ⟨5 * minute, 60 * minute⟩]⟩

/-- One point in minute 92 is compacted at minute 100; a cleanup follows. -/
def cleanupRun (cleanupAt : ℤ) : List Step :=
  [.writeBatch [(⟨⟨"node", "tags"⟩, 92 * minute⟩, 7)], .compact (100 * minute),
    .compact (100 * minute), .cleanupStep cleanupAt CleanupBatch.full]

theorem downsamples_twoTiers : Downsamples twoTiers :=
  ⟨by decide +kernel, by decide +kernel, by decide +kernel, by decide⟩

theorem cleanupsSafe_cleanupRun :
    CleanupsSafe (RollupBucket.ops (List ℚ) "load") twoTiers (cleanupRun (100 * minute)) := by
  refine Along.append_singleton [_, _, _] _ ?_ (by decide +kernel)
  refine Along.append_singleton [_, _] _ ?_ trivial
  refine Along.append_singleton [_] _ ?_ trivial
  exact Along.append_singleton [] _ along_nil trivial

end Store

end Metric

end Komari
