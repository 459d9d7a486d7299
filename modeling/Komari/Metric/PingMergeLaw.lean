import Komari.Metric.PingSamples

/-!
# What the ping merge keeps

The migration of the ping series succeeds on what the older code wrote exactly when every digest can
still be separated: the compression of a digest may have merged sentinels with latencies.
-/

namespace Komari

namespace Metric

open Answers

/-! ### Splitting a digest -/

/-- The centroids of answers. -/
def Digest.valid (d : Digest) : List Centroid := d.centroids.filter fun c => 0 ≤ c.mean

/-- The loop removes sentinels, unless a negative mean is none. -/
theorem splitCentroids_eq_ok {centroids : List Centroid} {positive : Digest} {removed : ℚ}
    {out : Digest × ℚ} : splitCentroids centroids positive removed = .ok out ↔
      (∀ c ∈ centroids, c.mean < 0 → c.mean = -1) ∧
      out = ({ positive with
          centroids := positive.centroids ++ centroids.filter fun c => 0 ≤ c.mean
          count := positive.count + ((centroids.filter fun c => 0 ≤ c.mean).map Centroid.weight).sum },
        removed + ((centroids.filter fun c => c.mean < 0).map Centroid.weight).sum) := by
  induction centroids generalizing positive removed with
  | nil => simp [splitCentroids, eq_comm]
  | cons c rest ih =>
    rw [splitCentroids, List.forall_mem_cons]
    by_cases hneg : c.mean < 0
    · by_cases hone : c.mean = -1
      · rw [if_pos hneg, if_neg (not_not.mpr hone), ih]
        simp [hone, add_assoc]
      · rw [if_pos hneg, if_pos hone]
        simp [hneg, hone]
    · rw [if_neg hneg, ih]
      simp [hneg, not_lt.mp hneg, add_assoc]

/-- The weight of the negative centroids, when all of them are sentinels. -/
theorem sum_negative {centroids : List Centroid} (h : ∀ c ∈ centroids, c.mean < 0 → c.mean = -1) :
    ((centroids.filter fun c => c.mean < 0).map Centroid.weight).sum = massAt (-1) centroids := by
  rw [massAt, Multiset.filter_coe, Multiset.map_coe, Multiset.sum_coe]
  congr 2
  refine List.filter_congr fun c hc => ?_
  rw [decide_eq_decide]
  refine ⟨h c hc, fun hmean => ?_⟩
  rw [hmean]
  norm_num

theorem sum_negative_add_valid (d : Digest) :
    ((d.centroids.filter fun c => c.mean < 0).map Centroid.weight).sum +
      (d.valid.map Centroid.weight).sum = (d.centroids.map Centroid.weight).sum := by
  unfold Digest.valid
  induction d.centroids with
  | nil => simp
  | cons c rest ih =>
    by_cases hneg : c.mean < 0
    · simp [hneg, ← ih, add_assoc]
    · simp [hneg, not_lt.mp hneg, ← ih, add_left_comm]

theorem splitCentroids_newTDigest {d positive : Digest} {compression removed : ℚ} :
    splitCentroids d.centroids (newTDigest compression) 0 = .ok (positive, removed) ↔
      (∀ c ∈ d.centroids, c.mean < 0 → c.mean = -1) ∧
      positive = { newTDigest compression with
        centroids := d.valid
        count := (d.valid.map Centroid.weight).sum } ∧
      removed = massAt (-1) d.centroids := by
  rw [splitCentroids_eq_ok, Prod.mk.injEq]
  refine and_congr_right fun hsentinel => ?_
  rw [sum_negative hsentinel, zero_add]
  simp only [newTDigest, List.nil_append, zero_add, Digest.valid]

/-- The bucket with the sentinels taken out of its sums and its digest. -/
def RollupBucket.separated (b : RollupBucket Digest) (d : Digest) (n : ℕ) (min max : ℚ) :
    RollupBucket Digest :=
  { b with
    lossCount := n
    sum := b.sum + n
    sumSq := b.sumSq - n
    min := min
    max := max
    digest := some { newTDigest d.compression with
      centroids := d.valid
      count := (d.valid.map Centroid.weight).sum
      min := min
      max := max
      processed := true } }

variable [DigestConfig]

/-! ### Purpose and condition -/

/-- The samples, folded into one bucket of the merged series. -/
def foldPing (samples : List PingSample) : RollupBucket Digest :=
  foldSamples Digest sqliteMergedPingLatencyMetric true (latencySamples samples)

/-- The bucket is that of the samples: its summary is the folded one, and its digest holds all answers
and nothing else. -/
structure MergedFrom (samples : List PingSample) (b : RollupBucket Digest) : Prop where
  summary : b.dropDigest = (foldPing samples).dropDigest
  nonneg : ∀ d, b.digest = some d → ∀ c ∈ d.centroids, 0 ≤ c.mean
  weight : ∀ d, b.digest = some d →
    (d.centroids.map Centroid.weight).sum = (b.count : ℚ) - b.lossCount

/-- The losses of a pair of records are counted, and the record of the latency is converted. -/
def PairMerges (samples : List PingSample) (latency loss : PingRecord) : Prop :=
  ∃ n record, sqliteV8LossCount latency loss true = .ok n ∧
    convertSQLiteV8LatencyRollup latency n = .ok record ∧ record.1 = latency.1 ∧
    MergedFrom samples record.2

/-- The digest of all samples keeps the sentinels apart, and the least and the greatest latency. -/
structure Digest.Separates (d : Digest) (samples : List PingSample) : Prop where
  complete : d.count = samples.length
  sentinels : massAt (-1) d.centroids = losses samples
  first : ∃ first, d.valid.head? = some first ∧ ∀ v ∈ answers samples, first.mean ≤ v
  last : ∃ last, d.valid.getLast? = some last ∧ ∀ v ∈ answers samples, v ≤ last.mean

/-- The stored bucket of the latency can be separated: it has losses only; or it has none, and a digest
that is there is that of all samples; or its digest separates them. -/
def Separable (samples : List PingSample) (b : RollupBucket Digest) : Prop :=
  losses samples = samples.length ∨
    (losses samples = 0 ∧ ∀ d, b.digest = some d → d.count = samples.length) ∨
    ∃ d, b.digest = some d ∧ d.Separates samples

/-! ### Conversion -/

/-- The conversion of a bucket with losses, answers and a digest. -/
theorem convertSQLiteV8LatencyRollup_digest {k : ℤ} {b : RollupBucket Digest} {n : ℕ} {d : Digest}
    (hpos : n ≠ 0) (hlt : n < b.count) (hd : b.digest = some d) (hprocess : d.process = d)
    {record : PingRecord} : convertSQLiteV8LatencyRollup (k, b) n = .ok record ↔
      (∀ c ∈ d.centroids, c.mean < 0 → c.mean = -1) ∧ massAt (-1) d.centroids = n ∧
      ∃ first last, d.valid.head? = some first ∧ d.valid.getLast? = some last ∧
        record = (k, b.separated d n first.mean last.mean) := by
  unfold convertSQLiteV8LatencyRollup
  dsimp only
  rw [if_neg (not_lt.mpr hlt.le), if_neg hpos, if_neg hlt.ne, hd]
  dsimp only
  rw [hprocess, bind_eq_ok]
  constructor
  · rintro ⟨⟨positive, removed⟩, hsplit, h⟩
    obtain ⟨hsentinel, hpositive, rfl⟩ := splitCentroids_newTDigest.mp hsplit
    dsimp only at h
    subst hpositive
    split_ifs at h with hweight
    dsimp only at h
    cases hfirst : d.valid.head? with
    | none => rw [hfirst] at h; cases h
    | some first =>
      cases hlast : d.valid.getLast? with
      | none => rw [hfirst, hlast] at h; cases h
      | some last =>
        rw [hfirst, hlast] at h
        cases h
        exact ⟨hsentinel, not_not.mp hweight, first, last, rfl, rfl, rfl⟩
  · rintro ⟨hsentinel, hweight, first, last, hfirst, hlast, rfl⟩
    refine ⟨_, splitCentroids_newTDigest.mpr ⟨hsentinel, rfl, rfl⟩, ?_⟩
    dsimp only
    rw [if_neg (not_not.mpr hweight), hfirst, hlast]
    rfl

/-! ### The folded bucket -/

section FoldPing

variable (samples : List PingSample)

theorem represents_foldPing :
    Represents sqliteMergedPingLatencyMetric (foldPing samples) (latencySamples samples) :=
  (summary_foldSamples true _).represents

theorem count_foldPing : (foldPing samples).count = samples.length := by
  rw [(represents_foldPing samples).count, Multiset.coe_card, latencySamples, List.length_map]

theorem lossCount_foldPing : (foldPing samples).lossCount = losses samples := by
  rw [(represents_foldPing samples).lossCount, card_lossSamples_latencySamples]

theorem sum_foldPing : (foldPing samples).sum = (answers samples).sum := by
  rw [(represents_foldPing samples).sum, validSamples_latencySamples, Multiset.sum_coe]

theorem sumSq_foldPing : (foldPing samples).sumSq = ((answers samples).map fun v => v * v).sum := by
  have hmap := congrArg (Multiset.map fun v : ℚ => v * v) (validSamples_latencySamples samples)
  rw [Multiset.map_map] at hmap
  rw [(represents_foldPing samples).sumSq, ← Multiset.sum_coe, ← Multiset.map_coe, ← hmap]
  rfl

theorem min_foldPing : LeastBy id (foldPing samples).min (answers samples : Multiset ℚ) := by
  rw [← validSamples_latencySamples]
  exact (represents_foldPing samples).min

theorem max_foldPing :
    LeastBy OrderDual.toDual (foldPing samples).max (answers samples : Multiset ℚ) := by
  rw [← validSamples_latencySamples]
  exact (represents_foldPing samples).max

theorem min_max_foldPing (h : answers samples = []) :
    (foldPing samples).min = 0 ∧ (foldPing samples).max = 0 := by
  refine (represents_foldPing samples).min_max ?_
  rw [← Multiset.map_eq_zero (f := Sample.value), validSamples_latencySamples, h]
  rfl

end FoldPing

/-! ### The pair of buckets -/

section Pair

variable {samples : List PingSample} {b o r : RollupBucket Digest}

section

variable (h : PairOf samples b o)

include h

theorem PairOf.count : b.count = samples.length := by
  rw [h.ends.count, latencySamples, List.length_map]

/-- The sum of the latency counts every sentinel as -1. -/
theorem PairOf.sum : b.sum + losses samples = (answers samples).sum := by
  have hsum := h.latency.represents.sum
  rw [validSamples_eq_self (by decide), Multiset.map_coe, Multiset.sum_coe, sum_latencySamples] at hsum
  linarith

theorem PairOf.sumSq : b.sumSq - losses samples = ((answers samples).map fun v => v * v).sum := by
  have hsum := h.latency.represents.sumSq
  rw [validSamples_eq_self (by decide), Multiset.map_coe, Multiset.sum_coe, sum_sq_latencySamples] at hsum
  linarith

/-- **The losses of a pair are counted.** -/
theorem PairOf.sqliteV8LossCount (k : ℤ) :
    sqliteV8LossCount (k, b) (k, o) true = .ok (losses samples) := by
  have hcount : o.count = b.count := by
    rw [h.count, h.loss.represents.count, Multiset.coe_card, lossSeries, List.length_map]
  have hsum : o.sum = losses samples := by
    rw [h.loss.represents.sum, validSamples_eq_self (by decide), Multiset.map_coe, Multiset.sum_coe,
      sum_lossSeries]
  have hsumSq : o.sumSq = losses samples := by
    rw [h.loss.represents.sumSq, validSamples_eq_self (by decide), Multiset.map_coe, Multiset.sum_coe,
      sum_sq_lossSeries]
  have hle : losses samples ≤ o.count := by
    rw [hcount, h.count, ← length_answers]
    omega
  unfold Metric.sqliteV8LossCount
  simp only [hcount, hsum, hsumSq]
  simp [hle.trans_eq hcount]

/-- The bucket has the ends of the folded one. -/
theorem PairOf.ends_eq :
    b.firstTS = (foldPing samples).firstTS ∧ b.firstVal = (foldPing samples).firstVal ∧
      b.lastTS = (foldPing samples).lastTS ∧ b.lastVal = (foldPing samples).lastVal := by
  by_cases hnil : latencySamples samples = []
  · have hb := h.latency.blank hnil
    have hfold : (foldPing samples).dropDigest = _ := (summary_foldSamples true _).blank hnil
    rw [RollupBucket.dropDigest, RollupBucket.dropDigest, RollupBucket.mk.injEq] at hb hfold
    obtain ⟨_, _, _, _, _, _, hfirstVal, hfirst, hlastVal, hlast, _⟩ := hb
    obtain ⟨_, _, _, _, _, _, hfirstVal', hfirst', hlastVal', hlast', _⟩ := hfold
    exact ⟨hfirst.trans hfirst'.symm, hfirstVal.trans hfirstVal'.symm, hlast.trans hlast'.symm,
      hlastVal.trans hlastVal'.symm⟩
  · have hfold : Ends (foldPing samples) (latencySamples samples) := ends_foldSamples _ _ _
    have hfirst := (h.ends.first hnil).symm.trans (hfold.first hnil)
    have hlast := (h.ends.last hnil).symm.trans (hfold.last hnil)
    rw [Option.some.injEq, Sample.mk.injEq] at hfirst hlast
    exact ⟨hfirst.1, hfirst.2, hlast.1, hlast.2⟩

/-- A record with the counts, sums and ends of the samples is the folded one when its extremes are. -/
theorem PairOf.summary_iff (hcount : r.count = b.count)
    (hloss : r.lossCount = losses samples) (hsum : r.sum = (answers samples).sum)
    (hsumSq : r.sumSq = ((answers samples).map fun v => v * v).sum) (hfirst : r.firstTS = b.firstTS)
    (hfirstVal : r.firstVal = b.firstVal) (hlast : r.lastTS = b.lastTS) (hlastVal : r.lastVal = b.lastVal) :
    r.dropDigest = (foldPing samples).dropDigest ↔
      r.min = (foldPing samples).min ∧ r.max = (foldPing samples).max := by
  obtain ⟨hends, hendsVal, hends', hendsVal'⟩ := h.ends_eq
  rw [RollupBucket.dropDigest, RollupBucket.dropDigest, RollupBucket.mk.injEq]
  constructor
  · rintro ⟨_, _, _, _, hmin, hmax, _⟩
    exact ⟨hmin, hmax⟩
  · rintro ⟨hmin, hmax⟩
    refine ⟨?_, ?_, ?_, ?_, hmin, hmax, hfirstVal.trans hendsVal, hfirst.trans hends,
      hlastVal.trans hendsVal', hlast.trans hends', rfl⟩
    · rw [hcount, h.count, count_foldPing]
    · rw [hloss, lossCount_foldPing]
    · rw [hsum, sum_foldPing]
    · rw [hsumSq, sumSq_foldPing]

end

end Pair

/-! ### Separating the digest -/

section Separate

variable {samples : List PingSample} {b o : RollupBucket Digest} {d : Digest} {c : Centroid}

section

variable (h : PairOf samples b o)

include h

/-- **When the sentinels have their weight**, every other centroid is a mean of answers. -/
theorem PairOf.averages_answers (hd : b.digest = some d)
    (hmass : massAt (-1) d.centroids = losses samples) (hc : c ∈ d.centroids) (hne : c.mean ≠ -1) :
    ∃ part, c.Averages part ∧ ∀ v ∈ part, v ∈ answers samples := by
  obtain ⟨values, hle, hsketch⟩ := h.digest d hd
  have hlower : ∀ v ∈ values, -1 ≤ v := fun v hv =>
    le_value samples v (Multiset.mem_coe.mp (Multiset.mem_of_le hle hv))
  have hweight : (values.count (-1) : ℚ) ≤ massAt (-1) d.centroids := by
    rw [hmass, ← count_sentinel]
    exact_mod_cast Multiset.count_le_of_le (-1) hle
  obtain ⟨part, hpart, haverage, hnot⟩ :=
    hsketch.covers.notMem_of_massAt hlower hweight (Multiset.mem_coe.mpr hc) hne
  refine ⟨part, haverage, fun v hv => ?_⟩
  refine mem_answers samples (Multiset.mem_coe.mp (Multiset.mem_of_le (hpart.trans hle) hv)) ?_
  exact fun hone => hnot (hone ▸ hv)

/-- Without losses every centroid is a mean of answers. -/
theorem PairOf.nonneg_of_losses (hzero : losses samples = 0)
    (hd : b.digest = some d) : ∀ c ∈ d.centroids, 0 ≤ c.mean := by
  intro c hc
  obtain ⟨values, hle, hsketch⟩ := h.digest d hd
  obtain ⟨part, hpart, haverage⟩ := hsketch.covers.averages (Multiset.mem_coe.mpr hc)
  refine haverage.le_mean fun v hv => nonneg_of_mem_answers (mem_answers_of_losses hzero ?_)
  exact Multiset.mem_coe.mp (Multiset.mem_of_le (hpart.trans hle) hv)

theorem PairOf.min_max :
    LeastBy id b.min ((latencySamples samples).map Sample.value : List ℚ) ∧
      LeastBy OrderDual.toDual b.max ((latencySamples samples).map Sample.value : List ℚ) := by
  have hmin := h.latency.represents.min
  have hmax := h.latency.represents.max
  rw [validSamples_eq_self (by decide), Multiset.map_coe] at hmin hmax
  exact ⟨hmin, hmax⟩

/-- Without losses the extremes are those of the answers. -/
theorem PairOf.min_max_of_losses (hzero : losses samples = 0) :
    b.min = (foldPing samples).min ∧ b.max = (foldPing samples).max := by
  have hvalues : (latencySamples samples).map Sample.value = answers samples := by
    rw [answers, List.filter_eq_self.mpr, latencySamples, List.map_map]
    · rfl
    · intro v hv
      simpa using nonneg_of_mem_answers (mem_answers_of_losses hzero (by rwa [latencySamples, List.map_map]))
  obtain ⟨hmin, hmax⟩ := h.min_max
  rw [hvalues] at hmin hmax
  by_cases hnil : answers samples = []
  · have hzero := min_max_foldPing samples hnil
    rw [hzero.1, hzero.2]
    refine h.latency.represents.min_max ?_
    rw [validSamples_eq_self (by decide), ← Multiset.map_eq_zero (f := Sample.value), Multiset.map_coe,
      hvalues, hnil]
    rfl
  · have hne : (answers samples : Multiset ℚ) ≠ 0 := by simpa using hnil
    exact ⟨hmin.unique (min_foldPing samples) hne fun _ _ _ _ heq => heq,
      hmax.unique (max_foldPing samples) hne fun _ _ _ _ heq => heq⟩

theorem PairOf.mergedFrom_of_losses (hzero : losses samples = 0) :
    MergedFrom samples { b with lossCount := 0 } ↔
      ∀ d, b.digest = some d → d.count = samples.length := by
  have hsum := h.sum
  have hsumSq := h.sumSq
  rw [hzero, Nat.cast_zero, add_zero] at hsum
  rw [hzero, Nat.cast_zero, sub_zero] at hsumSq
  have hweight : ∀ d, b.digest = some d → (d.centroids.map Centroid.weight).sum = d.count := by
    intro d hd
    obtain ⟨values, -, hsketch⟩ := h.digest d hd
    exact hsketch.weight
  constructor
  · intro hmerged d hd
    rw [← hweight d hd, hmerged.weight d hd, h.count, Nat.cast_zero, sub_zero]
  · intro hcomplete
    have hsummary := h.summary_iff (r := { b with lossCount := 0 }) rfl hzero.symm hsum hsumSq rfl rfl rfl rfl
    refine ⟨hsummary.mpr (h.min_max_of_losses hzero),
      fun d hd => h.nonneg_of_losses hzero hd, fun d hd => ?_⟩
    rw [hweight d hd, hcomplete d hd, h.count, Nat.cast_zero, sub_zero]

theorem PairOf.mergedFrom_of_all (hall : losses samples = samples.length) :
    MergedFrom samples
      { b with lossCount := losses samples, sum := 0, sumSq := 0, min := 0, max := 0, digest := none } := by
  have hnil : answers samples = [] := by
    have hlength := length_answers samples
    rw [← List.length_eq_zero_iff]
    omega
  obtain ⟨hmin, hmax⟩ := min_max_foldPing samples hnil
  have hsummary := h.summary_iff (r :=
    { b with lossCount := losses samples, sum := 0, sumSq := 0, min := 0, max := 0, digest := none })
    rfl rfl (by rw [hnil, List.sum_nil]) (by rw [hnil, List.map_nil, List.sum_nil]) rfl rfl rfl rfl
  exact ⟨hsummary.mpr ⟨hmin.symm, hmax.symm⟩, fun d hd => (nomatch hd), fun d hd => (nomatch hd)⟩

/-- The centroids that are kept are means of answers. -/
theorem PairOf.averages_of_valid (hd : b.digest = some d)
    (hmass : massAt (-1) d.centroids = losses samples) :
    ∀ c ∈ d.valid, ∃ part, c.Averages part ∧ ∀ v ∈ part, v ∈ answers samples := by
  intro c hc
  obtain ⟨hc, hnonneg⟩ := List.mem_filter.mp hc
  refine h.averages_answers hd hmass hc fun hone => ?_
  rw [hone] at hnonneg
  exact absurd (of_decide_eq_true hnonneg) (by norm_num)

/-- The first centroid that is kept is the least latency, exactly when no latency is less; so is the last
one the greatest. -/
theorem PairOf.mergedFrom_of_valid (hd : b.digest = some d)
    (hmass : massAt (-1) d.centroids = losses samples)
    (hsentinel : ∀ c ∈ d.centroids, c.mean < 0 → c.mean = -1) {first last : Centroid}
    (hfirst : d.valid.head? = some first) (hlast : d.valid.getLast? = some last) :
    MergedFrom samples (b.separated d (losses samples) first.mean last.mean) ↔ d.Separates samples := by
  obtain ⟨values, -, hsketch⟩ := h.digest d hd
  have hsplit := sum_negative_add_valid d
  rw [sum_negative hsentinel, hmass, hsketch.weight] at hsplit
  have hparts := h.averages_of_valid hd hmass
  have hmean : ∀ c ∈ d.valid, (foldPing samples).min ≤ c.mean ∧ c.mean ≤ (foldPing samples).max := by
    intro c hc
    obtain ⟨part, haverage, hpart⟩ := hparts c hc
    exact ⟨haverage.le_mean fun v hv => (min_foldPing samples).le v (Multiset.mem_coe.mpr (hpart v hv)),
      haverage.mean_le fun v hv => (max_foldPing samples).le v (Multiset.mem_coe.mpr (hpart v hv))⟩
  have hanswers : (answers samples : Multiset ℚ) ≠ 0 := by
    obtain ⟨part, haverage, hpart⟩ := hparts first (List.mem_of_mem_head? hfirst)
    obtain ⟨v, hv⟩ := Multiset.exists_mem_of_ne_zero haverage.ne_zero
    intro hzero
    exact List.not_mem_nil ((Multiset.coe_eq_zero _).mp hzero ▸ hpart v hv)
  have hsummary := h.summary_iff (r := b.separated d (losses samples) first.mean last.mean) rfl rfl h.sum
    h.sumSq rfl rfl rfl rfl
  constructor
  · intro hmerged
    obtain ⟨hmin, hmax⟩ := hsummary.mp hmerged.summary
    have hweight : (d.valid.map Centroid.weight).sum = (b.count : ℚ) - losses samples :=
      hmerged.weight _ rfl
    refine ⟨?_, hmass, ⟨first, hfirst, fun v hv => ?_⟩, last, hlast, fun v hv => ?_⟩
    · rw [h.count] at hweight
      linarith
    · exact hmin.trans_le ((min_foldPing samples).le v (Multiset.mem_coe.mpr hv))
    · have hle : v ≤ (foldPing samples).max := (max_foldPing samples).le v (Multiset.mem_coe.mpr hv)
      exact hle.trans_eq hmax.symm
  · intro hseparates
    obtain ⟨first', hfirst', hle⟩ := hseparates.first
    obtain ⟨last', hlast', hge⟩ := hseparates.last
    cases hfirst.symm.trans hfirst'
    cases hlast.symm.trans hlast'
    have hmin := (hmean first (List.mem_of_mem_head? hfirst)).1
    have hmax := (hmean last (List.mem_of_mem_getLast? hlast)).2
    refine ⟨hsummary.mpr ⟨?_, ?_⟩, fun e he c hc => ?_, fun e he => ?_⟩
    · exact (hle _ (Multiset.mem_coe.mp ((min_foldPing samples).mem hanswers))).antisymm hmin
    · exact hmax.antisymm (hge _ (Multiset.mem_coe.mp ((max_foldPing samples).mem hanswers)))
    · cases he
      exact of_decide_eq_true (List.mem_filter.mp hc).2
    · cases he
      change (d.valid.map Centroid.weight).sum = (b.count : ℚ) - losses samples
      have hcomplete := hseparates.complete
      rw [h.count]
      linarith

/-- Negative means are sentinels when these have their weight. -/
theorem PairOf.sentinel_of_massAt (hd : b.digest = some d)
    (hmass : massAt (-1) d.centroids = losses samples) :
    ∀ c ∈ d.centroids, c.mean < 0 → c.mean = -1 := by
  intro c hc hneg
  by_contra hne
  obtain ⟨part, haverage, hpart⟩ := h.averages_answers hd hmass hc hne
  exact absurd hneg (not_lt.mpr (haverage.le_mean fun v hv => nonneg_of_mem_answers (hpart v hv)))

/-- Without a digest the least value stays a sentinel. -/
theorem PairOf.not_mergedFrom_of_none (hzero : losses samples ≠ 0)
    (hd : b.digest = none) (hlt : losses samples < b.count) {k : ℤ} {record : PingRecord}
    (hrecord : convertSQLiteV8LatencyRollup (k, b) (losses samples) = .ok record) :
    ¬MergedFrom samples record.2 := by
  unfold convertSQLiteV8LatencyRollup at hrecord
  dsimp only at hrecord
  rw [if_neg (not_lt.mpr hlt.le), if_neg hzero, if_neg hlt.ne, hd] at hrecord
  cases hrecord
  intro hmerged
  have hdrop := congrArg RollupBucket.min hmerged.summary
  have hmin : b.min = (foldPing samples).min := hdrop
  have hsentinel : (-1 : ℚ) ∈ (((latencySamples samples).map Sample.value : List ℚ) : Multiset ℚ) := by
    rw [← Multiset.count_pos, count_sentinel]
    omega
  have hanswers : (answers samples : Multiset ℚ) ≠ 0 := by
    have hlength := length_answers samples
    rw [ne_eq, ← Multiset.card_eq_zero, Multiset.coe_card]
    rw [h.count] at hlt
    omega
  have hle : b.min ≤ -1 := h.min_max.1.le (-1) hsentinel
  have hnonneg : 0 ≤ (foldPing samples).min :=
    nonneg_of_mem_answers (Multiset.mem_coe.mp ((min_foldPing samples).mem hanswers))
  linarith

end

end Separate

/-- **A pair of stored buckets is merged** into that of the samples exactly when it can be separated. -/
theorem PairOf.pairMerges_iff {samples : List PingSample} {b o : RollupBucket Digest}
    (h : PairOf samples b o) (hstored : ∀ d, b.digest = some d → d.process = d ∧ 0 < d.count) (k : ℤ) :
    PairMerges samples (k, b) (k, o) ↔ Separable samples b := by
  have hlosses : losses samples ≤ b.count := by
    rw [h.count, ← length_answers]
    omega
  have hrun : PairMerges samples (k, b) (k, o) ↔ ∃ record,
      convertSQLiteV8LatencyRollup (k, b) (losses samples) = .ok record ∧ record.1 = k ∧
        MergedFrom samples record.2 := by
    unfold PairMerges
    rw [h.sqliteV8LossCount k]
    constructor
    · rintro ⟨n, record, hn, hrecord⟩
      cases hn
      exact ⟨record, hrecord⟩
    · rintro ⟨record, hrecord⟩
      exact ⟨_, record, rfl, hrecord⟩
  rw [hrun]
  by_cases hzero : losses samples = 0
  · -- nothing changes, so an incomplete digest stays incomplete
    have hconvert : convertSQLiteV8LatencyRollup (k, b) 0 = .ok (k, { b with lossCount := 0 }) := by
      unfold convertSQLiteV8LatencyRollup
      rfl
    have hmerged := h.mergedFrom_of_losses hzero
    rw [hzero, hconvert]
    constructor
    · rintro ⟨record, hrecord, -, hfrom⟩
      cases hrecord
      exact Or.inr (Or.inl ⟨hzero, hmerged.mp hfrom⟩)
    · intro hseparable
      refine ⟨_, rfl, rfl, hmerged.mpr fun d hd => ?_⟩
      rcases hseparable with hall | ⟨-, hcomplete⟩ | ⟨e, he, hseparates⟩
      · -- a stored digest is that of some sample
        obtain ⟨values, hle, hsketch⟩ := h.digest d hd
        have hcard := Multiset.card_le_card hle
        rw [Multiset.coe_card, List.length_map, latencySamples, List.length_map, ← hall, hzero] at hcard
        have hpos := (hstored d hd).2
        rw [hsketch.count, Nat.le_zero.mp hcard] at hpos
        exact absurd hpos (lt_irrefl _)
      · exact hcomplete d hd
      · cases hd.symm.trans he
        exact hseparates.complete
  · by_cases hall : losses samples = b.count
    · have hconvert : convertSQLiteV8LatencyRollup (k, b) (losses samples) = .ok (k,
          { b with lossCount := losses samples, sum := 0, sumSq := 0, min := 0, max := 0, digest := none }) := by
        unfold convertSQLiteV8LatencyRollup
        dsimp only
        rw [if_neg (not_lt.mpr hlosses), if_neg hzero, if_pos hall]
      rw [h.count] at hall
      exact iff_of_true ⟨_, hconvert, rfl, h.mergedFrom_of_all hall⟩ (Or.inl hall)
    · have hlt : losses samples < b.count := lt_of_le_of_ne hlosses hall
      have hseparable : Separable samples b ↔ ∃ d, b.digest = some d ∧ d.Separates samples := by
        unfold Separable
        rw [or_iff_right (by rwa [← h.count]), or_iff_right fun hno => hzero hno.1]
      rw [hseparable]
      cases hd : b.digest with
      | none =>
        constructor
        · rintro ⟨record, hrecord, -, hfrom⟩
          exact absurd hfrom (h.not_mergedFrom_of_none hzero hd hlt hrecord)
        · rintro ⟨d, hnone, -⟩
          cases hnone
      | some d =>
        constructor
        · rintro ⟨record, hrecord, -, hfrom⟩
          obtain ⟨hsentinel, hmass, first, last, hfirst, hlast, rfl⟩ :=
            (convertSQLiteV8LatencyRollup_digest hzero hlt hd (hstored d hd).1).mp hrecord
          exact ⟨d, rfl, (h.mergedFrom_of_valid hd hmass hsentinel hfirst hlast).mp hfrom⟩
        · rintro ⟨e, he, hseparates⟩
          cases he
          obtain ⟨first, hfirst, -⟩ := hseparates.first
          obtain ⟨last, hlast, -⟩ := hseparates.last
          have hsentinel := h.sentinel_of_massAt hd hseparates.sentinels
          exact ⟨_, (convertSQLiteV8LatencyRollup_digest hzero hlt hd (hstored d hd).1).mpr
            ⟨hsentinel, hseparates.sentinels, first, last, hfirst, hlast, rfl⟩, rfl,
            (h.mergedFrom_of_valid hd hseparates.sentinels hsentinel hfirst hlast).mpr hseparates⟩

end Metric

end Komari
