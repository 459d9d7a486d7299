import Komari.Metric.DigestOrder

/-!
# Quantiles of digests

A quantile is read off the centroids of a processed digest by linear interpolation between their centres,
with the least and the greatest value at the ends.

* `reached_ordered` : the structure and the quantiles of every digest.
-/

namespace Komari

namespace Metric

/-! ### The estimate -/

/-- What is not a number. -/
inductive QuantileError
  /-- `math.NaN`: the digest is empty. -/
  | nan
  /-- A division by zero, which the source does not check. -/
  | divisionByZero
deriving DecidableEq

/-- A division, unless it is by zero. -/
def checkedDiv (x y : ℚ) : Except QuantileError ℚ := if y = 0 then .error .divisionByZero else .ok (x / y)

/-- The loop of `Quantile` and the tail behind it. -/
def quantileFrom (index max : ℚ) : ℚ → Centroid → List Centroid → Except QuantileError ℚ
  | weightSoFar, cl, [] => do
    let z ← checkedDiv (index - weightSoFar) (cl.weight / 2)
    let z := if 1 < z then 1 else z
    return cl.mean + (max - cl.mean) * z
  | weightSoFar, c, next :: rest =>
    let dw := (c.weight + next.weight) / 2
    if index < weightSoFar + dw then do
      let z ← checkedDiv (index - weightSoFar) dw
      return c.mean * (1 - z) + next.mean * z
    else quantileFrom index max (weightSoFar + dw) next rest

/-- `Quantile` between the ends: a single centroid, the head before the first centre, or the loop. -/
def quantileInside (min max index : ℚ) (c0 : Centroid) : List Centroid → Except QuantileError ℚ
  | [] => .ok c0.mean
  | next :: rest =>
    if index < c0.weight / 2 then do
      let z ← checkedDiv index (c0.weight / 2)
      return min + (c0.mean - min) * z
    else quantileFrom index max (c0.weight / 2) c0 (next :: rest)

/-- The estimate, with checked divisions. -/
def Digest.quantile [DigestConfig] (t : Digest) (q : ℚ) : Except QuantileError ℚ :=
  let t := t.process
  match t.centroids with
  | [] => .error .nan
  | c0 :: rest =>
    -- a digest with a centroid has finite extremes
    let min := t.min.untopD 0
    let max := t.max.unbotD 0
    if q ≤ 0 then .ok min
    else if 1 ≤ q then .ok max
    else quantileInside min max (q * t.count) c0 rest

/-! ### The pieces -/

theorem checkedDiv_eq_ok {x y : ℚ} (hy : 0 < y) : checkedDiv x y = .ok (x / y) := if_neg hy.ne'

theorem linear_mono {a b z z' : ℚ} (hab : a ≤ b) (hz : 0 ≤ z) (hzz : z ≤ z') (hz' : z' ≤ 1) :
    a ≤ a + (b - a) * z ∧ a + (b - a) * z ≤ a + (b - a) * z' ∧ a + (b - a) * z' ≤ b := by
  have hd : 0 ≤ b - a := sub_nonneg.mpr hab
  refine ⟨?_, ?_, ?_⟩
  · have := mul_nonneg hd hz
    linarith
  · have := mul_le_mul_of_nonneg_left hzz hd
    linarith
  · have := mul_le_mul_of_nonneg_left hz' hd
    linarith

/-- **The pieces behind the first centre** rise from its mean to the greatest value. -/
theorem quantileFrom_mono {i j max w : ℚ} {c : Centroid} {rest : List Centroid}
    (hpos : ∀ d ∈ c :: rest, 0 < d.weight) (hsorted : SortedMeans (c :: rest))
    (hmax : ∀ d ∈ c :: rest, d.mean ≤ max) (hi : w ≤ i) (hij : i ≤ j) :
    ∃ v v', quantileFrom i max w c rest = .ok v ∧ quantileFrom j max w c rest = .ok v' ∧
      c.mean ≤ v ∧ v ≤ v' ∧ v' ≤ max := by
  induction rest generalizing w c i j with
  | nil =>
    have hhalf : 0 < c.weight / 2 := half_pos (hpos c List.mem_cons_self)
    have hz : 0 ≤ (i - w) / (c.weight / 2) := div_nonneg (sub_nonneg.mpr hi) hhalf.le
    have hzz : (i - w) / (c.weight / 2) ≤ (j - w) / (c.weight / 2) := by gcongr
    -- the last piece is cut off at the greatest value
    have hclamp : ∀ z : ℚ, (if 1 < z then 1 else z) = min 1 z := fun z => by
      rw [min_def]
      split_ifs with h h'
      · rfl
      · exact absurd h.le h'
      · linarith
      · rfl
    obtain ⟨hlow, hmono, hhigh⟩ := linear_mono (hmax c List.mem_cons_self) (le_min zero_le_one hz)
      (min_le_min_left 1 hzz) (min_le_left 1 _)
    refine ⟨_, _, ?_, ?_, hlow, hmono, hhigh⟩
    · rw [quantileFrom, checkedDiv_eq_ok hhalf, ← hclamp]
      rfl
    · rw [quantileFrom, checkedDiv_eq_ok hhalf, ← hclamp]
      rfl
  | cons next rest ih =>
    obtain ⟨hc, hnext⟩ := List.forall_mem_cons.mp hpos
    obtain ⟨hfirst, htail⟩ := List.pairwise_cons.mp hsorted
    have hle := hfirst next List.mem_cons_self
    have hmaxtail := (List.forall_mem_cons.mp hmax).2
    have hdw : 0 < (c.weight + next.weight) / 2 := half_pos (add_pos hc (hnext next List.mem_cons_self))
    have hpiece : ∀ z : ℚ, c.mean * (1 - z) + next.mean * z = c.mean + (next.mean - c.mean) * z := fun z => by ring
    simp only [quantileFrom, checkedDiv_eq_ok hdw]
    by_cases hj : j < w + (c.weight + next.weight) / 2
    · -- both in the first piece
      rw [if_pos (lt_of_le_of_lt hij hj), if_pos hj]
      have hz : 0 ≤ (i - w) / ((c.weight + next.weight) / 2) := div_nonneg (sub_nonneg.mpr hi) hdw.le
      have hzz : (i - w) / ((c.weight + next.weight) / 2) ≤ (j - w) / ((c.weight + next.weight) / 2) := by gcongr
      have hz' : (j - w) / ((c.weight + next.weight) / 2) ≤ 1 := by
        rw [div_le_one hdw]
        linarith
      obtain ⟨hlow, hmono, hhigh⟩ := linear_mono hle hz hzz hz'
      refine ⟨_, _, rfl, rfl, ?_⟩
      rw [hpiece, hpiece]
      exact ⟨hlow, hmono, hhigh.trans (hmaxtail next List.mem_cons_self)⟩
    · rw [if_neg hj]
      rw [not_lt] at hj
      by_cases hi' : i < w + (c.weight + next.weight) / 2
      · -- the first piece ends where the others begin
        obtain ⟨u, v', -, hv', hlow', hmono', hhigh'⟩ := ih hnext htail hmaxtail hj le_rfl
        have hz : 0 ≤ (i - w) / ((c.weight + next.weight) / 2) := div_nonneg (sub_nonneg.mpr hi) hdw.le
        have hz' : (i - w) / ((c.weight + next.weight) / 2) ≤ 1 := by
          rw [div_le_one hdw]
          linarith
        obtain ⟨hlow, -, hhigh⟩ := linear_mono hle hz le_rfl hz'
        rw [if_pos hi']
        refine ⟨_, v', rfl, hv', ?_⟩
        rw [hpiece]
        exact ⟨hlow, hhigh.trans (hlow'.trans hmono'), hhigh'⟩
      · rw [if_neg hi']
        obtain ⟨v, v', hv, hv', hlow, hmono, hhigh⟩ := ih hnext htail hmaxtail (not_lt.mp hi') hij
        exact ⟨v, v', hv, hv', hle.trans hlow, hmono, hhigh⟩

/-- **Between the ends** the estimate rises from the least to the greatest value. -/
theorem quantileInside_mono {lo hi i j : ℚ} {c : Centroid} {rest : List Centroid}
    (hpos : ∀ d ∈ c :: rest, 0 < d.weight) (hsorted : SortedMeans (c :: rest))
    (hlo : lo ≤ c.mean) (hhi : ∀ d ∈ c :: rest, d.mean ≤ hi) (hi0 : 0 ≤ i) (hij : i ≤ j) :
    ∃ v v', quantileInside lo hi i c rest = .ok v ∧ quantileInside lo hi j c rest = .ok v' ∧
      lo ≤ v ∧ v ≤ v' ∧ v' ≤ hi := by
  have hc := hhi c List.mem_cons_self
  cases rest with
  | nil => exact ⟨c.mean, c.mean, rfl, rfl, hlo, le_rfl, hc⟩
  | cons next rest =>
    have hhalf : 0 < c.weight / 2 := half_pos (hpos c List.mem_cons_self)
    simp only [quantileInside, checkedDiv_eq_ok hhalf]
    have hz : 0 ≤ i / (c.weight / 2) := div_nonneg hi0 hhalf.le
    by_cases hj : j < c.weight / 2
    · -- both in the head
      have hzz : i / (c.weight / 2) ≤ j / (c.weight / 2) := by gcongr
      obtain ⟨hlow, hmono, hhigh⟩ := linear_mono hlo hz hzz ((div_le_one hhalf).mpr hj.le)
      rw [if_pos (lt_of_le_of_lt hij hj), if_pos hj]
      exact ⟨_, _, rfl, rfl, hlow, hmono, hhigh.trans hc⟩
    · rw [if_neg hj]
      by_cases hi' : i < c.weight / 2
      · -- the head ends at the first mean
        obtain ⟨u, v', -, hv', hlow', hmono', hhigh'⟩ := quantileFrom_mono hpos hsorted hhi (not_lt.mp hj) le_rfl
        obtain ⟨hlow, -, hhigh⟩ := linear_mono hlo hz le_rfl ((div_le_one hhalf).mpr hi'.le)
        rw [if_pos hi']
        exact ⟨_, v', rfl, hv', hlow, hhigh.trans (hlow'.trans hmono'), hhigh'⟩
      · rw [if_neg hi']
        obtain ⟨v, v', hv, hv', hlow, hmono, hhigh⟩ := quantileFrom_mono hpos hsorted hhi (not_lt.mp hi') hij
        exact ⟨v, v', hv, hv', hlo.trans hlow, hmono, hhigh⟩

/-! ### The law -/

/-- The quantiles of a digest: never a division by zero, monotone, between the extremes, and the extremes at
the ends. -/
structure QuantileLaw [DigestConfig] (t : Digest) : Prop where
  divides : ∀ q, t.quantile q ≠ .error .divisionByZero
  defined : 0 < t.count → ∀ q, ∃ v, t.quantile q = .ok v
  mono : ∀ q q' v v', q ≤ q' → t.quantile q = .ok v → t.quantile q' = .ok v' → v ≤ v'
  bounds : ∀ q v, t.quantile q = .ok v → t.min ≤ v ∧ (v : WithBot ℚ) ≤ t.max
  low : 0 < t.count → ∀ q ≤ 0, ∃ v : ℚ, t.quantile q = .ok v ∧ t.min = v
  high : 0 < t.count → ∀ q ≥ 1, ∃ v : ℚ, t.quantile q = .ok v ∧ t.max = v

section Law

variable [DigestConfig] {t : Digest} {added : Multiset (ℚ × ℚ)}

theorem Digest.min_process (t : Digest) : t.process.min = t.min := by
  unfold Digest.process
  split_ifs
  · rfl
  · split <;> rfl

theorem Digest.max_process (t : Digest) : t.process.max = t.max := by
  unfold Digest.process
  split_ifs
  · rfl
  · split <;> rfl

theorem Digest.quantile_nil (h : t.process.centroids = []) (q : ℚ) : t.quantile q = .error .nan := by
  unfold Digest.quantile
  dsimp only
  rw [h]

/-- **Two quantiles** of a digest with a centroid. -/
theorem Digest.Sound.quantile_mono (h : t.Sound added) (hne : t.process.centroids ≠ []) {lo hi : ℚ}
    (hlo : t.min = lo) (hhi : t.max = hi) {q q' : ℚ} (hq : q ≤ q') :
    ∃ v v', t.quantile q = .ok v ∧ t.quantile q' = .ok v' ∧ lo ≤ v ∧ v ≤ v' ∧ v' ≤ hi := by
  have hp := h.process
  obtain ⟨c0, rest, hcentroids⟩ := List.exists_cons_of_ne_nil hne
  have hpos := hp.weight_pos
  have hsorted := hp.sorted t.processed_process
  have hlower : ∀ c ∈ c0 :: rest, lo ≤ c.mean := fun c hc => by
    have hle := hp.lower c (hcentroids ▸ hc)
    rw [t.min_process, hlo] at hle
    exact WithTop.coe_le_coe.mp hle
  have hupper : ∀ c ∈ c0 :: rest, c.mean ≤ hi := fun c hc => by
    have hle := hp.upper c (hcentroids ▸ hc)
    rw [t.max_process, hhi] at hle
    exact WithBot.coe_le_coe.mp hle
  rw [hcentroids] at hpos hsorted
  have hlohi : lo ≤ hi := (hlower c0 List.mem_cons_self).trans (hupper c0 List.mem_cons_self)
  have hcount : 0 ≤ t.process.count := by
    rw [hp.count, ← hp.weight, hcentroids]
    exact List.sum_nonneg fun w hw => by
      obtain ⟨c, hc, rfl⟩ := List.mem_map.mp hw
      exact (hpos c hc).le
  have hinside : ∀ p p' : ℚ, 0 < p → p ≤ p' → ∃ v v',
      quantileInside lo hi (p * t.process.count) c0 rest = .ok v ∧
      quantileInside lo hi (p' * t.process.count) c0 rest = .ok v' ∧ lo ≤ v ∧ v ≤ v' ∧ v' ≤ hi :=
    fun p p' hzero hle =>
      quantileInside_mono hpos hsorted (hlower c0 List.mem_cons_self) hupper (mul_nonneg hzero.le hcount)
        (mul_le_mul_of_nonneg_right hle hcount)
  unfold Digest.quantile
  dsimp only
  rw [hcentroids, t.min_process, t.max_process, hlo, hhi]
  dsimp only
  rw [WithTop.untopD_coe, WithBot.unbotD_coe]
  by_cases hlow : q ≤ 0
  · rw [if_pos hlow]
    by_cases hlow' : q' ≤ 0
    · rw [if_pos hlow']
      exact ⟨lo, lo, rfl, rfl, le_rfl, le_rfl, hlohi⟩
    · rw [if_neg hlow']
      by_cases hhigh' : 1 ≤ q'
      · rw [if_pos hhigh']
        exact ⟨lo, hi, rfl, rfl, le_rfl, hlohi, le_rfl⟩
      · rw [if_neg hhigh']
        obtain ⟨v, v', -, hv', hle, hle', hge⟩ := hinside q' q' (not_le.mp hlow') le_rfl
        exact ⟨lo, v', rfl, hv', le_rfl, hle.trans hle', hge⟩
  · rw [if_neg hlow, if_neg fun hlow' => hlow (hq.trans hlow')]
    by_cases hhigh : 1 ≤ q
    · rw [if_pos hhigh, if_pos (hhigh.trans hq)]
      exact ⟨hi, hi, rfl, rfl, hlohi, le_rfl, le_rfl⟩
    · rw [if_neg hhigh]
      by_cases hhigh' : 1 ≤ q'
      · rw [if_pos hhigh']
        obtain ⟨v, v', hv, -, hle, hle', hge⟩ := hinside q q (not_le.mp hlow) le_rfl
        exact ⟨v, hi, hv, rfl, hle, hle'.trans hge, le_rfl⟩
      · rw [if_neg hhigh']
        exact hinside q q' (not_le.mp hlow) hq

/-- A digest has a centroid when it has weight. -/
theorem Digest.Sound.centroids_ne_nil_iff (h : t.Sound added) : t.process.centroids ≠ [] ↔ added ≠ 0 := by
  have hp := h.process
  constructor
  · rintro hne rfl
    obtain ⟨c, hc⟩ := List.exists_mem_of_ne_nil _ hne
    have hlower := hp.lower c hc
    rw [(hp.empty rfl).1] at hlower
    exact absurd (top_le_iff.mp hlower) WithTop.coe_ne_top
  · intro hne hnil
    have hweight := hp.weight
    rw [hnil] at hweight
    exact (addedWeight_pos h.added_pos hne).ne hweight

theorem Digest.Sound.extremes (h : t.Sound added) (hne : t.process.centroids ≠ []) :
    ∃ lo hi : ℚ, t.min = lo ∧ t.max = hi := by
  obtain ⟨lo, hlo, -⟩ := h.ordered.least (h.centroids_ne_nil_iff.mp hne)
  obtain ⟨hi, hhi, -⟩ := h.ordered.greatest (h.centroids_ne_nil_iff.mp hne)
  rw [t.min_process] at hlo
  rw [t.max_process] at hhi
  exact ⟨lo, hi, hlo, hhi⟩

theorem Digest.Sound.quantileLaw (h : t.Sound added) : QuantileLaw t := by
  by_cases hnil : t.process.centroids = []
  · -- nothing was added
    have hadded : added = 0 := not_not.mp fun hne => h.centroids_ne_nil_iff.mpr hne hnil
    have hcount := h.count_eq_zero_iff.mpr hadded
    have hnone := t.quantile_nil hnil
    refine ⟨fun q hq => ?_, fun hpos => ?_, fun q q' v v' _ hv => ?_, fun q v hv => ?_, fun hpos => ?_,
      fun hpos => ?_⟩
    · rw [hnone] at hq
      cases hq
    · exact absurd hcount hpos.ne'
    · rw [hnone] at hv
      cases hv
    · rw [hnone] at hv
      cases hv
    · exact absurd hcount hpos.ne'
    · exact absurd hcount hpos.ne'
  · obtain ⟨lo, hi, hlo, hhi⟩ := h.extremes hnil
    have hvalue : ∀ q, ∃ v, t.quantile q = .ok v ∧ lo ≤ v ∧ v ≤ hi := by
      intro q
      obtain ⟨v, v', hv, -, hle, hle', hge⟩ := h.quantile_mono hnil hlo hhi (le_refl q)
      exact ⟨v, hv, hle, hle'.trans hge⟩
    refine ⟨fun q hq => ?_, fun _ q => (hvalue q).imp fun v hv => hv.1, fun q q' v v' hqq' hv hv' => ?_,
      fun q v hv => ?_, fun _ q hq => ⟨lo, ?_, hlo⟩, fun _ q hq => ⟨hi, ?_, hhi⟩⟩
    · obtain ⟨v, hv, -⟩ := hvalue q
      rw [hq] at hv
      cases hv
    · obtain ⟨w, w', hw, hw', -, hle, -⟩ := h.quantile_mono hnil hlo hhi hqq'
      cases hv.symm.trans hw
      cases hv'.symm.trans hw'
      exact hle
    · obtain ⟨w, hw, hle, hge⟩ := hvalue q
      cases hv.symm.trans hw
      rw [hlo, hhi]
      exact ⟨WithTop.coe_le_coe.mpr hle, WithBot.coe_le_coe.mpr hge⟩
    · obtain ⟨c0, rest, hcentroids⟩ := List.exists_cons_of_ne_nil hnil
      unfold Digest.quantile
      dsimp only
      rw [hcentroids, t.min_process, hlo]
      exact if_pos hq
    · obtain ⟨c0, rest, hcentroids⟩ := List.exists_cons_of_ne_nil hnil
      unfold Digest.quantile
      dsimp only
      rw [hcentroids, t.max_process, hhi]
      dsimp only
      rw [if_neg (by linarith), if_pos hq]
      rfl

end Law

/-- **The structure and the quantiles of digests**: every digest that the operations make, where the digests
that are encoded fit, is in order after processing and has monotone quantiles between its extremes. -/
theorem reached_ordered [DigestConfig] [Flate] (t : Digest) (added : Multiset (ℚ × ℚ))
    (h : Reached Digest.Fits t added) : t.process.Ordered added ∧ QuantileLaw t :=
  ⟨h.sound.ordered, h.sound.quantileLaw⟩

/-! ### Small and large digests -/

/-- Data that DEFLATE does not make shorter. -/
instance storedFlate : Flate where
  shrinks _ := false

/-- Some values in two digests. -/
def fewValues : Digest :=
  ((((newTDigest 2).addWeighted 10 1).addWeighted 3 2).addWeighted 5 1).merge
    (((newTDigest 2).addWeighted 6 1).addWeighted 4 2)

theorem reached_fewValues :
    Reached Digest.Fits fewValues (0 + {(10, 1)} + {(3, 2)} + {(5, 1)} + (0 + {(6, 1)} + {(4, 2)})) :=
  .codec (.merge (.add 5 1 (by norm_num) (.add 3 2 (by norm_num) (.add 10 1 (by norm_num) (.new 2))))
    (.add 4 2 (by norm_num) (.add 6 1 (by norm_num) (.new 2)))) (by decide +kernel) (by decide +kernel)

/-- The middle values have been merged. -/
theorem ordered_fewValues : fewValues.centroids = [⟨3, 2⟩, ⟨13 / 3, 3⟩, ⟨6, 1⟩, ⟨10, 1⟩] ∧
    fewValues.process.Ordered (0 + {(10, 1)} + {(3, 2)} + {(5, 1)} + (0 + {(6, 1)} + {(4, 2)})) ∧
      QuantileLaw fewValues :=
  ⟨by decide +kernel, reached_ordered fewValues _ reached_fewValues⟩

/-- Centroids of weight one or more are not merged when the compression is as large as the total weight. -/
theorem mergeCentroids_eq_self {compression total weightBefore : ℚ} (htotal : total ≤ compression)
    (hpos : 0 < total) {cur : Centroid} {rest : List Centroid} (hone : ∀ c ∈ cur :: rest, 1 ≤ c.weight) :
    mergeCentroids compression total weightBefore cur rest = cur :: rest := by
  induction rest generalizing cur weightBefore with
  | nil => rfl
  | cons next rest ih =>
    obtain ⟨hcur, hrest⟩ := List.forall_mem_cons.mp hone
    have hnext := hrest next List.mem_cons_self
    have hlimit : ∀ q : ℚ, 4 * total * q * (1 - q) / compression ≤ 1 := by
      intro q
      rw [div_le_one (hpos.trans_le htotal)]
      have hsq := mul_nonneg hpos.le (sq_nonneg (2 * q - 1))
      linarith
    rw [mergeCentroids, if_neg, ih hrest]
    rintro (h | ⟨-, h⟩)
    · have := hlimit ((weightBefore + (cur.weight + next.weight) / 2) / total)
      linarith
    · linarith

/-- The first `n` values with their weights. -/
def manyValues [DigestConfig] (compression : ℚ) (values : ℕ → ℚ × ℚ) (n : ℕ) : Digest :=
  (List.range n).foldl (fun t i => t.addWeighted (values i).1 (values i).2) (newTDigest compression)

section Many

variable [DigestConfig] {compression bound : ℚ} {values : ℕ → ℚ × ℚ}

theorem manyValues_succ (n : ℕ) : manyValues compression values (n + 1) =
    (manyValues compression values n).addWeighted (values n).1 (values n).2 := by
  rw [manyValues, List.range_succ, List.foldl_append]
  rfl

theorem reached_manyValues [Flate] (hone : ∀ i, 1 ≤ (values i).2) (n : ℕ) :
    ∃ added, Reached (fun _ => True) (manyValues compression values n) added := by
  induction n with
  | zero => exact ⟨0, .new _⟩
  | succ n ih =>
    obtain ⟨added, h⟩ := ih
    rw [manyValues_succ]
    exact ⟨_, h.add _ _ (one_pos.trans_le (hone n))⟩

variable (hcompression : 1 < compression) (hone : ∀ i, 1 ≤ (values i).2) (hbound : ∀ i, (values i).2 ≤ bound)
include hcompression hone hbound

theorem manyValues_spec {n : ℕ} (hn : n ≤ compression) :
    (manyValues compression values n).compression = compression ∧
      (n ≤ (manyValues compression values n).count ∧ (manyValues compression values n).count ≤ n * bound) ∧
      (manyValues compression values n).centroids.length = n ∧
      (∀ c ∈ (manyValues compression values n).centroids, 1 ≤ c.weight) ∧
      (0 < n → (manyValues compression values n).processed = false) := by
  induction n with
  | zero =>
    refine ⟨if_neg (not_le.mpr hcompression), ⟨?_, ?_⟩, rfl, fun c hc => absurd hc List.not_mem_nil,
      fun h => absurd h (lt_irrefl 0)⟩
    · exact Nat.cast_zero.le
    · exact (by rw [Nat.cast_zero, zero_mul] : (0 : ℚ) ≤ ((0 : ℕ) : ℚ) * bound)
  | succ n ih =>
    have hsucc : (n : ℚ) + 1 ≤ compression := by exact_mod_cast hn
    obtain ⟨hsame, ⟨hlow, hhigh⟩, hlength, hweight, -⟩ := ih (by linarith)
    have hwn := hone n
    have hbn := hbound n
    rw [manyValues_succ]
    unfold Digest.addWeighted
    rw [if_neg (by linarith)]
    dsimp only
    rw [if_neg]
    · refine ⟨hsame, ⟨?_, ?_⟩, ?_, ?_, fun _ => rfl⟩
      · push_cast
        linarith
      · push_cast
        linarith
      · rw [List.length_append, hlength]
        rfl
      · exact List.forall_mem_append.mpr ⟨hweight, List.forall_mem_singleton.mpr hwn⟩
    · -- the buffer is bounded by eight times the compression
      have hfloor : (n : ℤ) + 1 ≤ ⌊8 * compression⌋ := by
        rw [Int.le_floor]
        push_cast
        linarith
      rw [hsame, List.length_append, hlength, List.length_singleton]
      push_cast
      omega

theorem length_process_manyValues {n : ℕ} (hpos : 0 < n) (hn : n ≤ compression)
    (htotal : n * bound ≤ compression) :
    (manyValues compression values n).process.centroids.length = n := by
  obtain ⟨hsame, ⟨hlow, hhigh⟩, hlength, hweight, hprocessed⟩ := manyValues_spec hcompression hone hbound hn
  have hperm := DigestConfig.perm (manyValues compression values n).centroids
  have hcount : 0 < (manyValues compression values n).count := (Nat.cast_pos.mpr hpos).trans_le hlow
  unfold Digest.process
  rw [hprocessed hpos, if_neg Bool.false_ne_true]
  cases hsort : DigestConfig.sortByMean (manyValues compression values n).centroids with
  | nil => exact hlength
  | cons cur rest =>
    rw [hsort] at hperm
    dsimp only
    rw [hsame, mergeCentroids_eq_self (hhigh.trans htotal) hcount
      fun c hc => hweight c (hperm.mem_iff.mp hc), hperm.length_eq, hlength]

/-- The number of centroids is stored in four bytes, so a digest with a multiple of `2 ^ 32` of them loses
them all, where its layout is stored as it is. -/
theorem not_ordered_manyValues [Flate] {n : ℕ} (hpos : 0 < n) (hn : n ≤ compression)
    (htotal : n * bound ≤ compression) (hmod : n % 2 ^ 32 = 0)
    (hstored : Flate.shrinks (manyValues compression values n).encodeRaw = false) :
    ∃ t added, Reached (fun _ => True) t added ∧ ¬t.process.Ordered added := by
  have hlength := length_process_manyValues hcompression hone hbound hpos hn htotal
  obtain ⟨hsame, ⟨hlow, -⟩, -⟩ := manyValues_spec hcompression hone hbound hn
  obtain ⟨added, hreached⟩ : ∃ added, Reached (fun _ => True) (manyValues compression values n) added :=
    reached_manyValues hone n
  have hraw : (manyValues compression values n).encode = .raw (manyValues compression values n).encodeRaw := by
    unfold Digest.encode compressTDigestBlob
    rw [hstored]
    exact ite_self _
  obtain ⟨t', hdecode⟩ : ∃ t', decodeTDigest (manyValues compression values n).encode = .ok t' := by
    rw [hraw]
    exact ⟨_, if_neg (not_lt.mpr (Nat.mod_le _ _))⟩
  have ht' := decodeTDigest_encode (by rw [hsame]; exact hcompression) hdecode
  rw [hlength, hmod, List.take_zero] at ht'
  refine ⟨t', added, .codec hreached trivial hdecode, fun hordered => ?_⟩
  have hweight := hordered.weight
  have hprocess : t'.process = t' := by
    rw [Digest.process, if_pos (by rw [ht'])]
  rw [hprocess, ht'] at hweight
  have hzero : (0 : ℚ) = (manyValues compression values n).process.count := hweight
  rw [Digest.count_process] at hzero
  exact absurd hzero ((Nat.cast_pos.mpr hpos).trans_le hlow).ne

end Many

/-- Sixty-four bits without a pattern: a multiplicative hash of a number. -/
def mixedBits (n : ℕ) : ℕ :=
  let z := n * 0x9E3779B97F4A7C15 % 2 ^ 64
  let z := (z ^^^ (z >>> 30)) * 0xBF58476D1CE4E5B9 % 2 ^ 64
  let z := (z ^^^ (z >>> 27)) * 0x94D049BB133111EB % 2 ^ 64
  z ^^^ (z >>> 31)

/-- The number of a `float64` with an exponent and 52 bits behind the leading one. -/
def floatValue (exponent fraction : ℕ) : ℚ := (2 ^ 52 + fraction) * 2 ^ exponent / 2 ^ 1075

/-- Means over the whole range of a `float64`, with weights below `2 ^ 900`: the bytes of their layout have
so little of a pattern that DEFLATE stores them. -/
def noisyValue (i : ℕ) : ℚ × ℚ :=
  let bits := 2 ^ 52 + i * (2046 * 2 ^ 20) + mixedBits (2 * i) % (2046 * 2 ^ 20)
  let noise := mixedBits (2 * i + 1)
  (floatValue (bits / 2 ^ 52) (bits % 2 ^ 52), floatValue (1023 + noise / 2 ^ 52 % 900) (noise % 2 ^ 52))

theorem noisyValue_weight (i : ℕ) : 1 ≤ (noisyValue i).2 ∧ (noisyValue i).2 ≤ 2 ^ 900 := by
  unfold noisyValue floatValue
  dsimp only
  generalize mixedBits (2 * i + 1) = noise
  have hexponent : noise / 2 ^ 52 % 900 ≤ 899 := Nat.le_of_lt_succ (Nat.mod_lt _ (by norm_num))
  generalize noise / 2 ^ 52 % 900 = e at hexponent
  have hfraction : ((noise % 2 ^ 52 : ℕ) : ℚ) ≤ 2 ^ 52 := by exact_mod_cast (Nat.mod_lt _ (by norm_num)).le
  have hnonneg : (0 : ℚ) ≤ (noise % 2 ^ 52 : ℕ) := Nat.cast_nonneg _
  have hlow : (1 : ℚ) ≤ 2 ^ e := one_le_pow₀ one_le_two
  have hhigh : (2 : ℚ) ^ e ≤ 2 ^ 899 := pow_le_pow_right₀ one_le_two hexponent
  have hsplit : (2 : ℚ) ^ 1075 = 2 ^ 52 * 2 ^ 1023 := by rw [← pow_add]
  rw [pow_add, hsplit, ← mul_assoc, mul_right_comm,
    mul_div_mul_right _ _ (pow_ne_zero _ two_ne_zero)]
  constructor
  · rw [le_div_iff₀ (by positivity), one_mul]
    nlinarith
  · have hdouble : (2 : ℚ) ^ 900 * 2 ^ 52 = (2 ^ 52 + 2 ^ 52) * 2 ^ 899 := by
      rw [pow_succ _ 899, ← two_mul]
      exact (mul_assoc _ _ _).trans (mul_comm _ _)
    rw [div_le_iff₀ (by positivity), hdouble]
    exact mul_le_mul (add_le_add_right hfraction _) hhigh (by positivity) (by positivity)

/-- With `2 ^ 32` such values the digest is read back without a centroid, by every DEFLATE that does not
shrink their layout. -/
theorem not_reached_ordered :
    (∀ [DigestConfig] [Flate],
      Flate.shrinks (manyValues (2 ^ 940) noisyValue (2 ^ 32)).encodeRaw = false →
        ¬∀ t added, Reached (fun _ => True) t added → t.process.Ordered added ∧ QuantileLaw t) ∧
    ¬∀ [DigestConfig] [Flate] t added,
      Reached (fun _ => True) t added → t.process.Ordered added ∧ QuantileLaw t := by
  have hnot : ∀ [DigestConfig] [Flate],
      Flate.shrinks (manyValues (2 ^ 940) noisyValue (2 ^ 32)).encodeRaw = false →
        ¬∀ t added, Reached (fun _ => True) t added → t.process.Ordered added ∧ QuantileLaw t := by
    intro config flate hstored h
    have hsmall : ((2 ^ 32 : ℕ) : ℚ) ≤ 2 ^ 40 := by norm_num
    have hcompression : (2 : ℚ) ^ 40 ≤ 2 ^ 940 := pow_le_pow_right₀ one_le_two (by norm_num)
    have htotal : ((2 ^ 32 : ℕ) : ℚ) * 2 ^ 900 ≤ 2 ^ 940 :=
      (mul_le_mul_of_nonneg_right hsmall (by positivity)).trans (pow_add (2 : ℚ) 40 900).ge
    have hone : (1 : ℚ) < 2 ^ 940 := (by norm_num : (1 : ℚ) < 2 ^ 40).trans_le hcompression
    obtain ⟨t, added, hreached, hnot⟩ := not_ordered_manyValues (n := 2 ^ 32) hone
      (fun i => (noisyValue_weight i).1) (fun i => (noisyValue_weight i).2) (by norm_num)
      (hsmall.trans hcompression) htotal (by norm_num) hstored
    exact hnot (h t added hreached).1
  exact ⟨hnot, fun h => @hnot insertionDigests storedFlate rfl (@h insertionDigests storedFlate)⟩

end Metric

end Komari
