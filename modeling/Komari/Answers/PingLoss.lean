import Komari.Answers.Groups
import Komari.Metric.Merge
import Mathlib.Algebra.Order.BigOperators.Group.List
import Mathlib.Tactic.FieldSimp
import Mathlib.Tactic.Ring

/-!
# The loss of pings

The loss of pings is not stored: it is computed from the summary of their latency, in which a negative value
is a loss.

* `virtualLoss` : the computed aggregates are those of the metric of its own, from the points and from buckets
  however they were merged; and the aggregates of the latency are those of the answers.
-/

namespace Komari

namespace Answers

open Metric

/-- Its value and time. -/
def Point.sample (p : Point) : Sample := ⟨p.timestamp, p.value⟩

/-- The points that a metric for the loss of pings would have. -/
def storedLossPoints (points : List Point) : List Point :=
  points.map fun p => { p with metricName := "ping.loss", value := if p.value < 0 then 1 else 0 }

/-- The points that are no losses. -/
def validPoints (points : List Point) : List Point := points.filter fun p => 0 ≤ p.value

/-- The number of points that are losses. -/
def lossesOf (points : List Point) : ℕ := points.countP fun p => p.value < 0

/-- The aggregations that are accepted, but for the rate. -/
def Aggregation.isSummary : Aggregation → Bool
  | .avg | .min | .max | .sum | .count | .first | .last | .stdDev | .percentile _ => true
  | .rate | .pingLoss _ | .other _ => false

variable {sqrt : ℚ → ℚ} {points : List Point}

/-! ### The value of a group -/

/-- A fold that keeps the value with the lesser key ends with the least one. -/
theorem leastBy_foldl {α : Type} [LinearOrder α] {key : ℚ → α} {least : ℚ → ℚ → ℚ}
    (hchoice : ∀ v w, least v w = v ∨ least v w = w)
    (hle : ∀ v w, key (least v w) ≤ key v ∧ key (least v w) ≤ key w) (v : ℚ) (points : List Point) :
    LeastBy key (points.foldl (fun v p => least v p.value) v)
      ((v :: points.map Point.value : List ℚ) : Multiset ℚ) := by
  induction points generalizing v with
  | nil => exact LeastBy.singleton
  | cons p points ih =>
    obtain ⟨hmem, hrest⟩ := ih (least v p.value)
    constructor
    · intro _
      have hin := Multiset.mem_coe.mp (hmem (by simp))
      rw [List.foldl_cons, Multiset.mem_coe, List.map_cons, List.mem_cons, List.mem_cons]
      rcases List.mem_cons.mp hin with heq | hin
      · rw [heq]
        exact (hchoice v p.value).imp_right .inl
      · exact .inr (.inr hin)
    · intro y hy
      have hfst := hrest (least v p.value) (Multiset.mem_coe.mpr List.mem_cons_self)
      rw [Multiset.mem_coe, List.map_cons, List.mem_cons, List.mem_cons] at hy
      rcases hy with rfl | rfl | hy
      · exact hfst.trans (hle y p.value).1
      · exact hfst.trans (hle v p.value).2
      · exact hrest y (Multiset.mem_coe.mpr (List.mem_cons_of_mem _ hy))

theorem aggregateValue_of_ne_nil (hne : points ≠ []) :
    aggregateValue sqrt points .avg = .ok (sumValues points / points.length) ∧
      aggregateValue sqrt points .sum = .ok (sumValues points) ∧
      aggregateValue sqrt points .count = .ok points.length ∧
      aggregateValue sqrt points .stdDev = .ok (stdDevPop sqrt points) ∧
      ∀ fraction, aggregateValue sqrt points (.percentile fraction) = .ok (percentile points fraction) := by
  cases points with
  | nil => exact absurd rfl hne
  | cons p rest => exact ⟨rfl, rfl, rfl, rfl, fun _ => rfl⟩

theorem aggregateValue_min {x : ℚ} (hne : points ≠ [])
    (h : LeastBy id x ((points.map Point.value : List ℚ) : Multiset ℚ)) :
    aggregateValue sqrt points .min = .ok x := by
  cases points with
  | nil => exact absurd rfl hne
  | cons p rest =>
    rw [aggregateValue]
    refine congrArg Except.ok (LeastBy.unique ?_ h (by simp) fun _ _ _ _ heq => heq)
    exact leastBy_foldl min_choice (fun v w => ⟨min_le_left v w, min_le_right v w⟩) p.value rest

theorem aggregateValue_max {x : ℚ} (hne : points ≠ [])
    (h : LeastBy OrderDual.toDual x ((points.map Point.value : List ℚ) : Multiset ℚ)) :
    aggregateValue sqrt points .max = .ok x := by
  cases points with
  | nil => exact absurd rfl hne
  | cons p rest =>
    rw [aggregateValue]
    refine congrArg Except.ok (LeastBy.unique ?_ h (by simp) fun _ _ _ _ heq => heq)
    exact leastBy_foldl max_choice (fun v w => ⟨le_max_left v w, le_max_right v w⟩) p.value rest

/-- Samples at different times are told apart by them. -/
theorem sample_inj (hsorted : points.Pairwise fun p q => p.timestamp < q.timestamp) :
    ∀ s ∈ ((points.map Point.sample : List Sample) : Multiset Sample),
      ∀ s' ∈ ((points.map Point.sample : List Sample) : Multiset Sample), s.ts = s'.ts → s = s' := by
  have hnodup : ((points.map Point.sample).map Sample.ts).Nodup := by
    rw [List.map_map, List.nodup_iff_pairwise_ne, List.pairwise_map]
    exact hsorted.imp fun hlt => hlt.ne
  intro s hs s' hs' heq
  exact List.inj_on_of_nodup_map hnodup (Multiset.mem_coe.mp hs) (Multiset.mem_coe.mp hs') heq

theorem aggregateValue_first {x : Sample} (hne : points ≠ [])
    (hsorted : points.Pairwise fun p q => p.timestamp < q.timestamp)
    (h : LeastBy Sample.ts x ((points.map Point.sample : List Sample) : Multiset Sample)) :
    aggregateValue sqrt points .first = .ok x.value := by
  cases points with
  | nil => exact absurd rfl hne
  | cons p rest =>
    have hleast : LeastBy Sample.ts p.sample (((p :: rest).map Point.sample : List Sample) : Multiset Sample) := by
      refine ⟨fun _ => Multiset.mem_coe.mpr List.mem_cons_self, fun s hs => ?_⟩
      rw [Multiset.mem_coe, List.map_cons, List.mem_cons] at hs
      rcases hs with rfl | hs
      · exact le_rfl
      · obtain ⟨q, hq, rfl⟩ := List.mem_map.mp hs
        exact ((List.pairwise_cons.mp hsorted).1 q hq).le
    have heq := hleast.unique h (by simp) (sample_inj hsorted)
    rw [← heq]
    rfl

theorem aggregateValue_getLast (hne : points ≠ []) :
    aggregateValue sqrt points .last = .ok (points.getLast hne).value := by
  cases points with
  | nil => exact absurd rfl hne
  | cons p rest => rw [aggregateValue, List.getLast_eq_getLastD]

theorem aggregateValue_last {x : Sample} (hne : points ≠ [])
    (hsorted : points.Pairwise fun p q => p.timestamp < q.timestamp)
    (h : LeastBy (OrderDual.toDual ∘ Sample.ts) x ((points.map Point.sample : List Sample) : Multiset Sample)) :
    aggregateValue sqrt points .last = .ok x.value := by
  have hleast : LeastBy (OrderDual.toDual ∘ Sample.ts) (points.getLast hne).sample
      ((points.map Point.sample : List Sample) : Multiset Sample) := by
    refine ⟨fun _ => Multiset.mem_coe.mpr (List.mem_map_of_mem (List.getLast_mem hne)), fun s hs => ?_⟩
    obtain ⟨q, hq, rfl⟩ := List.mem_map.mp (Multiset.mem_coe.mp hs)
    refine OrderDual.toDual_le_toDual.mpr ?_
    rw [← List.dropLast_append_getLast hne] at hsorted hq
    rcases List.mem_append.mp hq with hq | hq
    · exact ((List.pairwise_append.mp hsorted).2.2 q hq _ (List.mem_singleton_self _)).le
    · rw [List.mem_singleton.mp hq]
  have heq := hleast.unique h (by simpa using hne) fun s hs s' hs' hts =>
    sample_inj hsorted s hs s' hs' hts
  rw [aggregateValue_getLast hne, ← heq]
  rfl

/-! ### The deviation -/

theorem sum_sq_sub (values : List ℚ) (m : ℚ) :
    (values.map fun v => (v - m) * (v - m)).sum =
      (values.map fun v => v * v).sum - 2 * m * values.sum + m * m * values.length := by
  induction values with
  | nil => simp
  | cons v values ih =>
    rw [List.map_cons, List.sum_cons, ih, List.map_cons, List.sum_cons, List.sum_cons, List.length_cons,
      Nat.cast_succ]
    ring

theorem variance_eq {values : List ℚ} (hne : values ≠ []) :
    (values.map fun v => (v - values.sum / values.length) * (v - values.sum / values.length)).sum / values.length =
      (values.map fun v => v * v).sum / values.length -
        values.sum / values.length * (values.sum / values.length) := by
  have hlength : (values.length : ℚ) ≠ 0 := Nat.cast_ne_zero.mpr (List.length_pos_iff.mpr hne).ne'
  rw [sum_sq_sub]
  field_simp
  ring

theorem variance_nonneg (values : List ℚ) (m : ℚ) :
    0 ≤ (values.map fun v => (v - m) * (v - m)).sum / values.length := by
  refine div_nonneg (List.sum_nonneg fun x hx => ?_) (Nat.cast_nonneg _)
  obtain ⟨v, -, rfl⟩ := List.mem_map.mp hx
  exact mul_self_nonneg _

theorem variance_points_nonneg (hne : points ≠ []) :
    0 ≤ (points.map fun p => p.value * p.value).sum / points.length -
      sumValues points / points.length * (sumValues points / points.length) := by
  have hvalues : points.map Point.value ≠ [] := by simpa using hne
  have hnonneg := variance_nonneg (points.map Point.value)
    ((points.map Point.value).sum / (points.map Point.value).length)
  rw [variance_eq hvalues, List.map_map, List.length_map] at hnonneg
  exact hnonneg

theorem stdDevPop_eq (hne : points ≠ []) :
    stdDevPop sqrt points =
      sqrt ((points.map fun p => p.value * p.value).sum / points.length -
        sumValues points / points.length * (sumValues points / points.length)) := by
  have hvalues : points.map Point.value ≠ [] := by simpa using hne
  have hvariance := variance_eq hvalues
  rw [List.map_map, List.map_map, List.length_map] at hvariance
  exact congrArg sqrt hvariance

/-! ### The summary of the latency -/

section Latency

variable {D : Type} {b : RollupBucket D}

theorem validSamples_points (points : List Point) :
    validSamples sqliteMergedPingLatencyMetric ((points.map Point.sample : List Sample) : Multiset Sample) =
      (((validPoints points).map Point.sample : List Sample) : Multiset Sample) := by
  rw [validSamples, Multiset.filter_coe, List.filter_map, validPoints]
  congr 2
  refine List.filter_congr fun p _ => ?_
  rw [Bool.eq_iff_iff]
  simp [Sample.isLoss, Point.sample]
  exact decide_eq_true_iff

theorem card_lossSamples_points (points : List Point) :
    (lossSamples sqliteMergedPingLatencyMetric
      ((points.map Point.sample : List Sample) : Multiset Sample)).card = lossesOf points := by
  rw [lossSamples, Multiset.filter_coe, Multiset.coe_card, List.filter_map, List.length_map,
    ← List.countP_eq_length_filter, lossesOf]
  refine List.countP_congr fun p _ => ?_
  rw [Function.comp_apply, decide_eq_true_iff]
  simp [Sample.isLoss, Point.sample]
  exact decide_eq_true_iff

theorem count_eq {metricName : String}
    (h : Represents metricName b (points.map Point.sample : List Sample)) : b.count = points.length := by
  rw [h.count, Multiset.coe_card, List.length_map]

theorem lossCount_eq (h : Represents sqliteMergedPingLatencyMetric b (points.map Point.sample : List Sample)) :
    b.lossCount = lossesOf points := by
  rw [h.lossCount, card_lossSamples_points]

theorem validCount_eq (h : Represents sqliteMergedPingLatencyMetric b (points.map Point.sample : List Sample)) :
    b.count - b.lossCount = (validPoints points).length := by
  rw [h.valid, validSamples_points, Multiset.coe_card, List.length_map]

theorem sum_eq (h : Represents sqliteMergedPingLatencyMetric b (points.map Point.sample : List Sample)) :
    b.sum = sumValues (validPoints points) := by
  rw [h.sum, validSamples_points, Multiset.map_coe, Multiset.sum_coe, List.map_map]
  rfl

theorem sumSq_eq (h : Represents sqliteMergedPingLatencyMetric b (points.map Point.sample : List Sample)) :
    b.sumSq = ((validPoints points).map fun p => p.value * p.value).sum := by
  rw [h.sumSq, validSamples_points, Multiset.map_coe, Multiset.sum_coe, List.map_map]
  rfl

variable [QuantileDigest D]

variable {aggregation : Aggregation}

/-- The value of a summary is that of the points that it summarizes. -/
theorem bucketValue_summary {valid : List Point} (hvalid : b.count - b.lossCount = valid.length)
    (hsum : b.sum = sumValues valid) (hsumSq : b.sumSq = (valid.map fun p => p.value * p.value).sum)
    (hmin : LeastBy id b.min ((valid.map Point.value : List ℚ) : Multiset ℚ))
    (hmax : LeastBy OrderDual.toDual b.max ((valid.map Point.value : List ℚ) : Multiset ℚ))
    (hagg : aggregation ∈ [.avg, .sum, .min, .max, .stdDev]) :
    (bucketValue sqrt b aggregation).map .ok = some (aggregateValue sqrt valid aggregation) := by
  simp only [List.mem_cons, List.not_mem_nil, or_false] at hagg
  by_cases hne : valid = []
  · subst hne
    rw [List.length_nil] at hvalid
    have hzero : b.sum = 0 := hsum
    rcases hagg with rfl | rfl | rfl | rfl | rfl <;> simp [bucketValue, aggregateValue, hvalid, hzero]
  · have hlength := (List.length_pos_iff.mpr hne).ne'
    obtain ⟨havg, hsum', -, hdev, -⟩ := @aggregateValue_of_ne_nil sqrt _ hne
    rcases hagg with rfl | rfl | rfl | rfl | rfl
    · rw [bucketValue, hvalid, if_neg hlength, hsum, havg, Option.map_some]
    · rw [bucketValue, hsum, hsum', Option.map_some]
    · rw [bucketValue, hvalid, if_neg hlength, aggregateValue_min hne hmin, Option.map_some]
    · rw [bucketValue, hvalid, if_neg hlength, aggregateValue_max hne hmax, Option.map_some]
    · rw [bucketValue, hvalid, if_neg hlength, hdev, stdDevPop_eq hne, hsum, hsumSq]
      simp only
      rw [if_neg (not_lt.mpr (variance_points_nonneg hne)), Option.map_some]

/-- **The aggregates of the latency are those of the answers.** -/
theorem bucketValue_latency
    (h : Represents sqliteMergedPingLatencyMetric b (points.map Point.sample : List Sample))
    (hagg : aggregation ∈ [.avg, .sum, .min, .max, .stdDev]) :
    (bucketValue sqrt b aggregation).map .ok = some (aggregateValue sqrt (validPoints points) aggregation) := by
  have hmin := h.min
  have hmax := h.max
  rw [validSamples_points, Multiset.map_coe, List.map_map] at hmin hmax
  exact bucketValue_summary (validCount_eq h) (sum_eq h) (sumSq_eq h) hmin hmax hagg

/-- The count, the first and the last value are those of all samples. -/
theorem bucketValue_all {metricName : String}
    (hsorted : points.Pairwise fun p q => p.timestamp < q.timestamp)
    (h : Represents metricName b (points.map Point.sample : List Sample))
    (hblank : points = [] → b.firstVal = 0 ∧ b.lastVal = 0)
    (hagg : aggregation ∈ [.count, .first, .last]) :
    (bucketValue sqrt b aggregation).map .ok = some (aggregateValue sqrt points aggregation) := by
  have hcount := count_eq h
  simp only [List.mem_cons, List.not_mem_nil, or_false] at hagg
  by_cases hne : points = []
  · obtain ⟨hfirst, hlast⟩ := hblank hne
    rw [hne, List.length_nil] at hcount
    rw [hne]
    rcases hagg with rfl | rfl | rfl <;> simp [bucketValue, aggregateValue, hcount, hfirst, hlast]
  · rcases hagg with rfl | rfl | rfl
    · rw [bucketValue, hcount, (aggregateValue_of_ne_nil hne).2.2.1, Option.map_some]
    · rw [bucketValue, aggregateValue_first hne hsorted h.first, Option.map_some]
    · rw [bucketValue, aggregateValue_last hne hsorted h.last, Option.map_some]

end Latency

/-! ### The loss -/

section Loss

theorem storedLossPoints_values (points : List Point) :
    (storedLossPoints points).map Point.value = points.map fun p => if p.value < 0 then 1 else 0 := by
  rw [storedLossPoints, List.map_map]
  rfl

theorem sum_losses (points : List Point) :
    (points.map fun p => if p.value < 0 then (1 : ℚ) else 0).sum = lossesOf points := by
  induction points with
  | nil => rfl
  | cons p points ih =>
    rw [List.map_cons, List.sum_cons, ih, lossesOf, lossesOf, List.countP_cons]
    by_cases hneg : p.value < 0 <;> simp [hneg, add_comm]

theorem sumValues_storedLoss (points : List Point) : sumValues (storedLossPoints points) = lossesOf points := by
  rw [sumValues, storedLossPoints_values, sum_losses]

theorem sumSq_storedLoss (points : List Point) :
    ((storedLossPoints points).map fun p => p.value * p.value).sum = lossesOf points := by
  rw [← sum_losses, storedLossPoints, List.map_map]
  congr 1
  refine List.map_congr_left fun p _ => ?_
  by_cases hneg : p.value < 0 <;> simp [hneg]

theorem length_storedLossPoints (points : List Point) : (storedLossPoints points).length = points.length :=
  List.length_map _

theorem lossesOf_le (points : List Point) : lossesOf points ≤ points.length := List.countP_le_length

theorem leastBy_losses (points : List Point) :
    LeastBy id (if lossesOf points = points.length then (1 : ℚ) else 0)
      (((storedLossPoints points).map Point.value : List ℚ) : Multiset ℚ) := by
  rw [storedLossPoints_values]
  by_cases hall : lossesOf points = points.length
  · have hneg : ∀ p ∈ points, p.value < 0 := by
      intro p hp
      exact of_decide_eq_true (List.countP_eq_length.mp hall p hp)
    rw [if_pos hall]
    refine ⟨fun hne => ?_, fun y hy => ?_⟩
    · obtain ⟨p, hp⟩ := List.exists_mem_of_ne_nil points fun hnil => hne (by rw [hnil]; rfl)
      exact Multiset.mem_coe.mpr (List.mem_map.mpr ⟨p, hp, if_pos (hneg p hp)⟩)
    · obtain ⟨p, hp, rfl⟩ := List.mem_map.mp (Multiset.mem_coe.mp hy)
      rw [if_pos (hneg p hp)]
  · rw [if_neg hall]
    refine ⟨fun _ => ?_, fun y hy => ?_⟩
    · have hsome : ¬∀ p ∈ points, decide (p.value < 0) = true := fun hneg => hall (List.countP_eq_length.mpr hneg)
      push Not at hsome
      obtain ⟨p, hp, hnot⟩ := hsome
      refine Multiset.mem_coe.mpr (List.mem_map.mpr ⟨p, hp, if_neg fun hneg => ?_⟩)
      exact absurd (decide_eq_true hneg) hnot
    · obtain ⟨p, hp, rfl⟩ := List.mem_map.mp (Multiset.mem_coe.mp hy)
      show (0 : ℚ) ≤ if p.value < 0 then 1 else 0
      split_ifs <;> norm_num

theorem greatestBy_losses (points : List Point) :
    LeastBy OrderDual.toDual (if 0 < lossesOf points then (1 : ℚ) else 0)
      (((storedLossPoints points).map Point.value : List ℚ) : Multiset ℚ) := by
  rw [storedLossPoints_values]
  by_cases hsome : 0 < lossesOf points
  · rw [if_pos hsome]
    refine ⟨fun _ => ?_, fun y hy => ?_⟩
    · obtain ⟨p, hp, hneg⟩ := List.countP_pos_iff.mp hsome
      exact Multiset.mem_coe.mpr (List.mem_map.mpr ⟨p, hp, if_pos (of_decide_eq_true hneg)⟩)
    · obtain ⟨p, hp, rfl⟩ := List.mem_map.mp (Multiset.mem_coe.mp hy)
      refine OrderDual.toDual_le_toDual.mpr ?_
      split_ifs <;> norm_num
  · have hneg : ∀ p ∈ points, ¬p.value < 0 := by
      intro p hp hlt
      exact hsome (List.countP_pos_iff.mpr ⟨p, hp, decide_eq_true hlt⟩)
    rw [if_neg hsome]
    refine ⟨fun hne => ?_, fun y hy => ?_⟩
    · obtain ⟨p, hp⟩ := List.exists_mem_of_ne_nil points fun hnil => hne (by rw [hnil]; rfl)
      exact Multiset.mem_coe.mpr (List.mem_map.mpr ⟨p, hp, if_neg (hneg p hp)⟩)
    · obtain ⟨p, hp, rfl⟩ := List.mem_map.mp (Multiset.mem_coe.mp hy)
      rw [if_neg (hneg p hp)]

theorem sortOn_losses (points : List Point) :
    sortOn id ((storedLossPoints points).map Point.value) =
      List.replicate (points.length - lossesOf points) 0 ++ List.replicate (lossesOf points) 1 := by
  have hperm : ((storedLossPoints points).map Point.value).Perm
      (List.replicate (points.length - lossesOf points) 0 ++ List.replicate (lossesOf points) 1) := by
    rw [storedLossPoints_values]
    induction points with
    | nil => exact List.Perm.refl _
    | cons p points ih =>
      have hle := lossesOf_le points
      by_cases hneg : p.value < 0
      · have hloss : lossesOf (p :: points) = lossesOf points + 1 := by simp [lossesOf, hneg]
        rw [hloss, List.map_cons, if_pos hneg, List.length_cons, Nat.add_sub_add_right, List.replicate_succ]
        exact (ih.cons 1).trans List.perm_middle.symm
      · have hloss : lossesOf (p :: points) = lossesOf points := by simp [lossesOf, hneg]
        rw [hloss, List.map_cons, if_neg hneg, List.length_cons, Nat.sub_add_comm hle, List.replicate_succ]
        exact ih.cons 0
  have htotal : Std.Total fun a b : ℚ => id a ≤ id b := ⟨fun a b => le_total a b⟩
  have htrans : IsTrans ℚ fun a b => id a ≤ id b := ⟨fun _ _ _ h₁ h₂ => le_trans h₁ h₂⟩
  refine ((sortOn_perm id _).trans hperm).eq_of_pairwise (fun a b _ _ h₁ h₂ => le_antisymm h₁ h₂)
    (List.pairwise_insertionSort _ _) ?_
  refine List.pairwise_append.mpr ⟨List.pairwise_replicate.mpr (.inr le_rfl),
    List.pairwise_replicate.mpr (.inr le_rfl), fun a ha b hb => ?_⟩
  rw [List.eq_of_mem_replicate ha, List.eq_of_mem_replicate hb]
  exact zero_le_one

theorem getD_losses {zeros losses i : ℕ} (h : i < zeros + losses) :
    (List.replicate zeros (0 : ℚ) ++ List.replicate losses 1).getD i 0 = if zeros ≤ i then 1 else 0 := by
  rw [List.getD_eq_getElem?_getD]
  split_ifs with hle
  · rw [List.getElem?_append_right (by simpa using hle), List.length_replicate,
      List.getElem?_replicate_of_lt (by omega), Option.getD_some]
  · have hlt : i < zeros := not_le.mp hle
    rw [List.getElem?_append_left (by simpa using hlt), List.getElem?_replicate_of_lt hlt, Option.getD_some]

/-- **The percentiles of zeros and ones** are computed from their numbers. -/
theorem percentile_storedLoss (points : List Point) (fraction : Fraction) :
    percentile (storedLossPoints points) fraction =
      pingLossPercentile points.length (lossesOf points) fraction := by
  obtain ⟨f, hpos, hlt⟩ := fraction
  have hle := lossesOf_le points
  rw [percentile, sortOn_losses, percentileSorted, pingLossPercentile, List.length_append, List.length_replicate,
    List.length_replicate, Nat.sub_add_cancel hle]
  by_cases hzero : points.length = 0
  · rw [if_pos hzero, if_pos hzero]
  rw [if_neg hzero, if_neg hzero]
  have hn : (0 : ℚ) ≤ (points.length - 1 : ℕ) := Nat.cast_nonneg _
  have hposition : f * (points.length - 1 : ℕ) ≤ ((points.length - 1 : ℕ) : ℤ) := by
    have hmul := mul_le_mul_of_nonneg_right hlt.le hn
    rw [one_mul] at hmul
    exact_mod_cast hmul
  have hupper : ⌈f * (points.length - 1 : ℕ)⌉.toNat < points.length - lossesOf points + lossesOf points := by
    have hceil := Int.ceil_le.mpr hposition
    omega
  have hlower : ⌊f * (points.length - 1 : ℕ)⌋.toNat < points.length - lossesOf points + lossesOf points := by
    have hfloor := Int.floor_le_ceil (f * (points.length - 1 : ℕ))
    omega
  simp only [getD_losses hupper, getD_losses hlower]
  have hfst : (List.replicate (points.length - lossesOf points) (0 : ℚ) ++
      List.replicate (lossesOf points) 1).getD 0 0 = if points.length - lossesOf points ≤ 0 then 1 else 0 :=
    getD_losses (by omega)
  rw [hfst]
  by_cases hnone : lossesOf points = 0
  · have hnot : ∀ i, i < points.length → ¬points.length - lossesOf points ≤ i := fun i hi => by omega
    rw [Nat.sub_add_cancel hle] at hupper hlower
    rw [if_pos hnone, if_neg (hnot 0 (by omega)), if_neg (hnot _ hupper), if_neg (hnot _ hlower)]
    simp
  · rw [if_neg hnone]
    by_cases hall : points.length ≤ lossesOf points
    · have hyes : ∀ i, points.length - lossesOf points ≤ i := fun i => by omega
      rw [if_pos hall, if_pos (hyes _), if_pos (hyes _), if_pos (hyes _)]
      simp
    · rw [if_neg hall, if_neg (by omega)]
      split_ifs <;> ring

theorem first_storedLoss {v : ℚ} (hne : points ≠ []) (h : aggregateValue sqrt points .first = .ok v) :
    aggregateValue sqrt (storedLossPoints points) .first = .ok (if v < 0 then 1 else 0) := by
  cases points with
  | nil => exact absurd rfl hne
  | cons p rest =>
    obtain rfl := Except.ok.inj h
    rfl

theorem last_storedLoss {v : ℚ} (hne : points ≠ []) (h : aggregateValue sqrt points .last = .ok v) :
    aggregateValue sqrt (storedLossPoints points) .last = .ok (if v < 0 then 1 else 0) := by
  have hstored : storedLossPoints points ≠ [] := by simpa [storedLossPoints] using hne
  rw [aggregateValue_getLast hne] at h
  obtain rfl := Except.ok.inj h
  rw [aggregateValue_getLast hstored]
  simp only [storedLossPoints, List.getLast_map]

variable {D : Type} [QuantileDigest D] {b : RollupBucket D}

/-- **The loss from the summary of the latency is that of a metric of its own.** -/
theorem bucketValue_loss (hsorted : points.Pairwise fun p q => p.timestamp < q.timestamp)
    (h : Represents sqliteMergedPingLatencyMetric b (points.map Point.sample : List Sample))
    {aggregation : Aggregation} (hagg : aggregation.isSummary = true) :
    (bucketValue sqrt b aggregation.pingLossPhysicalAggregation).map .ok =
      some (aggregateValue sqrt (storedLossPoints points) aggregation) := by
  have hcount := count_eq h
  have hloss := lossCount_eq h
  by_cases hne : points = []
  · subst hne
    have hzero : lossesOf [] = 0 := rfl
    rw [List.length_nil] at hcount
    rw [hzero] at hloss
    cases aggregation <;> cases hagg
    all_goals simp [Aggregation.pingLossPhysicalAggregation, bucketValue, pingLossValue, pingLossPercentile,
      hcount, hloss, storedLossPoints, aggregateValue]
  · have hlength := List.length_pos_iff.mpr hne
    have hstored : storedLossPoints points ≠ [] := by simpa [storedLossPoints] using hne
    obtain ⟨havg, hsum, hlen, hdev, hpercentile⟩ := @aggregateValue_of_ne_nil sqrt _ hstored
    cases aggregation with
    | avg =>
      rw [havg, sumValues_storedLoss, length_storedLossPoints, Aggregation.pingLossPhysicalAggregation, bucketValue,
        pingLossValue, hcount, hloss, if_neg hlength.ne', Option.map_some]
    | min =>
      rw [aggregateValue_min hstored (leastBy_losses points), Aggregation.pingLossPhysicalAggregation, bucketValue,
        pingLossValue, hcount, hloss, Option.map_some]
      simp only [hlength, true_and]
    | max =>
      rw [aggregateValue_max hstored (greatestBy_losses points), Aggregation.pingLossPhysicalAggregation, bucketValue,
        pingLossValue, hloss, Option.map_some]
    | sum =>
      rw [hsum, sumValues_storedLoss, Aggregation.pingLossPhysicalAggregation, bucketValue, pingLossValue, hloss,
        Option.map_some]
    | count =>
      rw [hlen, length_storedLossPoints, Aggregation.pingLossPhysicalAggregation, bucketValue, hcount,
        Option.map_some]
      all_goals simp
    | first =>
      rw [first_storedLoss hne (aggregateValue_first hne hsorted h.first), Aggregation.pingLossPhysicalAggregation,
        bucketValue, pingLossValue, hcount, Option.map_some]
      simp only [hlength, true_and]
    | last =>
      rw [last_storedLoss hne (aggregateValue_last hne hsorted h.last), Aggregation.pingLossPhysicalAggregation,
        bucketValue, pingLossValue, hcount, Option.map_some]
      simp only [hlength, true_and]
    | stdDev =>
      rw [hdev, stdDevPop_eq hstored, sumSq_storedLoss, sumValues_storedLoss, length_storedLossPoints,
        Aggregation.pingLossPhysicalAggregation, bucketValue, pingLossValue, hcount, hloss, if_neg hlength.ne',
        Option.map_some, mul_sub, mul_one]
    | percentile fraction =>
      rw [hpercentile, percentile_storedLoss, Aggregation.pingLossPhysicalAggregation, bucketValue, pingLossValue,
        hcount, hloss, Option.map_some]
    | rate => cases hagg
    | pingLoss loss => cases hagg
    | other name => cases hagg

/-- The loss from the points is that of a metric of its own. -/
theorem aggregateMetricValue_loss (points : List Point) {aggregation : Aggregation}
    (hagg : aggregation.isSummary = true) :
    aggregateMetricValue sqrt points aggregation.pingLossPhysicalAggregation =
      aggregateValue sqrt (storedLossPoints points) aggregation := by
  cases points with
  | nil => cases aggregation <;> rfl
  | cons p rest =>
    cases aggregation with
    | count => simp [Aggregation.pingLossPhysicalAggregation, aggregateMetricValue, aggregateValue, storedLossPoints]
    | rate => cases hagg
    | pingLoss loss => cases hagg
    | other name => cases hagg
    | _ => rfl

theorem pairwise_sortedPoints (hts : (points.map Point.timestamp).Nodup) :
    (sortedPoints points).Pairwise fun p q => p.timestamp < q.timestamp := by
  have htotal : Std.Total fun p q : Point => p.timestamp ≤ q.timestamp := ⟨fun p q => le_total _ _⟩
  have htrans : IsTrans Point fun p q => p.timestamp ≤ q.timestamp := ⟨fun _ _ _ h₁ h₂ => le_trans h₁ h₂⟩
  have hle : (sortedPoints points).Pairwise fun p q => p.timestamp ≤ q.timestamp := List.pairwise_insertionSort _ _
  have hne : (sortedPoints points).Pairwise fun p q => p.timestamp ≠ q.timestamp :=
    List.pairwise_map.mp (((sortOn_perm Point.timestamp points).map Point.timestamp).nodup_iff.mpr hts)
  exact hle.imp₂ (fun _ _ h₁ h₂ => lt_of_le_of_ne h₁ h₂) hne

end Loss

/-- **The loss of pings that is computed from their latency is that of a metric of its own**: for all aggregations
but the rate, from buckets of any parts and from the points; and the aggregates of the latency are those of the
answers, but for the percentiles. -/
theorem virtualLoss (D : Type) [QuantileDigest D] (sqrt : ℚ → ℚ) (points : List Point)
    (hts : (points.map Point.timestamp).Nodup) (tree : MergeTree)
    (htree : tree.samples.Perm (points.map Point.sample)) :
    (∀ aggregation : Aggregation, aggregation.isSummary = true →
      (bucketValue sqrt (tree.bucket D sqliteMergedPingLatencyMetric)
          aggregation.pingLossPhysicalAggregation).map .ok =
          some (aggregateValue sqrt (sortedPoints (storedLossPoints points)) aggregation) ∧
        aggregateMetricValue sqrt (sortedPoints points) aggregation.pingLossPhysicalAggregation =
          aggregateValue sqrt (sortedPoints (storedLossPoints points)) aggregation) ∧
      (∀ aggregation ∈ [Aggregation.avg, .sum, .min, .max, .stdDev],
        (bucketValue sqrt (tree.bucket D sqliteMergedPingLatencyMetric) aggregation).map .ok =
          some (aggregateValue sqrt (validPoints (sortedPoints points)) aggregation)) ∧
      ∀ aggregation ∈ [Aggregation.count, .first, .last],
        (bucketValue sqrt (tree.bucket D sqliteMergedPingLatencyMetric) aggregation).map .ok =
          some (aggregateValue sqrt (sortedPoints points) aggregation) := by
  have hsorted := pairwise_sortedPoints hts
  have hperm : tree.samples.Perm ((sortedPoints points).map Point.sample) :=
    htree.trans ((sortOn_perm Point.timestamp points).map Point.sample).symm
  have hsummary := @MergeTree.summary D _ sqliteMergedPingLatencyMetric tree
  have hrep := hsummary.represents
  rw [Multiset.coe_eq_coe.mpr hperm] at hrep
  have hloss : sortedPoints (storedLossPoints points) = storedLossPoints (sortedPoints points) :=
    sortOn_map (fun _ => rfl) points
  refine ⟨fun aggregation hagg => ?_, fun aggregation hagg => bucketValue_latency hrep hagg,
    fun aggregation hagg => bucketValue_all hsorted hrep (fun hnil => ?_) hagg⟩
  · rw [hloss]
    exact ⟨bucketValue_loss hsorted hrep hagg, aggregateMetricValue_loss _ hagg⟩
  · rw [hnil, List.map_nil] at hperm
    have hblank := hsummary.blank hperm.eq_nil
    have hfirst := congrArg RollupBucket.firstVal hblank
    have hlast := congrArg RollupBucket.lastVal hblank
    exact ⟨hfirst, hlast⟩

def pings : List Point :=
  [⟨sqliteMergedPingLatencyMetric, "node", 30, 4, []⟩, ⟨sqliteMergedPingLatencyMetric, "node", 10, 7, []⟩,
    ⟨sqliteMergedPingLatencyMetric, "node", 20, -1, []⟩]

/-- Half of the way to the upper end of a zero, a zero and a one is a zero. -/
theorem virtualLoss_pings :
    (bucketValue id ((MergeTree.node (.leaf true [⟨20, -1⟩]) (.leaf false [⟨10, 7⟩, ⟨30, 4⟩])).bucket (List ℚ)
        sqliteMergedPingLatencyMetric) (.pingLoss (.percentile ⟨1 / 2, by norm_num⟩))).map
          (Except.ok : ℚ → Except String ℚ) =
      some (aggregateValue id (sortedPoints (storedLossPoints pings)) (.percentile ⟨1 / 2, by norm_num⟩)) :=
  ((virtualLoss (List ℚ) id pings (by decide) _ (by decide)).1 (.percentile ⟨1 / 2, by norm_num⟩) rfl).1

end Answers

end Komari
