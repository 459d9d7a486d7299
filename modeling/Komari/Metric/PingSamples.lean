import Mathlib.Data.List.MinMax
import Mathlib.Tactic.Order
import Komari.Answers.Raw
import Komari.Metric.Merge
import Komari.Metric.PingMerge

/-!
# The samples of the ping series

Older stores fold each sample of a ping task into two buckets: its value into that of the latency, and 0
or 1 into that of the loss.
-/

namespace Komari

namespace Metric

open Answers

/-! ### First and last samples -/

section Ends

variable {σ α : Type*} [LinearOrder α] {key : σ → α} {x y : σ} {l l' : List σ}

/-- Of two first least elements the one with the lesser key is the first least element of both. -/
theorem argmin_append_of_some (hx : l.argmin key = some x) (hy : l'.argmin key = some y) :
    (l ++ l').argmin key = some (if key y < key x then y else x) := by
  induction l' using List.reverseRecOn generalizing y with
  | nil => cases hy
  | append_singleton l' a ih =>
    rw [← List.append_assoc, List.argmin_concat]
    rw [List.argmin_concat] at hy
    cases hl : l'.argmin key with
    | none =>
      rw [hl] at hy
      cases hy
      rw [List.argmin_eq_none.mp hl, List.append_nil, hx]
      dsimp only
      split_ifs <;> rfl
    | some z =>
      rw [hl] at hy
      rw [ih hl]
      dsimp only at hy ⊢
      rw [← apply_ite some] at hy ⊢
      obtain rfl := Option.some.inj hy
      congr 1
      -- where all keys are compared, the order decides
      split_ifs <;> first | rfl | (exfalso; order)

/-- The first least element of a list, when there is one. -/
theorem argmin_append {p : Prop} [Decidable p] (hx : l ≠ [] → l.argmin key = some x)
    (hy : l' ≠ [] → l'.argmin key = some y) (hp : p ↔ l' ≠ [] ∧ (l = [] ∨ key y < key x))
    (hne : l ++ l' ≠ []) : (l ++ l').argmin key = some (if p then y else x) := by
  by_cases hl' : l' = []
  · subst hl'
    rw [List.append_nil] at hne ⊢
    rw [if_neg fun h => (hp.mp h).1 rfl]
    exact hx hne
  · by_cases hl : l = []
    · subst hl
      rw [if_pos (hp.mpr ⟨hl', Or.inl rfl⟩)]
      exact hy hl'
    · rw [argmin_append_of_some (hx hl) (hy hl')]
      have hiff : p ↔ key y < key x := by
        rw [hp, and_iff_right hl', or_iff_right hl]
      simp only [hiff]

/-- The bucket has the first of the earliest samples, and the first of the latest ones. -/
structure Ends {D : Type} (b : RollupBucket D) (samples : List Sample) : Prop where
  count : b.count = samples.length
  first : samples ≠ [] → samples.argmin Sample.ts = some ⟨b.firstTS, b.firstVal⟩
  last : samples ≠ [] → samples.argmin (OrderDual.toDual ∘ Sample.ts) = some ⟨b.lastTS, b.lastVal⟩

variable {D : Type} {b o : RollupBucket D} {samples samples' : List Sample}

theorem Ends.count_eq_zero_iff (h : Ends b samples) : b.count = 0 ↔ samples = [] := by
  rw [h.count, List.length_eq_zero_iff]

/-- The ends do not depend on the digest and the sums. -/
theorem Ends.congr (h : Ends b samples) (hcount : o.count = b.count) (hfirst : o.firstTS = b.firstTS)
    (hfirstVal : o.firstVal = b.firstVal) (hlast : o.lastTS = b.lastTS) (hlastVal : o.lastVal = b.lastVal) :
    Ends o samples := by
  refine ⟨hcount.trans h.count, ?_, ?_⟩
  · rw [hfirst, hfirstVal]
    exact h.first
  · rw [hlast, hlastVal]
    exact h.last

variable [TDigest D]

theorem ends_new (includeDigest : Bool) : Ends (RollupBucket.new includeDigest : RollupBucket D) [] :=
  ⟨rfl, fun h => absurd rfl h, fun h => absurd rfl h⟩

theorem Ends.addPoint (h : Ends b samples) (value : ℚ) (ts : ℤ) :
    Ends (b.addPoint value ts) (samples ++ [⟨ts, value⟩]) := by
  refine ⟨?_, fun hne => ?_, fun hne => ?_⟩
  · rw [RollupBucket.addPoint, List.length_append, h.count]
    rfl
  · rw [RollupBucket.addPoint, Sample.mk_ite]
    refine argmin_append h.first (fun _ => rfl) ?_ hne
    rw [h.count_eq_zero_iff]
    simp
  · rw [RollupBucket.addPoint, Sample.mk_ite]
    refine argmin_append h.last (fun _ => rfl) ?_ hne
    rw [h.count_eq_zero_iff]
    simp

/-- The sentinels of the merged series count as first and last samples. -/
theorem Ends.addMetricPoint (h : Ends b samples) (metricName : String) (value : ℚ) (ts : ℤ) :
    Ends (b.addMetricPoint metricName value ts) (samples ++ [⟨ts, value⟩]) := by
  have hadd := h.addPoint value ts
  by_cases hname : metricName = sqliteMergedPingLatencyMetric
  · rw [RollupBucket.addMetricPoint, if_neg (not_not.mpr hname)]
    dsimp only
    by_cases hneg : value < 0
    · rw [if_pos hneg]
      exact hadd.congr rfl rfl rfl rfl rfl
    · rw [if_neg hneg]
      exact hadd.congr rfl rfl rfl rfl rfl
  · rw [RollupBucket.addMetricPoint, if_pos hname]
    exact hadd

theorem Ends.mergeStored (h : Ends b samples) (h' : Ends o samples') :
    Ends (b.mergeStored o) (samples ++ samples') := by
  unfold RollupBucket.mergeStored
  by_cases hzero : o.count = 0
  · rw [if_pos hzero, h'.count_eq_zero_iff.mp hzero, List.append_nil]
    exact h
  · rw [if_neg hzero]
    have hne : samples' ≠ [] := fun hnil => hzero (h'.count_eq_zero_iff.mpr hnil)
    refine ⟨?_, fun hall => ?_, fun hall => ?_⟩
    · rw [List.length_append, ← h.count, ← h'.count]
    · dsimp only
      rw [Sample.mk_ite]
      refine argmin_append h.first h'.first ?_ hall
      rw [h.count_eq_zero_iff, and_iff_right hne]
    · dsimp only
      rw [Sample.mk_ite]
      refine argmin_append h.last h'.last ?_ hall
      rw [h.count_eq_zero_iff, and_iff_right hne]
      rfl

theorem ends_foldSamples (metricName : String) (includeDigest : Bool) (samples : List Sample) :
    Ends (foldSamples D metricName includeDigest samples) samples := by
  induction samples using List.reverseRecOn with
  | nil => exact ends_new includeDigest
  | append_singleton samples s ih =>
    rw [foldSamples, List.foldl_append]
    exact ih.addMetricPoint metricName s.value s.ts

end Ends

/-! ### What the older code wrote -/

/-- A sample of a probe: an answer, or the sentinel of a loss. -/
abbrev PingSample := {s : Sample // s.value = -1 ∨ 0 ≤ s.value}

/-- The samples of the latency series. -/
def latencySamples (samples : List PingSample) : List Sample := samples.map Subtype.val

/-- The samples of the loss series, which are written with them. -/
def lossSeries (samples : List PingSample) : List Sample :=
  samples.map fun s => ⟨s.1.ts, lossValue s.1.value⟩

/-- How many pings were lost. -/
def losses (samples : List PingSample) : ℕ := samples.countP fun s => s.1.value < 0

/-- The latencies of the others. -/
def answers (samples : List PingSample) : List ℚ :=
  (samples.map fun s => s.1.value).filter fun v => 0 ≤ v

section Samples

variable (samples : List PingSample)

theorem length_answers : losses samples + (answers samples).length = samples.length := by
  induction samples with
  | nil => rfl
  | cons s samples ih =>
    unfold losses answers at *
    rcases s.2 with h | h
    · simp [h] at ih ⊢
      omega
    · simp [h, not_lt.mpr h] at ih ⊢
      omega

theorem sum_latencySamples :
    ((latencySamples samples).map Sample.value).sum = (answers samples).sum - losses samples := by
  induction samples with
  | nil => simp [latencySamples, answers, losses]
  | cons s samples ih =>
    unfold latencySamples losses answers at *
    rcases s.2 with h | h
    · simp [h] at ih ⊢
      linarith
    · simp [h, not_lt.mpr h] at ih ⊢
      linarith

theorem sum_sq_latencySamples :
    ((latencySamples samples).map fun s => s.value * s.value).sum =
      ((answers samples).map fun v => v * v).sum + losses samples := by
  induction samples with
  | nil => simp [latencySamples, answers, losses]
  | cons s samples ih =>
    unfold latencySamples losses answers at *
    rcases s.2 with h | h
    · simp [h] at ih ⊢
      linarith
    · simp [h, not_lt.mpr h] at ih ⊢
      linarith

theorem sum_lossSeries : ((lossSeries samples).map Sample.value).sum = losses samples := by
  induction samples with
  | nil => simp [lossSeries, losses]
  | cons s samples ih =>
    unfold lossSeries losses at *
    rcases s.2 with h | h
    · simp [h, lossValue] at ih ⊢
      linarith
    · simp [not_lt.mpr h, lossValue] at ih ⊢
      exact ih

theorem sum_sq_lossSeries :
    ((lossSeries samples).map fun s => s.value * s.value).sum = losses samples := by
  rw [← sum_lossSeries, lossSeries, List.map_map, List.map_map]
  congr 2
  funext s
  simp [lossValue]

/-- The sentinels and the latencies of the merged series. -/
theorem validSamples_latencySamples :
    (validSamples sqliteMergedPingLatencyMetric (latencySamples samples)).map Sample.value =
      (answers samples : Multiset ℚ) := by
  rw [validSamples, Multiset.filter_coe, Multiset.map_coe, latencySamples, answers, List.filter_map,
    List.filter_map, List.map_map]
  congr 3
  funext s
  simp [Sample.isLoss]

theorem card_lossSamples_latencySamples :
    (lossSamples sqliteMergedPingLatencyMetric (latencySamples samples)).card = losses samples := by
  rw [lossSamples, Multiset.filter_coe, Multiset.coe_card, latencySamples, List.filter_map,
    List.length_map, losses, List.countP_eq_length_filter]
  congr 2
  funext s
  simp [Sample.isLoss]

theorem validSamples_eq_self {metricName : String} (h : metricName ≠ sqliteMergedPingLatencyMetric)
    (m : Multiset Sample) : validSamples metricName m = m := by
  refine Multiset.filter_eq_self.mpr fun s _ => ?_
  simp [Sample.isLoss, h]

/-- All values of the latency series are at least the sentinel. -/
theorem le_value (v : ℚ) (hv : v ∈ (latencySamples samples).map Sample.value) : -1 ≤ v := by
  obtain ⟨s, hs, rfl⟩ := List.mem_map.mp hv
  obtain ⟨p, -, rfl⟩ := List.mem_map.mp hs
  rcases p.2 with h | h <;> linarith

theorem count_sentinel :
    (((latencySamples samples).map Sample.value : List ℚ) : Multiset ℚ).count (-1) = losses samples := by
  rw [Multiset.coe_count, latencySamples, List.map_map, List.count, List.countP_map, losses]
  refine List.countP_congr fun s _ => ?_
  rcases s.2 with h | h
  · simp [h]
  · simp only [Function.comp_apply, beq_iff_eq, decide_eq_true_eq]
    constructor <;> intro <;> linarith

theorem mem_answers {v : ℚ} (hv : v ∈ (latencySamples samples).map Sample.value) (hne : v ≠ -1) :
    v ∈ answers samples := by
  obtain ⟨s, hs, rfl⟩ := List.mem_map.mp hv
  obtain ⟨p, hp, rfl⟩ := List.mem_map.mp hs
  refine List.mem_filter.mpr ⟨List.mem_map_of_mem hp, ?_⟩
  simpa using p.2.resolve_left hne

end Samples

variable {samples : List PingSample}

theorem mem_answers_of_losses (hzero : losses samples = 0) {v : ℚ}
    (hv : v ∈ (latencySamples samples).map Sample.value) : v ∈ answers samples := by
  refine mem_answers samples hv fun hone => ?_
  have hcount := count_sentinel samples
  rw [hzero, Multiset.count_eq_zero, Multiset.mem_coe] at hcount
  exact hcount (hone ▸ hv)

theorem nonneg_of_mem_answers {v : ℚ} (hv : v ∈ answers samples) : 0 ≤ v := by
  simpa using (List.mem_filter.mp hv).2

/-! ### Buckets of the older code -/

variable [DigestConfig]

/-- The stored row, decoded again: `Encode` processes the digest, and one without samples is not stored. -/
def RollupBucket.encoded (b : RollupBucket Digest) : RollupBucket Digest :=
  { b with digest := (b.digest.filter fun d => 0 < d.count).map Digest.process }

/-- The buckets of the latency and of the loss that the older code makes of the samples. -/
inductive Folded : List PingSample → RollupBucket Digest → RollupBucket Digest → Prop
  | new (d d' : Bool) : Folded [] (RollupBucket.new d) (RollupBucket.new d')
  | add {samples b o} (s : PingSample) : Folded samples b o →
      Folded (samples ++ [s]) (b.addPoint s.1.value s.1.ts) (o.addPoint (lossValue s.1.value) s.1.ts)
  | merge {samples samples' b o b' o'} : Folded samples b o → Folded samples' b' o' →
      Folded (samples ++ samples') (b.mergeStored b') (o.mergeStored o')
  | process {samples b o} : Folded samples b o →
      Folded samples { b with digest := b.digest.map Digest.process } o
  | processLoss {samples b o} : Folded samples b o →
      Folded samples b { o with digest := o.digest.map Digest.process }
  | stored {samples b o} : Folded samples b o → Folded samples b.encoded o.encoded

/-- What the digest of a bucket stands for: some of the values, since a bucket without a digest may have
been merged with one that has it. -/
def DigestOf (digest : Option Digest) (values : Multiset ℚ) : Prop :=
  ∀ d, digest = some d → ∃ part ≤ values, d.Sketches part

/-- The buckets are those of the samples. -/
structure PairOf (samples : List PingSample) (b o : RollupBucket Digest) : Prop where
  latency : Summary sqliteVirtualPingLossMetric b (latencySamples samples)
  loss : Summary sqliteVirtualPingLossMetric o (lossSeries samples)
  ends : Ends b (latencySamples samples)
  digest : DigestOf b.digest ((latencySamples samples).map Sample.value : List ℚ)

section DigestOf

variable {digest digest' : Option Digest} {values values' : Multiset ℚ}

theorem DigestOf.process (h : DigestOf digest values) : DigestOf (digest.map Digest.process) values := by
  intro d hd
  obtain ⟨e, he, rfl⟩ := Option.map_eq_some_iff.mp hd
  obtain ⟨part, hle, hpart⟩ := h e he
  exact ⟨part, hle, hpart.process⟩

theorem DigestOf.add (h : DigestOf digest values) (x : ℚ) :
    DigestOf (digest.map (TDigest.add · x)) (values + {x}) := by
  intro d hd
  obtain ⟨e, he, rfl⟩ := Option.map_eq_some_iff.mp hd
  obtain ⟨part, hle, hpart⟩ := h e he
  exact ⟨part + {x}, by gcongr, hpart.add x⟩

theorem DigestOf.merge (h : DigestOf digest values) (h' : DigestOf digest' values') :
    DigestOf (RollupBucket.mergeDigest digest digest') (values + values') := by
  intro d hd
  cases digest' with
  | none =>
    obtain ⟨part, hle, hpart⟩ := h d hd
    exact ⟨part, hle.trans (Multiset.le_add_right _ _), hpart⟩
  | some e =>
    obtain ⟨part', hle', hpart'⟩ := h' e rfl
    cases Option.some.inj hd
    cases digest with
    | none =>
      have hmerge := (sketches_newTDigest defaultTDigestCompression).merge hpart'
      rw [zero_add] at hmerge
      exact ⟨part', hle'.trans (Multiset.le_add_left _ _), hmerge⟩
    | some d =>
      obtain ⟨part, hle, hpart⟩ := h d rfl
      exact ⟨part + part', by gcongr, hpart.merge hpart'⟩

end DigestOf

theorem summary_congr {metricName : String} {b o : RollupBucket Digest} {samples : List Sample}
    (h : Summary metricName b samples) (hdrop : o.dropDigest = b.dropDigest) :
    Summary metricName o samples := by
  have ho : { b with digest := o.digest } = o := by
    have := congrArg (fun c : RollupBucket Digest => { c with digest := o.digest }) hdrop
    exact this.symm
  refine ⟨?_, fun hnil => hdrop.trans (h.blank hnil)⟩
  rw [← ho]
  exact h.represents.digest o.digest

theorem Summary.addPoint {b : RollupBucket Digest} {samples : List Sample}
    (h : Summary sqliteVirtualPingLossMetric b samples) (value : ℚ) (ts : ℤ) :
    Summary sqliteVirtualPingLossMetric (b.addPoint value ts) (samples ++ [⟨ts, value⟩]) := by
  have hadd := h.represents.addMetricPoint value ts
  rw [RollupBucket.addMetricPoint, if_pos (by decide)] at hadd
  exact ⟨by rwa [← Multiset.coe_add], fun hnil => by simp at hnil⟩

theorem DigestOf.encoded {b : RollupBucket Digest} {values : Multiset ℚ}
    (h : DigestOf b.digest values) : DigestOf b.encoded.digest values := by
  have hfilter : DigestOf (b.digest.filter fun d => 0 < d.count) values := by
    intro d hd
    exact h d (Option.filter_eq_some_iff.mp hd).1
  exact hfilter.process

/-- **The buckets of the older code** are those of the samples. -/
theorem Folded.pairOf {b o : RollupBucket Digest} (h : Folded samples b o) :
    PairOf samples b o := by
  induction h with
  | new d d' =>
    refine ⟨summary_foldSamples d [], summary_foldSamples d' [], ends_new d, fun e he => ?_⟩
    cases d with
    | false => cases he
    | true =>
      cases he
      exact ⟨0, Multiset.zero_le _, sketches_newTDigest _⟩
  | @add samples b o s h ih =>
    have hlatency : latencySamples (samples ++ [s]) = latencySamples samples ++ [⟨s.1.ts, s.1.value⟩] := by
      rw [latencySamples, List.map_append]
      rfl
    have hloss : lossSeries (samples ++ [s]) =
        lossSeries samples ++ [⟨s.1.ts, lossValue s.1.value⟩] := by
      rw [lossSeries, List.map_append]
      rfl
    refine ⟨?_, ?_, ?_, ?_⟩
    · rw [hlatency]
      exact ih.latency.addPoint s.1.value s.1.ts
    · rw [hloss]
      exact ih.loss.addPoint (lossValue s.1.value) s.1.ts
    · rw [hlatency]
      exact ih.ends.addPoint s.1.value s.1.ts
    · rw [hlatency, List.map_append, ← Multiset.coe_add]
      exact ih.digest.add s.1.value
  | @merge samples samples' b o b' o' h h' ih ih' =>
    have hlatency : latencySamples (samples ++ samples') = latencySamples samples ++ latencySamples samples' :=
      List.map_append
    have hloss : lossSeries (samples ++ samples') = lossSeries samples ++ lossSeries samples' :=
      List.map_append
    refine ⟨?_, ?_, ?_, ?_⟩
    · rw [hlatency]
      exact ih.latency.mergeStored ih'.latency
    · rw [hloss]
      exact ih.loss.mergeStored ih'.loss
    · rw [hlatency]
      exact ih.ends.mergeStored ih'.ends
    · rw [hlatency, List.map_append, ← Multiset.coe_add, RollupBucket.mergeStored]
      by_cases hzero : b'.count = 0
      · rw [if_pos hzero]
        intro d hd
        obtain ⟨part, hle, hpart⟩ := ih.digest d hd
        exact ⟨part, hle.trans (Multiset.le_add_right _ _), hpart⟩
      · rw [if_neg hzero]
        exact ih.digest.merge ih'.digest
  | process h ih =>
    exact ⟨summary_congr ih.latency rfl, ih.loss, ih.ends.congr rfl rfl rfl rfl rfl, ih.digest.process⟩
  | processLoss h ih => exact ⟨ih.latency, summary_congr ih.loss rfl, ih.ends, ih.digest⟩
  | stored h ih =>
    exact ⟨summary_congr ih.latency rfl, summary_congr ih.loss rfl, ih.ends.congr rfl rfl rfl rfl rfl,
      ih.digest.encoded⟩

end Metric

end Komari
