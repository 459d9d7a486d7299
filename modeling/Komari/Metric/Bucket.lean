import Mathlib.Algebra.Order.Field.Rat
import Mathlib.Data.Multiset.Filter
import Mathlib.Algebra.BigOperators.Group.Multiset.Basic
import Mathlib.Tactic.Linarith

/-!
# Rollup buckets

A rollup bucket summarizes the samples of one series in one interval of time.  Values are exact
rationals; the percentile digest is any type with the operations that rollups use.
-/

namespace Komari

namespace Metric

/-! ### Elements with the least key -/

/-- An element of the multiset with the least key, or anything when there is no element. -/
structure LeastBy {σ α : Type*} [LE α] (key : σ → α) (x : σ) (m : Multiset σ) : Prop where
  mem : m ≠ 0 → x ∈ m
  le : ∀ y ∈ m, key x ≤ key y

section LeastBy

variable {σ α : Type*} [LinearOrder α] {key : σ → α} {x y : σ} {m n : Multiset σ}

theorem LeastBy.zero : LeastBy key x 0 :=
  ⟨fun h => absurd rfl h, fun y hy => absurd hy (Multiset.notMem_zero y)⟩

theorem LeastBy.singleton : LeastBy key x {x} := by
  refine ⟨fun _ => Multiset.mem_singleton_self x, fun y hy => ?_⟩
  rw [Multiset.mem_singleton.mp hy]

/-- Of two elements with the least key the one with the lesser key is least in the union. -/
theorem LeastBy.add {p : Prop} [Decidable p] (hx : LeastBy key x m) (hy : LeastBy key y n)
    (hp : p ↔ n ≠ 0 ∧ (m = 0 ∨ key y < key x)) : LeastBy key (if p then y else x) (m + n) := by
  by_cases h : p
  · rw [if_pos h]
    obtain ⟨hn, hor⟩ := hp.mp h
    refine ⟨fun _ => Multiset.mem_add.mpr (Or.inr (hy.mem hn)), fun z hz => ?_⟩
    rcases Multiset.mem_add.mp hz with hz | hz
    · rcases hor with rfl | hlt
      · exact absurd hz (Multiset.notMem_zero z)
      · exact hlt.le.trans (hx.le z hz)
    · exact hy.le z hz
  · rw [if_neg h]
    rcases eq_or_ne n 0 with rfl | hn
    · rwa [add_zero]
    · obtain ⟨hm, hlt⟩ := not_or.mp fun hor => h (hp.mpr ⟨hn, hor⟩)
      refine ⟨fun _ => Multiset.mem_add.mpr (Or.inl (hx.mem hm)), fun z hz => ?_⟩
      rcases Multiset.mem_add.mp hz with hz | hz
      · exact hx.le z hz
      · exact (not_lt.mp hlt).trans (hy.le z hz)

/-- The least element is determined when different elements have different keys. -/
theorem LeastBy.unique (hx : LeastBy key x m) (hy : LeastBy key y m) (hm : m ≠ 0)
    (hinj : ∀ a ∈ m, ∀ b ∈ m, key a = key b → a = b) : x = y :=
  hinj x (hx.mem hm) y (hy.mem hm) ((hx.le y (hy.mem hm)).antisymm (hy.le x (hx.mem hm)))

end LeastBy

/-! ### Buckets -/

def sqliteMergedPingLatencyMetric : String := "ping.latency_ms"

/-- The operations of `TDigest` that rollups use. -/
class TDigest (D : Type) where
  /-- `NewTDigest` with the compression of the policy. -/
  new : D
  /-- `NewTDigest` with `defaultTDigestCompression`. -/
  newDefault : D
  /-- `Add` with weight one. -/
  add : D → ℚ → D
  merge : D → D → D
  count : D → ℚ

/-- The digest that keeps every value. -/
instance TDigest.keepAll : TDigest (List ℚ) where
  new := []
  newDefault := []
  add d v := v :: d
  merge d e := d ++ e
  count d := d.length

/-- `rollupBucket`, but for the tags, which belong to its series. -/
structure RollupBucket (D : Type) where
  count : ℕ
  lossCount : ℕ
  sum : ℚ
  sumSq : ℚ
  min : ℚ
  max : ℚ
  firstVal : ℚ
  firstTS : ℤ
  lastVal : ℚ
  lastTS : ℤ
  digest : Option D
deriving DecidableEq

/-- Why a compaction transaction is rolled back. -/
inductive CompactError
  /-- `metric: cannot losslessly hand off %s bucket %d with a missing digest`. -/
  | missingDigest (interval bucket : ℤ)
  /-- `metric: invalid ping loss count %d/%d`. -/
  | invalidLossCount (lossCount count : ℕ)
deriving DecidableEq

namespace RollupBucket

variable {D : Type} [TDigest D]

/-- `newRollupBucketWithDigest`; `newRollupBucket` includes the digest. -/
def new (includeDigest : Bool) : RollupBucket D where
  count := 0
  lossCount := 0
  sum := 0
  sumSq := 0
  min := 0
  max := 0
  firstVal := 0
  firstTS := 0
  lastVal := 0
  lastTS := 0
  digest := if includeDigest then some TDigest.new else none

/-- One more value. -/
def addPoint (b : RollupBucket D) (value : ℚ) (tsNano : ℤ) : RollupBucket D where
  count := b.count + 1
  lossCount := b.lossCount
  sum := b.sum + value
  sumSq := b.sumSq + value * value
  min := if b.count = 0 ∨ value < b.min then value else b.min
  max := if b.count = 0 ∨ b.max < value then value else b.max
  firstVal := if b.count = 0 ∨ tsNano < b.firstTS then value else b.firstVal
  firstTS := if b.count = 0 ∨ tsNano < b.firstTS then tsNano else b.firstTS
  lastVal := if b.count = 0 ∨ b.lastTS < tsNano then value else b.lastVal
  lastTS := if b.count = 0 ∨ b.lastTS < tsNano then tsNano else b.lastTS
  digest := b.digest.map (TDigest.add · value)

/-- `addMetricPoint`: a negative ping latency stands for a lost probe.  It counts as first and last
sample, but not in the summaries of the latency. -/
def addMetricPoint (metricName : String) (b : RollupBucket D) (value : ℚ) (tsNano : ℤ) :
    RollupBucket D :=
  if metricName ≠ sqliteMergedPingLatencyMetric then b.addPoint value tsNano
  else
    let validBefore := b.count - b.lossCount
    let b' : RollupBucket D :=
      { b with
        count := b.count + 1
        firstVal := if b.count = 0 ∨ tsNano < b.firstTS then value else b.firstVal
        firstTS := if b.count = 0 ∨ tsNano < b.firstTS then tsNano else b.firstTS
        lastVal := if b.count = 0 ∨ b.lastTS < tsNano then value else b.lastVal
        lastTS := if b.count = 0 ∨ b.lastTS < tsNano then tsNano else b.lastTS }
    if value < 0 then { b' with lossCount := b.lossCount + 1 }
    else
      { b' with
        sum := b.sum + value
        sumSq := b.sumSq + value * value
        min := if validBefore = 0 ∨ value < b.min then value else b.min
        max := if validBefore = 0 ∨ b.max < value then value else b.max
        digest := b.digest.map (TDigest.add · value) }

/-- A digest that is missing is an empty one. -/
def mergeDigest (b o : Option D) : Option D :=
  match o with
  | none => b
  | some d => some (TDigest.merge (b.getD TDigest.newDefault) d)

/-- Another bucket is folded in. -/
def mergeStored (b o : RollupBucket D) : RollupBucket D :=
  if o.count = 0 then b
  else
    let bValid := b.count - b.lossCount
    let oValid := o.count - o.lossCount
    { count := b.count + o.count
      lossCount := b.lossCount + o.lossCount
      sum := b.sum + o.sum
      sumSq := b.sumSq + o.sumSq
      min := if 0 < oValid ∧ (bValid = 0 ∨ o.min < b.min) then o.min else b.min
      max := if 0 < oValid ∧ (bValid = 0 ∨ b.max < o.max) then o.max else b.max
      firstVal := if b.count = 0 ∨ o.firstTS < b.firstTS then o.firstVal else b.firstVal
      firstTS := if b.count = 0 ∨ o.firstTS < b.firstTS then o.firstTS else b.firstTS
      lastVal := if b.count = 0 ∨ b.lastTS < o.lastTS then o.lastVal else b.lastVal
      lastTS := if b.count = 0 ∨ b.lastTS < o.lastTS then o.lastTS else b.lastTS
      digest := mergeDigest b.digest o.digest }

/-- The summary of the bucket, without the digest. -/
def dropDigest {D : Type} (b : RollupBucket D) : RollupBucket D := { b with digest := none }

/-- `rollupDigestOptional`: only lost probes need no digest. -/
def rollupDigestOptional (metricName : String) (b : RollupBucket D) : Bool :=
  metricName == sqliteMergedPingLatencyMetric && 0 < b.count && b.lossCount == b.count

/-- The row that `upsertSQLiteV8RollupValueTx` stores: a digest without samples is not stored. -/
def storedRow (b : RollupBucket D) : Except CompactError (RollupBucket D) :=
  if b.count < b.lossCount then .error (.invalidLossCount b.lossCount b.count)
  else .ok { b with digest := b.digest.filter fun d => 0 < TDigest.count d }

end RollupBucket

/-! ### What compaction does with buckets -/

/-- The operations on buckets of type `B` that compaction uses. -/
structure BucketOps (B : Type) where
  /-- An empty bucket, with or without a digest. -/
  new : Bool → B
  addMetricPoint : B → ℚ → ℤ → B
  mergeStored : B → B → B
  digestOptional : B → Bool
  hasDigest : B → Bool
  dropDigest : B → B
  /-- The row that is stored for the bucket. -/
  storedRow : B → Except CompactError B

/-- What the store does with buckets. -/
def RollupBucket.ops (D : Type) [TDigest D] (metricName : String) : BucketOps (RollupBucket D) where
  new := RollupBucket.new
  addMetricPoint := RollupBucket.addMetricPoint metricName
  mergeStored := RollupBucket.mergeStored
  digestOptional := RollupBucket.rollupDigestOptional metricName
  hasDigest b := b.digest.isSome
  dropDigest := RollupBucket.dropDigest
  storedRow := RollupBucket.storedRow

/-- A map of buckets that respects all operations. -/
structure BucketOps.Hom {A B : Type} (o : BucketOps A) (p : BucketOps B) (f : A → B) : Prop where
  new : ∀ d, f (o.new d) = p.new d
  addMetricPoint : ∀ b v ts, f (o.addMetricPoint b v ts) = p.addMetricPoint (f b) v ts
  mergeStored : ∀ b c, f (o.mergeStored b c) = p.mergeStored (f b) (f c)
  digestOptional : ∀ b, o.digestOptional b = p.digestOptional (f b)
  hasDigest : ∀ b, o.hasDigest b = p.hasDigest (f b)
  dropDigest : ∀ b, f (o.dropDigest b) = p.dropDigest (f b)
  storedRow : ∀ b, (o.storedRow b).map f = p.storedRow (f b)

/-- A measure of buckets that is additive in the samples. -/
structure BucketOps.Additive {B M : Type} [AddCommMonoid M] (o : BucketOps B) (weight : B → M)
    (unit : ℚ → ℤ → M) : Prop where
  new : ∀ d, weight (o.new d) = 0
  addMetricPoint : ∀ b v ts, weight (o.addMetricPoint b v ts) = weight b + unit v ts
  mergeStored : ∀ b c, weight (o.mergeStored b c) = weight b + weight c
  dropDigest : ∀ b, weight (o.dropDigest b) = weight b
  storedRow : ∀ b c, o.storedRow b = .ok c → weight c = weight b

/-! ### Summaries -/

/-- A value and its time. -/
structure Sample where
  ts : ℤ
  value : ℚ
deriving DecidableEq

theorem Sample.mk_ite (p : Prop) [Decidable p] (t t' : ℤ) (v v' : ℚ) :
    (⟨if p then t else t', if p then v else v'⟩ : Sample) = if p then ⟨t, v⟩ else ⟨t', v'⟩ := by
  split_ifs <;> rfl

/-- The sample is a loss sentinel of the metric. -/
def Sample.isLoss (metricName : String) (s : Sample) : Bool :=
  metricName == sqliteMergedPingLatencyMetric && s.value < 0

/-- The samples that are no loss sentinels. -/
def validSamples (metricName : String) (m : Multiset Sample) : Multiset Sample :=
  m.filter fun s => s.isLoss metricName = false

/-- The samples that say that a ping was lost. -/
def lossSamples (metricName : String) (m : Multiset Sample) : Multiset Sample :=
  m.filter fun s => s.isLoss metricName = true

/-- The bucket is the summary of the samples. -/
structure Represents {D : Type} (metricName : String) (b : RollupBucket D) (m : Multiset Sample) :
    Prop where
  count : b.count = m.card
  lossCount : b.lossCount = (lossSamples metricName m).card
  sum : b.sum = ((validSamples metricName m).map Sample.value).sum
  sumSq : b.sumSq = ((validSamples metricName m).map fun s => s.value * s.value).sum
  min : LeastBy id b.min ((validSamples metricName m).map Sample.value)
  max : LeastBy OrderDual.toDual b.max ((validSamples metricName m).map Sample.value)
  -- without a valid sample the extremes keep their initial value
  min_max : validSamples metricName m = 0 → b.min = 0 ∧ b.max = 0
  first : LeastBy Sample.ts ⟨b.firstTS, b.firstVal⟩ m
  last : LeastBy (OrderDual.toDual ∘ Sample.ts) ⟨b.lastTS, b.lastVal⟩ m

section Represents

variable {D : Type} {metricName : String} {b o : RollupBucket D} {m n : Multiset Sample}

theorem validSamples_add : validSamples metricName (m + n) =
    validSamples metricName m + validSamples metricName n :=
  Multiset.filter_add _ m n

theorem lossSamples_add : lossSamples metricName (m + n) =
    lossSamples metricName m + lossSamples metricName n :=
  Multiset.filter_add _ m n

theorem card_validSamples (metricName : String) (m : Multiset Sample) :
    (lossSamples metricName m).card + (validSamples metricName m).card = m.card := by
  rw [← Multiset.card_add, lossSamples, validSamples]
  have h := Multiset.filter_add_not (fun s : Sample => s.isLoss metricName = true) m
  simp only [Bool.not_eq_true] at h
  rw [h]

theorem lossSamples_eq_zero (h : metricName ≠ sqliteMergedPingLatencyMetric) :
    lossSamples metricName m = 0 := by
  refine Multiset.filter_eq_nil.mpr fun s _ => ?_
  simp [Sample.isLoss, h]

/-- The samples that enter the latency summaries of the bucket. -/
theorem Represents.valid (h : Represents metricName b m) :
    b.count - b.lossCount = (validSamples metricName m).card := by
  have hcard := card_validSamples metricName m
  rw [h.count, h.lossCount]
  omega

theorem Represents.digest (h : Represents metricName b m) (d : Option D) :
    Represents metricName { b with digest := d } m :=
  ⟨h.count, h.lossCount, h.sum, h.sumSq, h.min, h.max, h.min_max, h.first, h.last⟩

theorem validSamples_singleton_loss {s : Sample} (h : s.isLoss metricName = true) :
    validSamples metricName {s} = 0 ∧ lossSamples metricName {s} = {s} := by
  simp [validSamples, lossSamples, Multiset.filter_singleton, h]

theorem validSamples_singleton_valid {s : Sample} (h : s.isLoss metricName = false) :
    validSamples metricName {s} = {s} ∧ lossSamples metricName {s} = 0 := by
  simp [validSamples, lossSamples, Multiset.filter_singleton, h]

/-- The earliest and the latest sample after one more sample. -/
theorem Represents.first_last_add (hb : Represents metricName b m) (value : ℚ) (ts : ℤ) :
    LeastBy Sample.ts
        ⟨if b.count = 0 ∨ ts < b.firstTS then ts else b.firstTS,
          if b.count = 0 ∨ ts < b.firstTS then value else b.firstVal⟩ (m + {⟨ts, value⟩}) ∧
      LeastBy (OrderDual.toDual ∘ Sample.ts)
        ⟨if b.count = 0 ∨ b.lastTS < ts then ts else b.lastTS,
          if b.count = 0 ∨ b.lastTS < ts then value else b.lastVal⟩ (m + {⟨ts, value⟩}) := by
  have hm : b.count = 0 ↔ m = 0 := by rw [hb.count, Multiset.card_eq_zero]
  rw [Sample.mk_ite, Sample.mk_ite]
  constructor
  · exact hb.first.add LeastBy.singleton (by rw [hm]; simp)
  · exact hb.last.add LeastBy.singleton (by rw [hm]; simp)

/-- The extremes of the values after one more valid sample. -/
theorem Represents.min_max_add (hb : Represents metricName b m) {value : ℚ} {ts : ℤ}
    (h : Sample.isLoss metricName ⟨ts, value⟩ = false) :
    LeastBy id (if b.count - b.lossCount = 0 ∨ value < b.min then value else b.min)
        ((validSamples metricName (m + {⟨ts, value⟩})).map Sample.value) ∧
      LeastBy OrderDual.toDual
        (if b.count - b.lossCount = 0 ∨ b.max < value then value else b.max)
        ((validSamples metricName (m + {⟨ts, value⟩})).map Sample.value) := by
  have hbv : b.count - b.lossCount = 0 ↔ (validSamples metricName m).map Sample.value = 0 := by
    rw [hb.valid, Multiset.card_eq_zero, Multiset.map_eq_zero]
  rw [validSamples_add, (validSamples_singleton_valid h).1, Multiset.map_add,
    Multiset.map_singleton]
  constructor
  · exact hb.min.add LeastBy.singleton (by rw [hbv]; simp)
  · exact hb.max.add LeastBy.singleton (by rw [hbv]; simp)

/-- Samples at different times determine the summary, but for the digest. -/
theorem Represents.unique (hb : Represents metricName b m) (ho : Represents metricName o m)
    (hm : m ≠ 0) (hts : ∀ s ∈ m, ∀ s' ∈ m, s.ts = s'.ts → s = s') :
    b.dropDigest = o.dropDigest := by
  have hfirst := hb.first.unique ho.first hm hts
  have hlast := hb.last.unique ho.last hm fun s hs s' hs' h => hts s hs s' hs' h
  have hext : b.min = o.min ∧ b.max = o.max := by
    by_cases hv : validSamples metricName m = 0
    · rw [(hb.min_max hv).1, (hb.min_max hv).2, (ho.min_max hv).1, (ho.min_max hv).2]
      exact ⟨rfl, rfl⟩
    · have hne : (validSamples metricName m).map Sample.value ≠ 0 := by
        rwa [ne_eq, Multiset.map_eq_zero]
      exact ⟨hb.min.unique ho.min hne fun _ _ _ _ h => h,
        hb.max.unique ho.max hne fun _ _ _ _ h => h⟩
  rw [Sample.mk.injEq] at hfirst hlast
  rw [RollupBucket.dropDigest, RollupBucket.dropDigest, RollupBucket.mk.injEq]
  exact ⟨hb.count.trans ho.count.symm, hb.lossCount.trans ho.lossCount.symm,
    hb.sum.trans ho.sum.symm, hb.sumSq.trans ho.sumSq.symm, hext.1, hext.2, hfirst.2, hfirst.1,
    hlast.2, hlast.1, rfl⟩

variable [TDigest D]

theorem represents_new (includeDigest : Bool) :
    Represents metricName (RollupBucket.new includeDigest : RollupBucket D) 0 where
  count := rfl
  lossCount := rfl
  sum := rfl
  sumSq := rfl
  min := LeastBy.zero
  max := LeastBy.zero
  min_max _ := ⟨rfl, rfl⟩
  first := LeastBy.zero
  last := LeastBy.zero

/-- A merged bucket is the summary of the samples of both. -/
theorem Represents.mergeStored (hb : Represents metricName b m) (ho : Represents metricName o n) :
    Represents metricName (b.mergeStored o) (m + n) := by
  unfold RollupBucket.mergeStored
  by_cases hzero : o.count = 0
  · rw [if_pos hzero]
    rw [ho.count, Multiset.card_eq_zero] at hzero
    rwa [hzero, add_zero]
  · rw [if_neg hzero]
    have hn : n ≠ 0 := by rwa [ho.count, Multiset.card_eq_zero] at hzero
    have hm : b.count = 0 ↔ m = 0 := by rw [hb.count, Multiset.card_eq_zero]
    have hbv : b.count - b.lossCount = 0 ↔ (validSamples metricName m).map Sample.value = 0 := by
      rw [hb.valid, Multiset.card_eq_zero, Multiset.map_eq_zero]
    have hov : 0 < o.count - o.lossCount ↔ (validSamples metricName n).map Sample.value ≠ 0 := by
      rw [ho.valid, Multiset.card_pos, ne_eq, ne_eq, Multiset.map_eq_zero]
    dsimp only
    constructor
    · rw [Multiset.card_add, hb.count, ho.count]
    · rw [lossSamples_add, Multiset.card_add, hb.lossCount, ho.lossCount]
    · rw [validSamples_add, Multiset.map_add, Multiset.sum_add, hb.sum, ho.sum]
    · rw [validSamples_add, Multiset.map_add, Multiset.sum_add, hb.sumSq, ho.sumSq]
    · rw [validSamples_add, Multiset.map_add]
      exact hb.min.add ho.min (by rw [hov, hbv]; rfl)
    · rw [validSamples_add, Multiset.map_add]
      exact hb.max.add ho.max (by rw [hov, hbv]; rfl)
    · intro hvalid
      rw [validSamples_add, ← Multiset.card_eq_zero, Multiset.card_add, Nat.add_eq_zero_iff,
        Multiset.card_eq_zero, Multiset.card_eq_zero] at hvalid
      obtain ⟨hvm, hvn⟩ := hvalid
      rw [ho.valid, hvn, Multiset.card_zero]
      simpa using hb.min_max hvm
    · rw [Sample.mk_ite]
      exact hb.first.add ho.first (by rw [hm]; simp [hn])
    · rw [Sample.mk_ite]
      exact hb.last.add ho.last (by rw [hm]; simp [hn])

/-- A sample that is folded in is one more sample of the bucket. -/
theorem Represents.addMetricPoint (hb : Represents metricName b m) (value : ℚ) (ts : ℤ) :
    Represents metricName (b.addMetricPoint metricName value ts) (m + {⟨ts, value⟩}) := by
  obtain ⟨hfirst, hlast⟩ := hb.first_last_add value ts
  cases hloss : Sample.isLoss metricName ⟨ts, value⟩ with
  | true =>
    obtain ⟨hvalid, hlost⟩ := validSamples_singleton_loss hloss
    obtain ⟨hname, hneg⟩ : metricName = sqliteMergedPingLatencyMetric ∧ value < 0 := by
      simpa [Sample.isLoss] using hloss
    rw [RollupBucket.addMetricPoint, if_neg (not_not.mpr hname)]
    dsimp only
    rw [if_pos hneg]
    refine ⟨?_, ?_, ?_, ?_, ?_, ?_, ?_, hfirst, hlast⟩
    · rw [Multiset.card_add, Multiset.card_singleton, hb.count]
    · rw [lossSamples_add, hlost, Multiset.card_add, Multiset.card_singleton, hb.lossCount]
    -- the latency summaries do not see a loss
    all_goals rw [validSamples_add, hvalid, add_zero]
    · exact hb.sum
    · exact hb.sumSq
    · exact hb.min
    · exact hb.max
    · exact hb.min_max
  | false =>
    obtain ⟨hvalid, hlost⟩ := validSamples_singleton_valid hloss
    obtain ⟨hmin, hmax⟩ := hb.min_max_add hloss
    have hcount : b.count + 1 = (m + {⟨ts, value⟩}).card := by
      rw [Multiset.card_add, Multiset.card_singleton, hb.count]
    have hlossCount : b.lossCount = (lossSamples metricName (m + {⟨ts, value⟩})).card := by
      rw [lossSamples_add, hlost, add_zero, hb.lossCount]
    have hsum : b.sum + value =
        ((validSamples metricName (m + {⟨ts, value⟩})).map Sample.value).sum := by
      rw [validSamples_add, hvalid, Multiset.map_add, Multiset.sum_add, hb.sum,
        Multiset.map_singleton, Multiset.sum_singleton]
    have hsumSq : b.sumSq + value * value =
        ((validSamples metricName (m + {⟨ts, value⟩})).map fun s => s.value * s.value).sum := by
      rw [validSamples_add, hvalid, Multiset.map_add, Multiset.sum_add, hb.sumSq,
        Multiset.map_singleton, Multiset.sum_singleton]
    have hsome : validSamples metricName (m + {⟨ts, value⟩}) ≠ 0 := by
      rw [validSamples_add, hvalid, ← Multiset.card_pos, Multiset.card_add,
        Multiset.card_singleton]
      omega
    by_cases hname : metricName = sqliteMergedPingLatencyMetric
    · have hneg : ¬value < 0 := by simpa [Sample.isLoss, hname] using hloss
      rw [RollupBucket.addMetricPoint, if_neg (not_not.mpr hname)]
      dsimp only
      rw [if_neg hneg]
      exact ⟨hcount, hlossCount, hsum, hsumSq, hmin, hmax, fun h => absurd h hsome, hfirst, hlast⟩
    · have hzero : b.count - b.lossCount = b.count := by
        rw [hb.lossCount, lossSamples_eq_zero hname, Multiset.card_zero, Nat.sub_zero]
      rw [hzero] at hmin hmax
      rw [RollupBucket.addMetricPoint, if_pos hname]
      exact ⟨hcount, hlossCount, hsum, hsumSq, hmin, hmax, fun h => absurd h hsome, hfirst, hlast⟩

theorem Represents.storedRow (hb : Represents metricName b m)
    (h : b.storedRow = .ok o) : Represents metricName o m := by
  unfold RollupBucket.storedRow at h
  split_ifs at h
  cases h
  exact hb.digest _

end Represents

/-! ### Buckets with their samples -/

/-- A bucket together with the samples that it summarizes. -/
structure Traced (D : Type) (metricName : String) where
  bucket : RollupBucket D
  samples : Multiset Sample
  /-- The bucket is their summary. -/
  represents : Represents metricName bucket samples

namespace Traced

variable {D : Type} [TDigest D] {metricName : String}

/-- The row that is stored keeps the samples. -/
def storedRow (b : Traced D metricName) : Except CompactError (Traced D metricName) :=
  match h : b.bucket.storedRow with
  | .error e => .error e
  | .ok row => .ok ⟨row, b.samples, b.represents.storedRow h⟩

/-- The operations on buckets that carry their samples. -/
def ops (D : Type) [TDigest D] (metricName : String) : BucketOps (Traced D metricName) where
  new d := ⟨RollupBucket.new d, 0, represents_new d⟩
  addMetricPoint b v ts :=
    ⟨b.bucket.addMetricPoint metricName v ts, b.samples + {⟨ts, v⟩},
      b.represents.addMetricPoint v ts⟩
  mergeStored b c :=
    ⟨b.bucket.mergeStored c.bucket, b.samples + c.samples, b.represents.mergeStored c.represents⟩
  digestOptional b := b.bucket.rollupDigestOptional metricName
  hasDigest b := b.bucket.digest.isSome
  dropDigest b := ⟨b.bucket.dropDigest, b.samples, b.represents.digest none⟩
  storedRow := storedRow

/-- Forgetting the samples gives the operations of the store. -/
theorem hom_bucket : (ops D metricName).Hom (RollupBucket.ops D metricName) Traced.bucket where
  new _ := rfl
  addMetricPoint _ _ _ := rfl
  mergeStored _ _ := rfl
  digestOptional _ := rfl
  hasDigest _ := rfl
  dropDigest _ := rfl
  storedRow b := by
    change (storedRow b).map Traced.bucket = b.bucket.storedRow
    rw [storedRow]
    split
    · rename_i heq
      exact heq.symm
    · rename_i heq
      exact heq.symm

theorem additive_samples :
    (ops D metricName).Additive Traced.samples fun v ts => ({⟨ts, v⟩} : Multiset Sample) where
  new _ := rfl
  addMetricPoint _ _ _ := rfl
  mergeStored _ _ := rfl
  dropDigest _ := rfl
  storedRow b c h := by
    change storedRow b = .ok c at h
    rw [storedRow] at h
    split at h <;> cases h
    rfl

end Traced

end Metric

end Komari
