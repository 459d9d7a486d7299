import Mathlib.Algebra.Order.Floor.Defs
import Mathlib.Data.Rat.Floor
import Mathlib.Algebra.Order.BigOperators.Group.Multiset
import Mathlib.Tactic.FieldSimp
import Mathlib.Tactic.Ring
import Mathlib.Data.List.Sort
import Komari.Metric.Bucket

/-!
# Digests of centroids

A digest holds weighted means.  Values are added as centroids of their own; now and then the centroids
are sorted and neighbours are merged, as far as their weight stays below a limit.
-/

namespace Komari

namespace Metric

/-! ### The digest -/

/-- A mean and how many values it stands for. -/
structure Centroid where
  mean : ℚ
  weight : ℚ
deriving DecidableEq

/-- `TDigest`, without its operations. -/
structure Digest where
  compression : ℚ
  centroids : List Centroid
  count : ℚ
  min : WithTop ℚ
  max : WithBot ℚ
  /-- Whether the centroids are sorted and merged. -/
  processed : Bool
deriving DecidableEq

/-- What digests are configured with. -/
class DigestConfig where
  compression : ℚ
  /-- `sort.Slice` by the mean, which may permute centroids with equal means. -/
  sortByMean : List Centroid → List Centroid
  perm : ∀ l, (sortByMean l).Perm l
  sorted : ∀ l, (sortByMean l).Pairwise fun c d => c.mean ≤ d.mean

def defaultTDigestCompression : ℚ := 100

/-- An empty digest. -/
def newTDigest (compression : ℚ) : Digest where
  compression := if compression ≤ 1 then defaultTDigestCompression else compression
  centroids := []
  count := 0
  min := ⊤
  max := ⊥
  processed := true

/-- The loop of `process`: sorted centroids are merged with their neighbours. -/
def mergeCentroids (compression total : ℚ) : ℚ → Centroid → List Centroid → List Centroid
  | _, cur, [] => [cur]
  | weightBefore, cur, next :: rest =>
    let proposed := cur.weight + next.weight
    let q := (weightBefore + proposed / 2) / total
    let limit := 4 * total * q * (1 - q) / compression
    if proposed ≤ limit ∨ limit < 1 ∧ proposed ≤ 1 then
      mergeCentroids compression total weightBefore
        ⟨cur.mean + next.weight * (next.mean - cur.mean) / proposed, proposed⟩ rest
    else cur :: mergeCentroids compression total (weightBefore + cur.weight) next rest

namespace Digest

variable [DigestConfig]

/-- Sorts the centroids and merges neighbours while they fit. -/
def process (t : Digest) : Digest :=
  if t.processed then t
  else
    match DigestConfig.sortByMean t.centroids with
    | [] => { t with processed := true }
    | cur :: rest =>
      { t with
        centroids := mergeCentroids t.compression t.count 0 cur rest
        processed := true }

/-- `Add`. -/
def addWeighted (t : Digest) (x w : ℚ) : Digest :=
  if w ≤ 0 then t
  else
    let t' : Digest :=
      { t with
        centroids := t.centroids ++ [⟨x, w⟩]
        count := t.count + w
        min := if (x : WithTop ℚ) < t.min then x else t.min
        max := if t.max < (x : WithBot ℚ) then x else t.max
        processed := false }
    if ⌊8 * t.compression⌋ + 16 < t'.centroids.length then t'.process else t'

/-- The centroids of another digest are added. -/
def merge (t other : Digest) : Digest :=
  if other.count = 0 then t
  else
    let other := other.process
    let t' : Digest :=
      { t with
        centroids := t.centroids ++ other.centroids
        count := t.count + other.count
        min := if other.min < t.min then other.min else t.min
        max := if t.max < other.max then other.max else t.max
        processed := false }
    t'.process

end Digest

/-- The operations of digests of centroids. -/
instance [DigestConfig] : TDigest Digest where
  new := newTDigest (if DigestConfig.compression ≤ 1 then defaultTDigestCompression
    else DigestConfig.compression)
  newDefault := newTDigest defaultTDigestCompression
  add t x := t.addWeighted x 1
  merge := Digest.merge
  count := Digest.count

/-! ### What centroids stand for -/

/-- The centroid is the mean of the values. -/
structure Centroid.Averages (c : Centroid) (values : Multiset ℚ) : Prop where
  ne_zero : values ≠ 0
  weight : c.weight = values.card
  sum : c.mean * c.weight = values.sum

variable {values : Multiset ℚ}

theorem Centroid.Averages.weight_pos {c : Centroid} (h : c.Averages values) : 0 < c.weight := by
  rw [h.weight]
  exact_mod_cast Multiset.card_pos.mpr h.ne_zero

theorem averages_singleton (x : ℚ) : Centroid.Averages ⟨x, 1⟩ {x} := by
  refine ⟨Multiset.singleton_ne_zero x, ?_, ?_⟩ <;> simp

/-- A merged centroid is the mean of the values of both. -/
theorem Centroid.Averages.merge {c d : Centroid} {values' : Multiset ℚ} (h : c.Averages values)
    (h' : d.Averages values') :
    Centroid.Averages ⟨c.mean + d.weight * (d.mean - c.mean) / (c.weight + d.weight), c.weight + d.weight⟩
      (values + values') := by
  have hpos := add_pos h.weight_pos h'.weight_pos
  have hcard := Multiset.card_pos.mpr h.ne_zero
  refine ⟨Multiset.card_pos.mp ?_, ?_, ?_⟩
  · rw [Multiset.card_add]
    omega
  · rw [Multiset.card_add, Nat.cast_add, h.weight, h'.weight]
  · rw [Multiset.sum_add, ← h.sum, ← h'.sum]
    field_simp
    ring

/-- Centroids, each with the values that it stands for. -/
structure Parts (centroids : Multiset Centroid) (values : Multiset ℚ)
    (parts : Multiset (Centroid × Multiset ℚ)) : Prop where
  centroids : parts.map Prod.fst = centroids
  averages : ∀ p ∈ parts, p.1.Averages p.2
  values : (parts.map Prod.snd).sum = values

/-- Together the centroids stand for the values. -/
def Covers (centroids : Multiset Centroid) (values : Multiset ℚ) : Prop :=
  ∃ parts, Parts centroids values parts

theorem covers_zero : Covers 0 0 := ⟨0, rfl, by simp, rfl⟩

theorem covers_singleton (x : ℚ) : Covers {⟨x, 1⟩} {x} := by
  refine ⟨{(⟨x, 1⟩, {x})}, by simp, fun p hp => ?_, by simp⟩
  rw [Multiset.mem_singleton.mp hp]
  exact averages_singleton x

theorem Covers.add {c d : Multiset Centroid} {values' : Multiset ℚ} (h : Covers c values)
    (h' : Covers d values') : Covers (c + d) (values + values') := by
  obtain ⟨parts, hparts⟩ := h
  obtain ⟨parts', hparts'⟩ := h'
  refine ⟨parts + parts', ?_, fun p hp => ?_, ?_⟩
  · rw [Multiset.map_add, hparts.centroids, hparts'.centroids]
  · exact (Multiset.mem_add.mp hp).elim (hparts.averages p) (hparts'.averages p)
  · rw [Multiset.map_add, Multiset.sum_add, hparts.values, hparts'.values]

theorem covers_cons {c : Centroid} {rest : Multiset Centroid} :
    Covers (c ::ₘ rest) values ↔
      ∃ first others, c.Averages first ∧ Covers rest others ∧ values = first + others := by
  constructor
  · rintro ⟨parts, hparts⟩
    have hmem : c ∈ parts.map Prod.fst := by
      rw [hparts.centroids]
      exact Multiset.mem_cons_self c rest
    obtain ⟨p, hp, rfl⟩ := Multiset.mem_map.mp hmem
    have hrest : (parts.erase p).map Prod.fst = rest := by
      rw [← Multiset.cons_inj_right p.1, ← Multiset.map_cons, Multiset.cons_erase hp, hparts.centroids]
    refine ⟨p.2, ((parts.erase p).map Prod.snd).sum, hparts.averages p hp, ⟨parts.erase p, hrest,
      fun q hq => hparts.averages q (Multiset.mem_of_mem_erase hq), rfl⟩, ?_⟩
    rw [← hparts.values, ← Multiset.sum_cons, ← Multiset.map_cons, Multiset.cons_erase hp]
  · rintro ⟨first, others, hfirst, ⟨parts, hparts⟩, rfl⟩
    refine ⟨(c, first) ::ₘ parts, ?_, fun q hq => ?_, ?_⟩
    · rw [Multiset.map_cons, hparts.centroids]
    · rcases Multiset.mem_cons.mp hq with rfl | hq
      · exact hfirst
      · exact hparts.averages q hq
    · rw [Multiset.map_cons, Multiset.sum_cons, hparts.values]

/-- **Merging neighbours** keeps the values. -/
theorem covers_mergeCentroids {compression total weightBefore : ℚ} {cur : Centroid} {rest : List Centroid}
    (h : Covers (cur :: rest : List Centroid) values) :
    Covers (mergeCentroids compression total weightBefore cur rest : List Centroid) values := by
  induction rest generalizing weightBefore cur values with
  | nil => exact h
  | cons next rest ih =>
    rw [← Multiset.cons_coe, ← Multiset.cons_coe, covers_cons] at h
    obtain ⟨first, others, hfirst, hothers, rfl⟩ := h
    rw [mergeCentroids]
    split_ifs
    · obtain ⟨second, others, hsecond, hrest, rfl⟩ := covers_cons.mp hothers
      refine ih ?_
      rw [← Multiset.cons_coe, covers_cons]
      exact ⟨first + second, others, hfirst.merge hsecond, hrest, (add_assoc _ _ _).symm⟩
    · rw [← Multiset.cons_coe, covers_cons]
      exact ⟨first, others, hfirst, ih hothers, rfl⟩

/-! ### Values with a lower bound -/

section Bounds

variable {c : Centroid} {centroids : Multiset Centroid} {values : Multiset ℚ} {a : ℚ}

/-- A mean is at least a lower bound of the values. -/
theorem Centroid.Averages.le_mean (h : c.Averages values) (ha : ∀ x ∈ values, a ≤ x) : a ≤ c.mean := by
  have hle := Multiset.card_nsmul_le_sum ha
  rw [nsmul_eq_mul, ← h.sum, ← h.weight, mul_comm] at hle
  exact le_of_mul_le_mul_right hle h.weight_pos

/-- A mean is at most an upper bound of the values. -/
theorem Centroid.Averages.mean_le (h : c.Averages values) (ha : ∀ x ∈ values, x ≤ a) : c.mean ≤ a := by
  have hle := Multiset.sum_le_card_nsmul values a ha
  rw [nsmul_eq_mul, ← h.sum, ← h.weight, mul_comm (c.weight)] at hle
  exact le_of_mul_le_mul_right hle h.weight_pos

/-- A mean is the least value only if all values are the same. -/
theorem Centroid.Averages.eq_of_mean_eq (h : c.Averages values) (ha : ∀ x ∈ values, a ≤ x)
    (hmean : c.mean = a) : ∀ x ∈ values, x = a := by
  intro x hx
  obtain ⟨others, rfl⟩ := Multiset.exists_cons_of_mem hx
  have hothers := Multiset.card_nsmul_le_sum fun y hy => ha y (Multiset.mem_cons_of_mem hy)
  have hsum := h.sum
  rw [hmean, h.weight, Multiset.card_cons, Multiset.sum_cons, Nat.cast_succ] at hsum
  rw [nsmul_eq_mul] at hothers
  have hle : x ≤ a := by linarith
  exact hle.antisymm (ha x hx)

/-- The weight of all centroids is the number of values. -/
theorem Covers.weight (h : Covers centroids values) :
    (centroids.map Centroid.weight).sum = values.card := by
  induction centroids using Multiset.induction generalizing values with
  | empty =>
    obtain ⟨parts, hparts⟩ := h
    rw [← hparts.values, Multiset.map_eq_zero.mp hparts.centroids]
    simp
  | cons c centroids ih =>
    obtain ⟨first, others, hfirst, hothers, rfl⟩ := covers_cons.mp h
    rw [Multiset.map_cons, Multiset.sum_cons, ih hothers, hfirst.weight, Multiset.card_add, Nat.cast_add]

/-- Every centroid is a mean of some of the values. -/
theorem Covers.averages (h : Covers centroids values) (hc : c ∈ centroids) :
    ∃ part ≤ values, c.Averages part := by
  obtain ⟨others, rfl⟩ := Multiset.exists_cons_of_mem hc
  obtain ⟨first, rest, hfirst, _, rfl⟩ := covers_cons.mp h
  exact ⟨first, Multiset.le_add_right _ _, hfirst⟩

/-- The weight of the centroids at the least value. -/
def massAt (a : ℚ) (centroids : Multiset Centroid) : ℚ :=
  ((centroids.filter fun c => c.mean = a).map Centroid.weight).sum

theorem massAt_cons (a : ℚ) (c : Centroid) (centroids : Multiset Centroid) :
    massAt a (c ::ₘ centroids) = (if c.mean = a then c.weight else 0) + massAt a centroids := by
  unfold massAt
  by_cases hc : c.mean = a <;> simp [hc]

/-- Centroids at the least value stand for nothing else. -/
theorem Centroid.Averages.count_eq (h : c.Averages values) (ha : ∀ x ∈ values, a ≤ x)
    (hmean : c.mean = a) : (values.count a : ℚ) = c.weight := by
  rw [h.weight, Multiset.count_eq_card.mpr fun x hx => (h.eq_of_mean_eq ha hmean x hx).symm]

theorem Covers.massAt_le (h : Covers centroids values) (ha : ∀ x ∈ values, a ≤ x) :
    massAt a centroids ≤ values.count a := by
  induction centroids using Multiset.induction generalizing values with
  | empty => simp [massAt]
  | cons c centroids ih =>
    obtain ⟨first, others, hfirst, hothers, rfl⟩ := covers_cons.mp h
    have hle := ih hothers fun x hx => ha x (Multiset.mem_add.mpr (Or.inr hx))
    rw [massAt_cons, Multiset.count_add, Nat.cast_add]
    split_ifs with hmean
    · rw [hfirst.count_eq (fun x hx => ha x (Multiset.mem_add.mpr (Or.inl hx))) hmean]
      linarith
    · have hfirst := @Nat.cast_nonneg ℚ _ _ _ (first.count a)
      linarith

/-- **When the centroids at the least value have all its weight**, the others stand for greater values
only. -/
theorem Covers.notMem_of_massAt (h : Covers centroids values) (ha : ∀ x ∈ values, a ≤ x)
    (hweight : values.count a ≤ massAt a centroids) (hc : c ∈ centroids) (hmean : c.mean ≠ a) :
    ∃ part ≤ values, c.Averages part ∧ a ∉ part := by
  obtain ⟨rest, rfl⟩ := Multiset.exists_cons_of_mem hc
  obtain ⟨first, others, hfirst, hothers, rfl⟩ := covers_cons.mp h
  have hle := hothers.massAt_le fun x hx => ha x (Multiset.mem_add.mpr (Or.inr hx))
  rw [massAt_cons, if_neg hmean, zero_add, Multiset.count_add, Nat.cast_add] at hweight
  refine ⟨first, Multiset.le_add_right _ _, hfirst, ?_⟩
  rw [← Multiset.count_eq_zero, ← @Nat.cast_eq_zero ℚ]
  have hnonneg := @Nat.cast_nonneg ℚ _ _ _ (first.count a)
  linarith

end Bounds

/-! ### Digests of values -/

/-- The digest stands for the values. -/
structure Digest.Sketches (t : Digest) (values : Multiset ℚ) : Prop where
  covers : Covers t.centroids values
  count : t.count = values.card

theorem sketches_newTDigest (compression : ℚ) : (newTDigest compression).Sketches 0 :=
  ⟨covers_zero, by simp [newTDigest]⟩

/-- Only the digest of no value has no weight. -/
theorem Digest.Sketches.count_eq_zero_iff {t : Digest} (h : t.Sketches values) :
    t.count = 0 ↔ values = 0 := by
  rw [h.count, Nat.cast_eq_zero, Multiset.card_eq_zero]

theorem Digest.Sketches.weight {d : Digest} (h : d.Sketches values) :
    (d.centroids.map Centroid.weight).sum = d.count := by
  rw [h.count, ← h.covers.weight, Multiset.map_coe, Multiset.sum_coe]

section Digest

variable [DigestConfig] {t other : Digest} {values values' : Multiset ℚ}

theorem Digest.processed_process (t : Digest) : t.process.processed = true := by
  unfold Digest.process
  split_ifs with h
  · exact h
  · split <;> rfl

theorem Digest.process_process (t : Digest) : t.process.process = t.process := by
  rw [Digest.process, if_pos t.processed_process]

theorem Digest.count_process (t : Digest) : t.process.count = t.count := by
  unfold Digest.process
  split_ifs
  · rfl
  · split <;> rfl

theorem Digest.Sketches.process (h : t.Sketches values) : t.process.Sketches values := by
  unfold Digest.process
  split_ifs
  · exact h
  · have hcovers := h.covers
    rw [← Multiset.coe_eq_coe.mpr (DigestConfig.perm t.centroids)] at hcovers
    cases hsort : DigestConfig.sortByMean t.centroids with
    | nil => exact ⟨h.covers, h.count⟩
    | cons cur rest =>
      rw [hsort] at hcovers
      exact ⟨covers_mergeCentroids hcovers, h.count⟩

theorem Digest.Sketches.add (h : t.Sketches values) (x : ℚ) :
    (TDigest.add t x).Sketches (values + {x}) := by
  have hcovers : Covers (t.centroids ++ [⟨x, 1⟩] : List Centroid) (values + {x}) := by
    rw [← Multiset.coe_add]
    exact h.covers.add (covers_singleton x)
  have hcount : t.count + 1 = (values + {x}).card := by
    rw [h.count, Multiset.card_add, Multiset.card_singleton]
    push_cast
    rfl
  change (t.addWeighted x 1).Sketches _
  unfold Digest.addWeighted
  rw [if_neg (by norm_num)]
  dsimp only
  by_cases hlong : ⌊8 * t.compression⌋ + 16 < ((t.centroids ++ [(⟨x, 1⟩ : Centroid)]).length : ℤ)
  · rw [if_pos hlong]
    exact Digest.Sketches.process ⟨hcovers, hcount⟩
  · rw [if_neg hlong]
    exact ⟨hcovers, hcount⟩

theorem Digest.Sketches.merge (h : t.Sketches values) (h' : other.Sketches values') :
    (TDigest.merge t other).Sketches (values + values') := by
  change (t.merge other).Sketches _
  unfold Digest.merge
  split_ifs with hzero
  · rw [h'.count_eq_zero_iff.mp hzero, add_zero]
    exact h
  · have hp := h'.process
    refine Digest.Sketches.process ⟨?_, ?_⟩
    · rw [← Multiset.coe_add]
      exact h.covers.add hp.covers
    · dsimp only
      rw [h.count, hp.count, Multiset.card_add, Nat.cast_add]

end Digest

/-- Digests with the default compression, sorted by insertion. -/
instance insertionDigests : DigestConfig where
  compression := 100
  sortByMean l := l.insertionSort fun c d => c.mean ≤ d.mean
  perm l := List.perm_insertionSort _ l
  sorted l := by
    have : Std.Total fun c d : Centroid => c.mean ≤ d.mean := ⟨fun c d => le_total c.mean d.mean⟩
    have : IsTrans Centroid fun c d => c.mean ≤ d.mean := ⟨fun _ _ _ h h' => h.trans h'⟩
    exact List.pairwise_insertionSort _ l

end Metric

end Komari
