import Komari.Metric.Centroids

/-!
# The structure of digests

Whatever is done with a digest, its centroids keep the weight and the weighted sum of the values that were
added, and after processing they are in order.
-/

namespace Komari

namespace Metric

/-! ### The stored form -/

/-- The layout of `encodeRaw`, with numbers in place of their eight bytes. -/
structure RawBlob where
  compression : ℚ
  min : WithTop ℚ
  max : WithBot ℚ
  count : ℚ
  /-- The number of centroids, in four bytes. -/
  n : ℕ
  centroids : List Centroid

/-- The bytes of the layout. -/
def RawBlob.size (b : RawBlob) : ℕ := 3 + 8 * 4 + 4 + 16 * b.centroids.length

/-- What is stored: the layout, or its DEFLATE stream. -/
inductive Blob
  | raw (b : RawBlob)
  | compressed (b : RawBlob)

/-- Which layouts DEFLATE makes shorter, by more than the new header. -/
class Flate where
  /-- `payload.Len()+3 < len(raw)`. -/
  shrinks : RawBlob → Bool

/-- Why a stored digest is not read. -/
inductive DecodeError
  /-- `metric: compressed t-digest blob is too large`. -/
  | tooLarge
  /-- `metric: truncated t-digest blob`. -/
  | truncated
deriving DecidableEq

/-- The part of `DecodeTDigest` behind the header. -/
def decodeRaw (b : RawBlob) : Except DecodeError Digest :=
  if b.centroids.length < b.n then .error .truncated
  else .ok {
    compression := if b.compression ≤ 1 then defaultTDigestCompression else b.compression
    centroids := b.centroids.take b.n
    count := b.count
    min := b.min
    max := b.max
    processed := true }

/-- `DecodeTDigest`, of what `Encode` wrote. -/
def decodeTDigest : Blob → Except DecodeError Digest
  | .raw b => decodeRaw b
  | .compressed b => if 64 * 2 ^ 20 < b.size then .error .tooLarge else decodeRaw b

/-- Compressed, if that makes it smaller. -/
def compressTDigestBlob [Flate] (raw : RawBlob) : Blob :=
  if raw.size < 96 then .raw raw
  else if Flate.shrinks raw then .compressed raw
  else .raw raw

/-- The layout of a digest. -/
def Digest.encodeRaw [DigestConfig] (t : Digest) : RawBlob where
  compression := t.process.compression
  min := t.process.min
  max := t.process.max
  count := t.process.count
  n := t.process.centroids.length % 2 ^ 32
  centroids := t.process.centroids

/-- The stored form of a digest. -/
def Digest.encode [DigestConfig] [Flate] (t : Digest) : Blob := compressTDigestBlob t.encodeRaw

/-- A digest that `NewTDigest`, `Add`, `Merge`, `process` and `DecodeTDigest` of `Encode` make of the values
with their weights, where only digests that fit are encoded. -/
inductive Reached [DigestConfig] [Flate] (fits : Digest → Prop) : Digest → Multiset (ℚ × ℚ) → Prop
  | new (compression : ℚ) : Reached fits (newTDigest compression) 0
  | add {t added} (x w : ℚ) : 0 < w → Reached fits t added → Reached fits (t.addWeighted x w) (added + {(x, w)})
  | merge {t other added added'} : Reached fits t added → Reached fits other added' →
      Reached fits (t.merge other) (added + added')
  | process {t added} : Reached fits t added → Reached fits t.process added
  | codec {t t' added} : Reached fits t added → fits t → decodeTDigest t.encode = .ok t' → Reached fits t' added

/-- The processed digest has a number of centroids that fits into four bytes. -/
def Digest.Fits [DigestConfig] (t : Digest) : Prop := t.process.centroids.length < 2 ^ 32

instance [DigestConfig] (t : Digest) : Decidable t.Fits := inferInstanceAs (Decidable (_ < _))

/-! ### Merging neighbours -/

/-- The sum of the values. -/
def mass (centroids : List Centroid) : ℚ := (centroids.map fun c => c.mean * c.weight).sum

/-- The number of values. -/
def weightSum (centroids : List Centroid) : ℚ := (centroids.map Centroid.weight).sum

/-- Both as one, with their weighted mean. -/
def Centroid.join (c d : Centroid) : Centroid :=
  ⟨c.mean + d.weight * (d.mean - c.mean) / (c.weight + d.weight), c.weight + d.weight⟩

section Join

variable {c d : Centroid} (hc : 0 < c.weight) (hd : 0 < d.weight)

include hc hd

theorem join_mass : (c.join d).mean * (c.join d).weight = c.mean * c.weight + d.mean * d.weight := by
  have hpos := add_pos hc hd
  unfold Centroid.join
  field_simp
  ring

theorem join_mem_Icc (h : c.mean ≤ d.mean) : c.mean ≤ (c.join d).mean ∧ (c.join d).mean ≤ d.mean := by
  have hpos := add_pos hc hd
  have hmass := join_mass hc hd
  have hweight : (c.join d).weight = c.weight + d.weight := rfl
  rw [hweight] at hmass
  constructor
  · refine le_of_mul_le_mul_right ?_ hpos
    rw [hmass]
    nlinarith
  · refine le_of_mul_le_mul_right ?_ hpos
    rw [hmass]
    nlinarith

end Join

/-- **Merging neighbours**, in one induction: a property of the whole list that joining the first two
elements preserves, and that can be put together from the first element and the rest. -/
theorem mergeCentroids_induct {compression total weightBefore : ℚ} {cur : Centroid} {rest : List Centroid}
    {P : List Centroid → List Centroid → Prop} (hnil : ∀ c, P [c] [c])
    (hjoin : ∀ c d rest out, P (c.join d :: rest) out → P (c :: d :: rest) out)
    (hcons : ∀ c d rest out, P (d :: rest) out → P (c :: d :: rest) (c :: out)) :
    P (cur :: rest) (mergeCentroids compression total weightBefore cur rest) := by
  induction rest generalizing weightBefore cur with
  | nil => exact hnil cur
  | cons next rest ih =>
    rw [mergeCentroids]
    split_ifs
    · exact hjoin cur next rest _ ih
    · exact hcons cur next rest _ ih

section Merge

variable {compression total weightBefore : ℚ} {cur : Centroid} {rest : List Centroid}

theorem weight_pos_mergeCentroids (h : ∀ c ∈ cur :: rest, 0 < c.weight) :
    ∀ c ∈ mergeCentroids compression total weightBefore cur rest, 0 < c.weight := by
  revert h
  refine mergeCentroids_induct (P := fun l out => (∀ c ∈ l, 0 < c.weight) → ∀ c ∈ out, 0 < c.weight)
    (fun c h => h) (fun c d rest out ih h => ?_) fun c d rest out ih h => ?_
  · obtain ⟨hc, hd, hrest⟩ : 0 < c.weight ∧ 0 < d.weight ∧ ∀ x ∈ rest, 0 < x.weight := by simpa using h
    exact ih (List.forall_mem_cons.mpr ⟨add_pos hc hd, hrest⟩)
  · obtain ⟨hc, hrest⟩ := List.forall_mem_cons.mp h
    exact List.forall_mem_cons.mpr ⟨hc, ih hrest⟩

theorem sums_mergeCentroids (h : ∀ c ∈ cur :: rest, 0 < c.weight) :
    weightSum (mergeCentroids compression total weightBefore cur rest) = weightSum (cur :: rest) ∧
      mass (mergeCentroids compression total weightBefore cur rest) = mass (cur :: rest) := by
  revert h
  refine mergeCentroids_induct (P := fun l out => (∀ c ∈ l, 0 < c.weight) →
    weightSum out = weightSum l ∧ mass out = mass l) (fun c _ => ⟨rfl, rfl⟩)
    (fun c d rest out ih h => ?_) fun c d rest out ih h => ?_
  · obtain ⟨hc, hd, hrest⟩ : 0 < c.weight ∧ 0 < d.weight ∧ ∀ x ∈ rest, 0 < x.weight := by simpa using h
    obtain ⟨hweight, hmass⟩ := ih (List.forall_mem_cons.mpr ⟨add_pos hc hd, hrest⟩)
    unfold weightSum mass at *
    simp only [List.map_cons, List.sum_cons, join_mass hc hd] at hweight hmass ⊢
    rw [hweight, hmass]
    exact ⟨add_assoc _ _ _, add_assoc _ _ _⟩
  · obtain ⟨hweight, hmass⟩ := ih (List.forall_mem_cons.mp h).2
    unfold weightSum mass at *
    simp only [List.map_cons, List.sum_cons] at hweight hmass ⊢
    rw [hweight, hmass]
    exact ⟨rfl, rfl⟩

/-- The centroids are sorted by their means. -/
def SortedMeans (l : List Centroid) : Prop := l.Pairwise fun c d => c.mean ≤ d.mean

/-- Sorted centroids stay sorted, and within the same bounds. -/
theorem sorted_mergeCentroids (h : ∀ c ∈ cur :: rest, 0 < c.weight) (hsorted : SortedMeans (cur :: rest)) :
    SortedMeans (mergeCentroids compression total weightBefore cur rest) ∧
      (∀ a, (∀ c ∈ cur :: rest, a ≤ c.mean) →
        ∀ c ∈ mergeCentroids compression total weightBefore cur rest, a ≤ c.mean) ∧
      ∀ b, (∀ c ∈ cur :: rest, c.mean ≤ b) →
        ∀ c ∈ mergeCentroids compression total weightBefore cur rest, c.mean ≤ b := by
  revert h hsorted
  refine mergeCentroids_induct (P := fun l out => (∀ c ∈ l, 0 < c.weight) → SortedMeans l →
    SortedMeans out ∧ (∀ a, (∀ c ∈ l, a ≤ c.mean) → ∀ c ∈ out, a ≤ c.mean) ∧
      ∀ b, (∀ c ∈ l, c.mean ≤ b) → ∀ c ∈ out, c.mean ≤ b)
    (fun c _ hsorted => ⟨hsorted, fun a ha => ha, fun b hb => hb⟩)
    (fun c d rest out ih h hsorted => ?_) fun c d rest out ih h hsorted => ?_
  · obtain ⟨hc, hd, hrest⟩ : 0 < c.weight ∧ 0 < d.weight ∧ ∀ x ∈ rest, 0 < x.weight := by simpa using h
    obtain ⟨hfirst, htail⟩ := List.pairwise_cons.mp hsorted
    obtain ⟨hsecond, htail⟩ := List.pairwise_cons.mp htail
    obtain ⟨hle, hge⟩ := join_mem_Icc hc hd (hfirst d List.mem_cons_self)
    obtain ⟨hout, hlower, hupper⟩ := ih (List.forall_mem_cons.mpr ⟨add_pos hc hd, hrest⟩)
      (List.pairwise_cons.mpr ⟨fun x hx => hge.trans (hsecond x hx), htail⟩)
    refine ⟨hout, fun a ha => hlower a ?_, fun b hb => hupper b ?_⟩
    · obtain ⟨hac, -, harest⟩ : a ≤ c.mean ∧ a ≤ d.mean ∧ ∀ x ∈ rest, a ≤ x.mean := by simpa using ha
      exact List.forall_mem_cons.mpr ⟨hac.trans hle, harest⟩
    · obtain ⟨-, hdb, hbrest⟩ : c.mean ≤ b ∧ d.mean ≤ b ∧ ∀ x ∈ rest, x.mean ≤ b := by simpa using hb
      exact List.forall_mem_cons.mpr ⟨hge.trans hdb, hbrest⟩
  · obtain ⟨hfirst, htail⟩ := List.pairwise_cons.mp hsorted
    obtain ⟨hout, hlower, hupper⟩ := ih (List.forall_mem_cons.mp h).2 htail
    refine ⟨List.pairwise_cons.mpr ⟨hlower c.mean hfirst, hout⟩, fun a ha => ?_, fun b hb => ?_⟩
    · obtain ⟨hac, harest⟩ := List.forall_mem_cons.mp ha
      exact List.forall_mem_cons.mpr ⟨hac, hlower a harest⟩
    · obtain ⟨hcb, hbrest⟩ := List.forall_mem_cons.mp hb
      exact List.forall_mem_cons.mpr ⟨hcb, hupper b hbrest⟩

end Merge

/-! ### The invariant -/

/-- The values that were added. -/
def addedValues (added : Multiset (ℚ × ℚ)) : Multiset ℚ := added.map Prod.fst

/-- The weight that was added. -/
def addedWeight (added : Multiset (ℚ × ℚ)) : ℚ := (added.map Prod.snd).sum

/-- The weighted sum of the added values. -/
def addedMass (added : Multiset (ℚ × ℚ)) : ℚ := (added.map fun p => p.1 * p.2).sum

/-- The digest is one of the values, processed or not. -/
structure Digest.Sound (t : Digest) (added : Multiset (ℚ × ℚ)) : Prop where
  compression : 1 < t.compression
  added_pos : ∀ p ∈ added, 0 < p.2
  weight_pos : ∀ c ∈ t.centroids, 0 < c.weight
  count : t.count = addedWeight added
  weight : weightSum t.centroids = addedWeight added
  mass : mass t.centroids = addedMass added
  min : LeastBy id t.min ((addedValues added).map ((↑) : ℚ → WithTop ℚ))
  max : LeastBy OrderDual.toDual t.max ((addedValues added).map ((↑) : ℚ → WithBot ℚ))
  empty : added = 0 → t.min = ⊤ ∧ t.max = ⊥
  lower : ∀ c ∈ t.centroids, t.min ≤ c.mean
  upper : ∀ c ∈ t.centroids, (c.mean : WithBot ℚ) ≤ t.max
  sorted : t.processed = true → SortedMeans t.centroids

theorem addedWeight_pos {added : Multiset (ℚ × ℚ)} (h : ∀ p ∈ added, 0 < p.2) (hne : added ≠ 0) :
    0 < addedWeight added := by
  obtain ⟨p, hp⟩ := Multiset.exists_mem_of_ne_zero hne
  obtain ⟨rest, rfl⟩ := Multiset.exists_cons_of_mem hp
  have hrest : 0 ≤ (rest.map Prod.snd).sum := by
    refine Multiset.sum_nonneg fun w hw => ?_
    obtain ⟨q, hq, rfl⟩ := Multiset.mem_map.mp hw
    exact (h q (Multiset.mem_cons_of_mem hq)).le
  unfold addedWeight
  rw [Multiset.map_cons, Multiset.sum_cons]
  exact add_pos_of_pos_of_nonneg (h p hp) hrest

section Lesser

variable {α : Type*} [LinearOrder α]

theorem lesser_le (a b : α) : (if b < a then b else a) ≤ a ∧ (if b < a then b else a) ≤ b := by
  split_ifs with h
  · exact ⟨h.le, le_rfl⟩
  · exact ⟨le_rfl, not_lt.mp h⟩

theorem le_greater (a b : α) : a ≤ (if a < b then b else a) ∧ b ≤ (if a < b then b else a) := by
  split_ifs with h
  · exact ⟨h.le, le_rfl⟩
  · exact ⟨le_rfl, not_lt.mp h⟩

end Lesser

section Sound

variable {t other : Digest} {added added' : Multiset (ℚ × ℚ)}

/-- Only the digest of no value has no weight. -/
theorem Digest.Sound.count_eq_zero_iff (h : t.Sound added) : t.count = 0 ↔ added = 0 := by
  constructor
  · intro hzero
    by_contra hne
    have hpos := addedWeight_pos h.added_pos hne
    rw [← h.count, hzero] at hpos
    exact lt_irrefl _ hpos
  · rintro rfl
    exact h.count

theorem sound_newTDigest (compression : ℚ) : (newTDigest compression).Sound 0 := by
  refine ⟨?_, by simp, by simp [newTDigest], rfl, rfl, rfl, LeastBy.zero, LeastBy.zero, fun _ => ⟨rfl, rfl⟩,
    by simp [newTDigest], by simp [newTDigest], fun _ => List.Pairwise.nil⟩
  unfold newTDigest defaultTDigestCompression
  dsimp only
  split_ifs with hle
  · norm_num
  · exact not_le.mp hle

theorem Digest.Sound.min_add (h : t.Sound added) {m : WithTop ℚ} {values : Multiset ℚ}
    (hm : LeastBy id m (values.map ((↑) : ℚ → WithTop ℚ))) (hne : values ≠ 0) :
    LeastBy id (if m < t.min then m else t.min)
      ((addedValues added + values).map ((↑) : ℚ → WithTop ℚ)) := by
  rw [Multiset.map_add]
  refine h.min.add hm ?_
  rw [ne_eq, Multiset.map_eq_zero, and_iff_right hne, Multiset.map_eq_zero]
  refine ⟨Or.inr, fun hor => hor.elim (fun hzero => ?_) id⟩
  -- without a value the least one is infinite
  obtain ⟨v, -, hv⟩ := Multiset.mem_map.mp (hm.mem fun hmap => hne (Multiset.map_eq_zero.mp hmap))
  rw [(h.empty (Multiset.map_eq_zero.mp hzero)).1, ← hv]
  exact WithTop.coe_lt_top v

theorem Digest.Sound.max_add (h : t.Sound added) {m : WithBot ℚ} {values : Multiset ℚ}
    (hm : LeastBy OrderDual.toDual m (values.map ((↑) : ℚ → WithBot ℚ))) (hne : values ≠ 0) :
    LeastBy OrderDual.toDual (if t.max < m then m else t.max)
      ((addedValues added + values).map ((↑) : ℚ → WithBot ℚ)) := by
  rw [Multiset.map_add]
  refine h.max.add hm ?_
  rw [ne_eq, Multiset.map_eq_zero, and_iff_right hne, Multiset.map_eq_zero]
  refine ⟨Or.inr, fun hor => hor.elim (fun hzero => ?_) id⟩
  obtain ⟨v, -, hv⟩ := Multiset.mem_map.mp (hm.mem fun hmap => hne (Multiset.map_eq_zero.mp hmap))
  rw [(h.empty (Multiset.map_eq_zero.mp hzero)).2, ← hv]
  exact WithBot.bot_lt_coe v

variable [DigestConfig]

/-- **Processing** keeps everything and sorts the centroids. -/
theorem Digest.Sound.process (h : t.Sound added) : t.process.Sound added := by
  unfold Digest.process
  split_ifs with hprocessed
  · exact h
  · have hperm := DigestConfig.perm t.centroids
    have hsorted := DigestConfig.sorted t.centroids
    cases hsort : DigestConfig.sortByMean t.centroids with
    | nil =>
      rw [hsort] at hperm
      refine ⟨h.compression, h.added_pos, h.weight_pos, h.count, h.weight, h.mass, h.min, h.max, h.empty, h.lower,
        h.upper, fun _ => ?_⟩
      rw [← hperm.nil_eq]
      exact List.Pairwise.nil
    | cons cur rest =>
      rw [hsort] at hperm hsorted
      have hpos : ∀ c ∈ cur :: rest, 0 < c.weight := fun c hc => h.weight_pos c (hperm.mem_iff.mp hc)
      have hcur := hperm.mem_iff.mp (List.mem_cons_self (a := cur) (l := rest))
      obtain ⟨hweight, hmass⟩ := sums_mergeCentroids hpos
      obtain ⟨hout, hlower, hupper⟩ := sorted_mergeCentroids hpos hsorted
      -- a digest with a centroid has finite extremes
      obtain ⟨lo, hlo⟩ := WithTop.ne_top_iff_exists.mp
        (ne_top_of_le_ne_top WithTop.coe_ne_top (h.lower cur hcur))
      obtain ⟨hi, hhi⟩ := WithBot.ne_bot_iff_exists.mp
        (ne_bot_of_le_ne_bot WithBot.coe_ne_bot (h.upper cur hcur))
      refine ⟨h.compression, h.added_pos, weight_pos_mergeCentroids hpos, h.count, ?_, ?_, h.min, h.max, h.empty,
        fun c hc => ?_, fun c hc => ?_, fun _ => hout⟩
      · refine hweight.trans (Eq.trans ?_ h.weight)
        exact (hperm.map Centroid.weight).sum_eq
      · refine hmass.trans (Eq.trans ?_ h.mass)
        exact (hperm.map fun c : Centroid => c.mean * c.weight).sum_eq
      · change t.min ≤ _
        rw [← hlo]
        refine WithTop.coe_le_coe.mpr (hlower lo (fun d hd => ?_) c hc)
        have hle := h.lower d (hperm.mem_iff.mp hd)
        rw [← hlo] at hle
        exact WithTop.coe_le_coe.mp hle
      · change _ ≤ t.max
        rw [← hhi]
        refine WithBot.coe_le_coe.mpr (hupper hi (fun d hd => ?_) c hc)
        have hle := h.upper d (hperm.mem_iff.mp hd)
        rw [← hhi] at hle
        exact WithBot.coe_le_coe.mp hle

omit [DigestConfig] in
theorem Digest.Sound.append (h : t.Sound added) (x w : ℚ) (hw : 0 < w) : Digest.Sound
    { t with
      centroids := t.centroids ++ [⟨x, w⟩]
      count := t.count + w
      min := if (x : WithTop ℚ) < t.min then x else t.min
      max := if t.max < (x : WithBot ℚ) then x else t.max
      processed := false } (added + {(x, w)}) := by
  have hvalues : addedValues (added + {(x, w)}) = addedValues added + {x} := by simp [addedValues]
  have hmin := @Digest.Sound.min_add _ _ h x {x} LeastBy.singleton (Multiset.singleton_ne_zero x)
  have hmax := @Digest.Sound.max_add _ _ h x {x} LeastBy.singleton (Multiset.singleton_ne_zero x)
  refine ⟨h.compression, ?_, ?_, ?_, ?_, ?_, by rwa [hvalues], by rwa [hvalues], ?_, ?_, ?_, fun hfalse => ?_⟩
  · intro p hp
    rcases Multiset.mem_add.mp hp with hp | hp
    · exact h.added_pos p hp
    · rw [Multiset.mem_singleton.mp hp]
      exact hw
  · intro c hc
    rcases List.mem_append.mp hc with hc | hc
    · exact h.weight_pos c hc
    · rw [List.mem_singleton.mp hc]
      exact hw
  · simp [addedWeight, h.count]
  · have hweight := h.weight
    unfold weightSum addedWeight at *
    simp [hweight]
  · have hmass := h.mass
    unfold Metric.mass addedMass at *
    simp [hmass]
  · intro hzero
    have hcard := congrArg Multiset.card hzero
    simp at hcard
  · intro c hc
    rcases List.mem_append.mp hc with hc | hc
    · exact (lesser_le t.min x).1.trans (h.lower c hc)
    · rw [List.mem_singleton.mp hc]
      exact (lesser_le t.min x).2
  · intro c hc
    rcases List.mem_append.mp hc with hc | hc
    · exact (h.upper c hc).trans (le_greater t.max x).1
    · rw [List.mem_singleton.mp hc]
      exact (le_greater t.max x).2
  · cases hfalse

/-- **A value is added.** -/
theorem Digest.Sound.add (h : t.Sound added) {x w : ℚ} (hw : 0 < w) :
    (t.addWeighted x w).Sound (added + {(x, w)}) := by
  have happend := h.append x w hw
  unfold Digest.addWeighted
  rw [if_neg (not_le.mpr hw)]
  dsimp only
  by_cases hlong : ⌊8 * t.compression⌋ + 16 < ((t.centroids ++ [(⟨x, w⟩ : Centroid)]).length : ℤ)
  · rw [if_pos hlong]
    exact happend.process
  · rw [if_neg hlong]
    exact happend

/-- **Digests are merged.** -/
theorem Digest.Sound.merge (h : t.Sound added) (h' : other.Sound added') :
    (t.merge other).Sound (added + added') := by
  unfold Digest.merge
  by_cases hzero : other.count = 0
  · rw [if_pos hzero, h'.count_eq_zero_iff.mp hzero, add_zero]
    exact h
  · rw [if_neg hzero]
    have hne : addedValues added' ≠ 0 := by
      rw [addedValues, ne_eq, Multiset.map_eq_zero]
      exact fun hnil => hzero (h'.count_eq_zero_iff.mpr hnil)
    have hvalues : addedValues (added + added') = addedValues added + addedValues added' :=
      Multiset.map_add _ _ _
    have hp := h'.process
    have hmin := h.min_add hp.min hne
    have hmax := h.max_add hp.max hne
    refine Digest.Sound.process ⟨h.compression, ?_, ?_, ?_, ?_, ?_, by rwa [hvalues], by rwa [hvalues], ?_, ?_, ?_,
      fun hfalse => ?_⟩
    · exact fun p hp => (Multiset.mem_add.mp hp).elim (h.added_pos p) (h'.added_pos p)
    · exact fun c hc => (List.mem_append.mp hc).elim (h.weight_pos c) (hp.weight_pos c)
    · unfold addedWeight
      rw [Multiset.map_add, Multiset.sum_add]
      exact congrArg₂ (· + ·) h.count hp.count
    · have hweight := h.weight
      have hweight' := hp.weight
      unfold weightSum addedWeight at *
      rw [List.map_append, List.sum_append, Multiset.map_add, Multiset.sum_add, hweight, hweight']
    · have hmass := h.mass
      have hmass' := hp.mass
      unfold Metric.mass addedMass at *
      rw [List.map_append, List.sum_append, Multiset.map_add, Multiset.sum_add, hmass, hmass']
    · intro hnil
      refine absurd ?_ hne
      have hcard := congrArg Multiset.card hnil
      rw [Multiset.card_add, Multiset.card_zero, Nat.add_eq_zero_iff, Multiset.card_eq_zero,
        Multiset.card_eq_zero] at hcard
      rw [addedValues, hcard.2, Multiset.map_zero]
    · intro c hc
      rcases List.mem_append.mp hc with hc | hc
      · exact (lesser_le _ _).1.trans (h.lower c hc)
      · exact (lesser_le _ _).2.trans (hp.lower c hc)
    · intro c hc
      rcases List.mem_append.mp hc with hc | hc
      · exact (h.upper c hc).trans (le_greater _ _).1
      · exact (hp.upper c hc).trans (le_greater _ _).2
    · cases hfalse

/-- What is encoded is decoded, unless the digest is too long. -/
theorem decodeTDigest_encode [Flate] (hcompression : 1 < t.compression) {t' : Digest}
    (h : decodeTDigest t.encode = .ok t') :
    t' = { t.process with
      centroids := t.process.centroids.take (t.process.centroids.length % 2 ^ 32), processed := true } := by
  have hprocess : t.process.compression = t.compression := by
    unfold Digest.process
    split_ifs
    · rfl
    · split <;> rfl
  have hraw : decodeRaw t.encodeRaw = .ok t' := by
    unfold Digest.encode compressTDigestBlob at h
    split_ifs at h
    · exact h
    · unfold decodeTDigest at h
      dsimp only at h
      split_ifs at h
      exact h
    · exact h
  have hlarge : ¬t.encodeRaw.compression ≤ 1 := by
    change ¬t.process.compression ≤ 1
    rw [hprocess]
    exact not_le.mpr hcompression
  unfold decodeRaw at hraw
  rw [if_neg hlarge] at hraw
  split_ifs at hraw
  cases hraw
  rfl

theorem decodeTDigest_encode_of_fits [Flate] (hcompression : 1 < t.compression) (hfits : t.Fits) {t' : Digest}
    (h : decodeTDigest t.encode = .ok t') : t' = t.process := by
  rw [decodeTDigest_encode hcompression h, Nat.mod_eq_of_lt hfits, List.take_length, ← t.processed_process]

/-- **The invariant holds of every digest** that the operations make, when only digests that fit are
encoded. -/
theorem Reached.sound [Flate] (h : Reached Digest.Fits t added) : t.Sound added := by
  induction h with
  | new compression => exact sound_newTDigest compression
  | add x w hw _ ih => exact ih.add hw
  | merge _ _ ih ih' => exact ih.merge ih'
  | process _ ih => exact ih.process
  | codec _ hfits hdecode ih =>
    rw [decodeTDigest_encode_of_fits ih.compression hfits hdecode]
    exact ih.process

end Sound

/-! ### What holds after processing -/

/-- A processed digest of the values: its centroids have their weight and their weighted sum, in the order
of the means and between the least and the greatest value. -/
structure Digest.Ordered (p : Digest) (added : Multiset (ℚ × ℚ)) : Prop where
  positive : ∀ c ∈ p.centroids, 0 < c.weight
  weight : weightSum p.centroids = p.count
  sorted : SortedMeans p.centroids
  lower : ∀ c ∈ p.centroids, p.min ≤ c.mean
  upper : ∀ c ∈ p.centroids, (c.mean : WithBot ℚ) ≤ p.max
  least : added ≠ 0 → ∃ v : ℚ, p.min = v ∧ IsLeast {x | ∃ w, (x, w) ∈ added} v
  greatest : added ≠ 0 → ∃ v : ℚ, p.max = v ∧ IsGreatest {x | ∃ w, (x, w) ∈ added} v
  mass : mass p.centroids = addedMass added

theorem Digest.Sound.ordered [DigestConfig] {t : Digest} {added : Multiset (ℚ × ℚ)} (h : t.Sound added) :
    t.process.Ordered added := by
  have hp := h.process
  have hmem : ∀ {x : ℚ}, x ∈ addedValues added ↔ ∃ w, (x, w) ∈ added := by
    intro x
    simp [addedValues]
  refine ⟨hp.weight_pos, hp.weight.trans hp.count.symm, hp.sorted t.processed_process, hp.lower, hp.upper,
    fun hne => ?_, fun hne => ?_, hp.mass⟩
  · have hvalues : (addedValues added).map ((↑) : ℚ → WithTop ℚ) ≠ 0 := by
      simpa [addedValues] using hne
    obtain ⟨v, hv, hmin⟩ := Multiset.mem_map.mp (hp.min.mem hvalues)
    refine ⟨v, hmin.symm, hmem.mp hv, fun x hx => ?_⟩
    have hle : t.process.min ≤ (x : WithTop ℚ) := hp.min.le _ (Multiset.mem_map_of_mem _ (hmem.mpr hx))
    rw [← hmin] at hle
    exact WithTop.coe_le_coe.mp hle
  · have hvalues : (addedValues added).map ((↑) : ℚ → WithBot ℚ) ≠ 0 := by
      simpa [addedValues] using hne
    obtain ⟨v, hv, hmax⟩ := Multiset.mem_map.mp (hp.max.mem hvalues)
    refine ⟨v, hmax.symm, hmem.mp hv, fun x hx => ?_⟩
    have hle : (x : WithBot ℚ) ≤ t.process.max := hp.max.le _ (Multiset.mem_map_of_mem _ (hmem.mpr hx))
    rw [← hmax] at hle
    exact WithBot.coe_le_coe.mp hle

end Metric

end Komari
