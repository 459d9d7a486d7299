import Komari.Traffic.Counter
import Mathlib.Algebra.Order.BigOperators.Group.List
import Mathlib.Algebra.Order.Ring.Int

/-!
# The sum of counter deltas

The increases of a counter sum up to the difference between its last value and the baseline, and
whatever was lost when the scan rebased to a lower value.

* `telescopes_iff` : when that is so.
-/

namespace Komari

namespace Traffic

/-! ### Rebases -/

/-- The loop of `trafficDeltasByRecord`: for each record the counter before and after it, if the scan
rebases to the lower value of the record. -/
def rebasesFrom (c : Counter) :
    Option ℤ → Option ℕ → List (DeltaRecord × Bool) → List (Option (ℤ × ℤ))
  | _, _, [] => []
  | _, some 0, (r, _) :: rest => none :: rebasesFrom c (some (c.totalValue r)) none rest
  | baseline, some (k + 1), _ :: rest => none :: rebasesFrom c baseline (some k) rest
  | none, none, (r, _) :: rest => none :: rebasesFrom c (some (c.totalValue r)) none rest
  | some baseline, none, (r, forced) :: rest =>
    if c.totalValue r < baseline then
      if forced then
        some (baseline, c.totalValue r) :: rebasesFrom c (some (c.totalValue r)) none rest
      else
        match findCounterRecovery baseline r.time c.totalValue (rest.map Prod.fst) with
        | some recoveryIndex => none :: rebasesFrom c (some baseline) (some recoveryIndex) rest
        | none => some (baseline, c.totalValue r) :: rebasesFrom c (some (c.totalValue r)) none rest
    else none :: rebasesFrom c (some (c.totalValue r)) none rest

/-- For each record the counter before and after it, if the scan rebases there to a lower value. -/
def rebasesByRecord (c : Counter) (previous : Option (ℤ × ℤ)) (records : List DeltaRecord) :
    List (Option (ℤ × ℤ)) :=
  rebasesFrom c (previous.map c.pick) none
    (records.zip (correlatedCounterDiscontinuities previous records))

/-- What the counter has lost at the rebases. -/
def lost (rebases : List (Option (ℤ × ℤ))) : ℤ :=
  (rebases.map fun rebase => rebase.elim 0 fun (before, after) => before - after).sum

@[simp] theorem lost_nil : lost [] = 0 := rfl

@[simp] theorem lost_none (rebases : List (Option (ℤ × ℤ))) : lost (none :: rebases) = lost rebases := by
  simp [lost]

@[simp] theorem lost_some (before after : ℤ) (rebases : List (Option (ℤ × ℤ))) :
    lost (some (before, after) :: rebases) = before - after + lost rebases := by
  simp [lost]

/-- The scan ends while a drop that is not forced may still recover. -/
def EndsInDip (c : Counter) (previous : Option (ℤ × ℤ)) (records : List DeltaRecord) : Prop :=
  ∃ pre r post, records = pre ++ r :: post ∧
    (∃ rebase, (rebasesByRecord c previous records)[pre.length]? = some (some rebase)) ∧
    forcedDiscontinuity (lastTotals previous pre) r post = false ∧
    ∀ r' ∈ post, r'.time - r.time ≤ trafficCounterRecoveryWindow

/-- **The deltas telescope**: none of them is negative; without stored deltas those of the upload sum up
to the last total less the baseline, and what was lost at the rebases, unless the scan ends in a dip;
and both counters are reset when they drop together and do not recover together. -/
structure Telescopes (previous : Option (ℤ × ℤ)) (records : List DeltaRecord) : Prop where
  nonneg : ∀ c ∈ [upCounter, downCounter], ∀ delta ∈ trafficDeltasByRecord c previous records, 0 ≤ delta
  total : ∀ p last, previous = some p → records.getLast? = some last →
    (∀ r ∈ records, r.trafficUpSet = false) → ¬EndsInDip upCounter previous records →
      sumInt64 (trafficDeltasByRecord upCounter previous records) =
        last.netTotalUp - p.1 + lost (rebasesByRecord upCounter previous records)
  resets : ∀ pre r post p, records = pre ++ r :: post → lastTotals previous pre = some p →
    r.netTotalUp < p.1 → r.netTotalDown < p.2 →
      (∀ k, ¬(findCounterRecovery p.1 r.time DeltaRecord.netTotalUp post = some k ∧
        findCounterRecovery p.2 r.time DeltaRecord.netTotalDown post = some k)) →
      ∀ c ∈ [upCounter, downCounter],
        (rebasesByRecord c previous records)[pre.length]? = some (some (c.pick p, c.totalValue r))

/-! ### The conditions -/

/-- The totals of a record are not negative. -/
def DeltaRecord.Valid (r : DeltaRecord) : Prop :=
  0 ≤ r.netTotalUp ∧ r.netTotalUp ≤ maxInt64 ∧ 0 ≤ r.netTotalDown ∧ r.netTotalDown ≤ maxInt64

instance (r : DeltaRecord) : Decidable r.Valid := inferInstanceAs (Decidable (_ ∧ _))

/-- The delta of the first record is not negative: without a baseline its stored deltas are not; over a
baseline its increase is a 64-bit integer, or it is bounded by its stored delta. -/
def FirstFits (previous : Option (ℤ × ℤ)) (records : List DeltaRecord) : Prop :=
  ∀ r ∈ records.head?, ∀ c ∈ [upCounter, downCounter],
    match previous with
    | none => 0 ≤ c.storedDelta r
    | some p => c.totalValue r - c.pick p ≤ maxInt64 ∨
        (if c.storedDeltaSet r then max (c.storedDelta r) 0 else 0) ≤
          int64 ((c.totalValue r - c.pick p) * trafficDeltaAnomalyMultiplier +
            trafficDeltaAnomalyAllowance)

/-- The total that telescopes is a 64-bit integer, and the baseline is not negative. -/
def TotalFits (previous : Option (ℤ × ℤ)) (records : List DeltaRecord) : Prop :=
  ∀ p last, previous = some p → records.getLast? = some last →
    (∀ r ∈ records, r.trafficUpSet = false) → ¬EndsInDip upCounter previous records →
      0 ≤ p.1 ∧ last.netTotalUp - p.1 + lost (rebasesByRecord upCounter previous records) ≤ maxInt64

/-- No drop before a forced discontinuity recovers after it. -/
def ForcedSettled (previous : Option (ℤ × ℤ)) (records : List DeltaRecord) : Prop :=
  ∀ pre r post, records = pre ++ r :: post →
    forcedDiscontinuity (lastTotals previous pre) r post = true →
      settled previous pre (r :: post) = true

/-! ### The scan -/

/-- The scan of a counter from a baseline, with the deltas and rebases of the records that follow.  While
it passes over a dip the number of records before the recovery is given. -/
inductive Scan (c : Counter) :
    ℤ → Option ℕ → List (DeltaRecord × Bool) → List ℤ → List (Option (ℤ × ℤ)) → Prop
  | nil (b : ℤ) : Scan c b none [] [] []
  | accept (b : ℤ) (r : DeltaRecord) (forced : Bool) {rest deltas rebases} : b ≤ c.totalValue r →
      Scan c (c.totalValue r) none rest deltas rebases →
      Scan c b none ((r, forced) :: rest) (acceptedDelta c (some b) r :: deltas) (none :: rebases)
  | rebase (b : ℤ) (r : DeltaRecord) (forced : Bool) {rest deltas rebases} : c.totalValue r < b →
      Scan c (c.totalValue r) none rest deltas rebases →
      Scan c b none ((r, forced) :: rest) (0 :: deltas) (some (b, c.totalValue r) :: rebases)
  | dip (b : ℤ) (r : DeltaRecord) (k : ℕ) {rest deltas rebases} : c.totalValue r < b →
      Scan c b (some k) rest deltas rebases →
      Scan c b none ((r, false) :: rest) (0 :: deltas) (none :: rebases)
  | pass (b : ℤ) (r : DeltaRecord) (forced : Bool) (k : ℕ) {rest deltas rebases} :
      Scan c b (some k) rest deltas rebases →
      Scan c b (some (k + 1)) ((r, forced) :: rest) (0 :: deltas) (none :: rebases)
  | recover (b : ℤ) (r : DeltaRecord) (forced : Bool) {rest deltas rebases} : b ≤ c.totalValue r →
      Scan c (c.totalValue r) none rest deltas rebases →
      Scan c b (some 0) ((r, forced) :: rest) (subInt64 (c.totalValue r) b :: deltas) (none :: rebases)

variable {records : List DeltaRecord}

/-- The first record that is back at the baseline. -/
theorem findCounterRecovery_eq_some {baseline dropTime : ℤ} {totalValue : DeltaRecord → ℤ}
    {k : ℕ} (h : findCounterRecovery baseline dropTime totalValue records = some k) :
    (∃ r, records[k]? = some r ∧ baseline ≤ totalValue r) ∧
      ∀ j r, j < k → records[j]? = some r → totalValue r < baseline := by
  induction records generalizing k with
  | nil => cases h
  | cons r records ih =>
    rw [findCounterRecovery] at h
    split_ifs at h with hwindow hback
    · obtain rfl := Option.some.inj h
      exact ⟨⟨r, rfl, hback⟩, fun j r' hj => absurd hj (Nat.not_lt_zero j)⟩
    · obtain ⟨k, hk, rfl⟩ := Option.map_eq_some_iff.mp h
      obtain ⟨hfound, hbelow⟩ := ih hk
      refine ⟨hfound, fun j r' hj hr' => ?_⟩
      cases j with
      | zero =>
        obtain rfl := Option.some.inj hr'
        exact not_le.mp hback
      | succ j => exact hbelow j r' (Nat.lt_of_succ_lt_succ hj) hr'

/-- **The loops are the scan.** -/
theorem scan_from (c : Counter) (l : List (DeltaRecord × Bool)) (b : ℤ) (skip : Option ℕ)
    (hskip : ∀ k ∈ skip, ∃ r, (l.map Prod.fst)[k]? = some r ∧ b ≤ c.totalValue r) :
    Scan c b skip l (trafficDeltasFrom c (some b) skip l) (rebasesFrom c (some b) skip l) := by
  induction l generalizing b skip with
  | nil =>
    cases skip with
    | none => exact .nil b
    | some k =>
      obtain ⟨r, hr, -⟩ := hskip k rfl
      cases hr
  | cons x l ih =>
    obtain ⟨r, forced⟩ := x
    have hnext := ih (c.totalValue r) none (by simp)
    rcases skip with _ | _ | k
    · simp only [trafficDeltasFrom, rebasesFrom]
      split_ifs with hdrop hforced
      · exact .rebase b r forced hdrop hnext
      · obtain rfl := Bool.eq_false_iff.mpr hforced
        cases hfound : findCounterRecovery b r.time c.totalValue (l.map Prod.fst) with
        | none => exact .rebase b r false hdrop hnext
        | some k =>
          refine .dip b r k hdrop (ih b (some k) fun k' hk' => ?_)
          obtain rfl := Option.some.inj hk'
          exact (findCounterRecovery_eq_some hfound).1
      · exact .accept b r forced (not_lt.mp hdrop) hnext
    · obtain ⟨r', hr', hback⟩ := hskip 0 rfl
      obtain rfl := Option.some.inj hr'
      exact .recover b r forced hback hnext
    · refine .pass b r forced k (ih b (some k) fun k' hk' => ?_)
      obtain rfl := Option.some.inj hk'
      exact hskip (k + 1) rfl

/-- The scan over the records that follow a baseline. -/
theorem scan_byRecord (c : Counter) (p : ℤ × ℤ) (records : List DeltaRecord) :
    Scan c (c.pick p) none (records.zip (correlatedCounterDiscontinuities (some p) records))
      (trafficDeltasByRecord c (some p) records) (rebasesByRecord c (some p) records) :=
  scan_from c _ _ none (by simp)

/-! ### Deltas are not negative -/

theorem subInt64_eq {x y : ℤ} (hx : 0 ≤ x ∧ x ≤ maxInt64) (hy : 0 ≤ y ∧ y ≤ maxInt64) :
    subInt64 x y = x - y := by
  unfold maxInt64 at hx hy
  exact int64_eq_self ⟨by unfold minInt64; omega, by unfold maxInt64; omega⟩

/-- The bound of a plausible delta is not below the increase. -/
theorem le_trafficDeltaUpperBound {d : ℤ} (hd : 0 ≤ d ∧ d ≤ maxInt64) : d ≤ trafficDeltaUpperBound d := by
  unfold trafficDeltaUpperBound
  split_ifs with hlarge
  · exact hd.2
  · have hlimit : (maxInt64 - trafficDeltaAnomalyAllowance).tdiv trafficDeltaAnomalyMultiplier =
        2305843009196916735 := by decide
    rw [hlimit] at hlarge
    rw [trafficDeltaAnomalyMultiplier, trafficDeltaAnomalyAllowance, int64_eq_self]
    · omega
    · constructor
      · unfold minInt64
        omega
      · unfold maxInt64
        omega

variable {c : Counter} {b : ℤ} {r : DeltaRecord}

theorem acceptedDelta_nonneg (hb : 0 ≤ b)
    (hle : b ≤ c.totalValue r) (hr : c.totalValue r ≤ maxInt64) : 0 ≤ acceptedDelta c (some b) r := by
  have hdirect : subInt64 (c.totalValue r) b = c.totalValue r - b :=
    subInt64_eq ⟨hb.trans hle, hr⟩ ⟨hb, hle.trans hr⟩
  simp only [acceptedDelta, if_pos hle, hdirect]
  split_ifs
  · omega
  · unfold trafficDeltaOrFallback trafficCounterDelta
    split_ifs <;> omega

theorem acceptedDelta_of_unset (hb : 0 ≤ b)
    (hle : b ≤ c.totalValue r) (hr : c.totalValue r ≤ maxInt64) (hset : c.storedDeltaSet r = false) :
    acceptedDelta c (some b) r = c.totalValue r - b := by
  have hdirect : subInt64 (c.totalValue r) b = c.totalValue r - b :=
    subInt64_eq ⟨hb.trans hle, hr⟩ ⟨hb, hle.trans hr⟩
  have hdelta : trafficDeltaOrFallback (c.storedDelta r) (c.storedDeltaSet r) (c.totalValue r) b =
      c.totalValue r - b := by
    rw [trafficDeltaOrFallback, hset, trafficCounterDelta, if_neg (by simp), if_neg (by omega),
      if_pos hle, hdirect]
  simp only [acceptedDelta, if_pos hle, hdirect, hdelta, ite_self]

variable {skip : Option ℕ} {l : List (DeltaRecord × Bool)}

variable {rebases : List (Option (ℤ × ℤ))}

theorem Scan.nonneg
    {deltas : List ℤ} (h : Scan c b skip l deltas rebases) (hb : 0 ≤ b ∧ b ≤ maxInt64)
    (hl : ∀ x ∈ l, 0 ≤ c.totalValue x.1 ∧ c.totalValue x.1 ≤ maxInt64) : ∀ d ∈ deltas, 0 ≤ d := by
  induction h with
  | nil b => simp
  | accept b r forced hle _ ih =>
    obtain ⟨hr, hl⟩ := List.forall_mem_cons.mp hl
    exact List.forall_mem_cons.mpr ⟨acceptedDelta_nonneg hb.1 hle hr.2, ih hr hl⟩
  | rebase b r forced _ _ ih =>
    obtain ⟨hr, hl⟩ := List.forall_mem_cons.mp hl
    exact List.forall_mem_cons.mpr ⟨le_rfl, ih hr hl⟩
  | dip b r k _ _ ih => exact List.forall_mem_cons.mpr ⟨le_rfl, ih hb (List.forall_mem_cons.mp hl).2⟩
  | pass b r forced k _ ih =>
    exact List.forall_mem_cons.mpr ⟨le_rfl, ih hb (List.forall_mem_cons.mp hl).2⟩
  | recover b r forced hle _ ih =>
    obtain ⟨hr, hl⟩ := List.forall_mem_cons.mp hl
    refine List.forall_mem_cons.mpr ⟨?_, ih hr hl⟩
    rw [subInt64_eq hr hb]
    exact sub_nonneg.mpr hle

/-! ### The telescoping sum -/

/-- The last total of the records, or the baseline. -/
def lastTotal (c : Counter) (b : ℤ) (l : List (DeltaRecord × Bool)) : ℤ :=
  l.foldl (fun _ x => c.totalValue x.1) b

theorem lastTotal_of_ne_nil (h : l ≠ []) (b b' : ℤ) : lastTotal c b l = lastTotal c b' l := by
  cases l with
  | nil => exact absurd rfl h
  | cons x l => rfl

theorem Scan.ne_nil {k : ℕ} {deltas : List ℤ}
    (h : Scan c b (some k) l deltas rebases) : l ≠ [] := by
  cases h <;> simp

/-- **The deltas of a scan telescope.** -/
theorem Scan.sum
    {deltas : List ℤ} (h : Scan c b skip l deltas rebases) (hb : 0 ≤ b ∧ b ≤ maxInt64)
    (hl : ∀ x ∈ l, 0 ≤ c.totalValue x.1 ∧ c.totalValue x.1 ≤ maxInt64)
    (hset : ∀ x ∈ l, c.storedDeltaSet x.1 = false) :
    deltas.sum = lastTotal c b l - b + lost rebases := by
  induction h with
  | nil b => simp [lastTotal]
  | accept b r forced hle _ ih =>
    obtain ⟨hr, hl⟩ := List.forall_mem_cons.mp hl
    obtain ⟨hunset, hset⟩ := List.forall_mem_cons.mp hset
    rw [List.sum_cons, ih hr hl hset, acceptedDelta_of_unset hb.1 hle hr.2 hunset, lost_none, lastTotal,
      lastTotal, List.foldl_cons]
    dsimp only
    omega
  | rebase b r forced hlt _ ih =>
    obtain ⟨hr, hl⟩ := List.forall_mem_cons.mp hl
    rw [List.sum_cons, ih hr hl (List.forall_mem_cons.mp hset).2, lost_some, lastTotal, lastTotal,
      List.foldl_cons]
    dsimp only
    omega
  | dip b r k hlt hscan ih =>
    rw [List.sum_cons, ih hb (List.forall_mem_cons.mp hl).2 (List.forall_mem_cons.mp hset).2, lost_none,
      lastTotal_of_ne_nil hscan.ne_nil b (c.totalValue r), lastTotal, lastTotal, List.foldl_cons, zero_add]
  | pass b r forced k hscan ih =>
    rw [List.sum_cons, ih hb (List.forall_mem_cons.mp hl).2 (List.forall_mem_cons.mp hset).2, lost_none,
      lastTotal_of_ne_nil hscan.ne_nil b (c.totalValue r), lastTotal, lastTotal, List.foldl_cons, zero_add]
  | recover b r forced hle _ ih =>
    obtain ⟨hr, hl⟩ := List.forall_mem_cons.mp hl
    rw [List.sum_cons, ih hr hl (List.forall_mem_cons.mp hset).2, subInt64_eq hr hb, lost_none,
      lastTotal, lastTotal, List.foldl_cons]
    dsimp only
    omega

/-! ### The first record -/

theorem DeltaRecord.Valid.total (h : r.Valid)
    (hc : c ∈ [upCounter, downCounter]) : 0 ≤ c.totalValue r ∧ c.totalValue r ≤ maxInt64 := by
  obtain ⟨hup, hup', hdown, hdown'⟩ := h
  rcases List.mem_pair.mp hc with rfl | rfl
  · exact ⟨hup, hup'⟩
  · exact ⟨hdown, hdown'⟩

theorem forall_zip_valid (h : ∀ r ∈ records, r.Valid)
    (hc : c ∈ [upCounter, downCounter]) (flags : List Bool) :
    ∀ x ∈ records.zip flags, 0 ≤ c.totalValue x.1 ∧ c.totalValue x.1 ≤ maxInt64 :=
  fun x hx => (h x.1 (List.of_mem_zip hx).1).total hc

variable {previous : Option (ℤ × ℤ)}

/-- Without a drop the scan goes on from the first record. -/
theorem byRecord_cons (h : ∀ p ∈ previous, c.pick p ≤ c.totalValue r) :
    trafficDeltasByRecord c previous (r :: records) =
        acceptedDelta c (previous.map c.pick) r :: trafficDeltasByRecord c (some r.totals) records ∧
      rebasesByRecord c previous (r :: records) =
        none :: rebasesByRecord c (some r.totals) records := by
  unfold trafficDeltasByRecord rebasesByRecord
  rw [correlatedCounterDiscontinuities, List.zip_cons_cons, Option.map_some, c.pick_totals]
  cases previous with
  | none => exact ⟨rfl, rfl⟩
  | some p =>
    rw [Option.map_some, trafficDeltasFrom, rebasesFrom, if_neg (not_lt.mpr (h p rfl)),
      if_neg (not_lt.mpr (h p rfl))]
    exact ⟨rfl, rfl⟩

variable {p : ℤ × ℤ}

/-- After a record with a valid total no delta is negative. -/
theorem byRecord_nonneg (hc : c ∈ [upCounter, downCounter])
    (hp : 0 ≤ c.pick p ∧ c.pick p ≤ maxInt64)
    (h : ∀ r ∈ records, r.Valid) : ∀ d ∈ trafficDeltasByRecord c (some p) records, 0 ≤ d :=
  (scan_byRecord c p records).nonneg hp (forall_zip_valid h hc _)

/-- The delta over a negative baseline: the increase may not be a 64-bit integer. -/
theorem acceptedDelta_nonneg_iff (hb : minInt64 ≤ b ∧ b < 0)
    (hr : 0 ≤ c.totalValue r ∧ c.totalValue r ≤ maxInt64) :
    0 ≤ acceptedDelta c (some b) r ↔ c.totalValue r - b ≤ maxInt64 ∨
      (if c.storedDeltaSet r then max (c.storedDelta r) 0 else 0) ≤
        int64 ((c.totalValue r - b) * trafficDeltaAnomalyMultiplier + trafficDeltaAnomalyAllowance) := by
  have hdelta : trafficDeltaOrFallback (c.storedDelta r) (c.storedDeltaSet r) (c.totalValue r) b =
      if c.storedDeltaSet r then max (c.storedDelta r) 0 else 0 := by
    unfold trafficDeltaOrFallback trafficCounterDelta
    rw [if_pos (Or.inr hb.2)]
    split_ifs <;> omega
  have hle : b ≤ c.totalValue r := hb.2.le.trans hr.1
  simp only [acceptedDelta, if_pos hle, hdelta]
  generalize hstored : (if c.storedDeltaSet r then max (c.storedDelta r) 0 else 0) = stored
  have hnonneg : 0 ≤ stored := by
    rw [← hstored]
    split_ifs
    · exact le_max_right _ _
    · exact le_rfl
  unfold minInt64 at hb
  have hmax := hr.2
  by_cases hfits : c.totalValue r - b ≤ maxInt64
  · have hdirect : subInt64 (c.totalValue r) b = c.totalValue r - b :=
      int64_eq_self ⟨by unfold minInt64; omega, hfits⟩
    rw [hdirect]
    simp only [hfits, true_or, iff_true]
    split_ifs <;> omega
  · have hrange : InInt64 (c.totalValue r - b - 2 ^ 64) := by
      unfold maxInt64 at hmax hfits
      exact ⟨by unfold minInt64; omega, by unfold maxInt64; omega⟩
    have hdirect : subInt64 (c.totalValue r) b = c.totalValue r - b - 2 ^ 64 := by
      rw [subInt64, ← int64_eq_self hrange, ← int64_add_mul (c.totalValue r - b - 2 ^ 64) 1, mul_one,
        sub_add_cancel]
    -- the increase wraps to a negative number, and so may its bound
    have hbound : trafficDeltaUpperBound (c.totalValue r - b - 2 ^ 64) =
        int64 ((c.totalValue r - b) * trafficDeltaAnomalyMultiplier + trafficDeltaAnomalyAllowance) := by
      have hlimit : (maxInt64 - trafficDeltaAnomalyAllowance).tdiv trafficDeltaAnomalyMultiplier =
          2305843009196916735 := by decide
      unfold maxInt64 at hmax
      rw [trafficDeltaUpperBound, hlimit, if_neg (by omega), ← int64_add_mul _ trafficDeltaAnomalyMultiplier]
      congr 1
      unfold trafficDeltaAnomalyMultiplier
      omega
    have hnegative : c.totalValue r - b - 2 ^ 64 < 0 := by
      unfold maxInt64 at hmax
      omega
    rw [hdirect, hbound]
    simp only [hfits, false_or]
    split_ifs <;> omega

/-- **No delta is negative** exactly when that of the first record is not. -/
theorem nonneg_iff
    (hvalid : ∀ r ∈ records, r.Valid) (hprevious : ∀ p ∈ previous, InInt64 p.1 ∧ InInt64 p.2) :
    (∀ c ∈ [upCounter, downCounter], ∀ d ∈ trafficDeltasByRecord c previous records, 0 ≤ d) ↔
      FirstFits previous records := by
  unfold FirstFits
  cases records with
  | nil => simp [trafficDeltasByRecord, correlatedCounterDiscontinuities, trafficDeltasFrom]
  | cons r records =>
    obtain ⟨hr, hvalid⟩ := List.forall_mem_cons.mp hvalid
    simp only [List.head?_cons, Option.mem_some_iff, forall_eq']
    refine forall₂_congr fun c hc => ?_
    have hrest : ∀ d ∈ trafficDeltasByRecord c (some r.totals) records, 0 ≤ d :=
      byRecord_nonneg hc (by rw [c.pick_totals]; exact hr.total hc) hvalid
    cases previous with
    | none =>
      rw [(byRecord_cons (by simp)).1, List.forall_mem_cons]
      exact and_iff_left hrest
    | some p =>
      have hp : InInt64 (c.pick p) := by
        obtain ⟨hup, hdown⟩ := hprevious p rfl
        rcases List.mem_pair.mp hc with rfl | rfl
        · exact hup
        · exact hdown
      by_cases hneg : c.pick p < 0
      · have hle : c.pick p ≤ c.totalValue r := hneg.le.trans (hr.total hc).1
        rw [(byRecord_cons (by simpa using hle)).1, List.forall_mem_cons, and_iff_left hrest]
        exact acceptedDelta_nonneg_iff ⟨hp.1, hneg⟩ (hr.total hc)
      · have hmax := (hr.total hc).2
        refine iff_of_true ?_ (Or.inl (by omega))
        exact byRecord_nonneg hc ⟨not_lt.mp hneg, hp.2⟩ (List.forall_mem_cons.mpr ⟨hr, hvalid⟩)

/-! ### The total -/

theorem lastTotal_zip (c : Counter) (b : ℤ) {flags : List Bool}
    (hlength : flags.length = records.length) {last : DeltaRecord} (h : records.getLast? = some last) :
    lastTotal c b (records.zip flags) = c.totalValue last := by
  have hfold : lastTotal c b (records.zip flags) =
      ((records.zip flags).map Prod.fst).foldl (fun _ r => c.totalValue r) b := by
    rw [List.foldl_map]
    rfl
  rw [hfold, List.map_fst_zip hlength.ge]
  obtain ⟨pre, rfl⟩ := List.getLast?_eq_some_iff.mp h
  rw [List.foldl_append]
  rfl

/-- The exact sum of the deltas over a baseline. -/
theorem sum_byRecord (hp : 0 ≤ p.1 ∧ p.1 ≤ maxInt64)
    (hvalid : ∀ r ∈ records, r.Valid) (hset : ∀ r ∈ records, r.trafficUpSet = false)
    {last : DeltaRecord} (hlast : records.getLast? = some last) :
    (trafficDeltasByRecord upCounter (some p) records).sum =
      last.netTotalUp - p.1 + lost (rebasesByRecord upCounter (some p) records) := by
  have hsum := (scan_byRecord upCounter p records).sum hp (forall_zip_valid hvalid (by simp) _)
    fun x hx => hset x.1 (List.of_mem_zip hx).1
  rwa [lastTotal_zip _ _ (length_correlatedCounterDiscontinuities _ _) hlast] at hsum

/-- **The total telescopes** exactly when it is a 64-bit integer and the baseline is not negative. -/
theorem total_iff (hp : InInt64 p.1)
    (hvalid : ∀ r ∈ records, r.Valid) (hset : ∀ r ∈ records, r.trafficUpSet = false)
    {last : DeltaRecord} (hlast : records.getLast? = some last) :
    sumInt64 (trafficDeltasByRecord upCounter (some p) records) =
        last.netTotalUp - p.1 + lost (rebasesByRecord upCounter (some p) records) ↔
      0 ≤ p.1 ∧ last.netTotalUp - p.1 + lost (rebasesByRecord upCounter (some p) records) ≤ maxInt64 := by
  have hc : upCounter ∈ [upCounter, downCounter] := List.mem_cons_self
  rw [sumInt64_eq]
  by_cases hneg : p.1 < 0
  · refine iff_of_false (fun h => ?_) fun h => absurd h.1 (not_le.mpr hneg)
    cases records with
    | nil => cases hlast
    | cons r records =>
      obtain ⟨hr, hvalid⟩ := List.forall_mem_cons.mp hvalid
      obtain ⟨hunset, hset⟩ := List.forall_mem_cons.mp hset
      have htotal : 0 ≤ r.netTotalUp ∧ r.netTotalUp ≤ maxInt64 := hr.total hc
      have hle : p.1 ≤ r.netTotalUp := by omega
      obtain ⟨hdeltas, hrebases⟩ := @byRecord_cons records upCounter r (some p) fun q hq => by
        obtain rfl := Option.some.inj hq
        exact hle
      -- behind the first record the deltas telescope
      have hsum := (scan_byRecord upCounter r.totals records).sum htotal (forall_zip_valid hvalid hc _)
        fun x hx => hset x.1 (List.of_mem_zip hx).1
      have hlastTotal : lastTotal upCounter 0
          ((r :: records).zip (true :: correlatedCounterDiscontinuities (some r.totals) records)) =
            last.netTotalUp :=
        lastTotal_zip upCounter 0
          (by rw [List.length_cons, List.length_cons, length_correlatedCounterDiscontinuities]) hlast
      have hnonneg : 0 ≤ (trafficDeltasByRecord upCounter (some r.totals) records).sum :=
        List.sum_nonneg (@byRecord_nonneg records upCounter r.totals hc htotal hvalid)
      have hlast' : lastTotal upCounter (upCounter.pick r.totals)
          (records.zip (correlatedCounterDiscontinuities (some r.totals) records)) = last.netTotalUp :=
        hlastTotal
      rw [hlast'] at hsum
      change _ = last.netTotalUp - r.netTotalUp + lost (rebasesByRecord upCounter (some r.totals) records)
        at hsum
      have hin := inInt64_int64
        (trafficDeltasByRecord upCounter (some p) (r :: records)).sum
      rw [h, hrebases, lost_none] at hin
      rw [hdeltas, hrebases, lost_none, List.sum_cons] at h
      obtain ⟨-, hmax⟩ := hin
      -- the increase is a 64-bit integer, so the first delta is zero
      have hdirect : subInt64 r.netTotalUp p.1 = r.netTotalUp - p.1 :=
        int64_eq_self ⟨by unfold minInt64; omega, by omega⟩
      have hfirst : acceptedDelta upCounter ((some p).map upCounter.pick) r = 0 := by
        have hbound := le_trafficDeltaUpperBound (d := r.netTotalUp - p.1) (by omega)
        have hdelta : trafficDeltaOrFallback r.trafficUp r.trafficUpSet r.netTotalUp p.1 = 0 := by
          rw [trafficDeltaOrFallback, hunset, trafficCounterDelta, if_neg (by simp), if_pos (Or.inr hneg)]
        change (if p.1 ≤ r.netTotalUp then
          if trafficDeltaUpperBound (subInt64 r.netTotalUp p.1) <
              trafficDeltaOrFallback r.trafficUp r.trafficUpSet r.netTotalUp p.1 then
            subInt64 r.netTotalUp p.1
          else trafficDeltaOrFallback r.trafficUp r.trafficUpSet r.netTotalUp p.1
          else trafficDeltaOrFallback r.trafficUp r.trafficUpSet r.netTotalUp p.1) = 0
        rw [if_pos hle, hdirect, hdelta, if_neg (by omega)]
      rw [hfirst, zero_add, int64_eq_self ⟨le_trans (by decide) hnonneg, by omega⟩] at h
      omega
  · have hp : 0 ≤ p.1 ∧ p.1 ≤ maxInt64 := ⟨not_lt.mp hneg, hp.2⟩
    have hnonneg : 0 ≤ (trafficDeltasByRecord upCounter (some p) records).sum :=
      List.sum_nonneg (byRecord_nonneg hc hp hvalid)
    rw [sum_byRecord hp hvalid hset hlast] at hnonneg ⊢
    constructor
    · intro h
      exact ⟨hp.1, h ▸ (inInt64_int64 _).2⟩
    · intro h
      exact int64_eq_self ⟨le_trans (by decide) hnonneg, h.2⟩

/-! ### Resets -/

theorem forcedDiscontinuity_iff {rest : List DeltaRecord} :
    forcedDiscontinuity (some p) r rest = true ↔ r.netTotalUp < p.1 ∧ r.netTotalDown < p.2 ∧
      ∀ k, ¬(findCounterRecovery p.1 r.time DeltaRecord.netTotalUp rest = some k ∧
        findCounterRecovery p.2 r.time DeltaRecord.netTotalDown rest = some k) := by
  simp only [forcedDiscontinuity]
  generalize findCounterRecovery p.1 r.time DeltaRecord.netTotalUp rest = up
  generalize findCounterRecovery p.2 r.time DeltaRecord.netTotalDown rest = down
  split_ifs with hdrop
  · cases up with
    | none => simp [hdrop]
    | some i => cases down with
      | none => simp [hdrop]
      | some j =>
        have hne : ¬i = j ↔ ∀ k, ¬(i = k ∧ j = k) := by
          constructor
          · rintro hne k ⟨rfl, rfl⟩
            exact hne rfl
          · rintro hall rfl
            exact hall i ⟨rfl, rfl⟩
        simpa [hdrop] using hne
  · simp only [false_iff]
    exact fun h => hdrop ⟨h.1, h.2.1⟩

/-- No drop of the counter among the records of `pre` is recovered in `post`. -/
def settledFor (c : Counter) : Option (ℤ × ℤ) → List DeltaRecord → List DeltaRecord → Bool
  | _, [], _ => true
  | previous, r :: pre, post =>
    dropSettled c previous r pre post && settledFor c (some r.totals) pre post

theorem settled_eq (previous : Option (ℤ × ℤ)) (pre post : List DeltaRecord) :
    settled previous pre post =
      (settledFor upCounter previous pre post && settledFor downCounter previous pre post) := by
  induction pre generalizing previous with
  | nil => rfl
  | cons r pre ih =>
    rw [settled, settledFor, settledFor, ih]
    ac_rfl

/-- Where the scan of a counter is before the records that follow: it goes on from the previous totals, or
it passes over a dip. -/
structure ScanState (c : Counter) (previous : Option (ℤ × ℤ)) (baseline : Option ℤ) (skip : Option ℕ)
    (records : List DeltaRecord) : Prop where
  going : skip = none → baseline = previous.map c.pick
  passing : ∀ k ∈ skip, ∃ b, baseline = some b ∧ (∀ p ∈ previous, c.pick p < b) ∧
    (∃ r, records[k]? = some r ∧ b ≤ c.totalValue r) ∧
      ∀ j r, j < k → records[j]? = some r → c.totalValue r < b

/-- The rebases of the records, from a state of the scan. -/
def rebasesAt (c : Counter) (previous : Option (ℤ × ℤ)) (baseline : Option ℤ) (skip : Option ℕ)
    (records : List DeltaRecord) : List (Option (ℤ × ℤ)) :=
  rebasesFrom c baseline skip (records.zip (correlatedCounterDiscontinuities previous records))

/-- Inside a dip no drop recovers after the dip. -/
theorem dropSettled_of_passing
    {pre post : List DeltaRecord} {k : ℕ} (hprevious : ∀ p ∈ previous, c.pick p < b)
    (hback : ∃ r', (pre ++ post)[k]? = some r' ∧ b ≤ c.totalValue r') (hk : k < pre.length) :
    dropSettled c previous r pre post = true := by
  cases previous with
  | none => rfl
  | some p =>
    rw [dropSettled, Bool.or_eq_true]
    right
    rw [Option.all_eq_true]
    intro k' hk'
    rw [decide_eq_true_iff]
    obtain ⟨r', hr', hle⟩ := hback
    -- the recovery of the dip is a recovery of every drop inside of it
    have hbelow := (findCounterRecovery_eq_some hk').2 k r'
    have hp := hprevious p rfl
    by_contra hge
    exact absurd (hbelow (by omega) hr') (by omega)

/-- **One record of the scan**: it is out of the dips in time if it was, and no drop of the record
recovers later. -/
theorem ScanState.next {baseline : Option ℤ}
    (h : ScanState c previous baseline skip (r :: records)) :
    ∃ baseline' skip' head, ScanState c (some r.totals) baseline' skip' records ∧
      rebasesAt c previous baseline skip (r :: records) =
        head :: rebasesAt c (some r.totals) baseline' skip' records ∧
      ∀ pre post, records = pre ++ post → ((∀ k ∈ skip', k < pre.length) ↔
        (∀ k ∈ skip, k < pre.length + 1) ∧ dropSettled c previous r pre post = true) := by
  have hgoing : ScanState c (some r.totals) (some (c.totalValue r)) none records :=
    ⟨fun _ => by rw [Option.map_some, c.pick_totals], by simp⟩
  have hrecords : (records.zip (correlatedCounterDiscontinuities (some r.totals) records)).map Prod.fst =
      records := List.map_fst_zip (length_correlatedCounterDiscontinuities _ _).ge
  unfold rebasesAt
  rw [correlatedCounterDiscontinuities, List.zip_cons_cons]
  rcases skip with _ | _ | k
  · obtain rfl := h.going rfl
    cases previous with
    | none => exact ⟨_, _, none, hgoing, rfl, fun pre post _ => by simp [dropSettled]⟩
    | some p =>
      rw [Option.map_some, rebasesFrom, hrecords]
      by_cases hdrop : c.totalValue r < c.pick p
      · rw [if_pos hdrop]
        cases hforced : forcedDiscontinuity (some p) r records with
        | true =>
          refine ⟨_, _, _, hgoing, if_pos rfl, fun pre post hsplit => ?_⟩
          rw [hsplit] at hforced
          simp [dropSettled, hforced]
        | false =>
          rw [if_neg (by simp)]
          cases hfound : findCounterRecovery (c.pick p) r.time c.totalValue records with
          | none =>
            refine ⟨_, _, _, hgoing, rfl, fun pre post hsplit => ?_⟩
            rw [hsplit] at hfound
            simp [dropSettled, hfound]
          | some k =>
            obtain ⟨hback, hbelow⟩ := findCounterRecovery_eq_some hfound
            refine ⟨some (c.pick p), some k, none, ⟨by simp, fun k' hk' => ?_⟩, rfl,
              fun pre post hsplit => ?_⟩
            · obtain rfl := Option.some.inj hk'
              refine ⟨_, rfl, fun q hq => ?_, hback, hbelow⟩
              obtain rfl := Option.some.inj hq
              rwa [c.pick_totals]
            · rw [hsplit] at hfound hforced
              simp [dropSettled, hfound, hforced, hdrop]
      · rw [if_neg hdrop]
        exact ⟨_, _, _, hgoing, rfl, fun pre post _ => by simp [dropSettled, hdrop]⟩
  · obtain ⟨b, rfl, hprevious, ⟨r', hr', hback⟩, -⟩ := h.passing 0 rfl
    obtain rfl := Option.some.inj hr'
    refine ⟨_, _, none, hgoing, rfl, fun pre post _ => ?_⟩
    cases previous with
    | none => simp [dropSettled]
    | some p =>
      have hp := hprevious p rfl
      have hdrop : ¬c.totalValue r < c.pick p := by omega
      simp [dropSettled, hdrop]
  · obtain ⟨b, rfl, hprevious, hback, hbelow⟩ := h.passing (k + 1) rfl
    refine ⟨some b, some k, none, ⟨by simp, fun k' hk' => ?_⟩, rfl, fun pre post hsplit => ?_⟩
    · obtain rfl := Option.some.inj hk'
      refine ⟨b, rfl, fun q hq => ?_, hback, fun j r' hj hr' => hbelow (j + 1) r' (by omega) hr'⟩
      obtain rfl := Option.some.inj hq
      rw [c.pick_totals]
      exact hbelow 0 r (by omega) rfl
    · subst hsplit
      have hsettled := @dropSettled_of_passing c b r _ pre post _ hprevious hback
      constructor
      · intro hall
        have hk := hall k rfl
        exact ⟨by simpa using hk, hsettled hk⟩
      · intro hall
        simpa using hall.1

/-- **What the scan does at a record**: it passes over it, if a drop before it recovers there or later, and
otherwise it is as if it began there. -/
theorem ScanState.rebases_getElem? {post : List DeltaRecord}
    (pre : List DeltaRecord) {baseline : Option ℤ}
    (h : ScanState c previous baseline skip (pre ++ r :: post)) :
    (rebasesAt c previous baseline skip (pre ++ r :: post))[pre.length]? =
      if (∀ k ∈ skip, k < pre.length) ∧ settledFor c previous pre (r :: post) = true then
        (rebasesByRecord c (lastTotals previous pre) (r :: post)).head?
      else some none := by
  induction pre generalizing previous baseline skip with
  | nil =>
    rcases skip with _ | _ | k
    · obtain rfl := h.going rfl
      rw [if_pos ⟨by simp, rfl⟩, List.head?_eq_getElem?]
      rfl
    · rw [if_neg (by simp)]
      rfl
    · rw [if_neg (by simp)]
      rfl
  | cons r' pre ih =>
    rw [List.cons_append] at h ⊢
    obtain ⟨baseline', skip', head, hnext, heq, hout⟩ := h.next
    rw [heq, List.length_cons, List.getElem?_cons_succ, ih hnext]
    refine if_congr ?_ rfl rfl
    rw [hout pre _ rfl, settledFor, Bool.and_eq_true, and_assoc]

/-- A forced discontinuity is a reset of a counter, unless the scan passes over it. -/
theorem rebasesByRecord_forced (hc : c ∈ [upCounter, downCounter]) {pre post : List DeltaRecord}
    (hlast : lastTotals previous pre = some p) (hforced : forcedDiscontinuity (some p) r post = true) :
    (rebasesByRecord c previous (pre ++ r :: post))[pre.length]? =
      if settledFor c previous pre (r :: post) = true then some (some (c.pick p, c.totalValue r))
      else some none := by
  have hstart : ScanState c previous (previous.map c.pick) none (pre ++ r :: post) :=
    ⟨fun _ => rfl, by simp⟩
  have hdrop : c.totalValue r < c.pick p := by
    obtain ⟨hup, hdown, -⟩ := forcedDiscontinuity_iff.mp hforced
    rcases List.mem_pair.mp hc with rfl | rfl
    · exact hup
    · exact hdown
  have hhead : (rebasesByRecord c (some p) (r :: post)).head? =
      some (some (c.pick p, c.totalValue r)) := by
    rw [rebasesByRecord, correlatedCounterDiscontinuities, List.zip_cons_cons, Option.map_some,
      rebasesFrom, if_pos hdrop, hforced, if_pos rfl]
    rfl
  have h := hstart.rebases_getElem? pre
  rw [hlast, hhead] at h
  simpa [rebasesAt, rebasesByRecord] using h

/-- **Simultaneous drops are resets** exactly when no drop before them recovers there or later. -/
theorem resets_iff (previous : Option (ℤ × ℤ)) (records : List DeltaRecord) :
    (∀ pre r post p, records = pre ++ r :: post → lastTotals previous pre = some p →
      r.netTotalUp < p.1 → r.netTotalDown < p.2 →
      (∀ k, ¬(findCounterRecovery p.1 r.time DeltaRecord.netTotalUp post = some k ∧
        findCounterRecovery p.2 r.time DeltaRecord.netTotalDown post = some k)) →
      ∀ c ∈ [upCounter, downCounter],
        (rebasesByRecord c previous records)[pre.length]? = some (some (c.pick p, c.totalValue r))) ↔
      ForcedSettled previous records := by
  constructor
  · rintro h pre r post rfl hforced
    cases hlast : lastTotals previous pre with
    | none =>
      rw [hlast] at hforced
      cases hforced
    | some p =>
      rw [hlast] at hforced
      obtain ⟨hup, hdown, hapart⟩ := forcedDiscontinuity_iff.mp hforced
      have hsettled : ∀ c ∈ [upCounter, downCounter], settledFor c previous pre (r :: post) = true := by
        intro c hc
        have hreset := h pre r post p rfl hlast hup hdown hapart c hc
        rw [rebasesByRecord_forced hc hlast hforced] at hreset
        by_contra hnot
        rw [if_neg hnot] at hreset
        cases hreset
      rw [settled_eq, hsettled _ (by simp), hsettled _ (by simp)]
      rfl
  · rintro h pre r post p rfl hlast hup hdown hapart c hc
    have hforced := forcedDiscontinuity_iff.mpr ⟨hup, hdown, hapart⟩
    have hsettled := h pre r post rfl (hlast ▸ hforced)
    rw [settled_eq, Bool.and_eq_true] at hsettled
    rw [rebasesByRecord_forced hc hlast hforced, if_pos]
    rcases List.mem_pair.mp hc with rfl | rfl
    · exact hsettled.1
    · exact hsettled.2

/-- **When counter deltas telescope**: the delta of the first record is not negative, the total is a
64-bit integer over a baseline that is not negative, and no drop before a forced discontinuity recovers
there or later. -/
theorem telescopes_iff (previous : Option (ℤ × ℤ)) (records : List DeltaRecord)
    (hvalid : ∀ r ∈ records, r.Valid) (hprevious : ∀ p ∈ previous, InInt64 p.1 ∧ InInt64 p.2) :
    Telescopes previous records ↔
      FirstFits previous records ∧ TotalFits previous records ∧ ForcedSettled previous records := by
  have htotal : (∀ p last, previous = some p → records.getLast? = some last →
      (∀ r ∈ records, r.trafficUpSet = false) → ¬EndsInDip upCounter previous records →
        sumInt64 (trafficDeltasByRecord upCounter previous records) =
          last.netTotalUp - p.1 + lost (rebasesByRecord upCounter previous records)) ↔
      TotalFits previous records := by
    refine forall₂_congr fun p last => forall₄_congr fun hp hlast hset _ => ?_
    subst hp
    exact total_iff (hprevious p rfl).1 hvalid hset hlast
  rw [← nonneg_iff hvalid hprevious, ← htotal, ← resets_iff]
  exact ⟨fun h => ⟨h.nonneg, h.total, h.resets⟩, fun h => ⟨h.1, h.2.1, h.2.2⟩⟩

def counters (time up down : ℤ) : DeltaRecord := ⟨time, up, down, 0, 0, false, false⟩

theorem telescopes_glitch : Telescopes (some (1000, 900)) [counters 0 500 900, counters 60 1100 950] := by
  refine (telescopes_iff _ _ (by decide) (by decide)).mpr ⟨?_, ?_, ?_⟩
  · rintro r ⟨⟩ c hc
    rcases List.mem_pair.mp hc with rfl | rfl <;> exact Or.inl (by decide)
  · rintro p last ⟨⟩ ⟨⟩ - -
    exact ⟨by decide, by decide⟩
  · rintro pre r post hsplit hforced
    rcases pre with _ | ⟨a, _ | ⟨b, pre⟩⟩
    · cases hsplit
      cases hforced
    · cases hsplit
      cases hforced
    · simp at hsplit

/-- Without a baseline a negative stored delta is counted; and the reset of the upload at the second
record is not counted, because the scan passes over it to the recovery of the drop before it. -/
theorem telescopes_fails :
    ¬Telescopes none [⟨0, 100, 100, -5, 0, true, false⟩] ∧
      ¬Telescopes (some (1000, 1000))
        [counters 0 500 1000, counters 60 400 500, counters 120 1100 600] := by
  constructor
  · intro h
    exact absurd (h.nonneg upCounter (by simp) (-5) (by decide)) (by decide)
  · intro h
    have hreset := h.resets [counters 0 500 1000] (counters 60 400 500) [counters 120 1100 600] (500, 1000)
      rfl rfl (by decide) (by decide) (fun k hk => by cases hk.2) upCounter (by simp)
    revert hreset
    decide

end Traffic

end Komari
