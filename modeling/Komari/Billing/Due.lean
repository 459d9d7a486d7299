import Komari.Billing.Accrual
import Komari.Traffic.Additive
import Mathlib.Data.Set.Card
import Mathlib.Order.Interval.Finset.Nat
import Mathlib.Data.Int.Interval

/-!
# What a version costs in a day
-/

namespace Komari

namespace Billing

open Calendar (dateOnly)
open Traffic (beijingDay dayStart nanosPerDay dayStart_le_iff lt_dayStart_iff beijingDay_dayStart)

/-- The instants of a day in which a version is in force. -/
def billedInstants (version : PriceVersion) (day : ℤ) : Set ℤ :=
  {t | beijingDay t = day ∧ InForce version t}

/-- What a version costs in a day: the billed share of a cycle, of the price. -/
noncomputable def dueAmount (version : PriceVersion) (day : ℤ) : ℤ :=
  if version.priced then
    roundHalfAway (version.priceMicros *
      ((billedInstants version day).ncard / (version.billingCycleDays * nanosPerDay : ℤ) : ℚ))
  else 0

/-- The longest cycle whose nanoseconds fit into 64 bits. -/
def maxCycleDays : ℤ := 106751

/-- The entry is the accrual of a version for a day. -/
structure Accrues (entry : BillingEntry) (version : PriceVersion) (day : ℤ) : Prop where
  type : entry.type = .baseAccrual
  versionID : entry.priceVersionID = some version.id
  date : entry.day = dateOnly day
  key : entry.entryKey = baseKey version.client (dateOnly day) version.id
  amount : entry.originalAmountMicros = dueAmount version day

/-! ### Billed instants -/

theorem lt_cutAt_iff {cut : Option ℤ} {stop t : ℤ} :
    t < cutAt cut stop ↔ t < stop ∧ ∀ x, cut = some x → t < x := by
  unfold cutAt
  cases cut with
  | none => simp
  | some cut =>
    simp only [Option.some.injEq, forall_eq']
    split_ifs <;> omega

/-- The start of what is billed of a day. -/
def billedStart (version : PriceVersion) (day : ℤ) : ℤ :=
  if dayStart day < version.effectiveFrom then version.effectiveFrom else dayStart day

/-- The end of what is billed of a day. -/
def billedStop (version : PriceVersion) (day : ℤ) : ℤ :=
  cutAt version.expiredAt (cutAt version.effectiveTo (dayStart (day + 1)))

/-- **The billed instants of a day are an interval.** -/
theorem billedInstants_eq (version : PriceVersion) (day : ℤ) :
    billedInstants version day = Set.Ico (billedStart version day) (billedStop version day) := by
  ext t
  have hday : beijingDay t = day ↔ dayStart day ≤ t ∧ t < dayStart (day + 1) := by
    rw [dayStart_le_iff, lt_dayStart_iff]
    omega
  have hstart : billedStart version day ≤ t ↔ dayStart day ≤ t ∧ version.effectiveFrom ≤ t := by
    unfold billedStart
    split_ifs <;> omega
  rw [Set.mem_Ico, hstart, billedStop, lt_cutAt_iff, lt_cutAt_iff, billedInstants, Set.mem_ofPred_eq,
    hday]
  constructor
  · rintro ⟨⟨hlow, hhigh⟩, hfrom, hto, hexpired⟩
    exact ⟨⟨hlow, hfrom⟩, ⟨hhigh, hto⟩, hexpired⟩
  · rintro ⟨⟨hlow, hfrom⟩, ⟨hhigh, hto⟩, hexpired⟩
    exact ⟨⟨hlow, hhigh⟩, hfrom, hto, hexpired⟩

theorem ncard_billedInstants (version : PriceVersion) (day : ℤ) :
    (billedInstants version day).ncard =
      (billedStop version day - billedStart version day).toNat := by
  rw [billedInstants_eq, ← Finset.coe_Ico, Set.ncard_coe_finset, Int.card_Ico]

theorem ncard_billedInstants_le (version : PriceVersion) (day : ℤ) :
    ((billedInstants version day).ncard : ℤ) ≤ nanosPerDay := by
  have hstart : dayStart day ≤ billedStart version day := by
    unfold billedStart
    split_ifs <;> omega
  have hstop : billedStop version day ≤ dayStart (day + 1) := by
    by_contra hlt
    exact lt_irrefl _ (lt_cutAt_iff.mp (lt_cutAt_iff.mp (not_le.mp hlt)).1).1
  rw [ncard_billedInstants]
  unfold dayStart nanosPerDay at *
  omega

theorem dueAmount_eq_zero {version : PriceVersion} {day : ℤ}
    (h : ∀ t, beijingDay t = day → ¬InForce version t) : dueAmount version day = 0 := by
  have hempty : billedInstants version day = ∅ :=
    Set.eq_empty_iff_forall_notMem.mpr fun t ht => h t ht.1 ht.2
  unfold dueAmount
  rw [hempty]
  simp

theorem priced_of_dueAmount {version : PriceVersion} {day : ℤ} (h : dueAmount version day ≠ 0) :
    version.priced = true := by
  unfold dueAmount at h
  by_contra hnot
  exact h (if_neg hnot)

/-! ### The entry of a day -/

theorem priced_iff {version : PriceVersion} : version.priced = true ↔
    0 < version.priceMicros ∧ 0 < version.billingCycleDays ∧ version.currencyValid = true := by
  simp [PriceVersion.priced, and_assoc]

section Amounts

variable {version : PriceVersion} {day : ℤ}

/-- Cycles of up to 106751 days do not overflow. -/
theorem int64_cycleNanos (hpriced : version.priced = true)
    (hcycle : version.billingCycleDays ≤ maxCycleDays) :
    int64 (version.billingCycleDays * nanosPerDay) = version.billingCycleDays * nanosPerDay := by
  obtain ⟨-, hdays, -⟩ := priced_iff.mp hpriced
  refine int64_eq_self ⟨?_, ?_⟩
  · unfold minInt64 nanosPerDay
    omega
  · unfold maxInt64 nanosPerDay
    unfold maxCycleDays at hcycle
    omega

/-- The amount of a day, before it is rounded, is between zero and the price. -/
theorem dueRatio_bounds (hpriced : version.priced = true) :
    (0 : ℚ) ≤ (billedInstants version day).ncard / (version.billingCycleDays * nanosPerDay : ℤ) ∧
      ((billedInstants version day).ncard / (version.billingCycleDays * nanosPerDay : ℤ) : ℚ) ≤ 1 := by
  obtain ⟨-, hdays, -⟩ := priced_iff.mp hpriced
  have hpos : 0 < version.billingCycleDays * nanosPerDay := by
    unfold nanosPerDay
    omega
  have hle : ((billedInstants version day).ncard : ℤ) ≤ version.billingCycleDays * nanosPerDay := by
    refine (ncard_billedInstants_le version day).trans ?_
    unfold nanosPerDay
    omega
  have hpos' : (0 : ℚ) < (version.billingCycleDays * nanosPerDay : ℤ) := by exact_mod_cast hpos
  refine ⟨div_nonneg (Nat.cast_nonneg _) hpos'.le, (div_le_one hpos').mpr ?_⟩
  exact_mod_cast hle

/-- What the code computes for a day with billed instants is the amount that is due. -/
theorem multiplyRatio_day (hpriced : version.priced = true)
    (hcycle : version.billingCycleDays ≤ maxCycleDays)
    (hlt : billedStart version day < billedStop version day) :
    multiplyRatio version.priceMicros (billedStop version day - billedStart version day)
        (int64 (version.billingCycleDays * nanosPerDay)) =
      if InInt64 (dueAmount version day) then .ok (dueAmount version day)
      else .error "converted amount is out of range" := by
  obtain ⟨-, hdays, -⟩ := priced_iff.mp hpriced
  have hcard : (((billedInstants version day).ncard : ℤ) : ℚ) =
      (billedStop version day - billedStart version day : ℤ) := by
    rw [ncard_billedInstants, Int.toNat_of_nonneg (by omega)]
  rw [int64_cycleNanos hpriced hcycle, multiplyRatio_eq (by omega) (by unfold nanosPerDay; omega),
    roundRatToInt64_eq, dueAmount, if_pos hpriced, ← hcard, Int.cast_natCast]

end Amounts

section Entries

variable [CurrencyTable] {latest : LatestFX} {version : PriceVersion} {day : ℤ}

theorem accrualEntryForInterval_eq :
    accrualEntryForInterval latest version (dayStart day) (dayStart (day + 1)) =
      if ¬billedStart version day < billedStop version day then .ok none
      else do
        let amount ← (multiplyRatio version.priceMicros
          (billedStop version day - billedStart version day)
          (int64 (version.billingCycleDays * nanosPerDay))).mapError fun e =>
            "calculate accrual for price version " ++ decimal version.id ++ ": " ++ e
        if amount = 0 then return none
        let (snapshotID, usdAmount) ← accrualConversion latest version amount
        return some
          { id := 0, entryKey := baseKey version.client (dateOnly day) version.id,
            client := version.client, clientName := version.clientName, type := .baseAccrual,
            day := dateOnly day, occurredAt := billedStop version day,
            originalAmountMicros := amount, originalCurrency := version.currency,
            fxSnapshotID := snapshotID, usdAmountMicros := usdAmount,
            priceVersionID := some version.id, reversalOf := none,
            sourceRef := "price-version:" ++ decimal version.id, note := "daily cost accrual",
            operator := "" } := by
  unfold accrualEntryForInterval
  rw [beijingDay_dayStart]
  rfl

theorem accrualEntryForInterval_none (hpriced : version.priced = true)
    (hcycle : version.billingCycleDays ≤ maxCycleDays)
    (h : accrualEntryForInterval latest version (dayStart day) (dayStart (day + 1)) = .ok none) :
    dueAmount version day = 0 := by
  rw [accrualEntryForInterval_eq] at h
  by_cases hlt : billedStart version day < billedStop version day
  · rw [if_neg (not_not.mpr hlt), multiplyRatio_day hpriced hcycle hlt] at h
    by_contra hne
    split_ifs at h
    · simp only [Except.mapError, bind, Except.bind, if_neg hne] at h
      cases hconvert : accrualConversion latest version (dueAmount version day) with
      | error e => simp [hconvert] at h
      | ok found => simp [hconvert, pure, Except.pure] at h
    · cases h
  · refine dueAmount_eq_zero fun t hday hforce => ?_
    have hmem : t ∈ billedInstants version day := ⟨hday, hforce⟩
    rw [billedInstants_eq] at hmem
    exact hlt (hmem.1.trans_lt hmem.2)

theorem accrualEntryForInterval_some {entry : BillingEntry} (hpriced : version.priced = true)
    (hcycle : version.billingCycleDays ≤ maxCycleDays)
    (h : accrualEntryForInterval latest version (dayStart day) (dayStart (day + 1)) =
      .ok (some entry)) : Accrues entry version day ∧ dueAmount version day ≠ 0 := by
  rw [accrualEntryForInterval_eq] at h
  by_cases hlt : billedStart version day < billedStop version day
  · rw [if_neg (not_not.mpr hlt), multiplyRatio_day hpriced hcycle hlt] at h
    split_ifs at h
    · simp only [Except.mapError, bind, Except.bind] at h
      by_cases hzero : dueAmount version day = 0
      · rw [if_pos hzero] at h
        cases h
      · rw [if_neg hzero] at h
        refine ⟨?_, hzero⟩
        cases hconvert : accrualConversion latest version (dueAmount version day) with
        | error e => simp [hconvert] at h
        | ok found =>
          simp only [hconvert, pure, Except.pure, Except.ok.injEq, Option.some.injEq] at h
          subst h
          exact ⟨rfl, rfl, rfl, rfl, rfl⟩
    · cases h
  · rw [if_pos hlt] at h
    cases h

/-- An amount of a version has a dollar value if the latest rates can be read. -/
theorem exists_accrualConversion {amount : ℤ} (hlatest : ∃ found, latest = .ok found)
    (hpos : 0 < version.priceMicros)
    (husd : ∀ usd, version.usdPriceMicros = some usd → InInt64 usd)
    (hamount : 0 ≤ amount ∧ amount ≤ version.priceMicros) :
    ∃ found, accrualConversion latest version amount = .ok found := by
  have hsnapshot : ∃ found, snapshotConversion latest amount version.currency = .ok found := by
    obtain ⟨found, rfl⟩ := hlatest
    unfold snapshotConversion
    cases found with
    | none => exact ⟨_, rfl⟩
    | some snapshot =>
      dsimp only
      cases convertMicros amount version.currency "USD" snapshot.2 <;> exact ⟨_, rfl⟩
  unfold accrualConversion lockedConversionFromVersion
  cases husd' : version.usdPriceMicros with
  | none => simpa [bind, Except.bind] using hsnapshot
  | some usd =>
    cases version.fxSnapshotID with
    | none => simpa [bind, Except.bind] using hsnapshot
    | some snapshotID =>
      -- the share of the dollar price lies between zero and that price
      have hin : InInt64 (roundHalfAway (usd * (amount / version.priceMicros : ℚ))) := by
        have hpos' : (0 : ℚ) < version.priceMicros := by exact_mod_cast hpos
        have hlow : (0 : ℚ) ≤ amount / version.priceMicros :=
          div_nonneg (by exact_mod_cast hamount.1) hpos'.le
        have hhigh : (amount / version.priceMicros : ℚ) ≤ 1 :=
          (div_le_one hpos').mpr (by exact_mod_cast hamount.2)
        have hbounds := @roundHalfAway_mem_Icc (usd * (amount / version.priceMicros : ℚ))
          (min usd 0) (max usd 0) (by
            push_cast
            rcases le_total (usd : ℚ) 0 with h | h
            · rw [min_eq_left h]
              nlinarith
            · rw [min_eq_right h]
              exact mul_nonneg h hlow) (by
            push_cast
            rcases le_total (usd : ℚ) 0 with h | h
            · rw [max_eq_right h]
              exact mul_nonpos_of_nonpos_of_nonneg h hlow
            · rw [max_eq_left h]
              nlinarith)
        have husd64 := husd usd husd'
        unfold InInt64 minInt64 maxInt64 at *
        omega
      have hratio : multiplyRatio usd amount version.priceMicros =
          .ok (roundHalfAway (usd * (amount / version.priceMicros : ℚ))) := by
        rw [multiplyRatio_eq hamount.1 hpos, roundRatToInt64_eq, if_pos hin]
      simp only [if_neg hpos.ne', hratio, bind, Except.bind, pure, Except.pure]
      exact ⟨_, rfl⟩

/-- **A day of a version can be accrued if the latest rates can be read.** -/
theorem exists_accrualEntryForInterval (hlatest : ∃ found, latest = .ok found)
    (hpriced : version.priced = true) (hcycle : version.billingCycleDays ≤ maxCycleDays)
    (hprice : InInt64 version.priceMicros)
    (husd : ∀ usd, version.usdPriceMicros = some usd → InInt64 usd) :
    ∃ found, accrualEntryForInterval latest version (dayStart day) (dayStart (day + 1)) =
      .ok found := by
  obtain ⟨hpos, -, -⟩ := priced_iff.mp hpriced
  rw [accrualEntryForInterval_eq]
  by_cases hlt : billedStart version day < billedStop version day
  · have hamount : 0 ≤ dueAmount version day ∧ dueAmount version day ≤ version.priceMicros := by
      obtain ⟨hlow, hhigh⟩ := @dueRatio_bounds version day hpriced
      have hpos' : (0 : ℚ) < version.priceMicros := by exact_mod_cast hpos
      rw [dueAmount, if_pos hpriced]
      exact roundHalfAway_mem_Icc (by push_cast at *; positivity) (by nlinarith)
    have hin : InInt64 (dueAmount version day) := by
      unfold InInt64 minInt64 maxInt64 at *
      omega
    rw [if_neg (not_not.mpr hlt), multiplyRatio_day hpriced hcycle hlt, if_pos hin]
    simp only [Except.mapError, bind, Except.bind]
    split_ifs
    · exact ⟨_, rfl⟩
    · obtain ⟨found, hfound⟩ := exists_accrualConversion hlatest hpos husd hamount
      rw [hfound]
      exact ⟨_, rfl⟩
  · rw [if_pos hlt]
    exact ⟨_, rfl⟩

end Entries

end Billing

end Komari
