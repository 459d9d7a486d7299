import Komari.Billing.Due

/-!
# Catching up

A call stops at the first failure and keeps what it has stored, and the next call starts behind the
last accrued day.  This works because the accrued days of a version never have a gap.
-/

namespace Komari

namespace Billing

open Calendar (dateOnly)
open Traffic (beijingDay dayStart dayStart_le_iff lt_dayStart_iff)

/-! ### Ledgers -/

/-- The ledger has the accrual of a version for a day. -/
def Accrued (entries : List BillingEntry) (version : PriceVersion) (day : ℤ) : Prop :=
  ∃ entry ∈ entries, Accrues entry version day

/-- The ledger has every accrual of a version that is due before a day. -/
def AccruedBefore (entries : List BillingEntry) (version : PriceVersion) (day : ℤ) : Prop :=
  ∀ d < day, dueAmount version d ≠ 0 → Accrued entries version d

/-- Versions with ids of their own, cycles that do not overflow and amounts of 64 bits. -/
structure SoundVersions (versions : List PriceVersion) : Prop where
  ids : (versions.map PriceVersion.id).Nodup
  cycles : ∀ version ∈ versions, version.billingCycleDays ≤ maxCycleDays
  prices : ∀ version ∈ versions, InInt64 version.priceMicros
  dollars : ∀ version ∈ versions, ∀ usd, version.usdPriceMicros = some usd → InInt64 usd

/-- The entries are accruals that are due, of days that end by `limit`, and single payments; and the
accrued days of a version have no gap. -/
structure SoundLedger (versions : List PriceVersion) (limit : ℤ) (entries : List BillingEntry) :
    Prop where
  keys : (entries.map BillingEntry.entryKey).Nodup
  sound : ∀ entry ∈ entries,
    (∃ version ∈ versions, ∃ day, Accrues entry version day ∧ dueAmount version day ≠ 0 ∧
      dayStart (day + 1) ≤ limit) ∨
    (entry.type ≠ .baseAccrual ∧ ∃ client id, entry.entryKey = oneTimeKey client id)
  gapless : ∀ version ∈ versions, ∀ day, Accrued entries version day →
    AccruedBefore entries version day

variable {version : PriceVersion}

theorem Accrued.mono {entries entries' : List BillingEntry} {day : ℤ}
    (h : Accrued entries version day) (hsub : ∀ entry ∈ entries, entry ∈ entries') :
    Accrued entries' version day := by
  obtain ⟨entry, hmem, haccrues⟩ := h
  exact ⟨entry, hsub entry hmem, haccrues⟩

theorem AccruedBefore.mono {entries entries' : List BillingEntry} {day : ℤ}
    (h : AccruedBefore entries version day) (hsub : ∀ entry ∈ entries, entry ∈ entries') :
    AccruedBefore entries' version day :=
  fun d hd hdue => (h d hd hdue).mono hsub

theorem AccruedBefore.succ {entries : List BillingEntry} {day : ℤ}
    (h : AccruedBefore entries version day)
    (hday : dueAmount version day ≠ 0 → Accrued entries version day) :
    AccruedBefore entries version (day + 1) := by
  intro d hd hdue
  rcases (Int.lt_add_one_iff.mp hd).eq_or_lt with rfl | hlt
  · exact hday hdue
  · exact h d hlt hdue

section Ledgers

variable {versions : List PriceVersion} {limit : ℤ} {entries : List BillingEntry}

theorem SoundVersions.eq_of_id (hv : SoundVersions versions) {version version' : PriceVersion}
    (hmem : version ∈ versions) (hmem' : version' ∈ versions) (hid : version.id = version'.id) :
    version = version' :=
  List.inj_on_of_nodup_map hv.ids hmem hmem' hid

/-- The key of an accrual is only taken by that accrual. -/
theorem SoundLedger.accrues_of_key (h : SoundLedger versions limit entries)
    (hv : SoundVersions versions) {version : PriceVersion} (hmem : version ∈ versions)
    {entry : BillingEntry} (hentry : entry ∈ entries) {day : ℤ}
    (hkey : entry.entryKey = baseKey version.client (dateOnly day) version.id) :
    Accrues entry version day := by
  rcases h.sound entry hentry with ⟨version', hmem', day', haccrues, -, -⟩ | ⟨-, client, id, hother⟩
  · obtain ⟨rfl, hid⟩ := baseKey_inj (haccrues.key.symm.trans hkey)
    obtain rfl := hv.eq_of_id hmem' hmem hid
    exact haccrues
  · exact absurd (hkey.symm.trans hother) (baseKey_ne_oneTimeKey _ _ _ _ _)

/-- **Storing the accrual of the next day keeps the ledger sound.** -/
theorem SoundLedger.createEntry (h : SoundLedger versions limit entries) (hv : SoundVersions versions)
    {version : PriceVersion} (hmem : version ∈ versions) {entry : BillingEntry} {day : ℤ}
    (haccrues : Accrues entry version day) (hdue : dueAmount version day ≠ 0)
    (hlimit : dayStart (day + 1) ≤ limit) (hbefore : AccruedBefore entries version day) :
    SoundLedger versions limit (createEntry entry entries) ∧
      Accrued (Billing.createEntry entry entries) version day := by
  have hsub := subset_createEntry entry entries
  have hnew : Accrues { entry with id := entries.length + 1 } version day :=
    ⟨haccrues.type, haccrues.versionID, haccrues.date, haccrues.key, haccrues.amount⟩
  have hsound : ∀ stored ∈ Billing.createEntry entry entries,
      (∃ version ∈ versions, ∃ day, Accrues stored version day ∧ dueAmount version day ≠ 0 ∧
        dayStart (day + 1) ≤ limit) ∨
      (stored.type ≠ .baseAccrual ∧ ∃ client id, stored.entryKey = oneTimeKey client id) := by
    intro stored hstored
    rcases mem_createEntry hstored with hold | ⟨-, rfl⟩
    · exact h.sound stored hold
    · exact Or.inl ⟨version, hmem, day, hnew, hdue, hlimit⟩
  refine ⟨⟨nodup_keys_createEntry h.keys, hsound, ?_⟩, ?_⟩
  · rintro version' hmem' day' ⟨stored, hstored, hstored'⟩
    rcases mem_createEntry hstored with hold | ⟨-, rfl⟩
    · exact (h.gapless version' hmem' day' ⟨stored, hold, hstored'⟩).mono hsub
    · obtain ⟨rfl, hid⟩ := baseKey_inj (hnew.key.symm.trans hstored'.key)
      obtain rfl := hv.eq_of_id hmem hmem' hid
      exact hbefore.mono hsub
  · obtain ⟨stored, hstored, hkey⟩ := exists_key_createEntry entry entries
    rcases mem_createEntry hstored with hold | ⟨-, rfl⟩
    · exact ⟨stored, hstored, h.accrues_of_key hv hmem hold (hkey.trans haccrues.key)⟩
    · exact ⟨_, hstored, hnew⟩

end Ledgers

/-! ### First and last days -/

/-- Behind the last day of a version nothing is due. -/
theorem dueAmount_of_lastAccrualDay_lt {through day : ℤ}
    (hlt : lastAccrualDay version through < day) (hle : day ≤ through) :
    dueAmount version day = 0 := by
  refine dueAmount_eq_zero fun t ht hforce => ?_
  have hcut : ∀ {cut : Option ℤ} {last : ℤ}, cutDay cut last < day → day ≤ last →
      ∃ x, cut = some x ∧ x ≤ t := by
    intro cut last hcut hlast
    unfold cutDay at hcut
    cases cut with
    | none => exact absurd hcut (by dsimp only; omega)
    | some x =>
      dsimp only at hcut
      refine ⟨x, rfl, ?_⟩
      split_ifs at hcut
      · rw [← lt_dayStart_iff] at hcut
        have := (dayStart_le_iff day t).mpr ht.ge
        omega
      · omega
  by_cases hto : day ≤ cutDay version.effectiveTo through
  · obtain ⟨expiredAt, hsome, hpast⟩ := hcut hlt hto
    exact absurd (hforce.notExpired expiredAt hsome) (not_lt.mpr hpast)
  · obtain ⟨effectiveTo, hsome, hpast⟩ := hcut (not_le.mp hto) hle
    exact absurd (hforce.notSuperseded effectiveTo hsome) (not_lt.mpr hpast)

/-- Before the first day of a version nothing is due. -/
theorem dueAmount_of_lt_effectiveFrom {day : ℤ}
    (hlt : day < beijingDay version.effectiveFrom) : dueAmount version day = 0 := by
  refine dueAmount_eq_zero fun t ht hforce => ?_
  have hle := (dayStart_le_iff (day + 1) version.effectiveFrom).mpr hlt
  have hlt' := (lt_dayStart_iff (day + 1) t).mpr (by omega)
  have := hforce.effective
  omega

/-- **A call starts where the accrued days end.** -/
theorem accruedBefore_firstAccrualDay {versions : List PriceVersion} {limit : ℤ}
    (hv : SoundVersions versions) (hmem : version ∈ versions) {stored : List BillingEntry}
    (h : SoundLedger versions limit stored) :
    AccruedBefore stored version
      (firstAccrualDay version (lastAccruedDay stored version.id)) := by
  have hfirst : AccruedBefore stored version (beijingDay version.effectiveFrom) :=
    fun d hd hdue => absurd (dueAmount_of_lt_effectiveFrom hd) hdue
  unfold firstAccrualDay
  cases hlast : lastAccruedDay stored version.id with
  | none => exact hfirst
  | some last =>
    dsimp only
    split_ifs
    · exact hfirst
    · -- the watermark is the day of a stored accrual of this version
      unfold lastAccruedDay at hlast
      obtain ⟨text, htext, hparse⟩ := Option.bind_eq_some_iff.mp hlast
      obtain ⟨entry, hfilter, rfl⟩ := List.mem_map.mp (List.argmax_mem htext)
      obtain ⟨hentry, htest⟩ := List.mem_filter.mp hfilter
      simp only [Bool.and_eq_true, decide_eq_true_eq] at htest
      rcases h.sound entry hentry with ⟨version', hmem', day, haccrues, -, -⟩ | ⟨htype, -⟩
      · have hid : version'.id = version.id :=
          Option.some.inj (haccrues.versionID.symm.trans htest.2)
        obtain rfl := hv.eq_of_id hmem' hmem hid
        rw [haccrues.date] at hparse
        obtain rfl := eq_of_parseDateOnly hparse
        exact (h.gapless version' hmem _ ⟨entry, hentry, haccrues⟩).succ fun _ =>
          ⟨entry, hentry, haccrues⟩
      · exact absurd htest.1 htype

/-! ### Loops -/

section Loops

variable [CurrencyTable] (answers : AccrualAnswers) {versions : List PriceVersion} {limit : ℤ}

/-- **The days of a version**: they are stored in order, and after a success none is missing. -/
theorem accrueDays_spec (hv : SoundVersions versions) {version : PriceVersion}
    (hmem : version ∈ versions) (hpriced : version.priced = true) (days : ℕ) {day : ℤ}
    {entries : List BillingEntry} (h : SoundLedger versions limit entries)
    (hbefore : AccruedBefore entries version day) (hlimit : dayStart (day + days) ≤ limit) :
    SoundLedger versions limit (accrueDays answers version days day entries).2 ∧
      (∀ entry ∈ entries, entry ∈ (accrueDays answers version days day entries).2) ∧
      ((accrueDays answers version days day entries).1 = .ok () →
        AccruedBefore (accrueDays answers version days day entries).2 version (day + days)) := by
  induction days generalizing day entries with
  | zero =>
    refine ⟨h, fun _ hentry => hentry, fun _ => ?_⟩
    rwa [Nat.cast_zero, add_zero]
  | succ days ih =>
    have hcast : day + ((days + 1 : ℕ) : ℤ) = day + 1 + days := by
      push_cast
      ring
    have hnext : dayStart (day + 1) ≤ limit :=
      (Traffic.dayStart_mono (by omega)).trans hlimit
    rw [hcast] at hlimit ⊢
    unfold accrueDays
    have hcycle := hv.cycles version hmem
    cases hentry : accrualEntryForInterval answers.latest version (dayStart day)
        (dayStart (day + 1)) with
    | error e => exact ⟨h, fun _ hentry => hentry, fun hok => by cases hok⟩
    | ok found =>
      cases found with
      | none =>
        have hzero := accrualEntryForInterval_none hpriced hcycle hentry
        exact ih h (hbefore.succ fun hdue => absurd hzero hdue) hlimit
      | some entry =>
        obtain ⟨haccrues, hdue⟩ := accrualEntryForInterval_some hpriced hcycle hentry
        obtain ⟨hsound, haccrued⟩ := h.createEntry hv hmem haccrues hdue hnext hbefore
        have hsub := subset_createEntry entry entries
        dsimp only
        cases answers.saved entry.entryKey with
        | error e => exact ⟨h, fun _ hentry => hentry, fun hok => by cases hok⟩
        | ok u =>
          obtain ⟨hsound', hsub', hdone⟩ :=
            ih hsound ((hbefore.mono hsub).succ fun _ => haccrued) hlimit
          exact ⟨hsound', fun stored hstored => hsub' stored (hsub stored hstored), hdone⟩

/-- **One version**: after a success nothing is missing up to the last day of the call. -/
theorem accrueVersion_spec (hv : SoundVersions versions) {version : PriceVersion}
    (hmem : version ∈ versions) (hpriced : version.priced = true) {stored entries : List BillingEntry}
    (hstored : SoundLedger versions limit stored) (h : SoundLedger versions limit entries)
    (hsub : ∀ entry ∈ stored, entry ∈ entries) {through : ℤ}
    (hlimit : dayStart (through + 1) ≤ limit) :
    SoundLedger versions limit (accrueVersion answers through stored version entries).2 ∧
      (∀ entry ∈ entries, entry ∈ (accrueVersion answers through stored version entries).2) ∧
      ((accrueVersion answers through stored version entries).1 = .ok () →
        AccruedBefore (accrueVersion answers through stored version entries).2 version
          (through + 1)) := by
  unfold accrueVersion
  dsimp only
  have hbefore := (accruedBefore_firstAccrualDay hv hmem hstored).mono hsub
  generalize firstAccrualDay version (lastAccruedDay stored version.id) = first at hbefore
  have hlast : lastAccrualDay version through ≤ through := by
    have hcut : ∀ (cut : Option ℤ) (last : ℤ), cutDay cut last ≤ last := by
      intro cut last
      unfold cutDay
      cases cut with
      | none => exact le_rfl
      | some x =>
        dsimp only
        split_ifs <;> omega
    exact (hcut _ _).trans (hcut _ _)
  by_cases hfirst : first ≤ through + 1
  · obtain ⟨hsound, hsub', hdone⟩ := accrueDays_spec answers hv hmem hpriced
      (lastAccrualDay version through - first + 1).toNat h hbefore
      ((Traffic.dayStart_mono (by omega)).trans hlimit)
    refine ⟨hsound, hsub', fun hok d hd hdue => ?_⟩
    by_cases hin : d < first + ((lastAccrualDay version through - first + 1).toNat : ℤ)
    · exact hdone hok d hin hdue
    · have hpast : lastAccrualDay version through < d := by omega
      exact absurd (dueAmount_of_lastAccrualDay_lt hpast (by omega)) hdue
  · -- the version is accrued beyond the last day already
    have hzero : (lastAccrualDay version through - first + 1).toNat = 0 := by omega
    rw [hzero]
    exact ⟨h, fun _ hentry => hentry, fun _ d hd => hbefore d (by omega)⟩

/-- **All versions.** -/
theorem accrueVersions_spec (hv : SoundVersions versions) {stored : List BillingEntry}
    (hstored : SoundLedger versions limit stored) {through : ℤ}
    (hlimit : dayStart (through + 1) ≤ limit) {todo : List PriceVersion}
    (htodo : ∀ version ∈ todo, version ∈ versions ∧ version.priced = true)
    {entries : List BillingEntry} (h : SoundLedger versions limit entries)
    (hsub : ∀ entry ∈ stored, entry ∈ entries) :
    SoundLedger versions limit (accrueVersions answers through stored todo entries).2 ∧
      (∀ entry ∈ entries, entry ∈ (accrueVersions answers through stored todo entries).2) ∧
      ((accrueVersions answers through stored todo entries).1 = .ok () →
        ∀ version ∈ todo, AccruedBefore (accrueVersions answers through stored todo entries).2 version
          (through + 1)) := by
  induction todo generalizing entries with
  | nil => exact ⟨h, fun _ hentry => hentry, fun _ version hmem => by cases hmem⟩
  | cons version todo ih =>
    obtain ⟨⟨hmem, hpriced⟩, htodo⟩ := List.forall_mem_cons.mp htodo
    obtain ⟨hsound, hgrow, hdone⟩ :=
      accrueVersion_spec answers hv hmem hpriced hstored h hsub hlimit
    unfold accrueVersions
    generalize accrueVersion answers through stored version entries = result at *
    obtain ⟨outcome, entries'⟩ := result
    cases outcome with
    | error e => exact ⟨hsound, hgrow, fun hok => by cases hok⟩
    | ok u =>
      obtain ⟨hsound', hgrow', hdone'⟩ :=
        ih htodo hsound fun entry hentry => hgrow entry (hsub entry hentry)
      refine ⟨hsound', fun entry hentry => hgrow' entry (hgrow entry hentry), fun hok => ?_⟩
      exact List.forall_mem_cons.mpr ⟨(hdone rfl).mono hgrow', hdone' hok⟩

/-- The database answers, and has readable exchange rates. -/
structure AccrualAnswers.Good (answers : AccrualAnswers) : Prop where
  listed : answers.listed = .ok ()
  latest : ∃ found, answers.latest = .ok found
  saved : ∀ key, answers.saved key = .ok ()

variable {answers}

theorem accrueDays_ok (hgood : answers.Good) (hv : SoundVersions versions) {version : PriceVersion}
    (hmem : version ∈ versions) (hpriced : version.priced = true) (days : ℕ) (day : ℤ)
    (entries : List BillingEntry) : (accrueDays answers version days day entries).1 = .ok () := by
  induction days generalizing day entries with
  | zero => rfl
  | succ days ih =>
    unfold accrueDays
    obtain ⟨found, hfound⟩ := @exists_accrualEntryForInterval _ answers.latest version day
      hgood.latest hpriced (hv.cycles version hmem) (hv.prices version hmem) (hv.dollars version hmem)
    rw [hfound]
    cases found with
    | none => exact ih _ _
    | some entry =>
      dsimp only
      rw [hgood.saved]
      exact ih _ _

/-- **Nothing fails by itself.** -/
theorem accrueVersions_ok (hgood : answers.Good) (hv : SoundVersions versions) {through : ℤ}
    {stored : List BillingEntry} {todo : List PriceVersion}
    (htodo : ∀ version ∈ todo, version ∈ versions ∧ version.priced = true)
    (entries : List BillingEntry) :
    (accrueVersions answers through stored todo entries).1 = .ok () := by
  induction todo generalizing entries with
  | nil => rfl
  | cons version todo ih =>
    obtain ⟨⟨hmem, hpriced⟩, htodo⟩ := List.forall_mem_cons.mp htodo
    have hok : (accrueVersion answers through stored version entries).1 = .ok () :=
      accrueDays_ok hgood hv hmem hpriced _ _ _
    unfold accrueVersions
    generalize accrueVersion answers through stored version entries = result at hok
    obtain ⟨outcome, entries'⟩ := result
    obtain rfl : outcome = .ok () := hok
    exact ih htodo entries'

end Loops

end Billing

end Komari
