import Komari.Billing.MonthTotals

/-!
# The month of the overview and of the periods
-/

namespace Komari

namespace Billing

open Calendar TrafficReset
open Traffic (beijingDay dayStart)
open AmountAccumulator (addRow total_foldl)

/-! ### The accrual -/

section Accrual

variable [CurrencyTable] {answers : AccrualAnswers}

theorem accrueDays_appends (version : PriceVersion) (days : ℕ) (day : ℤ) (entries : List BillingEntry) :
    ∃ new, (accrueDays answers version days day entries).2 = entries ++ new ∧
      ∀ entry ∈ new, entry.type = .baseAccrual := by
  induction days generalizing day entries with
  | zero => exact ⟨[], by simp [accrueDays], by simp⟩
  | succ days ih =>
    unfold accrueDays
    cases hentry : accrualEntryForInterval answers.latest version (dayStart day) (dayStart (day + 1)) with
    | error e => exact ⟨[], by simp, by simp⟩
    | ok found =>
      cases found with
      | none => exact ih _ _
      | some entry =>
        dsimp only
        cases answers.saved entry.entryKey with
        | error e => exact ⟨[], by simp, by simp⟩
        | ok u =>
          dsimp only
          obtain ⟨new, hnew, hbase⟩ := ih (day + 1) (createEntry entry entries)
          unfold createEntry at hnew ⊢
          split_ifs at hnew ⊢
          · exact ⟨new, hnew, hbase⟩
          · refine ⟨_, hnew.trans (List.append_assoc _ _ _), List.forall_mem_append.mpr ⟨?_, hbase⟩⟩
            exact List.forall_mem_singleton.mpr (accrualEntryForInterval_base hentry).2

theorem accrueVersions_appends {through : ℤ} {stored : List BillingEntry}
    (versions : List PriceVersion) (entries : List BillingEntry) :
    ∃ new, (accrueVersions answers through stored versions entries).2 = entries ++ new ∧
      ∀ entry ∈ new, entry.type = .baseAccrual := by
  induction versions generalizing entries with
  | nil => exact ⟨[], by simp [accrueVersions], by simp⟩
  | cons version versions ih =>
    obtain ⟨new, hnew, hbase⟩ := @accrueDays_appends _ answers version
      (lastAccrualDay version through - firstAccrualDay version
        (lastAccruedDay stored version.id) + 1).toNat
      (firstAccrualDay version (lastAccruedDay stored version.id)) entries
    unfold accrueVersions accrueVersion
    dsimp only
    generalize accrueDays answers version _ _ entries = result at hnew ⊢
    obtain ⟨outcome, after⟩ := result
    cases outcome with
    | error e => exact ⟨new, hnew, hbase⟩
    | ok u =>
      obtain ⟨new', hnew', hbase'⟩ := ih after
      refine ⟨new ++ new', ?_, List.forall_mem_append.mpr ⟨hbase, hbase'⟩⟩
      rw [← List.append_assoc, ← hnew]
      exact hnew'

/-- **The accrual adds accruals, and nothing else changes.** -/
theorem accrue_spec (answers : AccrualAnswers) (clock done now : ℤ) (s : BillingStore) :
    ∃ state : BillingState, (s.accrue answers clock done now).2 = { s with toBillingState := state } ∧
      state.versions = s.versions ∧ ∃ new, state.entries = s.entries ++ new ∧
        ∀ entry ∈ new, entry.type = .baseAccrual := by
  refine ⟨(ensureAccruedThrough answers (yesterdayInBeijing now) clock done s.toBillingState).2,
    rfl, ?_⟩
  unfold ensureAccruedThrough
  dsimp only
  split_ifs
  · exact ⟨rfl, [], by simp, by simp⟩
  · cases answers.listed with
    | error e => exact ⟨rfl, [], by simp, by simp⟩
    | ok u =>
      dsimp only
      obtain ⟨new, hnew, hbase⟩ := @accrueVersions_appends _ answers
        (beijingDay (yesterdayInBeijing now)) s.entries
        (sortOn PriceVersion.rank (s.versions.filter PriceVersion.priced)) s.entries
      generalize accrueVersions answers (beijingDay (yesterdayInBeijing now)) s.entries
        (sortOn PriceVersion.rank (s.versions.filter PriceVersion.priced)) s.entries = result at hnew ⊢
      obtain ⟨outcome, entries⟩ := result
      cases outcome with
      | error e => exact ⟨rfl, new, hnew, hbase⟩
      | ok u => exact ⟨rfl, new, hnew, hbase⟩

/-- The tables after the accrual of a view. -/
def BillingStore.accrued (s : BillingStore) (answers : AccrualAnswers) (clock done now : ℤ) :
    BillingStore := (s.accrue answers clock done now).2

theorem coverageStart_accrued {clock done now : ℤ} {s : BillingStore} :
    coverageStart (s.accrued answers clock done now) = coverageStart s := by
  obtain ⟨state, hstate, hversions, -⟩ := accrue_spec answers clock done now s
  unfold coverageStart BillingStore.accrued BillingStore.existingClient
  rw [hstate]
  simp only [hversions]

theorem snapshots_accrued {clock done now : ℤ} {s : BillingStore} :
    (s.accrued answers clock done now).snapshots = s.snapshots := by
  obtain ⟨state, hstate, -⟩ := accrue_spec answers clock done now s
  unfold BillingStore.accrued
  rw [hstate]

theorem finds_of_query {clock done now : ℤ} {filter : EntryFilter} (htypes : filter.types = [])
    {s : BillingStore} {found : CalculatedEntries}
    (h : queryCalculatedEntries answers clock done now filter s = .ok found) :
    Finds filter (s.accrued answers clock done now) found := by
  unfold queryCalculatedEntries at h
  unfold BillingStore.accrued
  generalize s.accrue answers clock done now = result at h ⊢
  obtain ⟨outcome, after⟩ := result
  cases outcome with
  | error e => cases h
  | ok u => exact finds_calculatedEntries htypes h

end Accrual

/-! ### The cycles of a month -/

section Views

variable [TimezoneDatabase] [CurrencyTable]

/-- The committed cycles that a view without filter walks over. -/
def committedCycles (currency : String) (now : ℤ) (s : BillingStore) :
    Except String (List CommittedCycle) :=
  let versions := listBillableVersions [] [] s
  walkCommittedCycles versions (s.clientMeta []) currency (loadVersionFXSnapshots versions s)
    (walkStart versions now (coverageStart s)) (committedHorizon now [] versions)

/-- The cycles of a month. -/
def monthCycles (month : ℤ) (cycles : List CommittedCycle) : List CommittedCycle :=
  cycles.filter fun cycle => monthOfDay (beijingDay cycle.start) = month

omit [TimezoneDatabase] [CurrencyTable] in
theorem cycle_month_eq_iff {month : ℤ} (hmonth : 0 ≤ month) (cycle : CommittedCycle) :
    cycle.month = monthText month ↔ monthOfDay (beijingDay cycle.start) = month :=
  ⟨fun h => (monthText_inj hmonth h.symm).symm, fun h => by rw [CommittedCycle.month, h]⟩

omit [TimezoneDatabase] [CurrencyTable] in
theorem filter_cycle_month {month : ℤ} (hmonth : 0 ≤ month) (cycles : List CommittedCycle) :
    (cycles.filter fun cycle => cycle.month = monthText month) = monthCycles month cycles :=
  List.filter_congr fun cycle _ => by simp only [cycle_month_eq_iff hmonth]

omit [TimezoneDatabase] [CurrencyTable] in
/-- The current year is the last one shown, in any case. -/
theorem committedHorizon_year (now : ℤ) (versions : List PriceVersion) :
    committedHorizon now [beijingYear now] versions = committedHorizon now [] versions := by
  simp [committedHorizon, displayHorizon]

/-! ### The overview -/

omit [TimezoneDatabase] [CurrencyTable] in
theorem find?_mergeSnapshots (snapshots versionSnapshots : Snapshots) (id : ℕ) :
    (mergeSnapshots snapshots versionSnapshots).find? id =
      ((versionSnapshots.find? id).or (snapshots.find? id)) := by
  unfold mergeSnapshots
  cases hfind : versionSnapshots.find? id with
  | some rates =>
    exact Table.find?_upsertAll_of_mem versionSnapshots.nodup_map_fst_rows (Table.mem_rows.mpr hfind)
  | none =>
    rw [Option.none_or]
    refine Table.find?_upsertAll_of_notMem fun hmem => ?_
    obtain ⟨⟨id', rates⟩, hrow, rfl⟩ := List.mem_map.mp hmem
    rw [Table.mem_rows, hfind] at hrow
    cases hrow

omit [TimezoneDatabase] in
/-- The month of the overview adds up entries that are no accruals. -/
theorem month_foldl_addOverviewEntry (keys : OverviewKeys) (currency : String) (snapshots : Snapshots)
    (items : List CalculatedEntry) (totals : OverviewTotals) :
    (items.foldl (addOverviewEntry keys currency snapshots) totals).month =
      ((items.filter fun item => decide (item.category ≠ .baseAccrual) &&
        hasPrefix item.entry.day keys.month).filterMap fun item =>
          (convertedEntryAmount item.entry currency snapshots).map fun amount => (item, amount)).foldl
            (addRow (fun pair => pair.1.category) Prod.snd) totals.month := by
  induction items generalizing totals with
  | nil => rfl
  | cons item items ih =>
    rw [List.foldl_cons, ih]
    by_cases hbase : item.category = .baseAccrual
    · simp [addOverviewEntry, hbase]
    · unfold addOverviewEntry
      rw [if_neg hbase]
      cases hconvert : convertedEntryAmount item.entry currency snapshots with
      | none =>
        by_cases hkey : hasPrefix item.entry.day keys.month = true
        · simp [hbase, hkey, hconvert]
        · simp [hbase, hkey]
      | some amount =>
        by_cases hkey : hasPrefix item.entry.day keys.month = true
        · simp [hbase, hkey, hconvert, addRow]
        · simp [hbase, hkey]

omit [TimezoneDatabase] [CurrencyTable] in
theorem month_foldl_addOverviewCycle (keys : OverviewKeys) (cycles : List CommittedCycle)
    (totals : OverviewTotals) :
    (cycles.foldl (addOverviewCycle keys) totals).month =
      (cycles.filter fun cycle => cycle.month = keys.month).foldl
        (addRow (fun _ => .baseAccrual) CommittedCycle.amount) totals.month := by
  induction cycles generalizing totals with
  | nil => rfl
  | cons cycle cycles ih =>
    rw [List.foldl_cons, ih]
    by_cases hkey : cycle.month = keys.month
    · simp [addOverviewCycle, hkey, addRow]
    · simp [addOverviewCycle, hkey]

/-- What a month costs, for the overview: entries that count for anything but accruals, and cycles. -/
def BillingStore.monthTotal (s : BillingStore) (month : ℤ) (currency : String)
    (cycles : List CommittedCycle) : ℤ :=
  s.monthSum month currency (fun category => category ≠ .baseAccrual) +
    ((monthCycles month cycles).map CommittedCycle.amount).sum

variable {answers : AccrualAnswers} {clock done now month : ℤ} {currency : String} {s : BillingStore}

variable {found : CalculatedEntries}

omit [TimezoneDatabase] in
theorem sum_countedEntries_all (h : Finds {} s found) :
    ((countedEntries (monthText month) currency found).map Prod.snd).sum =
      s.monthSum month currency fun category => category ≠ .baseAccrual := by
  have hsum := sum_countedEntries month h currency fun _ => true
  simpa [BillingStore.monthSum] using hsum

/-- **The month of the overview.** -/
theorem overview_month (hb : backfillPriceVersionFX answers.latest s = .ok s)
    (hmonth : monthOfDay (beijingDay (normalizedNow clock now)) = month) (hlow : 0 ≤ month)
    (hhigh : month < 120000) {overview : BillingOverview}
    (h : getOverview answers clock done currency now s = .ok overview) :
    ∃ display cycles, requireDisplayCurrency currency = .ok display ∧
      committedCycles display (normalizedNow clock now) s = .ok cycles ∧
        overview.month.total = formatAmountMicros (int64
          ((s.accrued answers clock done (normalizedNow clock now)).monthTotal month display
            cycles)) := by
  obtain ⟨display, hdisplay, h⟩ := bind_eq_ok.mp h
  obtain ⟨s', hs', h⟩ := bind_eq_ok.mp h
  obtain rfl := Except.ok.inj (hb.symm.trans hs')
  obtain ⟨found, hfound, h⟩ := bind_eq_ok.mp h
  obtain ⟨_, -, h⟩ := bind_eq_ok.mp h
  obtain ⟨today, -, h⟩ := bind_eq_ok.mp h
  obtain ⟨cycles, hcycles, h⟩ := bind_eq_ok.mp h
  cases h
  have hfinds := finds_of_query rfl hfound
  -- rates that are loaded for versions are those of the tables
  have hrates : ∀ version ∈ listBillableVersions [] [] s, ∀ id, version.fxSnapshotID = some id →
      (mergeSnapshots found.snapshots
        (loadVersionFXSnapshots (listBillableVersions [] [] s) s)).find? id =
          (loadVersionFXSnapshots (listBillableVersions [] [] s) s).find? id := by
    intro version hmem id hid
    have hlocked : (loadVersionFXSnapshots (listBillableVersions [] [] s) s).find? id =
        s.snapshots.find? id :=
      (find?_selected _ _ _).trans (if_pos (hid ▸ List.mem_map_of_mem hmem))
    rw [find?_mergeSnapshots, hlocked]
    cases hfind : s.snapshots.find? id with
    | some rates => rfl
    | none => exact hfinds.noOthers id (by rw [snapshots_accrued]; exact hfind)
  have hitems : ∀ item ∈ found.items, convertedEntryAmount item.entry display
      (mergeSnapshots found.snapshots (loadVersionFXSnapshots (listBillableVersions [] [] s) s)) =
        convertedEntryAmount item.entry display found.snapshots := by
    intro item hmem
    refine convertedEntryAmount_congr (fun id hid => ?_) display
    have hfind := hfinds.rates item hmem id hid
    rw [snapshots_accrued] at hfind
    rw [find?_mergeSnapshots, hfind]
    unfold loadVersionFXSnapshots
    rw [find?_selected]
    split_ifs
    · cases s.snapshots.find? id <;> rfl
    · rfl
  refine ⟨display, cycles, hdisplay, ?_, ?_⟩
  · rw [walkCommittedCycles_congr hrates, committedHorizon_year, hfinds.coverage,
      coverageStart_accrued] at hcycles
    exact hcycles
  · have hkey : (overviewKeys (normalizedNow clock now)).month = monthText month := by
      unfold overviewKeys
      rw [take_dateOnly (by omega) (by omega), hmonth]
    have hcounted : ((found.items.filter fun item => decide (item.category ≠ .baseAccrual) &&
        hasPrefix item.entry.day (monthText month)).filterMap fun item =>
          (convertedEntryAmount item.entry display (mergeSnapshots found.snapshots
            (loadVersionFXSnapshots (listBillableVersions [] [] s) s))).map fun amount =>
              (item, amount)) = countedEntries (monthText month) display found :=
      List.filterMap_congr fun item hmem => by rw [hitems item (List.mem_of_mem_filter hmem)]
    refine congrArg formatAmountMicros ?_
    rw [month_foldl_addOverviewCycle, month_foldl_addOverviewEntry, hkey, filter_cycle_month hlow,
      hcounted]
    have hentries := total_foldl (fun pair : CalculatedEntry × ℤ => pair.1.category) Prod.snd
      (countedEntries (monthText month) display found) (t := .zero) (x := 0) rfl
    rw [total_foldl _ _ _ hentries, zero_add, sum_countedEntries_all hfinds]
    rfl

/-! ### The periods -/

omit [TimezoneDatabase] [CurrencyTable] in
theorem atoi_digits {digits : List Char} (hne : digits ≠ [])
    (hdigits : ∀ c ∈ digits, c.isDigit = true) :
    atoi digits = some (Nat.ofDigitChars 10 digits 0 : ℤ) := by
  obtain ⟨c, rest, rfl⟩ := List.exists_cons_of_ne_nil hne
  have hc := hdigits c List.mem_cons_self
  have hall : ((c :: rest).all Char.isDigit) = true := List.all_eq_true.mpr hdigits
  unfold atoi
  dsimp only
  split
  · rename_i heq
    obtain ⟨rfl, -⟩ := List.cons.inj heq
    exact absurd hc (by decide)
  · rename_i heq
    obtain ⟨rfl, -⟩ := List.cons.inj heq
    exact absurd hc (by decide)
  · rw [if_pos ⟨List.cons_ne_nil _ _, hall⟩]

omit [TimezoneDatabase] [CurrencyTable] in
/-- The year of a text that begins with a month. -/
theorem atoi_of_hasPrefix {month : ℤ} (hlow : 0 ≤ month) (hhigh : month < 120000) {day : String}
    (h : hasPrefix day (monthText month) = true) : atoi (day.toList.take 4) = some (month / 12) := by
  unfold hasPrefix monthText at h
  rw [String.toList_ofList, List.isPrefixOf_iff_prefix] at h
  obtain ⟨rest, h⟩ := h
  have htake : day.toList.take 4 = appendInt (month / 12) 4 := by
    rw [← h, monthChars, List.append_assoc, List.take_left' (length_yearDigits hlow hhigh)]
  have hcast : month / 12 = ((month / 12).toNat : ℤ) := by omega
  rw [htake, hcast, atoi_digits (appendInt_ne_nil _ _) fun c hc => isDigit_of_mem_appendInt hc,
    appendInt_natCast, ofDigitChars_padded]

omit [TimezoneDatabase] [CurrencyTable] in
theorem stringSet_month {month : ℤ} (hlow : 0 ≤ month) :
    stringSet [monthText month] = [monthText month] := by
  have hcast : month / 12 = ((month / 12).toNat : ℤ) := by omega
  have hcast' : month % 12 + 1 = ((month % 12 + 1).toNat : ℤ) := by omega
  have hyear := appendInt_ne_nil (month / 12).toNat 4
  have hmonth := appendInt_ne_nil (month % 12 + 1).toNat 2
  have htrim : trimSpace (monthText month) = monthText month := by
    unfold monthText monthChars
    rw [hcast, hcast']
    refine trimSpace_ofList (by simp) ?_ ?_
    · simp only [List.head_append_of_ne_nil hyear]
      exact isSpace_of_isDigit (isDigit_of_mem_appendInt (List.head_mem hyear))
    · simp only [List.getLast_append_of_ne_nil _ (List.cons_ne_nil _ _), List.getLast_cons hmonth]
      exact isSpace_of_isDigit (isDigit_of_mem_appendInt (List.getLast_mem hmonth))
  have hne : monthText month ≠ "" := by
    intro h
    have hnil := String.ofList_injective (h.trans String.ofList_nil.symm)
    simp [monthChars] at hnil
  simp [stringSet, htrim, hne]

omit [TimezoneDatabase] [CurrencyTable] in
/-- What the current month is read as, if it is. -/
theorem eq_of_parseMonth {month month' : ℤ} (h : parseMonth (monthText month) = some month') :
    month' = month := by
  unfold parseMonth at h
  obtain ⟨day, hday, rfl⟩ := Option.map_eq_some_iff.mp h
  have htext : monthText month ++ "-01" = dateOnly (firstOfMonth month) := by
    have hone : dayOfMonth (firstOfMonth month) = 1 := by
      unfold dayOfMonth
      rw [monthOfDay_first]
      simp [firstOfMonth]
    rw [dateOnly, dateChars_eq, monthOfDay_first, hone, String.ofList_append]
    rfl
  rw [htext] at hday
  rw [eq_of_parseDateOnly hday, monthOfDay_first]

omit [TimezoneDatabase] [CurrencyTable] in
/-- The amounts of a period are added up without the servers. -/
theorem amounts_foldl_add {β : Type*} (client : β → String) (category : β → EntryType)
    (amount : β → Option ℤ) (rows : List β) (bucket : PeriodBucket) :
    (rows.foldl (fun bucket row => bucket.add (client row) (category row) (amount row))
      bucket).amounts = (rows.filterMap fun row => (amount row).map fun a => (row, a)).foldl
        (addRow (fun pair => category pair.1) Prod.snd) bucket.amounts := by
  induction rows generalizing bucket with
  | nil => rfl
  | cons row rows ih =>
    rw [List.foldl_cons, ih]
    cases hamount : amount row with
    | none => simp [PeriodBucket.add, hamount]
    | some a => simp [PeriodBucket.add, hamount, addRow]

/-- Entries have days. -/
def BillingStore.Dated (s : BillingStore) : Prop :=
  ∀ entry ∈ s.entries, ∃ day, entry.day = dateOnly day

omit [TimezoneDatabase] in
/-- What counts for anything but accruals was stored before the accrual. -/
theorem mem_entries_of_finds {filter : EntryFilter}
    (h : Finds filter (s.accrued answers clock done now) found) {item : CalculatedEntry}
    (hmem : item ∈ found.items) (htype : item.entry.type ≠ .baseAccrual) : item.entry ∈ s.entries := by
  obtain ⟨current, hcurrent, hitems⟩ := h.items
  rw [hitems] at hmem
  obtain ⟨entry, hentry, rfl⟩ := List.mem_map.mp hmem
  rcases List.mem_append.mp hentry with hentry | hentry
  · obtain ⟨state, hstate, -, new, hnew, hbase⟩ := accrue_spec answers clock done now s
    have hstored := List.mem_of_mem_filter (mem_sortOn.mp hentry)
    rw [BillingStore.accrued, hstate] at hstored
    rw [show ({ s with toBillingState := state } : BillingStore).entries = s.entries ++ new from hnew]
      at hstored
    exact (List.mem_append.mp hstored).resolve_right fun hin => htype (hbase entry hin)
  · exact absurd (hcurrent entry hentry) htype

omit [TimezoneDatabase] in
theorem Finds.type_ne_baseAccrual {filter : EntryFilter} {s : BillingStore}
    (h : Finds filter s found) {item : CalculatedEntry} (hmem : item ∈ found.items)
    (hcategory : item.category ≠ .baseAccrual) : item.entry.type ≠ .baseAccrual := by
  obtain ⟨current, -, hitems⟩ := h.items
  rw [hitems] at hmem
  obtain ⟨entry, -, rfl⟩ := List.mem_map.mp hmem
  exact categoryOf_ne_baseAccrual hcategory

omit [TimezoneDatabase] in
theorem periodEntries_month (hlow : 0 ≤ month) (hhigh : month < 120000) (hdated : s.Dated)
    (h : Finds {} (s.accrued answers clock done now) found)
    {query : PeriodQuery} (hmonths : query.months = [monthText month])
    (hyears : query.years = [month / 12]) : periodEntries query true found.items =
      found.items.filter fun item =>
        decide (item.category ≠ .baseAccrual) && hasPrefix item.entry.day (monthText month) := by
  refine List.filter_congr fun item hmem => ?_
  by_cases hcategory : item.category = .baseAccrual
  · simp [hcategory]
  · obtain ⟨day, hday⟩ := hdated _ (mem_entries_of_finds h hmem (h.type_ne_baseAccrual hmem hcategory))
    have hlength := ten_le_length_dateOnly day
    rw [← hday] at hlength
    have hperiod : entryPeriod true item.entry.day = takeText 7 item.entry.day :=
      if_pos ⟨rfl, by omega⟩
    rw [hmonths, hyears, stringSet_month hlow, hperiod]
    simp only [List.mem_singleton, takeText_eq_iff hlow hhigh]
    by_cases hkey : hasPrefix item.entry.day (monthText month) = true
    · have hyear : entryYear item.entry.day = month / 12 := by
        rw [entryYear, atoi_of_hasPrefix hlow hhigh hkey, Option.getD_some]
      have hset : intSet [month / 12] = [] ∨ month / 12 ∈ intSet [month / 12] := by
        unfold intSet
        by_cases hpos : 0 < month / 12 <;> simp [hpos]
      have hfour : 4 ≤ item.entry.day.length := by omega
      simp only [hkey, hyear, hfour]
      simpa [hcategory] using hset
    · simp [hkey]

omit [TimezoneDatabase] [CurrencyTable] in
theorem periodCycles_month (hlow : 0 ≤ month) {query : PeriodQuery}
    (hmonths : query.months = [monthText month]) (hyears : query.years = [month / 12])
    (cycles : List CommittedCycle) : periodCycles query true cycles = monthCycles month cycles := by
  refine List.filter_congr fun cycle _ => ?_
  rw [hmonths, hyears, stringSet_month hlow, cyclePeriod, if_pos rfl]
  simp only [List.mem_singleton, cycle_month_eq_iff hlow]
  by_cases hmonth : monthOfDay (beijingDay cycle.start) = month
  · have hyear : beijingYear cycle.start = month / 12 := by rw [beijingYear, hmonth]
    have hset : intSet [month / 12] = [] ∨ month / 12 ∈ intSet [month / 12] := by
      unfold intSet
      by_cases hpos : 0 < month / 12 <;> simp [hpos]
    simp only [hmonth, hyear]
    simpa using hset
  · simp [hmonth]

omit [TimezoneDatabase] [CurrencyTable] in
/-- A single month is shown in a single row. -/
theorem rows_ensureMonths {key : String} {periods : Table String PeriodBucket}
    (hother : ∀ k, k ≠ key → periods.find? k = none) :
    (ensureMonths [key] periods).rows = [(key, (periods.find? key).getD .empty)] := by
  unfold ensureMonths
  rw [List.foldl_cons, List.foldl_nil]
  cases hfind : periods.find? key with
  | some bucket =>
    exact Table.rows_eq_singleton hfind hother
  | none =>
    rw [if_neg (by simp)]
    refine Table.rows_eq_singleton (Table.find?_upsert_self _ _ _) fun k hk => ?_
    rw [Table.find?_upsert_ne hk, hother k hk]

omit [TimezoneDatabase] [CurrencyTable] in
theorem total_eq_zero_of_noRecord {monthly : Bool} {key : String} {bucket : PeriodBucket}
    (h : periodStatus monthly now key bucket = "no_record") : bucket.amounts.total = 0 := by
  by_contra hne
  unfold periodStatus at h
  dsimp only at h
  rw [if_neg fun hempty => hne hempty.1] at h
  generalize (if monthly = true then monthText (monthOfDay (beijingDay now))
    else yearText (beijingYear now)) = current at h
  split_ifs at h <;> exact absurd h (by decide)

omit [TimezoneDatabase] [CurrencyTable] in
/-- Without months a query is for the current one. -/
theorem normalizeMonthlyMonths_current {query query' : PeriodQuery}
    (h : normalizeMonthlyMonths query = .ok query') (hmonths : query.months = [])
    (hmonth : monthOfDay (beijingDay query.now) = month) :
    query' = { query with months := [monthText month], years := [month / 12] } := by
  unfold normalizeMonthlyMonths at h
  dsimp only at h
  rw [if_pos hmonths, hmonth, List.mapM_cons, List.mapM_nil] at h
  cases hparse : parseMonth (monthText month) with
  | none =>
    rw [hparse] at h
    cases h
  | some month' =>
    obtain rfl := eq_of_parseMonth hparse
    rw [hparse] at h
    exact (Except.ok.inj h).symm

/-- **The summary of the current month.** -/
theorem monthly_summary (hb : backfillPriceVersionFX answers.latest s = .ok s)
    (hmonth : monthOfDay (beijingDay (normalizedNow clock now)) = month) (hlow : 0 ≤ month)
    (hhigh : month < 120000) (hdated : s.Dated) {page pageSize : ℤ} {monthly : PeriodPage}
    (h : getMonthly answers clock done
      { currency := currency, page := page, pageSize := pageSize, now := now } s = .ok monthly) :
    ∃ display cycles, requireDisplayCurrency currency = .ok display ∧
      committedCycles display (normalizedNow clock now) s = .ok cycles ∧
        monthly.summary.total = formatAmountMicros (int64
          ((s.accrued answers clock done (normalizedNow clock now)).monthTotal month display
            cycles)) := by
  obtain ⟨query, hquery, h⟩ := bind_eq_ok.mp h
  have heq := normalizeMonthlyMonths_current hquery rfl hmonth
  dsimp only at heq
  have hmonths : query.months = [monthText month] := by rw [heq]
  have hyears : query.years = [month / 12] := by rw [heq]
  obtain ⟨display, hdisplay, h⟩ := bind_eq_ok.mp h
  obtain ⟨s', hs', h⟩ := bind_eq_ok.mp h
  obtain rfl := Except.ok.inj (hb.symm.trans hs')
  obtain ⟨found, hfound, h⟩ := bind_eq_ok.mp h
  obtain ⟨cycles, hcycles, h⟩ := bind_eq_ok.mp h
  cases h
  have hfinds : Finds {} (s.accrued answers clock done (normalizedNow clock now)) found := by
    have hfinds := finds_of_query (by rw [heq]) hfound
    rw [heq] at hfinds
    exact hfinds
  refine ⟨display, cycles, by rw [heq] at hdisplay; exact hdisplay, ?_, ?_⟩
  · have hyear : month / 12 = beijingYear (normalizedNow clock now) := by rw [beijingYear, hmonth]
    rw [heq] at hcycles
    unfold queryCycles at hcycles
    dsimp only at hcycles
    rw [if_pos (show stringSet [] = [] ∨ _ from Or.inl rfl), hyear, committedHorizon_year,
      hfinds.coverage, coverageStart_accrued] at hcycles
    exact hcycles
  · -- all entries and cycles that are selected belong to the month
    have hentry : ∀ item ∈ periodEntries query true found.items,
        entryPeriod true item.entry.day = monthText month := by
      intro item hmem
      have hlast := (Bool.and_eq_true_iff.mp (List.mem_filter.mp hmem).2).2
      rw [hmonths, stringSet_month hlow] at hlast
      simpa using hlast
    have hcycle : ∀ cycle ∈ periodCycles query true cycles, cyclePeriod true cycle = monthText month := by
      intro cycle hmem
      rw [periodCycles_month hlow hmonths hyears] at hmem
      exact (cycle_month_eq_iff hlow cycle).mpr (by simpa using (List.mem_filter.mp hmem).2)
    set periods := addCommittedCycles query true cycles ((∅ : Table String PeriodBucket).collect
      (fun item => entryPeriod true item.entry.day) (fun _ => .empty)
      (fun bucket item => bucket.add item.entry.client item.category
        (convertedEntryAmount item.entry display found.snapshots))
          (periodEntries query true found.items)) with hperiods
    have hother : ∀ k, k ≠ monthText month → periods.find? k = none := by
      intro k hk
      rw [hperiods, addCommittedCycles,
        Table.find?_collect_of_forall_ne fun cycle hmem => (hcycle cycle hmem).symm ▸ hk.symm,
        Table.find?_collect_of_forall_ne fun item hmem => (hentry item hmem).symm ▸ hk.symm]
      rfl
    have hbucket : ((periods.find? (monthText month)).getD .empty).amounts.total = int64
        ((s.accrued answers clock done (normalizedNow clock now)).monthTotal month display cycles) := by
      rw [hperiods, addCommittedCycles, Table.getD_find?_collect fun _ => rfl,
        Table.getD_find?_collect fun _ => rfl,
        List.filter_eq_self.mpr fun item hmem => by simpa using hentry item hmem,
        List.filter_eq_self.mpr fun cycle hmem => by simpa using hcycle cycle hmem,
        amounts_foldl_add, amounts_foldl_add, periodCycles_month hlow hmonths hyears,
        periodEntries_month hlow hhigh hdated hfinds hmonths hyears]
      have hentries := total_foldl (fun pair : CalculatedEntry × ℤ => pair.1.category) Prod.snd
        (countedEntries (monthText month) display found) (t := .zero) (x := 0) rfl
      have hcycles' := total_foldl (fun _ : CommittedCycle × ℤ => EntryType.baseAccrual) Prod.snd
        ((monthCycles month cycles).filterMap fun cycle => (some cycle.amount).map fun a => (cycle, a))
          hentries
      rw [zero_add, sum_countedEntries_all hfinds] at hcycles'
      refine hcycles'.trans (congrArg int64 (congrArg₂ HAdd.hAdd rfl (congrArg List.sum ?_)))
      simp
    -- a month without a record has nothing to add
    refine congrArg formatAmountMicros ?_
    rw [hmonths, if_pos rfl, rows_ensureMonths hother]
    generalize (periods.find? (monthText month)).getD .empty = bucket at hbucket
    show (([(monthText month, bucket)].filter _).foldl _ AmountAccumulator.zero).total = _
    by_cases hstatus : periodStatus true query.now (monthText month) bucket = "no_record"
    · have hzero := total_eq_zero_of_noRecord hstatus
      rw [List.filter_cons_of_neg (by simp [hstatus]), List.filter_nil, ← hbucket, hzero]
      rfl
    · rw [List.filter_cons_of_pos (by simp [hstatus]), List.filter_nil, List.foldl_cons, List.foldl_nil]
      show addInt64 0 bucket.amounts.total = _
      rw [addInt64, zero_add, hbucket, int64_eq_self (inInt64_int64 _)]

end Views

end Billing

end Komari
