import Komari.Billing.MonthServers
import Mathlib.Algebra.Order.BigOperators.Group.List

/-!
# The month of the entries

The listing of a month shows every entry of it that is no accrual, and one row for the committed cycles
of each client.
-/

namespace Komari

namespace Billing

open Calendar TrafficReset
open Traffic (beijingDay dayStart)

/-- The amount that a row shows; nothing if its exchange rates are missing. -/
def BillingEntryRow.amount (row : BillingEntryRow) : ℤ := (row.convertedAmount.map micros).getD 0

/-- The rows of a month. -/
def rowsOfMonth (month : ℤ) (rows : List BillingEntryRow) : List BillingEntryRow :=
  rows.filter fun row => hasPrefix row.day (monthText month)

/-! ### The rows of the cycles -/

theorem foldl_addToBucket (cycles : List CommittedCycle) (bucket : CommittedBaseBucket) {x : ℤ}
    (h : bucket.converted = int64 x) :
    (cycles.foldl addToBucket bucket).day = bucket.day ∧
      (cycles.foldl addToBucket bucket).converted =
        int64 (x + (cycles.map CommittedCycle.amount).sum) := by
  induction cycles generalizing bucket x with
  | nil => simpa using h
  | cons cycle cycles ih =>
    have hday : (addToBucket bucket cycle).day = bucket.day := by
      unfold addToBucket
      dsimp only
      split_ifs <;> rfl
    have hconverted : (addToBucket bucket cycle).converted = int64 (x + cycle.amount) := by
      rw [← int64_int64_add, ← h]
      unfold addToBucket
      dsimp only
      split_ifs <;> rfl
    obtain ⟨hday', hconverted'⟩ := ih _ hconverted
    exact ⟨hday'.trans hday, by rw [List.foldl_cons, hconverted', List.map_cons, List.sum_cons, add_assoc]⟩

theorem amount_bucketRow (display : String) (bucket : CommittedBaseBucket) :
    (bucketRow display bucket).amount = micros (formatAmountMicros bucket.converted) := by
  unfold BillingEntryRow.amount bucketRow
  rw [Option.map_some, Option.getD_some]

theorem hasPrefix_append (s rest : String) : hasPrefix (s ++ rest) s = true := by
  unfold hasPrefix
  rw [List.isPrefixOf_iff_prefix, String.toList_append]
  exact List.prefix_append _ _

/-- **The rows of the cycles of a month add up its cycles.** -/
theorem sum_bucketRows [CurrencyTable] {s : BillingStore} {month : ℤ} (hlow : 0 ≤ month)
    {display : String} {cycles : List CommittedCycle} (hfits : s.Fits month display cycles) :
    ((rowsOfMonth month (((∅ : Table String CommittedBaseBucket).collect (bucketPeriod true)
      (newBucket true) addToBucket (monthCycles month cycles)).rows.map fun row =>
        bucketRow display row.2)).map BillingEntryRow.amount).sum =
          ((monthCycles month cycles).map CommittedCycle.amount).sum := by
  set buckets := (∅ : Table String CommittedBaseBucket).collect (bucketPeriod true)
    (newBucket true) addToBucket (monthCycles month cycles) with hbuckets
  let group := fun key : String => (monthCycles month cycles).filter fun cycle =>
    bucketPeriod true cycle = key
  -- a bucket has the month of its first cycle, and adds up the cycles of its key
  have hbucket : ∀ row ∈ buckets.rows, hasPrefix (bucketRow display row.2).day (monthText month) = true ∧
      (bucketRow display row.2).amount = ((group row.1).map CommittedCycle.amount).sum := by
    rintro ⟨key, bucket⟩ hrow
    rw [Table.mem_rows, hbuckets, Table.find?_collect] at hrow
    obtain ⟨first, hfirst, rfl⟩ := Option.map_eq_some_iff.mp hrow
    obtain ⟨hmem, -⟩ := List.mem_filter.mp (List.mem_of_mem_head? hfirst)
    have hmonth : first.month = monthText month :=
      (cycle_month_eq_iff hlow first).mpr (by simpa using (List.mem_filter.mp hmem).2)
    obtain ⟨hday, hconverted⟩ := foldl_addToBucket (group key) (newBucket true first) (x := 0) rfl
    have hpart : InInt64 ((group key).map CommittedCycle.amount).sum := by
      have h := hfits.part (fun cycle => bucketPeriod true cycle = key) fun _ => false
      rwa [List.filter_false, List.map_nil, List.sum_nil, add_zero] at h
    constructor
    · show hasPrefix ((group key).foldl addToBucket (newBucket true first)).day (monthText month) = true
      rw [hday, ← hmonth]
      exact hasPrefix_append _ _
    · rw [amount_bucketRow, hconverted, micros_format_int64, zero_add, int64_eq_self hpart]
  have hall : rowsOfMonth month (buckets.rows.map fun row => bucketRow display row.2) =
      buckets.rows.map fun row => bucketRow display row.2 := by
    rw [rowsOfMonth]
    refine List.filter_eq_self.mpr fun row hmem => ?_
    obtain ⟨row', hrow, rfl⟩ := List.mem_map.mp hmem
    exact (hbucket row' hrow).1
  have hcover : ∀ cycle ∈ monthCycles month cycles,
      bucketPeriod true cycle ∈ buckets.rows.map Prod.fst := by
    intro cycle hmem
    obtain ⟨first, -, -, hfind⟩ : ∃ first ∈ monthCycles month cycles,
        bucketPeriod true first = bucketPeriod true cycle ∧ buckets.find? (bucketPeriod true cycle) =
          some ((group (bucketPeriod true cycle)).foldl addToBucket (newBucket true first)) :=
      Table.find?_collect_of_mem hmem rfl
    exact List.mem_map_of_mem (f := Prod.fst) (Table.mem_rows.mpr hfind)
  have hamounts : buckets.rows.map (BillingEntryRow.amount ∘ fun row => bucketRow display row.2) =
      buckets.rows.map fun row => ((group row.1).map CommittedCycle.amount).sum :=
    List.map_congr_left fun row hrow => by rw [Function.comp_apply, (hbucket row hrow).2]
  rw [hall, List.map_map, hamounts]
  have hsum := sum_keys buckets.nodup_map_fst_rows (bucketPeriod true) CommittedCycle.amount _ hcover
  rw [List.map_map] at hsum
  exact hsum

/-! ### The range of a month -/

section Range

variable {month now : ℤ} (hlow : 0 ≤ month) (hhigh : month < 120000)
include hlow

theorem hasPrefix_first : hasPrefix (dateOnly (firstOfMonth month)) (monthText month) = true :=
  (hasPrefix_dateOnly hlow _).mpr (monthOfDay_first month)

theorem hasPrefix_last : hasPrefix (dateOnly (lastOfMonth month)) (monthText month) = true :=
  (hasPrefix_dateOnly hlow _).mpr (monthOfDay_last month)

include hhigh

theorem yearsFromEntryRange_month (now : ℤ) : yearsFromEntryRange (dateOnly (firstOfMonth month))
    (dateOnly (lastOfMonth month)) now = [month / 12] := by
  have hyear : ∀ day, hasPrefix (dateOnly day) (monthText month) = true →
      rangeYear (dateOnly day) = some (month / 12) := by
    intro day hday
    have := ten_le_length_dateOnly day
    rw [rangeYear, if_neg (by omega), atoi_of_hasPrefix hlow hhigh hday]
  simp [yearsFromEntryRange, hyear _ (hasPrefix_first hlow), hyear _ (hasPrefix_last hlow), sortOn]

theorem entryBaseGrain_month {query : EntryQuery} (hfrom : query.dayFrom = dateOnly (firstOfMonth month))
    (hto : query.dayTo = dateOnly (lastOfMonth month)) : entryBaseGrain query = true := by
  have hfirst := ten_le_length_dateOnly (firstOfMonth month)
  have hlast := ten_le_length_dateOnly (lastOfMonth month)
  have htext : takeText 7 (dateOnly (firstOfMonth month)) = takeText 7 (dateOnly (lastOfMonth month)) := by
    rw [(takeText_eq_iff hlow hhigh _).mpr (hasPrefix_first hlow),
      (takeText_eq_iff hlow hhigh _).mpr (hasPrefix_last hlow)]
  have hlengths : 7 ≤ (dateOnly (firstOfMonth month)).length ∧
      7 ≤ (dateOnly (lastOfMonth month)).length := by omega
  unfold entryBaseGrain
  rw [hfrom, hto]
  simp [htext, hlengths]

omit hhigh in
theorem rangeCycles_month {query : EntryQuery} (hfrom : query.dayFrom = dateOnly (firstOfMonth month))
    (hto : query.dayTo = dateOnly (lastOfMonth month)) (cycles : List CommittedCycle) :
    rangeCycles query cycles = monthCycles month cycles := by
  have hne : ∀ day, dateOnly day ≠ "" := by
    intro day hempty
    have := ten_le_length_dateOnly day
    rw [hempty] at this
    exact absurd this (by decide)
  refine List.filter_congr fun cycle _ => ?_
  rw [hfrom, hto]
  simp only [hne, decide_false, Bool.false_or, not_lt, ← Bool.decide_and,
    dateOnly_mem_month hlow]

end Range

/-! ### The rows of the entries -/

section Views

variable [TimezoneDatabase] [CurrencyTable]
variable {answers : AccrualAnswers} {clock done now month : ℤ} {s : BillingStore}

omit [TimezoneDatabase] in
/-- What the accrual did not add has the date it had. -/
theorem dated_of_mem_accrued (hdated : s.Dated) {entry : BillingEntry}
    (hmem : entry ∈ (s.accrued answers clock done now).entries) (htype : entry.type ≠ .baseAccrual) :
    ∃ day, entry.day = dateOnly day := by
  obtain ⟨state, hstate, -, new, hnew, hbase⟩ := accrue_spec answers clock done now s
  rw [BillingStore.accrued, hstate] at hmem
  rw [show ({ s with toBillingState := state } : BillingStore).entries = s.entries ++ new from hnew]
    at hmem
  exact hdated entry ((List.mem_append.mp hmem).resolve_right fun hin => htype (hbase entry hin))

omit [TimezoneDatabase] in
/-- **The entries of the month among those that the listing finds.** -/
theorem perm_monthEntries (hdated : s.Dated) (hlow : 0 ≤ month) {found : CalculatedEntries}
    (h : Finds { dayFrom := dateOnly (firstOfMonth month), dayTo := dateOnly (lastOfMonth month) }
      (s.accrued answers clock done now) found) :
    ((found.items.filter fun item => decide (item.entry.type ≠ .baseAccrual) &&
      hasPrefix item.entry.day (monthText month)).map CalculatedEntry.entry).Perm
        ((s.accrued answers clock done now).monthEntries month) := by
  obtain ⟨current, hcurrent, hitems⟩ := h.items
  have hnone : current.filter (fun entry => decide (entry.type ≠ .baseAccrual) &&
      hasPrefix entry.day (monthText month)) = [] :=
    List.filter_eq_nil_iff.mpr fun entry hmem => by simp [hcurrent entry hmem]
  rw [hitems, List.filter_map, List.map_map]
  show (((storedEntries _ (s.accrued answers clock done now) ++ current).filter fun entry =>
    decide (entry.type ≠ .baseAccrual) && hasPrefix entry.day (monthText month)).map id).Perm _
  rw [List.map_id, List.filter_append, hnone, List.append_nil]
  refine ((sortOn_perm _ _).filter _).trans (List.Perm.of_eq ?_)
  rw [BillingStore.monthEntries, List.filter_filter]
  refine List.filter_congr fun entry hmem => ?_
  by_cases htype : entry.type = .baseAccrual
  · simp [htype]
  · obtain ⟨day, hday⟩ := dated_of_mem_accrued hdated hmem htype
    -- the month of the date lies in the range of the query
    have hrange := dateOnly_mem_month hlow day
    rw [← hasPrefix_dateOnly hlow, ← hday] at hrange
    by_cases hkey : hasPrefix entry.day (monthText month) = true
    · obtain ⟨hfirst, hlast⟩ := hrange.mpr hkey
      simp [EntryFilter.selects, htype, hkey, hfirst, hlast]
    · simp [htype, hkey]

omit [TimezoneDatabase] [CurrencyTable] in
/-- The names that clients have now change no amount and no date. -/
theorem sum_applyLiveClientName (clients : List String) (rows : List BillingEntryRow) :
    ((rowsOfMonth month (rows.map (applyLiveClientName s clients))).map BillingEntryRow.amount).sum =
      ((rowsOfMonth month rows).map BillingEntryRow.amount).sum := by
  have hsame : ∀ row, (applyLiveClientName s clients row).day = row.day ∧
      (applyLiveClientName s clients row).amount = row.amount := by
    intro row
    unfold applyLiveClientName BillingEntryRow.amount
    split
    · split_ifs <;> exact ⟨rfl, rfl⟩
    · exact ⟨rfl, rfl⟩
  rw [rowsOfMonth, rowsOfMonth, List.filter_map, List.map_map]
  have hfilter : ((fun row : BillingEntryRow => hasPrefix row.day (monthText month)) ∘
      applyLiveClientName s clients) = fun row => hasPrefix row.day (monthText month) :=
    funext fun row => by rw [Function.comp_apply, (hsame row).1]
  have hamount : BillingEntryRow.amount ∘ applyLiveClientName s clients = BillingEntryRow.amount :=
    funext fun row => by rw [Function.comp_apply, (hsame row).2]
  rw [hfilter, hamount]

omit [TimezoneDatabase] in
theorem amount_entryRow {currency : String} {snapshots : Snapshots} {voidedIDs : List ℕ}
    {item : CalculatedEntry}
    (h : InInt64 ((convertedEntryAmount item.entry currency snapshots).getD 0)) :
    (entryRow currency snapshots voidedIDs item).amount =
      (convertedEntryAmount item.entry currency snapshots).getD 0 := by
  unfold BillingEntryRow.amount entryRow
  dsimp only
  cases hamount : convertedEntryAmount item.entry currency snapshots with
  | none => rw [Option.map_none, Option.map_none]
  | some amount =>
    rw [hamount, Option.getD_some] at h
    rw [Option.map_some, Option.map_some, Option.getD_some, Option.getD_some, ← int64_eq_self h,
      micros_format_int64]

omit [TimezoneDatabase] in
/-- Every entry of the month fits into an amount. -/
theorem BillingStore.Fits.entry {currency : String} {cycles : List CommittedCycle}
    (h : s.Fits month currency cycles) {entry : BillingEntry} (hmem : entry ∈ s.monthEntries month) :
    InInt64 (s.converted currency entry) := by
  have hone := List.single_le_sum (l := (s.monthEntries month).map fun entry => |s.converted currency entry|)
    (by simp) _ (List.mem_map_of_mem hmem)
  have hcycles : 0 ≤ ((monthCycles month cycles).map fun cycle => |cycle.amount|).sum :=
    List.sum_nonneg (by simp)
  unfold BillingStore.Fits at h
  exact inInt64_of_abs_le (by omega)

/-- **The rows of a month add up its entries and its cycles.** -/
theorem sum_entryRows [LowerCase] (hmonth : monthOfDay (beijingDay (normalizedNow clock now)) = month)
    (hlow : 0 ≤ month) (hhigh : month < 120000) (hdated : s.Dated) {currency display : String}
    {page pageSize : ℤ} {rows : List BillingEntryRow} {cycles : List CommittedCycle}
    (hcycles : committedCycles display (normalizedNow clock now) s = .ok cycles)
    (hfits : (s.accrued answers clock done (normalizedNow clock now)).Fits month display cycles)
    (h : entryRows answers clock done
      { currency := currency, dayFrom := dateOnly (firstOfMonth month),
        dayTo := dateOnly (lastOfMonth month), page := page, pageSize := pageSize, now := now } s =
          .ok (display, rows)) :
    ((rowsOfMonth month rows).map BillingEntryRow.amount).sum =
      (((s.accrued answers clock done (normalizedNow clock now)).monthEntries month).map
        ((s.accrued answers clock done (normalizedNow clock now)).converted display)).sum +
          ((monthCycles month cycles).map CommittedCycle.amount).sum := by
  obtain ⟨display', hdisplay, h⟩ := bind_eq_ok.mp h
  obtain ⟨found, hfound, h⟩ := bind_eq_ok.mp h
  obtain ⟨baseRows, hbase, h⟩ := bind_eq_ok.mp h
  obtain ⟨rfl, rfl⟩ := Prod.mk.inj (Except.ok.inj h)
  have hfinds := finds_of_query rfl hfound
  set after := s.accrued answers clock done (normalizedNow clock now) with hafter
  -- the committed cycles are those of the other views
  have hbaseRows : baseRows = ((∅ : Table String CommittedBaseBucket).collect (bucketPeriod true)
      (newBucket true) addToBucket (monthCycles month cycles)).rows.map fun row =>
        bucketRow display' row.2 := by
    unfold baseEntryRows at hbase
    dsimp only at hbase
    rw [if_pos (show stringSet [] = [] ∨ _ from Or.inl rfl)] at hbase
    obtain ⟨cycles', hcycles', hbase⟩ := bind_eq_ok.mp hbase
    have hyear : month / 12 = beijingYear (normalizedNow clock now) := by rw [beijingYear, hmonth]
    rw [yearsFromEntryRange_month hlow hhigh, hyear, committedHorizon_year, hfinds.coverage,
      coverageStart_accrued] at hcycles'
    obtain rfl := Except.ok.inj (hcycles.symm.trans hcycles')
    cases hbase
    rw [entryBaseGrain_month hlow hhigh rfl rfl, rangeCycles_month hlow rfl rfl]
  have hentries : ((rowsOfMonth month ((found.items.filter fun item =>
      decide (item.entry.type ≠ .baseAccrual)).map
        (entryRow display' found.snapshots (reversedOriginalIDs [] s)))).map BillingEntryRow.amount).sum =
          ((after.monthEntries month).map (after.converted display')).sum := by
    have hperm := perm_monthEntries hdated hlow hfinds
    rw [← (hperm.map _).sum_eq, List.map_map, rowsOfMonth, List.filter_map, List.map_map,
      List.filter_filter]
    refine congrArg List.sum (Eq.trans (List.map_congr_left fun item hmem => ?_)
      (congrArg₂ List.map rfl (List.filter_congr fun item _ => Bool.and_comm _ _)))
    have hmem' : item.entry ∈ after.monthEntries month :=
      hperm.subset (List.mem_map_of_mem (by rwa [List.filter_congr fun item _ => Bool.and_comm _ _]))
    have hconverted := hfinds.converted (List.mem_of_mem_filter hmem) display'
    rw [Function.comp_apply, Function.comp_apply, amount_entryRow, hconverted]
    · rfl
    · rw [hconverted]
      exact hfits.entry hmem'
  have hfind : ∀ (query : EntryQuery) (row : BillingEntryRow), query.q = "" → query.finds row = true := by
    intro query row hq
    have hneedle : LowerCase.toLower (trimSpace "") = "" := LowerCase.toLower_empty
    simp [EntryQuery.finds, hq, hneedle]
  rw [List.filter_eq_self.mpr fun row _ => hfind _ row rfl, sum_applyLiveClientName]
  refine (((sortOn_perm _ _).filter _).map _).sum_eq.trans ?_
  rw [List.filter_append, List.map_append, List.sum_append, hbaseRows]
  exact congrArg₂ HAdd.hAdd hentries (sum_bucketRows hlow hfits)

theorem display_of_entryRows [LowerCase] {query : EntryQuery} {display : String}
    {rows : List BillingEntryRow} (h : entryRows answers clock done query s = .ok (display, rows)) :
    requireDisplayCurrency query.currency = .ok display := by
  obtain ⟨display', hdisplay, h⟩ := bind_eq_ok.mp h
  obtain ⟨found, -, h⟩ := bind_eq_ok.mp h
  obtain ⟨baseRows, -, h⟩ := bind_eq_ok.mp h
  obtain ⟨rfl, -⟩ := Prod.mk.inj (Except.ok.inj h)
  exact hdisplay

theorem entryRows_of_allPages [LowerCase] {currency dayFrom dayTo : String} {pageSize : ℤ}
    {all : List BillingEntryRow}
    (h : allPages (fun page => getEntries answers clock done
      { currency := currency, dayFrom := dayFrom, dayTo := dayTo, page := page, pageSize := pageSize,
        now := now } s) EntryPage.page EntryPage.items = .ok all) :
    ∃ display, entryRows answers clock done
      { currency := currency, dayFrom := dayFrom, dayTo := dayTo, page := 1, pageSize := pageSize,
        now := now } s = .ok (display, all) := by
  obtain ⟨first, hfirst, -⟩ := bind_eq_ok.mp h
  obtain ⟨⟨display, rows⟩, hrows, -⟩ := bind_eq_ok.mp hfirst
  refine ⟨display, ?_⟩
  rw [eq_of_allPages (normalizePage_size_pos 1 pageSize) (fun page result hpage hresult => ?_) h]
  · exact hrows
  · obtain ⟨result', hrows', hresult⟩ := bind_eq_ok.mp hresult
    obtain rfl := Except.ok.inj (hrows.symm.trans hrows')
    cases hresult
    have hfirst : (if page < 1 then 1 else page) = page := if_neg (by omega)
    dsimp only
    rw [hfirst]
    exact ⟨rfl, rfl⟩

end Views

end Billing

end Komari
