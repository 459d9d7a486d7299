import Komari.Billing.MonthViews

/-!
# The month of the servers
-/

namespace Komari

namespace Billing

open Calendar TrafficReset
open Traffic (beijingDay dayStart)
open AmountAccumulator (addRow extras_foldl isExtra)

/-! ### Pages -/

/-- All pages of a listing: the first one says how many there are. -/
def allPages {ε P α : Type} (view : ℤ → Except ε P) (info : P → PageInfo) (items : P → List α) :
    Except ε (List α) := do
  let first ← view 1
  let pages ← (List.range (info first).pages.toNat).mapM fun i : ℕ => view (i + 1)
  return (pages.map items).flatten

theorem normalizePage_size_pos (page size : ℤ) : 0 < (normalizePage page size).2 := by
  unfold normalizePage
  dsimp only
  split_ifs <;> omega

theorem pageRows_succ {α : Type*} (rows : List α) (i n : ℕ) :
    pageRows rows (i + 1) n = (rows.drop (i * n)).take n := by
  have hmul : ((i : ℤ) + 1 - 1) * n = ((i * n : ℕ) : ℤ) := by push_cast; ring
  unfold pageRows
  rw [hmul]
  dsimp only
  generalize i * n = start
  -- both bounds are cut off at the end of the rows
  by_cases hstart : (rows.length : ℤ) < start
  · rw [if_pos hstart, Int.toNat_natCast, List.drop_eq_nil_of_le (List.length_take_le' _ _),
      List.drop_eq_nil_of_le (by omega), List.take_nil]
  · rw [if_neg hstart, Int.toNat_natCast, List.take_drop]
    split_ifs with hstop
    · rw [Int.toNat_natCast, List.take_length, List.take_of_length_le (by omega)]
    · rw [show ((start : ℤ) + n).toNat = start + n by omega]

theorem flatten_pageRows {α : Type*} (rows : List α) {size : ℤ} (hsize : 0 < size) (page : ℤ) :
    ((List.range (pageInfo rows.length page size).pages.toNat).map fun i : ℕ =>
      pageRows rows (i + 1) size).flatten = rows := by
  obtain ⟨n, rfl⟩ := Int.eq_ofNat_of_zero_le hsize.le
  have hn : 0 < n := by omega
  have hpages : (pageInfo rows.length page n).pages.toNat = (rows.length + n - 1) / n := by
    unfold pageInfo
    dsimp only
    split_ifs with hrows
    · rw [show (rows.length : ℤ) + n - 1 = ((rows.length + n - 1 : ℕ) : ℤ) by omega,
        ← Int.natCast_div, Int.toNat_natCast]
    · rw [show rows.length + n - 1 = n - 1 by omega, Nat.div_eq_of_lt (by omega)]
      rfl
  rw [hpages]
  simp only [pageRows_succ]
  exact flatten_chunks hn rows

/-- **The pages put together are the rows.** -/
theorem eq_of_allPages {ε P α : Type} {view : ℤ → Except ε P} {info : P → PageInfo}
    {items : P → List α} {all rows : List α} {size : ℤ} (hsize : 0 < size)
    (hview : ∀ page result, 1 ≤ page → view page = .ok result →
      items result = pageRows rows page size ∧ info result = pageInfo rows.length page size)
    (h : allPages view info items = .ok all) : all = rows := by
  obtain ⟨first, hfirst, h⟩ := bind_eq_ok.mp h
  obtain ⟨pages, hpages, h⟩ := bind_eq_ok.mp h
  cases h
  rw [(hview 1 first le_rfl hfirst).2] at hpages
  have hitems : pages.map items = (List.range (pageInfo rows.length 1 size).pages.toNat).map
      fun i : ℕ => pageRows rows (i + 1) size :=
    map_of_mapM_eq_ok (fun i result hresult => (hview _ result (by omega) hresult).1) hpages
  rw [hitems, flatten_pageRows rows hsize]

/-! ### The servers -/

/-- Every client has exactly one open version. -/
def BillingStore.OneOpenEach (s : BillingStore) : Prop :=
  ∀ client, s.existingClient client = true →
    (s.versions.countP fun version => version.effectiveTo = none ∧ version.client = client) = 1

/-- The entries of a month and the cycles, all taken as payments, fit into an amount. -/
def BillingStore.Fits [CurrencyTable] (s : BillingStore) (month : ℤ) (currency : String)
    (cycles : List CommittedCycle) : Prop :=
  ((s.monthEntries month).map fun entry => |s.converted currency entry|).sum +
    ((monthCycles month cycles).map fun cycle => |cycle.amount|).sum ≤ maxInt64

theorem BillingStore.Fits.part [CurrencyTable] {s : BillingStore} {month : ℤ} {currency : String}
    {cycles : List CommittedCycle} (h : s.Fits month currency cycles) (p : CommittedCycle → Bool)
    (q : BillingEntry → Bool) :
    InInt64 ((((monthCycles month cycles).filter p).map CommittedCycle.amount).sum +
      (((s.monthEntries month).filter q).map (s.converted currency)).sum) := by
  have hcycles := abs_sum_filter_le CommittedCycle.amount p (monthCycles month cycles)
  have hentries := abs_sum_filter_le (s.converted currency) q (s.monthEntries month)
  unfold BillingStore.Fits at h
  refine inInt64_of_abs_le ((abs_add_le _ _).trans ?_)
  omega

theorem openVersions_clients (s : BillingStore) : (openVersions s).map (fun row => row.1.client) =
    ((s.versions.filter fun version => version.effectiveTo = none).map PriceVersion.client).filter
      s.existingClient := by
  unfold openVersions
  induction s.versions.filter fun version => version.effectiveTo = none with
  | nil => rfl
  | cons version versions ih =>
    rw [List.map_cons]
    unfold BillingStore.existingClient at *
    cases hfind : s.clients.find? version.client with
    | none =>
      rw [List.filterMap_cons_none (by rw [hfind]; rfl), ih, List.filter_cons_of_neg (by simp [hfind])]
    | some client =>
      rw [List.filterMap_cons_some (by rw [hfind]; rfl), List.map_cons, ih,
        List.filter_cons_of_pos (by simp [hfind])]

/-- Where every client has one open version, the servers are the clients, each once. -/
theorem nodup_openVersions {s : BillingStore} (h : s.OneOpenEach) :
    ((openVersions s).map fun row => row.1.client).Nodup ∧
      ∀ client, s.existingClient client = true →
        client ∈ (openVersions s).map fun row => row.1.client := by
  rw [openVersions_clients]
  have hcount : ∀ client, s.existingClient client = true →
      ((s.versions.filter fun version => version.effectiveTo = none).map
        PriceVersion.client).count client = 1 := by
    intro client hclient
    rw [← h client hclient, List.count, List.countP_map, List.countP_filter]
    exact List.countP_congr fun version _ => by simp [and_comm]
  constructor
  · refine List.nodup_iff_count_le_one.mpr fun client => ?_
    by_cases hclient : s.existingClient client = true
    · rw [List.count_filter hclient, hcount client hclient]
    · rw [List.count_eq_zero.mpr fun hmem => hclient (List.mem_filter.mp hmem).2]
      exact Nat.zero_le 1
  · intro client hclient
    refine List.mem_filter.mpr ⟨List.count_pos_iff.mp ?_, hclient⟩
    rw [hcount client hclient]
    exact Nat.one_pos

theorem addInt64_extras (base : ℤ) (t : AmountAccumulator) :
    addInt64 (addInt64 (addInt64 base t.extra) t.other) t.oneTime = int64 (base + t.extras) := by
  unfold addInt64 AmountAccumulator.extras
  rw [int64_int64_add, add_assoc, int64_int64_add]
  exact congrArg int64 (by ring)

section Views

variable [TimezoneDatabase] [CurrencyTable]

variable {cycles : List CommittedCycle}

omit [TimezoneDatabase] in
/-- What the row of a client adds up: its cycles, and its entries that are shown beside the base. -/
theorem serverRow_monthTotal {currency key display : String} {lockedRates : Snapshots}
    {found : CalculatedEntries} {version : PriceVersion}
    {client : ClientRow} {row : BillingServerRow}
    (h : serverRow currency lockedRates (monthlyByClient key display found)
      (committedByClient key cycles) version client = .ok row) :
    row.monthTotal = formatAmountMicros (int64
      ((((cycles.filter fun cycle => cycle.month = key).filter fun cycle =>
        cycle.client = version.client).map CommittedCycle.amount).sum +
          (((countedEntries key display found).filter fun pair =>
            decide (pair.1.entry.client = version.client) && isExtra pair.1.category).map
              Prod.snd).sum)) := by
  obtain ⟨_, -, h⟩ := bind_eq_ok.mp h
  cases h
  refine congrArg formatAmountMicros ?_
  set base := ((committedByClient key cycles).find? version.client).getD 0 with hbase
  set totals := ((monthlyByClient key display found).find? version.client).getD .zero with htotals
  have hcycles : base = int64 (((cycles.filter fun cycle => cycle.month = key).filter fun cycle =>
      cycle.client = version.client).map CommittedCycle.amount).sum := by
    rw [hbase, committedByClient, Table.getD_find?_collect fun _ => rfl, ← zero_add (List.sum _),
      ← foldl_addInt64, List.foldl_map]
    rfl
  have hentries : int64 totals.extras = int64 (((countedEntries key display found).filter fun pair =>
      decide (pair.1.entry.client = version.client) && isExtra pair.1.category).map Prod.snd).sum := by
    have hfold := extras_foldl (fun pair : CalculatedEntry × ℤ => pair.1.category) Prod.snd
      ((countedEntries key display found).filter fun pair => pair.1.entry.client = version.client)
        (t := .zero) (x := 0) rfl
    rw [zero_add, List.filter_filter] at hfold
    rw [htotals, monthlyByClient, Table.getD_find?_collect fun _ => rfl]
    refine hfold.trans (congrArg int64 (congrArg List.sum (congrArg₂ List.map rfl ?_)))
    exact List.filter_congr fun pair _ => Bool.and_comm _ _
  show addInt64 (addInt64 (addInt64 base totals.extra) totals.other) totals.oneTime = _
  rw [addInt64_extras, hcycles, int64_int64_add, ← int64_add_int64, hentries, int64_add_int64]

variable {answers : AccrualAnswers} {clock done now month : ℤ} {s : BillingStore}

omit [TimezoneDatabase] in
theorem existingClient_accrued (client : String) :
    (s.accrued answers clock done now).existingClient client = s.existingClient client := by
  obtain ⟨state, hstate, -⟩ := accrue_spec answers clock done now s
  unfold BillingStore.accrued BillingStore.existingClient
  rw [hstate]

omit [TimezoneDatabase] in
theorem existingClient_of_mem_monthEntries {entry : BillingEntry}
    (h : entry ∈ (s.accrued answers clock done now).monthEntries month) :
    s.existingClient entry.client = true := by
  have hselected := (List.mem_filter.mp h).2
  rw [existingClient_accrued] at hselected
  exact (Bool.and_eq_true_iff.mp (Bool.and_eq_true_iff.mp hselected).1).1

omit [TimezoneDatabase] in
theorem existingClient_of_mem_billable {clients nativeCurrencies : List String} {version : PriceVersion}
    (h : version ∈ listBillableVersions clients nativeCurrencies s) :
    s.existingClient version.client = true := by
  have hselected := (List.mem_filter.mp (mem_sortOn.mp h)).2
  exact (Bool.and_eq_true_iff.mp (Bool.and_eq_true_iff.mp
    (Bool.and_eq_true_iff.mp hselected).1).1).2

theorem existingClient_of_mem_cycles {clients nativeCurrencies : List String}
    {settings : Table String ClientBillingMeta} {currency : String} {snapshots : Snapshots}
    {since stop : ℤ}
    (h : walkCommittedCycles (listBillableVersions clients nativeCurrencies s) settings currency
      snapshots since stop = .ok cycles) {cycle : CommittedCycle} (hmem : cycle ∈ cycles) :
    s.existingClient cycle.client = true := by
  obtain ⟨hvisit, -⟩ := committedCycleAt_of_mem h hmem
  obtain ⟨client, hclient, hstart⟩ := List.mem_flatMap.mp hvisit
  obtain ⟨start, -, heq⟩ := List.mem_map.mp hstart
  obtain ⟨version, hversion, rfl⟩ := mem_versionClients.mp hclient
  rw [← (Prod.mk.inj heq).1]
  exact existingClient_of_mem_billable hversion

/-- The committed cycles that the list of servers walks over. -/
def serverCycles (currency : String) (now : ℤ) (s : BillingStore) : Except String (List CommittedCycle) :=
  let versions := listBillableVersions [] [] s
  walkCommittedCycles versions (s.clientMeta []) currency (loadVersionFXSnapshots versions s)
    (earliestEffective versions now) (committedHorizon now [] versions)

theorem exists_serverCycles [LowerCase] (hb : backfillPriceVersionFX answers.latest s = .ok s)
    {currency display : String} {page pageSize : ℤ} {rows : List BillingServerRow}
    (h : serverRows answers clock done
      { currency := currency, page := page, pageSize := pageSize, now := now } s = .ok (display, rows)) :
    requireDisplayCurrency currency = .ok display ∧
      ∃ cycles, serverCycles display (normalizedNow clock now) s = .ok cycles := by
  obtain ⟨display', hdisplay, h⟩ := bind_eq_ok.mp h
  obtain ⟨s', hs', h⟩ := bind_eq_ok.mp h
  obtain rfl := Except.ok.inj (hb.symm.trans hs')
  obtain ⟨found, -, h⟩ := bind_eq_ok.mp h
  obtain ⟨_, -, h⟩ := bind_eq_ok.mp h
  obtain ⟨cycles, hcycles, h⟩ := bind_eq_ok.mp h
  obtain ⟨rows', -, h⟩ := bind_eq_ok.mp h
  obtain ⟨rfl, rfl⟩ := Prod.mk.inj (Except.ok.inj h)
  exact ⟨hdisplay, cycles, hcycles⟩

theorem serverRows_of_allPages [LowerCase] {currency : String} {pageSize : ℤ}
    {all : List BillingServerRow}
    (h : allPages (fun page => getServers answers clock done
      { currency := currency, page := page, pageSize := pageSize, now := now } s)
        ServerPage.page ServerPage.items = .ok all) :
    ∃ display, serverRows answers clock done
      { currency := currency, page := 1, pageSize := pageSize, now := now } s = .ok (display, all) := by
  obtain ⟨first, hfirst, -⟩ := bind_eq_ok.mp h
  obtain ⟨⟨display, rows⟩, hrows, -⟩ := bind_eq_ok.mp hfirst
  refine ⟨display, ?_⟩
  rw [eq_of_allPages (normalizePage_size_pos 1 pageSize) (fun page result hpage hresult => ?_) h]
  · exact hrows
  · obtain ⟨result', hrows', hresult⟩ := bind_eq_ok.mp hresult
    obtain rfl := Except.ok.inj (hrows.symm.trans hrows')
    cases hresult
    have hfirst : (if page < 1 then 1 else page) = page := if_neg (by omega)
    dsimp only
    rw [hfirst]
    exact ⟨rfl, rfl⟩

/-- **The servers add up the cycles of the month, and the entries that are shown beside the base.** -/
theorem sum_serverRows [LowerCase] (hb : backfillPriceVersionFX answers.latest s = .ok s)
    (hmonth : monthOfDay (beijingDay (normalizedNow clock now)) = month) (hlow : 0 ≤ month)
    (hopen : s.OneOpenEach) {currency display : String} {page pageSize : ℤ}
    {rows : List BillingServerRow}
    (hcycles : serverCycles display (normalizedNow clock now) s = .ok cycles)
    (hfits : (s.accrued answers clock done (normalizedNow clock now)).Fits month display cycles)
    (h : serverRows answers clock done
      { currency := currency, page := page, pageSize := pageSize, now := now } s = .ok (display, rows)) :
    (rows.map fun row => micros row.monthTotal).sum =
      (s.accrued answers clock done (normalizedNow clock now)).monthSum month display isExtra +
        ((monthCycles month cycles).map CommittedCycle.amount).sum := by
  obtain ⟨display', hdisplay, h⟩ := bind_eq_ok.mp h
  obtain ⟨s', hs', h⟩ := bind_eq_ok.mp h
  obtain rfl := Except.ok.inj (hb.symm.trans hs')
  obtain ⟨found, hfound, h⟩ := bind_eq_ok.mp h
  obtain ⟨_, -, h⟩ := bind_eq_ok.mp h
  obtain ⟨cycles', hcycles', h⟩ := bind_eq_ok.mp h
  obtain ⟨rows', hrows, h⟩ := bind_eq_ok.mp h
  obtain ⟨rfl, rfl⟩ := Prod.mk.inj (Except.ok.inj h)
  obtain rfl := Except.ok.inj (hcycles.symm.trans hcycles')
  have hfinds := finds_of_query rfl hfound
  set after := s.accrued answers clock done (normalizedNow clock now) with hafter
  set entries := (after.monthEntries month).filter fun entry => isExtra (after.category entry)
    with hentries
  let cycleSum := fun client : String => (((monthCycles month cycles).filter fun cycle =>
    cycle.client = client).map CommittedCycle.amount).sum
  let entrySum := fun client : String => ((entries.filter fun entry => entry.client = client).map
    (after.converted display')).sum
  -- every row shows its own sums, which fit
  have hrow : ∀ (pair : PriceVersion × ClientRow) (row : BillingServerRow),
      serverRow display' (loadVersionFXSnapshots (listBillableVersions [] [] s) s)
        (monthlyByClient (monthText (monthOfDay (beijingDay (normalizedNow clock now)))) display' found)
        (committedByClient (monthText (monthOfDay (beijingDay (normalizedNow clock now)))) cycles)
          pair.1 pair.2 = .ok row →
        micros row.monthTotal = cycleSum pair.1.client + entrySum pair.1.client := by
    intro pair row hrow
    have hsum := sum_countedEntries month hfinds display' fun item =>
      decide (item.entry.client = pair.1.client) && isExtra item.category
    have hselect : ((after.monthEntries month).filter fun entry =>
        decide (after.category entry ≠ .baseAccrual) &&
          (decide (entry.client = pair.1.client) && isExtra (after.category entry))) =
            entries.filter fun entry => entry.client = pair.1.client := by
      rw [hentries, List.filter_filter]
      refine List.filter_congr fun entry _ => ?_
      cases hcategory : after.category entry <;> simp [isExtra]
    have hbound : InInt64 (cycleSum pair.1.client + entrySum pair.1.client) := by
      have hpart := hfits.part (fun cycle => cycle.client = pair.1.client) fun entry =>
        decide (entry.client = pair.1.client) && isExtra (after.category entry)
      rwa [← List.filter_filter] at hpart
    rw [serverRow_monthTotal hrow, hmonth, hsum, hselect, filter_cycle_month hlow,
      micros_format_int64, int64_eq_self hbound]
  have hall : (openVersions s).filter (fun row => ServerQuery.selects
      { currency := currency, page := page, pageSize := pageSize, now := normalizedNow clock now }
        row.1 row.2) = openVersions s := by
    refine List.filter_eq_self.mpr fun row _ => ?_
    have hsearch : LowerCase.toLower (trimSpace "") = "" := LowerCase.toLower_empty
    simp [ServerQuery.selects, stringSet, hsearch]
  obtain ⟨hnodup, hcover⟩ := nodup_openVersions hopen
  have hsums : rows'.map (fun row => micros row.monthTotal) = (sortOn
      (fun row : PriceVersion × ClientRow => toLex (row.2.weight, toLex (row.2.createdAt, row.1.client)))
        (openVersions s)).map fun row => cycleSum row.1.client + entrySum row.1.client := by
    rw [← hall]
    exact map_of_mapM_eq_ok (fun pair row => hrow pair row) hrows
  rw [hsums, ((sortOn_perm _ _).map _).sum_eq, List.sum_map_add]
  have hsumC := sum_keys hnodup CommittedCycle.client CommittedCycle.amount
    (monthCycles month cycles) fun cycle hmem =>
      hcover _ (existingClient_of_mem_cycles hcycles (List.mem_of_mem_filter hmem))
  have hsumE := sum_keys hnodup BillingEntry.client (after.converted display') entries
    fun entry hmem => hcover _ (existingClient_of_mem_monthEntries (List.mem_of_mem_filter hmem))
  rw [List.map_map] at hsumC hsumE
  rw [add_comm]
  exact congrArg₂ HAdd.hAdd hsumE hsumC

end Views

end Billing

end Komari
