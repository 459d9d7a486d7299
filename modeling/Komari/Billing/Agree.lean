import Komari.Billing.Ledger
import Komari.Billing.MonthEntries

/-!
# The billing views on a month

The overview, the current month, the servers and the entries of a month should show the same total.

* `monthViews_agree` : they do when single payments and reversals without an original cancel out, and
  reversals of accruals do.  The list of servers adds up no category but traffic resets, changes of the
  address and adjustments; the listing of entries leaves out accruals by their type, all others by their
  category.
-/

namespace Komari

namespace Billing

open Calendar TrafficReset
open Traffic (beijingDay dayStart noTimezones)
open AmountAccumulator (isExtra)

section Views

variable [TimezoneDatabase] [CurrencyTable]

/-- What the views show of a month. -/
structure MonthViews where
  overview : BillingOverview
  monthly : PeriodPage
  servers : List BillingServerRow
  entries : List BillingEntryRow
deriving DecidableEq

/-- The views of the current month, each asked for without a filter. -/
def monthViews [LowerCase] (answers : AccrualAnswers) (clock done : ℤ) (currency : String)
    (pageSize now : ℤ) (s : BillingStore) : Except String MonthViews := do
  let month := monthOfDay (beijingDay (normalizedNow clock now))
  let overview ← getOverview answers clock done currency now s
  let monthly ← getMonthly answers clock done
    { currency := currency, page := 1, pageSize := pageSize, now := now } s
  let servers ← allPages (fun page => getServers answers clock done
    { currency := currency, page := page, pageSize := pageSize, now := now } s)
      ServerPage.page ServerPage.items
  let entries ← allPages (fun page => getEntries answers clock done
    { currency := currency, dayFrom := dateOnly (firstOfMonth month),
      dayTo := dateOnly (lastOfMonth month), page := page, pageSize := pageSize, now := now } s)
      EntryPage.page EntryPage.items
  return ⟨overview, monthly, servers, entries⟩

/-- The views show the same total of a month. -/
structure MonthViews.Agree (views : MonthViews) (month : ℤ) : Prop where
  monthly : views.monthly.summary.total = views.overview.month.total
  servers : (views.servers.map fun row => micros row.monthTotal).sum =
    micros views.overview.month.total
  entries : ((rowsOfMonth month views.entries).map BillingEntryRow.amount).sum =
    micros views.overview.month.total

/-- What only some of the views count cancels out: single payments with reversals of nothing that is
shown, and reversals of accruals. -/
structure BillingStore.Balanced (s : BillingStore) (month : ℤ) (currency : String) : Prop where
  others : s.monthSum month currency (fun category =>
    category = .oneTime ∨ category = .reversal) = 0
  accruals : s.monthSum month currency (fun category => category = .baseAccrual) = 0

/-- Tables and a time for which every view gets to the end: the exchange rates of versions are locked,
years have four digits, entries have dates, the walks over the cycles reach those of the month and
amounts do not overflow. -/
structure BillingStore.Ordinary (s : BillingStore) (answers : AccrualAnswers) (clock done : ℤ)
    (display : String) (now month : ℤ) : Prop where
  backfilled : backfillPriceVersionFX answers.latest s = .ok s
  current : monthOfDay (beijingDay now) = month
  fourDigits : 0 ≤ month ∧ month < 120000
  dated : s.Dated
  reached : ∀ since ∈ [earliestEffective (listBillableVersions [] [] s) now,
    walkStart (listBillableVersions [] [] s) now (coverageStart s)],
      WalksThrough (s.clientMeta []) since (committedHorizon now [] (listBillableVersions [] [] s)) month
  fits : ∀ cycles, committedCycles display now s = .ok cycles →
    (s.accrued answers clock done now).Fits month display cycles

/-! ### Sums of categories -/

omit [TimezoneDatabase] in
theorem BillingStore.monthSum_split (s : BillingStore) (month : ℤ) (currency : String)
    {p q r : EntryType → Bool} (h : ∀ category, r category = (p category || q category))
    (hdisjoint : ∀ category, (p category && q category) = false) :
    s.monthSum month currency r = s.monthSum month currency p + s.monthSum month currency q := by
  unfold BillingStore.monthSum
  induction s.monthEntries month with
  | nil => rfl
  | cons entry entries ih =>
    have hr := h (s.category entry)
    have hpq := hdisjoint (s.category entry)
    cases hp : p (s.category entry) with
    | true =>
      have hq : q (s.category entry) = false := by simpa [hp] using hpq
      simp only [List.filter_cons, hr, hp, hq, Bool.or_false, if_true, List.map_cons, List.sum_cons, ih]
      simp [add_assoc]
    | false =>
      cases hq : q (s.category entry) with
      | true =>
        simp only [List.filter_cons, hr, hp, hq, Bool.or_true, if_true, List.map_cons, List.sum_cons, ih]
        simp [add_left_comm]
      | false => simp [hr, hp, hq, ih]

/-! ### The total of a month -/

variable {answers : AccrualAnswers} {clock done now month pageSize : ℤ} {currency display : String}
  {s : BillingStore} {views : MonthViews}

/-- The list of servers finds the cycles that the other views find. -/
theorem perm_serverCycles (h : s.Ordinary answers clock done display now month)
    {cycles cycles' : List CommittedCycle} (hcycles : committedCycles display now s = .ok cycles)
    (hcycles' : serverCycles display now s = .ok cycles') :
    (monthCycles month cycles).Perm (monthCycles month cycles') := by
  obtain ⟨hle, hfrom⟩ := @earliestEffective_le (listBillableVersions [] [] s) now
  have hwalk : walkStart (listBillableVersions [] [] s) now (coverageStart s) ≤
      earliestEffective (listBillableVersions [] [] s) now := by
    unfold walkStart
    cases coverageStart s with
    | none => exact le_rfl
    | some coverage =>
      dsimp only
      split_ifs <;> omega
  exact perm_month_cycles hwalk (hle.trans_lt (lt_committedHorizon now _)) hfrom
    (h.reached _ (by simp)) (h.reached _ (by simp)) hcycles hcycles'

omit [TimezoneDatabase] in
theorem BillingStore.Fits.perm {cycles cycles' : List CommittedCycle}
    (h : s.Fits month currency cycles) (hperm : (monthCycles month cycles).Perm (monthCycles month cycles')) :
    s.Fits month currency cycles' := by
  unfold BillingStore.Fits at *
  rwa [← (hperm.map _).sum_eq]

/-- **The views agree when what only some of them count cancels out.** -/
theorem monthViews_agree [LowerCase] (hordinary : s.Ordinary answers clock done display
      (normalizedNow clock now) month) (hopen : s.OneOpenEach)
    (hdisplay : requireDisplayCurrency currency = .ok display)
    (h : monthViews answers clock done currency pageSize now s = .ok views) :
    views.Agree month ↔
      (s.accrued answers clock done (normalizedNow clock now)).Balanced month display := by
  obtain ⟨overview, hoverview, h⟩ := bind_eq_ok.mp h
  obtain ⟨monthly, hmonthly, h⟩ := bind_eq_ok.mp h
  obtain ⟨servers, hservers, h⟩ := bind_eq_ok.mp h
  obtain ⟨entries, hentries, h⟩ := bind_eq_ok.mp h
  cases h
  have hmonth := hordinary.current
  obtain ⟨hlow, hhigh⟩ := hordinary.fourDigits
  rw [hmonth] at hentries
  obtain ⟨display₁, cycles, hdisplay₁, hcycles, htotal⟩ :=
    overview_month hordinary.backfilled hmonth hlow hhigh hoverview
  obtain rfl := Except.ok.inj (hdisplay.symm.trans hdisplay₁)
  obtain ⟨display₂, cycles₂, hdisplay₂, hcycles₂, hsummary⟩ :=
    monthly_summary hordinary.backfilled hmonth hlow hhigh hordinary.dated hmonthly
  obtain rfl := Except.ok.inj (hdisplay.symm.trans hdisplay₂)
  obtain rfl := Except.ok.inj (hcycles.symm.trans hcycles₂)
  obtain ⟨display₃, hrows⟩ := serverRows_of_allPages hservers
  obtain ⟨hdisplay₃, cycles₃, hcycles₃⟩ := exists_serverCycles hordinary.backfilled hrows
  obtain rfl := Except.ok.inj (hdisplay.symm.trans hdisplay₃)
  obtain ⟨display₄, hlisted⟩ := entryRows_of_allPages hentries
  have hdisplay₄ := display_of_entryRows hlisted
  obtain rfl := Except.ok.inj (hdisplay.symm.trans hdisplay₄)
  have hfits := hordinary.fits cycles hcycles
  have hperm := perm_serverCycles hordinary hcycles hcycles₃
  have hsumServers := sum_serverRows hordinary.backfilled hmonth hlow hopen hcycles₃
    (hfits.perm hperm) hrows
  have hsumEntries := sum_entryRows hmonth hlow hhigh hordinary.dated hcycles hfits hlisted
  rw [← (hperm.map _).sum_eq] at hsumServers
  set after := s.accrued answers clock done (normalizedNow clock now) with hafter
  set cycleSum := ((monthCycles month cycles).map CommittedCycle.amount).sum with hcycleSum
  -- the overview shows its total as it is
  have hexact : micros overview.month.total =
      after.monthSum month display (fun category => category ≠ .baseAccrual) + cycleSum := by
    have hpart := hfits.part (fun _ => true) fun entry => after.category entry ≠ .baseAccrual
    rw [List.filter_true, add_comm] at hpart
    have hself := int64_eq_self hpart
    rw [htotal, micros_format_int64]
    exact hself
  have hall : ((after.monthEntries month).map (after.converted display)).sum =
      after.monthSum month display fun _ => true := by
    rw [BillingStore.monthSum, List.filter_true]
  have hsplit := after.monthSum_split month display (r := fun _ => true)
    (p := fun category => category ≠ .baseAccrual) (q := fun category => category = .baseAccrual)
      (fun category => by cases category <;> rfl) fun category => by cases category <;> rfl
  have hsplit' := after.monthSum_split month display (r := fun category => category ≠ .baseAccrual)
    (p := isExtra) (q := fun category => category = .oneTime ∨ category = .reversal)
      (fun category => by cases category <;> rfl) fun category => by cases category <;> rfl
  constructor
  · rintro ⟨-, hagree, hagree'⟩
    rw [hsumServers, hexact] at hagree
    rw [hsumEntries, hall, hexact] at hagree'
    exact ⟨by omega, by omega⟩
  · rintro ⟨hothers, haccruals⟩
    refine ⟨hsummary.trans htotal.symm, ?_, ?_⟩
    · rw [hsumServers, hexact]
      omega
    · rw [hsumEntries, hall, hexact]
      omega

end Views

/-! ### A client with a single payment -/

def juneMonth : ℤ := 12 * 2025 + 5

def juneNow : ℤ := dayStart (monthStart juneMonth + 9)

/-- A server with a price. -/
def paidClient : ClientRow where
  name := "a"
  region := ""
  regionOverride := ""
  group := ""
  tags := ""
  weight := 0
  createdAt := 0
  expiryTimezone := ""
  trafficResetDay := none
  trafficResetTime := ""
  trafficResetTimezone := ""

/-- 100 yuan, paid once, from the first of June on. -/
def paidVersion : PriceVersion where
  id := 1
  client := "a"
  clientName := "a"
  region := ""
  group := ""
  priceMicros := 100000000
  currency := "CNY"
  currencyValid := true
  fxSnapshotID := some 1
  usdPriceMicros := none
  billingCycleDays := -1
  expiredAt := none
  effectiveFrom := dayStart (monthStart juneMonth)
  effectiveTo := none
  source := "client_edit"

/-- An entry of the first of June over 100 yuan. -/
def juneEntry (type : EntryType) : BillingEntry where
  id := 1
  entryKey := oneTimeKey "a" 1
  client := "a"
  clientName := "a"
  type := type
  day := dateOnly (monthStart juneMonth)
  occurredAt := dayStart (monthStart juneMonth)
  originalAmountMicros := 100000000
  originalCurrency := "CNY"
  fxSnapshotID := none
  usdAmountMicros := none
  priceVersionID := some 1
  reversalOf := none
  sourceRef := ""
  note := ""
  operator := ""

def juneStore (type : EntryType) : BillingStore where
  versions := [paidVersion]
  entries := [juneEntry type]
  coordination := none
  clients := (∅ : Table String ClientRow).upsert "a" paidClient
  snapshots := ∅

/-- No character is changed. -/
@[reducible] def plainText : LowerCase := ⟨id, rfl⟩

/-- What is shown of June 2025. -/
abbrev juneViews (type : EntryType) : Except String MonthViews :=
  @monthViews noTimezones plainCurrencies plainText answering juneNow juneNow "CNY" 10 juneNow
    (juneStore type)

/-- A client without settings resets on the first of the month. -/
theorem boundary_default (month : ℤ) : @Schedule.boundary noTimezones
    (@fromFields noTimezones (some 1) "" "") month = dayStart (monthStart month) := by
  obtain ⟨hloc, hclock⟩ := @Schedule.loc_of_usesLegacyCycleKey noTimezones
    (@fromFields noTimezones (some 1) "" "") (by decide +kernel)
  have hday : (@fromFields noTimezones (some 1) "" "").day = 1 := rfl
  have hlast : ¬Schedule.daysInMonth month beijingZone < 1 := not_lt.mpr (one_le_dayOfMonth _)
  unfold Schedule.boundary Schedule.boundaryWall
  dsimp only
  rw [hloc, hclock, hday, if_neg hlast]
  show nanosPerSecond * (Zone.fixed _ _).date _ = _
  rw [Zone.date_fixed]
  unfold dayStart nanosPerSecond secondsPerDay Traffic.nanosPerDay Traffic.beijingOffset
  ring

theorem resetSchedule_june (type : EntryType) (client : String) :
    @resetSchedule noTimezones (@BillingStore.clientMeta noTimezones (juneStore type) []) client =
      @fromFields noTimezones (some 1) "" "" := by
  have hmeta : @BillingStore.clientMeta noTimezones (juneStore type) [] =
      (∅ : Table String (@ClientBillingMeta noTimezones)).upsert "a"
        (@clientMeta noTimezones none "" "") := rfl
  unfold resetSchedule
  rw [hmeta, Table.find?_upsert]
  split_ifs
  · rfl
  · rfl

theorem oneOpenEach_june (type : EntryType) : (juneStore type).OneOpenEach := by
  intro client hclient
  by_cases ha : client = "a"
  · rw [ha]
    rfl
  · have hnone : (juneStore type).clients.find? client = none := by
      rw [juneStore, Table.find?_upsert_ne ha]
      rfl
    rw [BillingStore.existingClient, hnone] at hclient
    cases hclient

theorem walksThrough_june (type : EntryType) {since stop : ℤ} (hstop : stop ≠ zeroTime)
    (hlast : @Schedule.last noTimezones (@fromFields noTimezones (some 1) "" "") since =
      dayStart (monthStart juneMonth)) :
    @WalksThrough noTimezones (@BillingStore.clientMeta noTimezones (juneStore type) []) since stop
      juneMonth := by
  refine @WalksThrough.mk noTimezones _ _ _ _ (fun client => ?_) fun client start hwindow hmonth => ?_
  · have horder := inOrder_default client since stop
    rwa [show @resetSchedule noTimezones ∅ client = @fromFields noTimezones (some 1) "" "" from rfl,
      ← resetSchedule_june type client] at horder
  · -- the cycle of June is the first of the walk
    obtain ⟨month, hstart⟩ := @InWindow.reset noTimezones _ _ _ _ hwindow
    rw [resetSchedule_june, boundary_default] at hstart
    have hfirst : monthOfDay (monthStart month) = month := monthOfDay_first month
    rw [hstart, Traffic.beijingDay_dayStart, hfirst] at hmonth
    refine ⟨hstop, ?_⟩
    rw [resetSchedule_june]
    have hempty : @Schedule.resetsBefore noTimezones (@fromFields noTimezones (some 1) "" "") since
        start = ∅ := by
      refine Set.eq_empty_iff_forall_notMem.mpr ?_
      rintro t ⟨-, hlow, hhigh⟩
      rw [hlast] at hlow
      rw [hstart, hmonth] at hhigh
      omega
    rw [hempty, Set.ncard_empty]
    decide

theorem ordinary_june (type : EntryType) :
    @BillingStore.Ordinary noTimezones plainCurrencies (juneStore type) answering juneNow juneNow "CNY"
      juneNow juneMonth := by
  refine @BillingStore.Ordinary.mk noTimezones plainCurrencies _ _ _ _ _ _ _ rfl (by decide +kernel)
    (by decide) ?_ ?_ ?_
  · intro entry hmem
    obtain rfl := List.mem_singleton.mp hmem
    exact ⟨monthStart juneMonth, rfl⟩
  · have hversions : @listBillableVersions plainCurrencies [] [] (juneStore type) = [] := rfl
    have hcoverage : coverageStart (juneStore type) = some (dayStart (monthStart juneMonth)) := rfl
    intro since hmem
    rw [hversions, hcoverage] at hmem
    rw [hversions]
    refine walksThrough_june type (by decide +kernel) ?_
    rcases List.mem_cons.mp hmem with rfl | hmem
    · decide +kernel
    · obtain rfl := List.mem_singleton.mp hmem
      decide +kernel
  · intro cycles hcycles
    obtain rfl : [] = cycles := Except.ok.inj hcycles
    unfold BillingStore.Fits
    cases type <;> decide +kernel

/-- A traffic reset for 100 yuan is shown by all views. -/
theorem monthViews_agree_reset : ∃ views, juneViews .trafficReset = .ok views ∧
    views.Agree juneMonth := by
  have hok : (juneViews .trafficReset).isOk = true := by decide +kernel
  cases hviews : juneViews .trafficReset with
  | error e =>
    rw [hviews] at hok
    cases hok
  | ok views =>
    refine ⟨views, rfl, (@monthViews_agree noTimezones plainCurrencies answering juneNow juneNow
      juneNow juneMonth 10 "CNY" "CNY" (juneStore .trafficReset) views plainText
        (ordinary_june .trafficReset) (oneOpenEach_june .trafficReset) (by decide +kernel) hviews).mpr ?_⟩
    exact @BillingStore.Balanced.mk plainCurrencies _ _ _ (by decide +kernel) (by decide +kernel)

/-- **The single payment is missing in the list of servers.** -/
theorem monthViews_disagree : (juneStore .oneTime).OneOpenEach ∧
    ∃ views, juneViews .oneTime = .ok views ∧ ¬views.Agree juneMonth := by
  refine ⟨oneOpenEach_june .oneTime, ?_⟩
  have hdiffer : (juneViews .oneTime).toOption.any (fun views =>
      decide ((views.servers.map fun row => micros row.monthTotal).sum ≠
        micros views.overview.month.total)) = true := by decide +kernel
  cases hviews : juneViews .oneTime with
  | error e =>
    rw [hviews] at hdiffer
    cases hdiffer
  | ok views =>
    rw [hviews] at hdiffer
    exact ⟨views, rfl, fun hagree => absurd hagree.servers (of_decide_eq_true hdiffer)⟩

end Billing

end Komari
