import Komari.Billing.Store

/-!
# The billing views

Four views show what a month costs: the overview, the list of servers, the periods and the entries.
Each of them derives it from stored entries and committed cycles on its own.
-/

namespace Komari

namespace Billing

open Calendar TrafficReset
open Traffic (beijingDay dayStart nanosPerDay)

/-! ### Pages -/

/-- Which page, of how many. -/
structure PageInfo where
  page : ℤ
  pageSize : ℤ
  total : ℕ
  pages : ℤ
deriving DecidableEq

/-- The page and its size, in bounds. -/
def normalizePage (page size : ℤ) : ℤ × ℤ :=
  let page := if page < 1 then 1 else page
  let size := if size < 1 then 10 else size
  (page, if 100 < size then 100 else size)

/-- `pageBounds`, applied to the rows. -/
def pageRows {α : Type*} (rows : List α) (page size : ℤ) : List α :=
  let total : ℤ := rows.length
  let start := if total < (page - 1) * size then total else (page - 1) * size
  let stop := if total < start + size then total else start + size
  (rows.take stop.toNat).drop start.toNat

/-- The page of how many. -/
def pageInfo (total : ℕ) (page size : ℤ) : PageInfo :=
  ⟨page, size, total, if 0 < total then (total + size - 1) / size else 0⟩

/-! ### Periods -/

/-- The sums of a period. -/
structure PeriodAmount extends AmountBreakdown where
  period : String
  status : String
  serverCount : ℕ
deriving DecidableEq

/-- The sums of a period. -/
def periodFromAccumulator (period : String) (value : AmountAccumulator) : PeriodAmount :=
  { formattedBreakdown value with period := period, status := "", serverCount := 0 }

/-- The month of its start. -/
def CommittedCycle.month (cycle : CommittedCycle) : String :=
  monthText (monthOfDay (beijingDay cycle.start))

/-- The year of its start. -/
def CommittedCycle.year (cycle : CommittedCycle) : String := yearText (beijingYear cycle.start)

section Views

variable [TimezoneDatabase] [CurrencyTable]

/-! ### The overview -/

/-- `BillingOverview`, with its `OverviewSummary`. -/
structure BillingOverview where
  currency : String
  coverageStart : Option ℤ
  today : AmountBreakdown
  month : AmountBreakdown
  year : AmountBreakdown
  monthlyTrend : List PeriodAmount
  pendingFXEntries : ℕ
deriving DecidableEq

/-- The sums of the overview while it is made. -/
structure OverviewTotals where
  today : AmountAccumulator
  month : AmountAccumulator
  year : AmountAccumulator
  monthTotals : Table String AmountAccumulator
  pending : ℕ

/-- The texts of a day, its month and its year. -/
structure OverviewKeys where
  today : String
  month : String
  year : String

/-- The keys of an instant: the month and the year are cut from the date. -/
def overviewKeys (now : ℤ) : OverviewKeys where
  today := dateOnly (beijingDay now)
  month := takeText 7 (dateOnly (beijingDay now))
  year := takeText 4 (dateOnly (beijingDay now))

/-- Adds to a month of the year, if it is one. -/
def addToTrend (monthTotals : Table String AmountAccumulator) (key : String) (category : EntryType)
    (amount : ℤ) : Table String AmountAccumulator :=
  match monthTotals.find? key with
  | some total => monthTotals.upsert key (total.addCategory category amount)
  | none => monthTotals

/-- The months of the year of an instant. -/
def emptyTrend (now : ℤ) : Table String AmountAccumulator :=
  (∅ : Table String AmountAccumulator).upsertAll ((List.range 12).map fun month =>
    (monthText (12 * beijingYear now + month), AmountAccumulator.zero))

/-- An entry, to the sums that it counts for. -/
def addOverviewEntry (keys : OverviewKeys) (currency : String) (snapshots : Snapshots)
    (totals : OverviewTotals) (item : CalculatedEntry) : OverviewTotals :=
  if item.category = .baseAccrual then totals
  else
    match convertedEntryAmount item.entry currency snapshots with
    | none => { totals with pending := totals.pending + 1 }
    | some amount =>
      let add := fun (selected : Bool) (total : AmountAccumulator) =>
        if selected then total.addCategory item.category amount else total
      { totals with
        today := add (decide (item.entry.day = keys.today)) totals.today,
        month := add (hasPrefix item.entry.day keys.month) totals.month,
        year := add (hasPrefix item.entry.day keys.year) totals.year,
        monthTotals := if 7 ≤ item.entry.day.length then
          addToTrend totals.monthTotals (takeText 7 item.entry.day) item.category amount
          else totals.monthTotals }

/-- The version has a price on that day. -/
def versionActiveOnDay (version : PriceVersion) (start stop : ℤ) : Bool :=
  version.priced && decide (version.effectiveFrom < stop) &&
    (version.effectiveTo.all fun effectiveTo => decide (start < effectiveTo)) &&
      version.expiredAt.all fun expiredAt => decide (start < expiredAt)

/-- The daily average of a version of today. -/
def addToday (now : ℤ) (currency : String) (snapshots : Snapshots) (today : AmountAccumulator)
    (version : PriceVersion) : Except String AmountAccumulator :=
  let start := dayStart (beijingDay now)
  let stop := dayStart (beijingDay now + 1)
  if versionActiveOnDay version start stop = false then .ok today
  else do
    let average ← cycleAverageMicros version
    match convertLockedMicros average.daily version currency snapshots with
    | some amount => return today.addCategory .baseAccrual amount
    | none => return today

/-- A cycle, to the sums that it counts for. -/
def addOverviewCycle (keys : OverviewKeys) (totals : OverviewTotals) (cycle : CommittedCycle) :
    OverviewTotals :=
  let add := fun (selected : Bool) (total : AmountAccumulator) =>
    if selected then total.addCategory .baseAccrual cycle.amount else total
  { totals with
    year := add (decide (cycle.year = keys.year)) totals.year,
    month := add (decide (cycle.month = keys.month)) totals.month,
    monthTotals := addToTrend totals.monthTotals cycle.month .baseAccrual cycle.amount }

/-- The rates of a view of entries and of versions; those of versions come last. -/
def mergeSnapshots (snapshots versionSnapshots : Snapshots) : Snapshots :=
  snapshots.upsertAll versionSnapshots.rows

/-- `GetOverview`. -/
def getOverview (answers : AccrualAnswers) (clock done : ℤ) (currency : String) (now : ℤ)
    (s : BillingStore) : Except String BillingOverview := do
  let now := normalizedNow clock now
  let currency ← requireDisplayCurrency currency
  let s ← backfillPriceVersionFX answers.latest s
  let found ← queryCalculatedEntries answers clock done now {} s
  let _ ← answers.latest
  let versions := listBillableVersions [] [] s
  let snapshots := mergeSnapshots found.snapshots (loadVersionFXSnapshots versions s)
  let keys := overviewKeys now
  let totals := found.items.foldl (addOverviewEntry keys currency snapshots)
    ⟨.zero, .zero, .zero, emptyTrend now, 0⟩
  let today ← versions.foldlM (addToday now currency snapshots) totals.today
  let cycles ← walkCommittedCycles versions (s.clientMeta []) currency snapshots
    (walkStart versions now found.coverage) (committedHorizon now [beijingYear now] versions)
  let totals := cycles.foldl (addOverviewCycle keys) totals
  return { currency := currency, coverageStart := found.coverage, today := formattedBreakdown today,
           month := formattedBreakdown totals.month, year := formattedBreakdown totals.year,
           monthlyTrend := (sortOn Prod.fst totals.monthTotals.rows).map fun row =>
             periodFromAccumulator row.1 row.2,
           pendingFXEntries := totals.pending }

/-! ### Servers -/

/-- A request for servers. -/
structure ServerQuery where
  currency : String
  /-- A part of a name, a region, a group, a tag or an id. -/
  search : String := ""
  nativeCurrencies : List String := []
  regions : List String := []
  groups : List String := []
  /-- Contracts that end within so many days. -/
  expiryDays : ℤ := 0
  page : ℤ
  pageSize : ℤ
  now : ℤ

/-- A server and its costs. -/
structure BillingServerRow where
  client : String
  name : String
  region : String
  group : String
  originalAmount : String
  originalCurrency : String
  currencyValid : Bool
  billingCycleDays : ℤ
  billingStatus : String
  dailyAverage : Option String
  monthlyAverage : Option String
  yearlyAverage : Option String
  monthBase : String
  monthExtra : String
  monthTotal : String
  expiredAt : Option ℤ
  /-- The zone in which it is shown. -/
  expiryTimezone : String
deriving DecidableEq

/-- A page of servers. -/
structure ServerPage where
  currency : String
  items : List BillingServerRow
  page : PageInfo
deriving DecidableEq

/-- What texts are searched by: `strings.ToLower`. -/
class LowerCase where
  /-- `strings.ToLower`. -/
  toLower : String → String
  toLower_empty : toLower "" = ""

/-- The code of a flag, or the text. -/
def billingDisplayRegion (client : ClientRow) : String :=
  if trimSpace client.regionOverride ≠ "" then trimSpace client.regionOverride else client.region

/-- A letter of a flag. -/
def isRegionLetter (value : Char) : Bool := value.isUpper || value.isLower

/-- `regionKey`: the two letters of a region or of its flag. -/
def regionKey (region : String) : String :=
  match (trimSpace region).toList with
  | [a, b] =>
    if isRegionLetter a && isRegionLetter b then String.ofList [a.toUpper, b.toUpper]
    else
      let flag := fun c : Char => decide (0x1F1E6 ≤ c.toNat ∧ c.toNat ≤ 0x1F1FF)
      let letter := fun c : Char => Char.ofNat ('A'.toNat + (c.toNat - 0x1F1E6))
      if flag a && flag b then String.ofList [letter a, letter b] else "UN"
  | _ => "UN"

/-- The text is in one of its fields. -/
def serverMatchesSearch [LowerCase] (needle name region group tags client : String) : Bool :=
  let haystack := LowerCase.toLower (" ".intercalate
    [name, region, regionKey region, group,
      String.ofList (tags.toList.map fun c => if c = ';' then ' ' else c), client])
  decide (needle.toList <:+: haystack.toList)

/-- The rows of the query: the open versions of clients that pass every test of it. -/
def ServerQuery.selects [LowerCase] (query : ServerQuery) (version : PriceVersion)
    (client : ClientRow) : Bool :=
  let nativeSet := stringSet (canonicalNativeCurrencies query.nativeCurrencies)
  let regionSet := stringSet query.regions
  let groupSet := stringSet query.groups
  let region := billingDisplayRegion client
  let groupValue := if trimSpace client.group = "" then "__none__" else trimSpace client.group
  let search := LowerCase.toLower (trimSpace query.search)
  (query.nativeCurrencies = [] || decide (nativeCurrency version.currency ∈ nativeSet)) &&
    (regionSet = [] || decide (regionKey region ∈ regionSet)) &&
      (groupSet = [] || decide (groupValue ∈ groupSet)) &&
        (search = "" ||
          serverMatchesSearch search client.name region client.group client.tags version.client) &&
          (decide (query.expiryDays ≤ 0) || version.expiredAt.any fun expiredAt =>
            decide (query.now ≤ expiredAt ∧ expiredAt ≤ query.now + query.expiryDays * nanosPerDay))

/-- What the price says. -/
def billingStatus (version : PriceVersion) : String :=
  if version.priceMicros = -microsPerUnit then "free"
  else if version.priceMicros ≤ 0 then "unconfigured"
  else if version.billingCycleDays = -1 then "one_time"
  else "recurring"

/-- A forecast at the fixed rates. -/
def convertedLockedForecast (amount : ℤ) (version : PriceVersion) (currency : String)
    (snapshots : Snapshots) : Option String :=
  (convertLockedMicros amount version currency snapshots).map formatAmountMicros

/-- The costs for a day, month and year. -/
def serverAverages (version : PriceVersion) (currency : String) (snapshots : Snapshots) :
    Except String (Option String × Option String × Option String) :=
  if billingStatus version = "recurring" ∧ version.currencyValid = true then do
    let average ← cycleAverageMicros version
    return (convertedLockedForecast average.daily version currency snapshots,
      convertedLockedForecast average.monthly version currency snapshots,
      convertedLockedForecast average.yearly version currency snapshots)
  else .ok (none, none, none)

/-- The entries of a month by client. -/
def monthlyByClient (key currency : String) (found : CalculatedEntries) :
    Table String AmountAccumulator :=
  let items := found.items.filter fun item =>
    decide (item.category ≠ .baseAccrual) && hasPrefix item.entry.day key
  let amounts := items.filterMap fun item =>
    (convertedEntryAmount item.entry currency found.snapshots).map fun amount => (item, amount)
  (∅ : Table String AmountAccumulator).collect (fun row => row.1.entry.client) (fun _ => .zero)
    (fun total row => total.addCategory row.1.category row.2) amounts

/-- The committed cycles of a month by client. -/
def committedByClient (key : String) (cycles : List CommittedCycle) : Table String ℤ :=
  (∅ : Table String ℤ).collect CommittedCycle.client (fun _ => 0)
    (fun total cycle => addInt64 total cycle.amount) (cycles.filter fun cycle => cycle.month = key)

/-- A server and its costs. -/
def serverRow (currency : String) (lockedRates : Snapshots) (monthly : Table String AmountAccumulator)
    (committedMonth : Table String ℤ) (version : PriceVersion) (client : ClientRow) :
    Except String BillingServerRow := do
  let (daily, month, yearly) ← serverAverages version currency lockedRates
  let totals := (monthly.find? version.client).getD .zero
  let base := (committedMonth.find? version.client).getD 0
  let extra := addInt64 (addInt64 totals.extra totals.other) totals.oneTime
  return { client := version.client, name := client.name, region := billingDisplayRegion client,
           group := client.group, originalAmount := formatAmountMicros version.priceMicros,
           originalCurrency := version.currency, currencyValid := version.currencyValid,
           billingCycleDays := version.billingCycleDays, billingStatus := billingStatus version,
           dailyAverage := daily, monthlyAverage := month, yearlyAverage := yearly,
           monthBase := formatAmountMicros base, monthExtra := formatAmountMicros extra,
           monthTotal := formatAmountMicros
             (addInt64 (addInt64 (addInt64 base totals.extra) totals.other) totals.oneTime),
           expiredAt := version.expiredAt,
           expiryTimezone := if trimSpace client.expiryTimezone = "" then defaultTimezone
             else client.expiryTimezone }

/-- The open versions of the clients that there are. -/
def openVersions (s : BillingStore) : List (PriceVersion × ClientRow) :=
  (s.versions.filter fun version => version.effectiveTo = none).filterMap fun version =>
    (s.clients.find? version.client).map fun client => (version, client)

/-- The rows of `GetServers` before a page is cut out, and their currency. -/
def serverRows [LowerCase] (answers : AccrualAnswers) (clock done : ℤ) (query : ServerQuery)
    (s : BillingStore) : Except String (String × List BillingServerRow) := do
  let query := { query with now := normalizedNow clock query.now }
  let currency ← requireDisplayCurrency query.currency
  let s ← backfillPriceVersionFX answers.latest s
  let found ← queryCalculatedEntries answers clock done query.now {} s
  let monthKey := monthText (monthOfDay (beijingDay query.now))
  let monthly := monthlyByClient monthKey currency found
  let _ ← answers.latest
  let billable := listBillableVersions [] [] s
  let lockedRates := loadVersionFXSnapshots billable s
  let cycles ← walkCommittedCycles billable (s.clientMeta []) currency lockedRates
    (earliestEffective billable query.now) (committedHorizon query.now [] billable)
  let committedMonth := committedByClient monthKey cycles
  let selected := (openVersions s).filter fun row => query.selects row.1 row.2
  let rows ← (sortOn (fun row : PriceVersion × ClientRow =>
      toLex (row.2.weight, toLex (row.2.createdAt, row.1.client))) selected).mapM fun row =>
    serverRow currency lockedRates monthly committedMonth row.1 row.2
  return (currency, rows)

/-- `GetServers`. -/
def getServers [LowerCase] (answers : AccrualAnswers) (clock done : ℤ) (query : ServerQuery)
    (s : BillingStore) : Except String ServerPage := do
  let (currency, rows) ← serverRows answers clock done query s
  let (page, pageSize) := normalizePage query.page query.pageSize
  return ⟨currency, pageRows rows page pageSize, pageInfo rows.length page pageSize⟩

/-! ### Periods -/

/-- A request for months or years. -/
structure PeriodQuery where
  currency : String
  years : List ℤ := []
  clients : List String := []
  types : List String := []
  /-- Currencies of prices and entries. -/
  nativeCurrencies : List String := []
  months : List String := []
  page : ℤ
  pageSize : ℤ
  now : ℤ

/-- A page of months or years. -/
structure PeriodPage where
  currency : String
  coverageStart : Option ℤ
  items : List PeriodAmount
  summary : AmountBreakdown
  average : Option String
  availableYears : List ℤ
  page : PageInfo
deriving DecidableEq

/-- A month in its text. -/
def parseMonth (text : String) : Option ℤ :=
  (parseDateOnly (text ++ "-01")).map monthOfDay

/-- `normalizeMonthlyMonths`: the months of the query, each once, and their years. -/
def normalizeMonthlyMonths (query : PeriodQuery) : Except String PeriodQuery :=
  let months := if query.months = [] then [monthText (monthOfDay (beijingDay query.now))]
    else query.months
  match months.mapM parseMonth with
  | none => .error "months contains an invalid month"
  | some parsed =>
    let parsed := parsed.eraseDups
    .ok { query with months := parsed.map monthText,
                     years := (parsed.map fun month => month / 12).eraseDups }

/-- What a period costs, and the servers that cost it. -/
structure PeriodBucket where
  amounts : AmountAccumulator
  servers : List String
deriving DecidableEq

/-- No row was added. -/
def PeriodBucket.empty : PeriodBucket := ⟨.zero, []⟩

/-- Adds an amount of a server, if there is one. -/
def PeriodBucket.add (bucket : PeriodBucket) (client : String) (category : EntryType)
    (amount : Option ℤ) : PeriodBucket :=
  match amount with
  | some amount => ⟨bucket.amounts.addCategory category amount, bucket.servers.insert client⟩
  | none => bucket

/-- The year of a day. -/
def entryYear (day : String) : ℤ := (atoi (day.toList.take 4)).getD 0

/-- The month or year of a day. -/
def entryPeriod (monthly : Bool) (day : String) : String :=
  if monthly = true ∧ 7 ≤ day.length then takeText 7 day else takeText 4 day

/-- The entries of the periods of a query. -/
def periodEntries (query : PeriodQuery) (monthly : Bool) (items : List CalculatedEntry) :
    List CalculatedEntry :=
  let yearSet := intSet query.years
  let monthSet := stringSet query.months
  items.filter fun item => decide (item.category ≠ .baseAccrual) && decide (4 ≤ item.entry.day.length) &&
    (yearSet = [] || decide (entryYear item.entry.day ∈ yearSet)) &&
      (!monthly || decide (entryPeriod monthly item.entry.day ∈ monthSet))

/-- The month or year of a cycle. -/
def cyclePeriod (monthly : Bool) (cycle : CommittedCycle) : String :=
  if monthly then cycle.month else cycle.year

/-- The committed cycles of the periods of a query. -/
def periodCycles (query : PeriodQuery) (monthly : Bool) (cycles : List CommittedCycle) :
    List CommittedCycle :=
  let yearSet := intSet query.years
  let monthSet := stringSet query.months
  cycles.filter fun cycle =>
    (yearSet = [] || decide (beijingYear cycle.start ∈ yearSet)) &&
      (!monthly || monthSet = [] || decide (cyclePeriod monthly cycle ∈ monthSet))

/-- The cycles, to their periods. -/
def addCommittedCycles (query : PeriodQuery) (monthly : Bool) (cycles : List CommittedCycle)
    (periods : Table String PeriodBucket) : Table String PeriodBucket :=
  periods.collect (cyclePeriod monthly) (fun _ => .empty)
    (fun bucket cycle => bucket.add cycle.client .baseAccrual (some cycle.amount))
      (periodCycles query monthly cycles)

/-- The committed cycles of a query, if it asks for them. -/
def queryCycles (query : PeriodQuery) (currency : String) (coverage : Option ℤ) (s : BillingStore) :
    Except String (List CommittedCycle) :=
  let typeSet := stringSet query.types
  if typeSet = [] ∨ EntryType.baseAccrual.name ∈ typeSet then
    let versions := listBillableVersions query.clients query.nativeCurrencies s
    walkCommittedCycles versions (s.clientMeta query.clients) currency
      (loadVersionFXSnapshots versions s) (walkStart versions query.now coverage)
        (committedHorizon query.now query.years versions)
  else .ok []

/-- `Status` of a period. -/
def periodStatus (monthly : Bool) (now : ℤ) (key : String) (bucket : PeriodBucket) : String :=
  let current := if monthly then monthText (monthOfDay (beijingDay now)) else yearText (beijingYear now)
  if bucket.amounts.total = 0 ∧ bucket.servers = [] then "no_record"
  else if current < key then "projected"
  else if key = current then "in_progress"
  else "settled"

/-- A period and its sums. -/
def periodRow (monthly : Bool) (now : ℤ) (key : String) (bucket : PeriodBucket) : PeriodAmount :=
  { periodFromAccumulator key bucket.amounts with
    status := periodStatus monthly now key bucket, serverCount := bucket.servers.length }

/-- Months without a row are zero. -/
def ensureMonths (months : List String) (periods : Table String PeriodBucket) :
    Table String PeriodBucket :=
  months.foldl (fun periods key =>
    if (periods.find? key).isSome then periods else periods.upsert key .empty) periods

/-- Months or years. -/
def getPeriods (answers : AccrualAnswers) (clock done : ℤ) (query : PeriodQuery) (monthly : Bool)
    (s : BillingStore) : Except String PeriodPage := do
  let currency ← requireDisplayCurrency query.currency
  let s ← backfillPriceVersionFX answers.latest s
  let (page, pageSize) := normalizePage query.page query.pageSize
  let found ← queryCalculatedEntries answers clock done query.now
    { clients := query.clients, types := query.types, nativeCurrencies := query.nativeCurrencies } s
  let cycles ← queryCycles query currency found.coverage s
  let periods := (∅ : Table String PeriodBucket).collect
    (fun item => entryPeriod monthly item.entry.day) (fun _ => .empty)
    (fun bucket item => bucket.add item.entry.client item.category
      (convertedEntryAmount item.entry currency found.snapshots))
        (periodEntries query monthly found.items)
  let periods := addCommittedCycles query monthly cycles periods
  let periods := if monthly then ensureMonths query.months periods else periods
  let rows := (sortOn Prod.fst periods.rows).reverse
  let summary := (rows.filter fun row =>
    periodStatus monthly query.now row.1 row.2 ≠ "no_record").foldl
      (fun summary row => summary.addAccumulator row.2.amounts) .zero
  let years := (found.items.filter fun item => decide (item.category ≠ .baseAccrual) &&
      decide (4 ≤ item.entry.day.length)).map (fun item => entryYear item.entry.day) ++
    cycles.map fun cycle => beijingYear cycle.start
  return { currency := currency, coverageStart := found.coverage,
           items := pageRows (rows.map fun row => periodRow monthly query.now row.1 row.2) page pageSize,
           summary := formattedBreakdown summary,
           average := if rows = [] then none else some (formatAmountMicros
             ((sumInt64 (rows.map fun row => row.2.amounts.total)).tdiv rows.length)),
           availableYears := (sortOn id years.dedup).reverse,
           page := pageInfo rows.length page pageSize }

/-- `GetMonthly`. -/
def getMonthly (answers : AccrualAnswers) (clock done : ℤ) (query : PeriodQuery) (s : BillingStore) :
    Except String PeriodPage := do
  let query ← normalizeMonthlyMonths { query with now := normalizedNow clock query.now }
  getPeriods answers clock done query true s

/-! ### Entries -/

/-- A request for entries. -/
structure EntryQuery where
  currency : String
  client : String := ""
  dayFrom : String := ""
  dayTo : String := ""
  types : List String := []
  /-- A part of the name or of the id of a client. -/
  q : String := ""
  page : ℤ
  pageSize : ℤ
  now : ℤ

/-- An entry, as it is shown. -/
structure BillingEntryRow where
  /-- Primary key; zero for committed cycles. -/
  id : ℕ
  client : String
  clientName : String
  type : EntryType
  category : EntryType
  day : String
  occurredAt : ℤ
  originalAmount : String
  originalCurrency : String
  /-- The amount in the currency of the view. -/
  convertedAmount : Option String
  convertedCurrency : String
  pendingFX : Bool
  /-- The entry that this one takes back. -/
  reversalOf : Option ℕ
  note : String
  operator : String
  voidable : Bool
  voided : Bool
deriving DecidableEq

/-- A page of entries. -/
structure EntryPage where
  currency : String
  items : List BillingEntryRow
  page : PageInfo
deriving DecidableEq

/-- The cycles of a client in a month. -/
structure CommittedBaseBucket where
  client : String
  clientName : String
  originalCurrency : String
  day : String
  occurredAt : ℤ
  /-- The sum in the currency of the price. -/
  native : ℤ
  /-- The sum in the currency of the view. -/
  converted : ℤ
deriving DecidableEq

/-- `entryBaseGrain`: committed cycles are shown by month. -/
def entryBaseGrain (query : EntryQuery) : Bool :=
  query.client ≠ "" || (decide (7 ≤ query.dayFrom.length ∧ 7 ≤ query.dayTo.length) &&
    decide (takeText 7 query.dayFrom = takeText 7 query.dayTo))

/-- The year of a text of four characters. -/
def rangeYear (value : String) : Option ℤ :=
  if value.length < 4 then none else atoi (value.toList.take 4)

/-- The years of a range of days. -/
def yearsFromEntryRange (dayFrom dayTo : String) (now : ℤ) : List ℤ :=
  match [dayFrom, dayTo].filterMap rangeYear with
  | [] => [beijingYear now]
  | years => sortOn id years.dedup

/-- The period of a committed cycle among the entries. -/
def bucketPeriod (monthGrain : Bool) (cycle : CommittedCycle) : String :=
  cycle.client ++ "|" ++ if monthGrain then cycle.month else cycle.year

/-- A bucket before its first cycle is added. -/
def newBucket (monthGrain : Bool) (cycle : CommittedCycle) : CommittedBaseBucket where
  client := cycle.client
  clientName := cycle.version.clientName
  originalCurrency := cycle.version.currency
  day := if monthGrain then cycle.month ++ "-01" else cycle.year ++ "-01-01"
  occurredAt := dayStart (beijingDay cycle.start)
  native := 0
  converted := 0

/-- One more cycle. -/
def addToBucket (bucket : CommittedBaseBucket) (cycle : CommittedCycle) : CommittedBaseBucket :=
  let bucket := { bucket with native := addInt64 bucket.native cycle.nativeAmount,
                              converted := addInt64 bucket.converted cycle.amount }
  let day := dayStart (beijingDay cycle.start)
  if bucket.occurredAt < day then
    { bucket with occurredAt := day, clientName := cycle.version.clientName,
                  originalCurrency := cycle.version.currency }
  else bucket

/-- The committed cycles between the dates of a query. -/
def rangeCycles (query : EntryQuery) (cycles : List CommittedCycle) : List CommittedCycle :=
  cycles.filter fun cycle =>
    let day := dateOnly (beijingDay cycle.start)
    (query.dayFrom = "" || decide (¬day < query.dayFrom)) &&
      (query.dayTo = "" || decide (¬query.dayTo < day))

/-- The cycles of a month as one entry. -/
def bucketRow (currency : String) (bucket : CommittedBaseBucket) : BillingEntryRow where
  id := 0
  client := bucket.client
  clientName := bucket.clientName
  type := .baseAccrual
  category := .baseAccrual
  day := bucket.day
  occurredAt := bucket.occurredAt
  originalAmount := formatAmountMicros bucket.native
  originalCurrency := bucket.originalCurrency
  convertedAmount := some (formatAmountMicros bucket.converted)
  convertedCurrency := currency
  pendingFX := false
  reversalOf := none
  note := ""
  operator := ""
  voidable := false
  voided := false

/-- The ids of the client of a query. -/
def EntryQuery.clients (query : EntryQuery) : List String :=
  if query.client ≠ "" then [query.client] else []

/-- The cycles as entries. -/
def committedBaseEntryRows (query : EntryQuery) (currency : String) (coverage : Option ℤ)
    (s : BillingStore) : Except String (List BillingEntryRow) := do
  let versions := listBillableVersions query.clients [] s
  let years := yearsFromEntryRange query.dayFrom query.dayTo query.now
  let cycles ← walkCommittedCycles versions (s.clientMeta query.clients) currency
    (loadVersionFXSnapshots versions s) (walkStart versions query.now coverage)
      (committedHorizon query.now years versions)
  let monthGrain := entryBaseGrain query
  let buckets := (∅ : Table String CommittedBaseBucket).collect (bucketPeriod monthGrain)
    (newBucket monthGrain) addToBucket (rangeCycles query cycles)
  return buckets.rows.map fun row => bucketRow currency row.2

/-- An entry, as it is shown. -/
def entryRow (currency : String) (snapshots : Snapshots) (voidedIDs : List ℕ)
    (item : CalculatedEntry) : BillingEntryRow :=
  let amount := convertedEntryAmount item.entry currency snapshots
  let voided := decide (item.entry.id ∈ voidedIDs)
  { id := item.entry.id, client := item.entry.client, clientName := item.entry.clientName,
    type := item.entry.type, category := item.category, day := item.entry.day,
    occurredAt := item.entry.occurredAt,
    originalAmount := formatAmountMicros item.entry.originalAmountMicros,
    originalCurrency := item.entry.originalCurrency,
    convertedAmount := amount.map formatAmountMicros, convertedCurrency := currency,
    pendingFX := amount.isNone, reversalOf := item.entry.reversalOf, note := item.entry.note,
    operator := item.entry.operator,
    voidable := decide (0 < item.entry.id) && decide (item.entry.type ≠ .reversal) && !voided,
    voided := voided }

/-- `applyLiveClientNames`. -/
def applyLiveClientName (s : BillingStore) (clients : List String) (row : BillingEntryRow) :
    BillingEntryRow :=
  match s.clients.find? row.client with
  | some client =>
    if clients = [] ∨ row.client ∈ clients then { row with clientName := client.name } else row
  | none => row

/-- The row has the text of the query in its name or id. -/
def EntryQuery.finds [LowerCase] (query : EntryQuery) (row : BillingEntryRow) : Bool :=
  let needle := LowerCase.toLower (trimSpace query.q)
  needle = "" || decide (needle.toList <:+: (LowerCase.toLower row.clientName).toList) ||
    decide (needle.toList <:+: (LowerCase.toLower row.client).toList)

/-- The rows of committed cycles, if the query asks for them. -/
def baseEntryRows (query : EntryQuery) (currency : String) (coverage : Option ℤ) (s : BillingStore) :
    Except String (List BillingEntryRow) :=
  let typeSet := stringSet query.types
  if typeSet = [] ∨ EntryType.baseAccrual.name ∈ typeSet then
    committedBaseEntryRows query currency coverage s
  else .ok []

/-- The rows of `GetEntries` before a page is cut out, and their currency. -/
def entryRows [LowerCase] (answers : AccrualAnswers) (clock done : ℤ) (query : EntryQuery)
    (s : BillingStore) : Except String (String × List BillingEntryRow) := do
  let query := { query with now := normalizedNow clock query.now }
  let currency ← requireDisplayCurrency query.currency
  let found ← queryCalculatedEntries answers clock done query.now
    { clients := query.clients, types := query.types, dayFrom := query.dayFrom,
      dayTo := query.dayTo } s
  let voidedIDs := reversedOriginalIDs query.clients s
  let rows := (found.items.filter fun item => decide (item.entry.type ≠ .baseAccrual)).map
    (entryRow currency found.snapshots voidedIDs)
  let baseRows ← baseEntryRows query currency found.coverage s
  let rows := sortOn (fun row : BillingEntryRow =>
    toLex (-row.occurredAt, toLex (row.client, -(row.id : ℤ)))) (rows ++ baseRows)
  return (currency, (rows.map (applyLiveClientName s query.clients)).filter query.finds)

/-- `GetEntries`. -/
def getEntries [LowerCase] (answers : AccrualAnswers) (clock done : ℤ) (query : EntryQuery)
    (s : BillingStore) : Except String EntryPage := do
  let (currency, rows) ← entryRows answers clock done query s
  let (page, pageSize) := normalizePage query.page query.pageSize
  return ⟨currency, pageRows rows page pageSize, pageInfo rows.length page pageSize⟩

end Views

end Billing

end Komari
