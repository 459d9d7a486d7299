import Komari.Billing.Accrual
import Komari.Billing.Amount
import Komari.Billing.Committed
import Komari.Calendar.Month
import Komari.Table.Group

/-!
# What the billing views read

The views show stored entries and committed cycles of the clients that exist.  Each view first accrues
what is missing.
-/

namespace Komari

namespace Billing

open Calendar TrafficReset
open Traffic (beijingDay dayStart)

/-! ### Tables -/

/-- The columns of a client that the views read. -/
structure ClientRow where
  name : String
  region : String
  regionOverride : String
  group : String
  tags : String
  weight : ℤ
  createdAt : ℤ
  /-- The zone in which the end of the contract is shown. -/
  expiryTimezone : String
  /-- Day of the month of the traffic reset, if it is configured. -/
  trafficResetDay : Option ℤ
  /-- Time of the day of the traffic reset. -/
  trafficResetTime : String
  /-- Name of the zone of the traffic reset. -/
  trafficResetTimezone : String
deriving DecidableEq

/-- The tables. -/
structure BillingStore extends BillingState where
  clients : Table String ClientRow
  /-- The snapshots of exchange rates that can be read. -/
  snapshots : Snapshots

/-- `existingClientCondition`. -/
def BillingStore.existingClient (s : BillingStore) (client : String) : Bool :=
  (s.clients.find? client).isSome

/-- What `loadClientBillingMeta` selects of the clients with these ids, or of all. -/
def BillingStore.clientMeta [TimezoneDatabase] (s : BillingStore) (clients : List String) :
    Table String ClientBillingMeta :=
  loadClientBillingMeta ((s.clients.rows.filter fun row =>
    clients = [] || decide (row.1 ∈ clients)).map fun row =>
      ⟨row.1, row.2.trafficResetDay, row.2.trafficResetTime, row.2.trafficResetTimezone⟩)

/-! ### Sets of a query -/

/-- `stringSet`: the trimmed texts that are not empty. -/
def stringSet (values : List String) : List String := (values.map trimSpace).filter (· ≠ "")

/-- `intSet`: the positive numbers. -/
def intSet (values : List ℤ) : List ℤ := values.filter fun value => decide (0 < value)

/-- The clock, unless a time is given. -/
def normalizedNow (clock value : ℤ) : ℤ := if value = zeroTime then clock else value

section Currency

variable [CurrencyTable]

/-- The known ones, sorted. -/
def canonicalNativeCurrencies (values : List String) : List String :=
  (((values.map normalizeCurrency).filter Prod.snd).map Prod.fst).dedup

/-- The code of a currency, or its text if it is none. -/
def nativeCurrency (value : String) : String :=
  let (canonical, ok) := normalizeCurrency value
  if ok then canonical else value

/-- A known currency, or `CNY`. -/
def requireDisplayCurrency (value : String) : Except String String :=
  let value := if trimSpace value = "" then "CNY" else value
  let (value, valid) := normalizeCurrency value
  if !valid || (value ≠ "CNY" && value ≠ "USD") then .error "currency must be CNY or USD"
  else .ok value

end Currency

/-! ### Versions -/

section Versions

variable [CurrencyTable]

/-- A version gets the rates that it was written without. -/
def backfillVersion (latest : LatestFX) (version : PriceVersion) : Except String PriceVersion :=
  if version.fxSnapshotID = none ∧ 0 < version.priceMicros ∧ version.currencyValid = true then do
    let attached ← (attachPriceVersionFX latest version).mapError fun e =>
      "backfill billing FX for version " ++ decimal version.id ++ ": " ++ e
    if attached.fxSnapshotID = none then return version
    return { version with fxSnapshotID := attached.fxSnapshotID,
                          usdPriceMicros := attached.usdPriceMicros }
  else .ok version

/-- Locks the rates of versions that were written without any. -/
def backfillPriceVersionFX (latest : LatestFX) (s : BillingStore) : Except String BillingStore := do
  let versions ← s.versions.mapM (backfillVersion latest)
  return { s with versions := versions }

/-- The versions of some clients. -/
def listBillableVersions (clients nativeCurrencies : List String) (s : BillingStore) :
    List PriceVersion :=
  sortOn PriceVersion.rank (s.versions.filter fun version =>
    version.priced && s.existingClient version.client &&
      (clients = [] || decide (version.client ∈ clients)) &&
        (nativeCurrencies = [] ||
          decide (version.currency ∈ canonicalNativeCurrencies nativeCurrencies)))

/-- `coverageStart`: the first version of a client takes effect. -/
def coverageStart (s : BillingStore) : Option ℤ :=
  ((sortOn PriceVersion.rank (s.versions.filter fun version =>
    s.existingClient version.client)).head?).map PriceVersion.effectiveFrom

/-- The start of the walk over the committed cycles: the earlier of the first priced version and the
coverage. -/
def walkStart (versions : List PriceVersion) (now : ℤ) (coverage : Option ℤ) : ℤ :=
  let since := earliestEffective versions now
  match coverage with
  | some coverage => if coverage < since then coverage else since
  | none => since

/-- The rates of some versions. -/
def loadVersionFXSnapshots (versions : List PriceVersion) (s : BillingStore) : Snapshots :=
  s.snapshots.deleteWhere fun id _ => !decide (some id ∈ versions.map PriceVersion.fxSnapshotID)

end Versions

/-! ### Entries -/

namespace EntryType

/-- The text of a type in the database. -/
def name : EntryType → String
  | baseAccrual => "base_accrual"
  | trafficReset => "traffic_reset"
  | ipChange => "ip_change"
  | oneTime => "one_time"
  | adjustment => "adjustment"
  | reversal => "reversal"

end EntryType

/-- What `queryCalculatedEntries` is asked for; an empty part is no restriction. -/
structure EntryFilter where
  clients : List String := []
  types : List String := []
  nativeCurrencies : List String := []
  dayFrom : String := ""
  dayTo : String := ""

/-- An entry of a view, and what it counts for: a reversal counts for what it reverses. -/
structure CalculatedEntry where
  entry : BillingEntry
  category : EntryType
deriving DecidableEq

/-- What `queryCalculatedEntries` returns. -/
structure CalculatedEntries where
  items : List CalculatedEntry
  snapshots : Snapshots
  coverage : Option ℤ

section Entries

variable [CurrencyTable]

/-- The condition of the query for stored entries. -/
def EntryFilter.selects (filter : EntryFilter) (s : BillingStore) (entry : BillingEntry) : Bool :=
  s.existingClient entry.client &&
    (filter.clients = [] || decide (entry.client ∈ filter.clients)) &&
      (filter.nativeCurrencies = [] ||
        decide (entry.originalCurrency ∈ canonicalNativeCurrencies filter.nativeCurrencies)) &&
        (filter.dayFrom = "" || decide (filter.dayFrom ≤ entry.day)) &&
          (filter.dayTo = "" || decide (entry.day ≤ filter.dayTo))

/-- The condition for entries of the current day, which are not stored yet. -/
def EntryFilter.keeps (filter : EntryFilter) (entry : BillingEntry) : Bool :=
  let clientSet := stringSet filter.clients
  let nativeSet := stringSet (canonicalNativeCurrencies filter.nativeCurrencies)
  (clientSet = [] || decide (entry.client ∈ clientSet)) &&
    (filter.nativeCurrencies = [] || decide (nativeCurrency entry.originalCurrency ∈ nativeSet)) &&
      (filter.dayFrom = "" || decide (¬entry.day < filter.dayFrom)) &&
        (filter.dayTo = "" || decide (¬filter.dayTo < entry.day))

/-- What today costs so far. -/
def currentDayAccruals (latest : LatestFX) (now : ℤ) (s : BillingStore) :
    Except String (List BillingEntry) := do
  let start := dayStart (beijingDay now)
  let stop := dayStart (beijingDay now + 1)
  let versions := sortOn PriceVersion.rank (s.versions.filter fun version =>
    version.priced && decide (version.effectiveFrom < stop) &&
      version.effectiveTo.all fun effectiveTo => decide (start < effectiveTo))
  let entries ← versions.mapM fun version => accrualEntryForInterval latest version start stop
  return entries.reduceOption

/-- The stored entries of a view, in the order in which they happened. -/
def storedEntries (filter : EntryFilter) (s : BillingStore) : List BillingEntry :=
  sortOn (fun entry : BillingEntry => toLex (entry.occurredAt, entry.id))
    (s.entries.filter (filter.selects s))

/-- The types of the entries of a view by their ids. -/
def originalTypes (entries : List BillingEntry) : Table ℕ EntryType :=
  (∅ : Table ℕ EntryType).upsertAll
    ((entries.filter fun entry => decide (0 < entry.id)).map fun entry => (entry.id, entry.type))

/-- A reversal counts where its original does. -/
def categoryOf (originals : Table ℕ EntryType) (entry : BillingEntry) : EntryType :=
  if entry.type = .reversal then
    match entry.reversalOf.bind originals.find? with
    | some original => original
    | none => entry.type
  else entry.type

/-- The entries that were voided. -/
def reversedOriginalIDs (clients : List String) (s : BillingStore) : List ℕ :=
  (s.entries.filter fun entry => entry.type = .reversal &&
    (clients = [] || decide (entry.client ∈ clients))).filterMap BillingEntry.reversalOf

/-- The entry is of an asked type. -/
def entryMatchesTypes (entry : BillingEntry) (category : EntryType) (typeSet : List String)
    (voidedIDs : List ℕ) : Bool :=
  typeSet = [] || decide (category.name ∈ typeSet) || decide (entry.type.name ∈ typeSet) ||
    (decide ("voided" ∈ typeSet) && decide (entry.id ∈ voidedIDs))

/-- `queryCalculatedEntries`, after the accrual. -/
def calculatedEntries (latest : LatestFX) (now : ℤ) (filter : EntryFilter) (s : BillingStore) :
    Except String CalculatedEntries := do
  let current ← currentDayAccruals latest now s
  let entries := storedEntries filter s ++ current.filter filter.keeps
  let originals := originalTypes entries
  let items := (entries.map fun entry => CalculatedEntry.mk entry (categoryOf originals entry)).filter
    fun item => entryMatchesTypes item.entry item.category (stringSet filter.types)
      (reversedOriginalIDs filter.clients s)
  return { items := items,
           snapshots := s.snapshots.deleteWhere fun id _ =>
             !decide (some id ∈ items.map fun item => item.entry.fxSnapshotID),
           coverage := coverageStart s }

/-- `EnsureAccruedThrough` the day before `now`, when the clock shows `clock` and, at the end, `done`. -/
def BillingStore.accrue (answers : AccrualAnswers) (clock done now : ℤ) (s : BillingStore) :
    Except String Unit × BillingStore :=
  let (outcome, state) :=
    ensureAccruedThrough answers (yesterdayInBeijing now) clock done s.toBillingState
  (outcome, { s with toBillingState := state })

/-- The entries of a view with their categories. -/
def queryCalculatedEntries (answers : AccrualAnswers) (clock done now : ℤ) (filter : EntryFilter)
    (s : BillingStore) : Except String CalculatedEntries :=
  match s.accrue answers clock done now with
  | (.error e, _) => .error e
  | (.ok _, s) => calculatedEntries answers.latest now filter s

/-- An entry in the currency of the view. -/
def convertedEntryAmount (entry : BillingEntry) (currency : String) (snapshots : Snapshots) :
    Option ℤ :=
  if entry.originalCurrency = currency then some entry.originalAmountMicros
  else
    match entry.fxSnapshotID.bind snapshots.find? with
    | none => none
    | some rates =>
      if rates.rows = [] then none
      else
        (convertMicros entry.originalAmountMicros entry.originalCurrency currency rates).toOption

end Entries

/-! ### Amounts of a period -/

/-- The amounts of a period. -/
structure AmountAccumulator where
  base : ℤ
  extra : ℤ
  other : ℤ
  oneTime : ℤ
  total : ℤ
deriving DecidableEq

namespace AmountAccumulator

/-- No row was added. -/
def zero : AmountAccumulator := ⟨0, 0, 0, 0, 0⟩

/-- An amount, to its sum. -/
def addCategory (total : AmountAccumulator) (category : EntryType) (amount : ℤ) :
    AmountAccumulator :=
  let total := { total with total := addInt64 total.total amount }
  match category with
  | .baseAccrual | .oneTime => { total with base := addInt64 total.base amount }
  | .trafficReset => { total with extra := addInt64 total.extra amount }
  | .ipChange => { total with other := addInt64 total.other amount }
  | .adjustment => { total with oneTime := addInt64 total.oneTime amount }
  | .reversal => total

/-- All sums of another one. -/
def addAccumulator (target source : AmountAccumulator) : AmountAccumulator where
  base := addInt64 target.base source.base
  extra := addInt64 target.extra source.extra
  other := addInt64 target.other source.other
  oneTime := addInt64 target.oneTime source.oneTime
  total := addInt64 target.total source.total

end AmountAccumulator

/-- The sums as texts. -/
structure AmountBreakdown where
  base : String
  extra : String
  other : String
  oneTime : String
  total : String
deriving DecidableEq

/-- The sums as texts. -/
def formattedBreakdown (value : AmountAccumulator) : AmountBreakdown where
  base := formatAmountMicros value.base
  extra := formatAmountMicros value.extra
  other := formatAmountMicros value.other
  oneTime := formatAmountMicros value.oneTime
  total := formatAmountMicros value.total

end Billing

end Komari
