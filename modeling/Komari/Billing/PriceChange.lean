import Komari.Billing.Entry
import Komari.Codec.Result

/-!
# Price changes

A change of a client's price closes its open version and opens a new one at the same instant.
-/

namespace Komari

namespace Billing

open TrafficReset
open Calendar (dateOnly)
open Traffic (beijingDay)

/-! ### Clients and updates -/

/-- The columns of a client that its price versions are made of. -/
structure BilledClient where
  uuid : String
  name : String
  region : String
  group : String
  /-- Price of a cycle; -1 if the client is free. -/
  price : ℚ
  /-- Days of a cycle; -1 for a single payment. -/
  billingCycle : ℤ
  currency : String
  expiredAt : Option ℤ
deriving DecidableEq

/-- A value of an update. -/
inductive UpdateValue
  /-- A number; none if it is not finite. -/
  | number (value : Option ℚ)
  | text (value : String)
  | instant (value : ℤ)
  /-- `nil`. -/
  | null
  /-- A value of any other type. -/
  | other
deriving DecidableEq

/-- The columns that an update sets. -/
abbrev Updates := Table String UpdateValue

/-- `MicrosFromFloat`: six decimals of the number. -/
def microsFromFloat (value : Option ℚ) : Except String ℤ :=
  match value with
  | none => .error "amount must be finite"
  | some value =>
    let micros := roundHalfEven (value * 1000000)
    if InInt64 micros then .ok micros else .error "amount is out of range"

/-- `numericFloat64`. -/
def numericFloat64 (value : UpdateValue) : Except String ℚ :=
  match value with
  | .number none => .error "must be finite"
  | .number (some result) => do
    let _ ← microsFromFloat (some result)
    return result
  | _ => .error "must be numeric"

/-- A whole number. -/
def numericInt (value : UpdateValue) : Except String ℤ :=
  match numericFloat64 value with
  | .error _ => .error "must be an integer"
  | .ok result => if result = result.num then .ok result.num else .error "must be an integer"

/-- The text of a value, or the old text. -/
def textOr (old : String) : Option UpdateValue → String
  | some (.text value) => value
  | _ => old

/-- The price after an update. -/
def updatedPrice (existing : BilledClient) (updates : Updates) : Except String ℚ :=
  match updates.find? "price" with
  | some value => (numericFloat64 value).mapError fun e => "price: " ++ e
  | none => .ok existing.price

/-- The days of a cycle after an update. -/
def updatedBillingCycle (existing : BilledClient) (updates : Updates) : Except String ℤ :=
  match updates.find? "billing_cycle" with
  | some value => (numericInt value).mapError fun e => "billing_cycle: " ++ e
  | none => .ok existing.billingCycle

/-- The currency after an update. -/
def updatedCurrency (existing : BilledClient) (updates : Updates) : Except String String :=
  match updates.find? "currency" with
  | some (.text value) => .ok (trimSpace value)
  | some _ => .error "currency must be a string"
  | none => .ok existing.currency

/-- The end of the contract after an update. -/
def updatedExpiredAt (existing : BilledClient) (updates : Updates) : Except String (Option ℤ) :=
  match updates.find? "expired_at" with
  | some .null => .ok none
  | some (.instant value) => .ok (some value)
  | some _ => .error "expired_at has an unsupported value"
  | none => .ok existing.expiredAt

/-- `clientAfterBillingUpdate`: the updated client, and whether a new version is due. -/
def clientAfterBillingUpdate (existing : BilledClient) (updates : Updates) :
    Except String (BilledClient × Bool) := do
  let price ← updatedPrice existing updates
  let billingCycle ← updatedBillingCycle existing updates
  let currency ← updatedCurrency existing updates
  let expiredAt ← updatedExpiredAt existing updates
  let next : BilledClient :=
    { existing with
      price := price, billingCycle := billingCycle, currency := currency, expiredAt := expiredAt,
      name := textOr existing.name (updates.find? "name"),
      region := textOr existing.region (updates.find? "region"),
      group := textOr existing.group (updates.find? "group") }
  let changed := next.price ≠ existing.price || next.billingCycle ≠ existing.billingCycle ||
    next.currency ≠ existing.currency || next.expiredAt ≠ existing.expiredAt
  return (next, changed)

/-! ### Versions -/

/-- The tables of price versions and of entries; no row of them is deleted. -/
structure BillingDB where
  /-- Price versions, in the order of their ids. -/
  versions : List PriceVersion
  /-- Entries, in the order of their ids. -/
  entries : List BillingEntry
deriving DecidableEq

/-- The names of the sources of versions. -/
def priceSourceMigration : String := "migration"

section Versions

variable [CurrencyTable] (latest : LatestFX)

/-- The rates are fixed with the price. -/
def attachPriceVersionFX (version : PriceVersion) : Except String PriceVersion :=
  if version.priceMicros ≤ 0 ∨ version.currencyValid = false then .ok version
  else if version.fxSnapshotID ≠ none ∧ version.usdPriceMicros ≠ none then .ok version
  else do
    let (snapshotID, usd) ← snapshotConversion latest version.priceMicros version.currency
    return { version with fxSnapshotID := snapshotID, usdPriceMicros := usd }

/-- `priceVersionFromClient`, with the id that the row will get. -/
def priceVersionFromClient (id : ℕ) (client : BilledClient) (source : String) (effectiveAt : ℤ) :
    Except String PriceVersion := do
  let priceMicros ← microsFromFloat (some client.price)
  let (currency, valid) := normalizeCurrency client.currency
  attachPriceVersionFX latest
    { id := id, client := client.uuid, clientName := client.name, region := client.region,
      group := client.group, priceMicros := priceMicros, currency := currency, currencyValid := valid,
      fxSnapshotID := none, usdPriceMicros := none, billingCycleDays := client.billingCycle,
      expiredAt := client.expiredAt, effectiveFrom := effectiveAt, effectiveTo := none,
      source := source }

/-- The version of a client that has none. -/
def ensureInitialVersion (effectiveAt : ℤ) (db : BillingDB) (client : BilledClient) :
    Except String BillingDB :=
  if db.versions.any fun version => version.client = client.uuid then .ok db
  else do
    let version ← (priceVersionFromClient latest (db.versions.length + 1) client priceSourceMigration
      effectiveAt).mapError fun e => "create initial billing version for " ++ client.uuid ++ ": " ++ e
    return { db with versions := db.versions ++ [version] }

/-- A version for every client that has none. -/
def ensureInitialPriceVersions (clients : List BilledClient) (effectiveAt : ℤ) (db : BillingDB) :
    Except String BillingDB :=
  clients.foldlM (ensureInitialVersion latest effectiveAt) db

/-- Sets the end of the open versions of a client. -/
def closeOpen (client : String) (effectiveAt : ℤ) (versions : List PriceVersion) :
    List PriceVersion :=
  versions.map fun version =>
    if version.client = client ∧ version.effectiveTo = none then
      { version with effectiveTo := some effectiveAt }
    else version

/-- A price that is paid once. -/
def createOneTimeEntry (version : PriceVersion) (occurredAt : ℤ) (entries : List BillingEntry) :
    Except String (List BillingEntry) :=
  let entryKey := oneTimeKey version.client version.id
  if entries.any fun stored => stored.entryKey = entryKey then .ok entries
  else do
    let (snapshotID, usdAmount) ← snapshotConversion latest version.priceMicros version.currency
    return createEntry
      { id := 0, entryKey := entryKey, client := version.client, clientName := version.clientName,
        type := .oneTime, day := dateOnly (beijingDay occurredAt), occurredAt := occurredAt,
        originalAmountMicros := version.priceMicros, originalCurrency := version.currency,
        fxSnapshotID := snapshotID, usdAmountMicros := usdAmount, priceVersionID := some version.id,
        reversalOf := none, sourceRef := "price-version:" ++ decimal version.id,
        note := "one-time billing configuration", operator := "" } entries

/-- The entries after a price change: a single payment is entered at once. -/
def captureOneTime (existing next : BilledClient) (source : String) (version : PriceVersion)
    (effectiveAt : ℤ) (entries : List BillingEntry) : Except String (List BillingEntry) :=
  let priceChanged := next.price ≠ existing.price || next.billingCycle ≠ existing.billingCycle ||
    next.currency ≠ existing.currency
  if source ≠ priceSourceMigration ∧ 0 < version.priceMicros ∧ version.billingCycleDays = -1 ∧
      priceChanged = true then
    createOneTimeEntry latest version effectiveAt entries
  else .ok entries

/-- `CapturePriceVersion`: the tables, and whether they have changed. -/
def capturePriceVersion (existing : BilledClient) (updates : Updates) (source : String)
    (effectiveAt : ℤ) (db : BillingDB) : Except String (BillingDB × Bool) := do
  let (next, changed) ← clientAfterBillingUpdate existing updates
  if !changed then return (db, false)
  let closed := closeOpen existing.uuid effectiveAt db.versions
  let version ← priceVersionFromClient latest (db.versions.length + 1) next source effectiveAt
  let entries ← captureOneTime latest existing next source version effectiveAt db.entries
  return (⟨closed ++ [version], entries⟩, true)

end Versions

/-- The end of a client. -/
def closeOpenPriceVersions (client : String) (effectiveAt : ℤ) (db : BillingDB) : BillingDB :=
  if trimSpace client = "" then db
  else { db with versions := closeOpen client effectiveAt db.versions }

end Billing

end Komari
