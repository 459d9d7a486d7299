import Komari.Billing.PriceChange
import Komari.Table.Ordered
import Mathlib.Data.String.Basic

/-!
# Daily accrual

Every complete Beijing day of a price version becomes one entry of the ledger, for the part of the day
in which the version is in force.  A call catches up from the last accrued day of each version; calls
within two seconds of a successful one return at once.
-/

namespace Komari

namespace Billing

open Calendar (dateOnly)
open Traffic (beijingDay dayStart nanosPerDay)

/-! ### Entries of days -/

/-- The end of an interval, cut at an instant if there is one. -/
def cutAt (cut : Option ℤ) (stop : ℤ) : ℤ :=
  match cut with
  | some cut => if cut < stop then cut else stop
  | none => stop

/-- `lockedConversionFromVersion`: the dollar value of an amount at the rates of the version. -/
def lockedConversionFromVersion (version : PriceVersion) (nativeAmount : ℤ) :
    Except String (Option (ℕ × ℤ)) :=
  match version.usdPriceMicros, version.fxSnapshotID with
  | some usdPrice, some snapshotID =>
    if version.priceMicros = 0 then .ok none
    else do
      let usd ← multiplyRatio usdPrice nativeAmount version.priceMicros
      return some (snapshotID, usd)
  | _, _ => .ok none

section Entries

variable [CurrencyTable] (latest : LatestFX)

/-- The conversion of an accrual: at the rates of the version or, without these, at the latest. -/
def accrualConversion (version : PriceVersion) (amount : ℤ) :
    Except String (Option ℕ × Option ℤ) := do
  match ← lockedConversionFromVersion version amount with
  | some (snapshotID, usd) => return (some snapshotID, some usd)
  | none => snapshotConversion latest amount version.currency

/-- The entry of a version for a day. -/
def accrualEntryForInterval (version : PriceVersion) (intervalStart intervalEnd : ℤ) :
    Except String (Option BillingEntry) :=
  let start := if intervalStart < version.effectiveFrom then version.effectiveFrom else intervalStart
  let stop := cutAt version.expiredAt (cutAt version.effectiveTo intervalEnd)
  if ¬start < stop then .ok none
  else do
    let cycleNanos := int64 (version.billingCycleDays * nanosPerDay)
    let amount ← (multiplyRatio version.priceMicros (stop - start) cycleNanos).mapError fun e =>
      "calculate accrual for price version " ++ decimal version.id ++ ": " ++ e
    if amount = 0 then return none
    let (snapshotID, usdAmount) ← accrualConversion latest version amount
    let day := dateOnly (beijingDay intervalStart)
    return some
      { id := 0, entryKey := baseKey version.client day version.id, client := version.client,
        clientName := version.clientName, type := .baseAccrual, day := day, occurredAt := stop,
        originalAmountMicros := amount, originalCurrency := version.currency,
        fxSnapshotID := snapshotID, usdAmountMicros := usdAmount, priceVersionID := some version.id,
        reversalOf := none, sourceRef := "price-version:" ++ decimal version.id,
        note := "daily cost accrual", operator := "" }

end Entries

/-! ### Catching up -/

/-- What the database answers during a call. -/
structure AccrualAnswers where
  /-- The versions and the accrued days are listed. -/
  listed : Except String Unit
  latest : LatestFX
  /-- The entry of a key is written. -/
  saved : String → Except String Unit

/-- The last accrued day of a version: the greatest date text, read back. -/
def lastAccruedDay (entries : List BillingEntry) (versionID : ℕ) : Option ℤ :=
  let days := (entries.filter fun entry =>
    entry.type = .baseAccrual && entry.priceVersionID = some versionID).map BillingEntry.day
  (days.argmax id).bind parseDateOnly

/-- The first day that a call accrues for a version. -/
def firstAccrualDay (version : PriceVersion) (accrued : Option ℤ) : ℤ :=
  let firstDay := beijingDay version.effectiveFrom
  match accrued with
  | some lastDay => if ¬lastDay < firstDay then lastDay + 1 else firstDay
  | none => firstDay

/-- The last day before an instant, if that is earlier. -/
def cutDay (cut : Option ℤ) (lastDay : ℤ) : ℤ :=
  match cut with
  | some cut => if beijingDay (cut - 1) < lastDay then beijingDay (cut - 1) else lastDay
  | none => lastDay

/-- The last day that a call accrues for a version. -/
def lastAccrualDay (version : PriceVersion) (through : ℤ) : ℤ :=
  cutDay version.expiredAt (cutDay version.effectiveTo through)

section CatchUp

variable [CurrencyTable] (answers : AccrualAnswers)

/-- The entries of `days` days from `day` on, up to the first failure. -/
def accrueDays (version : PriceVersion) :
    ℕ → ℤ → List BillingEntry → Except String Unit × List BillingEntry
  | 0, _, entries => (.ok (), entries)
  | days + 1, day, entries =>
    match accrualEntryForInterval answers.latest version (dayStart day) (dayStart (day + 1)) with
    | .error e => (.error e, entries)
    | .ok none => accrueDays version days (day + 1) entries
    | .ok (some entry) =>
      match answers.saved entry.entryKey with
      | .error e =>
        (.error ("persist billing accrual " ++ entry.entryKey ++ ": " ++ e), entries)
      | .ok _ => accrueDays version days (day + 1) (createEntry entry entries)

/-- The days of a version that are still to be accrued. -/
def accrueVersion (through : ℤ) (stored : List BillingEntry) (version : PriceVersion)
    (entries : List BillingEntry) : Except String Unit × List BillingEntry :=
  let firstDay := firstAccrualDay version (lastAccruedDay stored version.id)
  accrueDays answers version (lastAccrualDay version through - firstDay + 1).toNat firstDay entries

/-- One version after the other, up to the first failure. -/
def accrueVersions (through : ℤ) (stored : List BillingEntry) :
    List PriceVersion → List BillingEntry → Except String Unit × List BillingEntry
  | [], entries => (.ok (), entries)
  | version :: versions, entries =>
    match accrueVersion answers through stored version entries with
    | (.error e, entries) => (.error e, entries)
    | (.ok _, entries) => accrueVersions through stored versions entries

/-- The database, and the last successful call: the day it accrued through and until when it spares
others the work. -/
structure BillingState extends BillingDB where
  /-- `accrualCoordination`. -/
  coordination : Option (ℤ × ℤ)
deriving DecidableEq

def accrualCoordinationTTL : ℤ := 2 * 1000000000

/-- `EnsureAccruedThrough`; the clock is read at `now` and, at the end, at `done`. -/
def ensureAccruedThrough (through now done : ℤ) (s : BillingState) :
    Except String Unit × BillingState :=
  let throughDay := beijingDay through
  if s.coordination.any fun last => now < last.2 && !decide (last.1 < throughDay) then (.ok (), s)
  else
    match answers.listed with
    | .error e => (.error e, s)
    | .ok _ =>
      let versions := sortOn PriceVersion.rank (s.versions.filter PriceVersion.priced)
      match accrueVersions answers throughDay s.entries versions s.entries with
      | (.error e, entries) => (.error e, { s with entries := entries })
      | (.ok _, entries) =>
        (.ok (), { s with entries := entries,
                          coordination := some (throughDay, done + accrualCoordinationTTL) })

end CatchUp

/-- The day before. -/
def yesterdayInBeijing (now : ℤ) : ℤ := dayStart (beijingDay now - 1)

end Billing

end Komari
