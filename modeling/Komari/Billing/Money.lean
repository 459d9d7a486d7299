import Komari.Table.Basic
import Komari.TrafficReset.Schedule
import Komari.Word.Int64
import Komari.Word.Round

/-!
# Money

Amounts are millionths of a currency unit in 64-bit integers.  Ratios and exchange rates are
fractions; a result is rounded once, and fails when no 64-bit integer holds it.
-/

namespace Komari

namespace Billing

open TrafficReset

/-! ### Rounding -/

/-- `roundRatToInt64`. -/
def roundRatToInt64 (value : ℚ) : Except String ℤ :=
  let quotient := roundQuotient value.num value.den
  if InInt64 quotient then .ok quotient else .error "converted amount is out of range"

/-- **A fraction is rounded half away from zero, or out of range.** -/
theorem roundRatToInt64_eq (value : ℚ) :
    roundRatToInt64 value = if InInt64 (roundHalfAway value) then .ok (roundHalfAway value)
      else .error "converted amount is out of range" := by
  unfold roundRatToInt64
  rw [roundQuotient_eq]

/-- An amount times a ratio. -/
def multiplyRatio (amount numerator denominator : ℤ) : Except String ℤ :=
  if denominator ≤ 0 ∨ numerator < 0 then .error "invalid ratio"
  else roundRatToInt64 (amount * (numerator / denominator : ℚ))

theorem multiplyRatio_eq {amount numerator denominator : ℤ} (hnum : 0 ≤ numerator)
    (hden : 0 < denominator) :
    multiplyRatio amount numerator denominator =
      roundRatToInt64 (amount * (numerator / denominator : ℚ)) :=
  if_neg (by omega)

/-! ### Currencies -/

/-- What texts say about currencies: `strings.ToUpper` and the table of ISO 4217. -/
class CurrencyTable where
  /-- `strings.ToUpper`. -/
  toUpper : String → String
  /-- `currency.ParseISO` accepts the text. -/
  parseISO : String → Bool

/-- Texts in which only the known currencies occur, in capitals. -/
@[reducible] def plainCurrencies : CurrencyTable where
  toUpper := id
  parseISO _ := false

/-- Signs and names of currencies. -/
def legacyCurrencies : List (String × String) :=
  [("$", "USD"), ("US$", "USD"), ("USD", "USD"),
    ("¥", "CNY"), ("￥", "CNY"), ("RMB", "CNY"), ("CNY", "CNY"),
    ("€", "EUR"), ("EUR", "EUR"),
    ("£", "GBP"), ("GBP", "GBP"),
    ("C$", "CAD"), ("CA$", "CAD"), ("CAD", "CAD"),
    ("HK$", "HKD"), ("HKD", "HKD")]

/-- The exchange rates of a snapshot by currency; none for a text that is not a number. -/
abbrev Rates := Table String (Option ℚ)

section Currency

variable [CurrencyTable]

/-- `NormalizeCurrency`: the code of a currency, and whether it is one. -/
def normalizeCurrency (value : String) : String × Bool :=
  let trimmed := trimSpace value
  let upper := CurrencyTable.toUpper trimmed
  match legacyCurrencies.lookup upper with
  | some normalized => (normalized, true)
  | none => if CurrencyTable.parseISO upper then (upper, true) else (trimmed, false)

/-- The rate of a currency, if it is a positive number. -/
def rateOf (rates : Rates) (currency : String) : Except String ℚ :=
  match rates.find? currency with
  | some (some rate) => if 0 < rate then .ok rate else .error s!"missing rate for {currency}"
  | _ => .error s!"missing rate for {currency}"

/-- An amount in another currency. -/
def convertMicros (amount : ℤ) (source target : String) (rates : Rates) : Except String ℤ :=
  let (source, sourceOK) := normalizeCurrency source
  let (target, targetOK) := normalizeCurrency target
  if !sourceOK || !targetOK then .error "unsupported currency"
  else if source = target then .ok amount
  else do
    let sourceRate ← rateOf rates source
    let targetRate ← rateOf rates target
    roundRatToInt64 (amount * targetRate / sourceRate)

end Currency

end Billing

end Komari
