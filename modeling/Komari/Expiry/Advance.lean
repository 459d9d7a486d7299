import Komari.Expiry.Local

/-!
# Renewals

A renewal moves an expiry by a billing cycle: by whole months when the cycle is about as long as some
months are, by days otherwise.  The date is moved at noon, and then takes the clock of the expiry.
-/

namespace Komari

namespace Expiry

open Calendar TrafficReset

/-! ### Dates of a zone -/

/-- `time.Date` in a zone: its seconds are 64-bit words, and wrap around. -/
def goDate (z : Zone) (c : LocalTime) : ℤ :=
  nanosPerSecond * int64 (z.date (int64 (civilUTC c / nanosPerSecond))) + civilUTC c % nanosPerSecond

/-- `AddDate`: fields out of range carry over. -/
def addDate (z : Zone) (t years months days : ℤ) : ℤ :=
  let c := localTime z t
  goDate z { c with year := c.year + years, month := c.month + months, day := c.day + days }

/-- A date with the clock of another one. -/
def withClock (date clock : LocalTime) : LocalTime :=
  { clock with year := date.year, month := date.month, day := date.day }

/-! ### Gaps -/

/-- The wall clock of an instant, read as one of UTC. -/
def civilFromLocal (z : Zone) (t : ℤ) : ℤ := civilUTC (localTime z t)

/-- The loop of `dstForwardGapContaining`: each probe is compared with the one before. -/
def gapOver (z : Zone) (want : ℤ) : ℤ → List ℤ → Option ℤ
  | _, [] => none
  | prev, probe :: probes =>
    let jump := civilFromLocal z probe - civilFromLocal z prev
    if minuteNanos + nanosPerSecond < jump ∧ civilFromLocal z prev < want ∧
        want < civilFromLocal z probe then
      some (jump - minuteNanos)
    else gapOver z want probe probes

/-- `dstForwardGapContaining`: the probes are before the end of the window. -/
def dstForwardGapContaining (z : Zone) (want : LocalTime) : Option ℤ :=
  let window := scanWindow want
  gapOver z (civilUTC want) window.1 (every (window.1 + minuteNanos) (window.2 - 1) minuteNanos)

/-- `resolveWallTime`, in a zone of the name. -/
def resolveWallTime (z : Zone) (name : String) (want : LocalTime) : Except String ℤ :=
  match matchingWallTimes z want with
  | first :: _ => .ok first
  | [] =>
    match dstForwardGapContaining z want with
    | none => .error (missingError name)
    | some gap =>
      if gap ≤ 0 then .error (missingError name)
      else
        match matchingWallTimes z (utcTime (civilUTC want + gap)) with
        | first :: _ => .ok first
        | [] => .error (missingError name)

/-! ### Billing cycles -/

/-- Years, months and days of `AddDate`. -/
structure Span where
  years : ℤ
  months : ℤ
  days : ℤ
deriving DecidableEq

/-- The span of a billing cycle in days: the `switch` of `Advance`. -/
def cycleSpan (billingCycle : ℤ) : Span :=
  if 27 ≤ billingCycle ∧ billingCycle ≤ 32 then ⟨0, 1, 0⟩
  else if 87 ≤ billingCycle ∧ billingCycle ≤ 95 then ⟨0, 3, 0⟩
  else if 175 ≤ billingCycle ∧ billingCycle ≤ 185 then ⟨0, 6, 0⟩
  else if 360 ≤ billingCycle ∧ billingCycle ≤ 370 then ⟨1, 0, 0⟩
  else if 720 ≤ billingCycle ∧ billingCycle ≤ 750 then ⟨2, 0, 0⟩
  else if 1080 ≤ billingCycle ∧ billingCycle ≤ 1150 then ⟨3, 0, 0⟩
  else if 1800 ≤ billingCycle ∧ billingCycle ≤ 1850 then ⟨5, 0, 0⟩
  else ⟨0, 0, billingCycle⟩

/-- The date and the clock that `Advance` asks for. -/
def askedTime (z : Zone) (instant : ℤ) (span : Span) : LocalTime :=
  let c := localTime z instant
  let noon := goDate z { c with hour := 12, minute := 0, second := 0, nano := 0 }
  let anchor := addDate z noon span.years span.months span.days
  withClock (localTime z anchor) c

section Names

variable [ZoneTables]

/-- `Location(name).String()`. -/
def locationName (name : String) : String :=
  let normalized := timezoneOrDefault name
  if normalized = "Asia/Chongqing" ∨ normalized = "PRC" then defaultTimezone
  else
    match ZoneTables.loadLocation normalized with
    | some _ => normalized
    | none => defaultTimezone

/-- The renewal. -/
def advance (instant : ℤ) (timezone : String) (billingCycle : ℤ) : Except String ℤ :=
  if billingCycle ≤ 0 then .error "billing cycle must be positive"
  else
    match normalizeTimezone timezone with
    | .error e => .error e
    | .ok zone =>
      resolveWallTime (location zone).zone (locationName zone)
        (askedTime (location zone).zone instant (cycleSpan billingCycle))

end Names

end Expiry

end Komari
