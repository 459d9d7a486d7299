import Komari.Billing.Version
import Komari.Codec.Result
import Mathlib.Data.List.Dedup
import Komari.TrafficReset.Window

/-!
# Committed billing cycles

The reset schedule of a client cuts its time into cycles.  Every cycle that a priced version overlaps
is charged with the monthly average of the latest such version.
-/

namespace Komari

namespace Billing

open Calendar TrafficReset
open Traffic (beijingDay dayStart)

/-! ### Schedules of clients -/

/-- The day of the reset, or none. -/
def normalizedResetDay (resetDay : Option ℤ) : ℤ :=
  match resetDay with
  | none => 1
  | some resetDay => if resetDay < 1 ∨ 31 < resetDay then 1 else resetDay

theorem normalizedResetDay_bounds (resetDay : Option ℤ) :
    1 ≤ normalizedResetDay resetDay ∧ normalizedResetDay resetDay ≤ 31 := by
  unfold normalizedResetDay
  cases resetDay with
  | none => decide
  | some resetDay =>
    dsimp only
    split_ifs <;> omega

/-- `clientBillingMeta`: a schedule that has a reset day. -/
structure ClientBillingMeta [TimezoneDatabase] where
  schedule : Schedule
  /-- The schedule has a reset day. -/
  active : schedule.active = true

section Schedules

variable [TimezoneDatabase]

/-- When the cycles of a client begin. -/
def clientMeta (day : Option ℤ) (clock timezone : String) : ClientBillingMeta where
  schedule := fromFields (some (normalizedResetDay day)) clock timezone
  active := by simp [Schedule.active, fromFields, normalizedResetDay_bounds day]

/-- The columns of a client that `loadClientBillingMeta` selects. -/
structure ClientResetRow where
  uuid : String
  /-- Day of the month, if it is configured. -/
  trafficResetDay : Option ℤ
  trafficResetTime : String
  trafficResetTimezone : String

/-- The schedules of all clients. -/
def loadClientBillingMeta (rows : List ClientResetRow) : Table String ClientBillingMeta :=
  (∅ : Table String ClientBillingMeta).upsertAll <| rows.map fun row =>
    (row.uuid, clientMeta row.trafficResetDay row.trafficResetTime row.trafficResetTimezone)

/-- The schedule of a client; one without settings resets on the first of the month. -/
def resetSchedule (settings : Table String ClientBillingMeta) (client : String) : Schedule :=
  match settings.find? client with
  | some item => item.schedule
  | none => fromFields (some 1) "" ""

theorem active_resetSchedule (settings : Table String ClientBillingMeta) (client : String) :
    (resetSchedule settings client).active = true := by
  unfold resetSchedule
  cases settings.find? client with
  | none => rfl
  | some item => exact item.active

/-! ### Starts of cycles -/

/-- The starts from `start` on, at most `fuel` of them. -/
def cycleStarts (schedule : Schedule) (stop : ℤ) : ℕ → ℤ → List ℤ
  | 0, _ => []
  | fuel + 1, start =>
    if start < stop then start :: cycleStarts schedule stop fuel (schedule.next start) else []

/-- The number of cycles after which the walk ends. -/
def maxCycleStarts : ℕ := 240

/-- The starts of the cycles of a window, found by iterating `Schedule.next`. -/
def iterCycleStarts (schedule : Schedule) (since stop : ℤ) : List ℤ :=
  if stop = zeroTime ∨ ¬since < stop then []
  else cycleStarts schedule stop maxCycleStarts (schedule.last since)

end Schedules

/-! ### Horizons -/

/-- The year in Beijing. -/
def beijingYear (t : ℤ) : ℤ := monthOfDay (beijingDay t) / 12

/-- The instant at which a Beijing year starts. -/
def beijingYearStart (year : ℤ) : ℤ := dayStart (monthStart (12 * year))

/-- `displayHorizon`: the end of the last year that is shown. -/
def displayHorizon (now : ℤ) (years : List ℤ) : ℤ :=
  beijingYearStart (years.foldl (fun year value => if year < value then value else year)
    (beijingYear now) + 1)

/-- `committedHorizon`: the end of the year up to which a version is paid, if it is later. -/
def committedHorizon (now : ℤ) (years : List ℤ) (versions : List PriceVersion) : ℤ :=
  versions.foldl (fun horizon version =>
    match paidUntil version with
    | some paid => if horizon < paid then beijingYearStart (beijingYear paid + 1) else horizon
    | none => horizon) (displayHorizon now years)

/-- The first day with a price. -/
def earliestEffective (versions : List PriceVersion) (fallback : ℤ) : ℤ :=
  versions.foldl (fun since version =>
    if version.effectiveFrom < since then version.effectiveFrom else since) fallback

/-! ### The walk -/

/-- A cycle that is charged as a whole. -/
structure CommittedCycle where
  start : ℤ
  /-- The cycle ends, or what is paid does. -/
  stop : ℤ
  client : String
  version : PriceVersion
  amount : ℤ
  /-- The charge in the currency of the version. -/
  nativeAmount : ℤ
deriving DecidableEq

section Walk

variable [TimezoneDatabase] [CurrencyTable] (versions : List PriceVersion)
  (settings : Table String ClientBillingMeta) (currency : String) (snapshots : Snapshots)

/-- The charge of a version for a cycle, unless it cannot be converted. -/
def chargeCycle (version : PriceVersion) (client : String) (start stop : ℤ) :
    Except String (Option CommittedCycle) := do
  let average ← cycleAverageMicros version
  match convertLockedMicros average.monthly version currency snapshots with
  | none => return none
  | some amount => return some ⟨start, stop, client, version, amount, average.monthly⟩

/-- The charged cycle of a client that begins at `start`, if there is one. -/
def committedCycleAt (client : String) (start : ℤ) : Except String (Option CommittedCycle) :=
  let stop := (resetSchedule settings client).next start
  match latestVersionForCycle versions client start stop with
  | none => .ok none
  | some version =>
    match paidUntil version with
    | none => chargeCycle currency snapshots version client start stop
    | some paid =>
      if ¬start < paid then .ok none
      else chargeCycle currency snapshots version client start (if paid < stop then paid else stop)

/-- The clients of the versions, each once, in the order of a map. -/
def versionClients : List String := (versions.map PriceVersion.client).dedup

/-- The clients and the starts of the cycles that are visited. -/
def visitedCycles (since stop : ℤ) : List (String × ℤ) :=
  (versionClients versions).flatMap fun client =>
    (iterCycleStarts (resetSchedule settings client) since stop).map fun start => (client, start)

/-- The charged cycles of all clients. -/
def walkCommittedCycles (since stop : ℤ) : Except String (List CommittedCycle) := do
  let found ← (visitedCycles versions settings since stop).mapM fun visit =>
    committedCycleAt versions settings currency snapshots visit.1 visit.2
  return found.reduceOption

end Walk

/-! ### How far the walk looks ahead -/

theorem lt_beijingYearStart (t : ℤ) : t < beijingYearStart (beijingYear t + 1) := by
  have hday := lt_monthStart_succ (beijingDay t)
  have hmonth : monthStart (monthOfDay (beijingDay t) + 1) ≤ monthStart (12 * (beijingYear t + 1)) := by
    refine monthStart_strictMono.monotone ?_
    unfold beijingYear
    omega
  unfold beijingYearStart dayStart
  unfold beijingDay Traffic.nanosPerDay at *
  omega

theorem le_foldl_horizon (versions : List PriceVersion) (horizon : ℤ) :
    horizon ≤ versions.foldl (fun horizon version => match paidUntil version with
      | some paid => if horizon < paid then beijingYearStart (beijingYear paid + 1) else horizon
      | none => horizon) horizon := by
  induction versions generalizing horizon with
  | nil => exact le_rfl
  | cons version versions ih =>
    rw [List.foldl_cons]
    refine le_trans ?_ (ih _)
    cases paidUntil version with
    | none => exact le_rfl
    | some paid =>
      have := lt_beijingYearStart paid
      dsimp only
      split_ifs <;> omega

theorem lt_committedHorizon (now : ℤ) (versions : List PriceVersion) :
    now < committedHorizon now [] versions :=
  (lt_beijingYearStart now).trans_le (le_foldl_horizon versions _)

/-- **The horizon covers everything that is paid.** -/
theorem le_committedHorizon (now : ℤ) (years : List ℤ) {versions : List PriceVersion}
    {version : PriceVersion} (hmem : version ∈ versions) {paid : ℤ}
    (hpaid : paidUntil version = some paid) : paid ≤ committedHorizon now years versions := by
  unfold committedHorizon
  generalize displayHorizon now years = horizon
  induction versions generalizing horizon with
  | nil => cases hmem
  | cons first versions ih =>
    rw [List.foldl_cons]
    rcases List.mem_cons.mp hmem with rfl | hmem
    · refine le_trans ?_ (le_foldl_horizon _ _)
      have := lt_beijingYearStart paid
      rw [hpaid]
      dsimp only
      split_ifs <;> omega
    · exact ih hmem _

theorem earliestEffective_le {versions : List PriceVersion} (fallback : ℤ) :
    earliestEffective versions fallback ≤ fallback ∧
      ∀ version ∈ versions, earliestEffective versions fallback ≤ version.effectiveFrom := by
  unfold earliestEffective
  induction versions generalizing fallback with
  | nil => simp
  | cons version versions ih =>
    rw [List.foldl_cons]
    obtain ⟨hle, hall⟩ := ih (if version.effectiveFrom < fallback then version.effectiveFrom else fallback)
    refine ⟨hle.trans ?_, List.forall_mem_cons.mpr ⟨hle.trans ?_, hall⟩⟩ <;> split_ifs <;> omega

end Billing

end Komari
