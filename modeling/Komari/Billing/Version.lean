import Komari.Billing.Money
import Komari.Traffic.Ledger
import Mathlib.Data.List.MinMax

/-!
# Price versions

A price version is one setting of a client's price, from the instant it takes effect until it is
superseded.  Instants are nanoseconds.
-/

namespace Komari

namespace Billing

/-- `BillingPriceVersion`. -/
structure PriceVersion where
  id : ℕ
  client : String
  /-- The client's name when the version was made. -/
  clientName : String
  /-- The client's region when the version was made. -/
  region : String
  /-- The client's group when the version was made. -/
  group : String
  priceMicros : ℤ
  currency : String
  currencyValid : Bool
  /-- The snapshot of the exchange rates when the version was made. -/
  fxSnapshotID : Option ℕ
  /-- The price in US dollars at these rates. -/
  usdPriceMicros : Option ℤ
  /-- Days of a cycle; -1 for a single payment. -/
  billingCycleDays : ℤ
  expiredAt : Option ℤ
  effectiveFrom : ℤ
  effectiveTo : Option ℤ
  source : String
deriving DecidableEq

namespace PriceVersion

/-- The version has a price by cycle in a known currency. -/
def priced (version : PriceVersion) : Bool :=
  0 < version.priceMicros && 0 < version.billingCycleDays && version.currencyValid

/-- The order in which versions are preferred: later ones first, and of these the last written. -/
def rank (version : PriceVersion) : ℤ ×ₗ ℕ := toLex (version.effectiveFrom, version.id)

end PriceVersion

/-! ### Averages -/

/-- The months that some days stand for. -/
def billingCycleMonths (days : ℤ) : ℤ :=
  if days = 30 then 1
  else if days = 90 ∨ days = 91 ∨ days = 92 then 3
  else if days = 180 ∨ days = 181 ∨ days = 182 ∨ days = 183 ∨ days = 184 then 6
  else if days = 365 ∨ days = 366 then 12
  else if days = 730 ∨ days = 731 then 24
  else if days = 1095 ∨ days = 1096 then 36
  else if days ≤ 0 then 1
  else
    let months := (days + 15) / 30
    if months < 1 then 1 else months

/-- What a version costs in a day, a month and a year. -/
structure CycleAverage where
  daily : ℤ
  monthly : ℤ
  yearly : ℤ
deriving DecidableEq

/-- What a version costs by day, by month and by year. -/
def cycleAverageMicros (version : PriceVersion) : Except String CycleAverage :=
  if version.billingCycleDays ≤ 0 ∨ version.priceMicros ≤ 0 then .ok ⟨0, 0, 0⟩
  else do
    let daily ← multiplyRatio version.priceMicros 1 version.billingCycleDays
    let months := billingCycleMonths version.billingCycleDays
    let monthly ← multiplyRatio version.priceMicros 1 months
    let yearly ← multiplyRatio version.priceMicros 12 months
    return ⟨daily, monthly, yearly⟩

/-! ### Exchange -/

/-- Exchange rates by id. -/
abbrev Snapshots := Table ℕ Rates

/-- An amount of a version in another currency, at the version's own rates. -/
def convertLockedMicros [CurrencyTable] (nativeAmount : ℤ) (version : PriceVersion) (target : String)
    (snapshots : Snapshots) : Option ℤ :=
  if version.currency = target then some nativeAmount
  else if nativeAmount = 0 then some 0
  else
    match version.fxSnapshotID.bind snapshots.find? with
    | none => none
    | some rates =>
      if rates.rows = [] then none
      else (convertMicros nativeAmount version.currency target rates).toOption

/-! ### Cycles -/

/-- When a version ends. -/
def paidUntil (version : PriceVersion) : Option ℤ :=
  match version.effectiveTo, version.expiredAt with
  | some effectiveTo, some expiredAt =>
    if expiredAt < effectiveTo then some expiredAt else some effectiveTo
  | some effectiveTo, none => some effectiveTo
  | none, expiredAt => expiredAt

/-- The version is charged in the cycle. -/
def versionOverlapsCycle (version : PriceVersion) (start stop : ℤ) : Bool :=
  if version.priceMicros ≤ 0 ∨ version.billingCycleDays ≤ 0 ∨ version.currencyValid = false then false
  else if ¬version.effectiveFrom < stop then false
  else if version.effectiveTo.any fun effectiveTo => decide (¬start < effectiveTo) then false
  else if version.expiredAt.any fun expiredAt => decide (¬start < expiredAt) then false
  else true

/-- The better of the version found so far and one more. -/
def betterVersion (client : String) (start stop : ℤ) (best : Option PriceVersion)
    (version : PriceVersion) : Option PriceVersion :=
  if version.client ≠ client ∨ versionOverlapsCycle version start stop = false then best
  else
    match best with
    | none => some version
    | some found =>
      if found.effectiveFrom < version.effectiveFrom ∨
          (version.effectiveFrom = found.effectiveFrom ∧ found.id < version.id) then some version
      else some found

/-- The version that a cycle is charged by. -/
def latestVersionForCycle (versions : List PriceVersion) (client : String) (start stop : ℤ) :
    Option PriceVersion :=
  versions.foldl (betterVersion client start stop) none

/-! ### What these say -/

/-- The version is effective at an instant, and the contract has not expired. -/
structure InForce (version : PriceVersion) (t : ℤ) : Prop where
  effective : version.effectiveFrom ≤ t
  notSuperseded : ∀ effectiveTo, version.effectiveTo = some effectiveTo → t < effectiveTo
  notExpired : ∀ expiredAt, version.expiredAt = some expiredAt → t < expiredAt

theorem versionOverlapsCycle_iff {version : PriceVersion} {start stop : ℤ} :
    versionOverlapsCycle version start stop = true ↔
      version.priced = true ∧ version.effectiveFrom < stop ∧
        (∀ effectiveTo, version.effectiveTo = some effectiveTo → start < effectiveTo) ∧
          ∀ expiredAt, version.expiredAt = some expiredAt → start < expiredAt := by
  have hpriced : version.priced = true ↔ ¬(version.priceMicros ≤ 0 ∨ version.billingCycleDays ≤ 0 ∨
      version.currencyValid = false) := by
    simp [PriceVersion.priced, not_or, and_assoc]
  rw [hpriced]
  unfold versionOverlapsCycle
  -- each test of the source rules the cycle out, the ends only where they are set
  cases version.effectiveTo with
  | none => cases version.expiredAt <;> simp [not_or, and_assoc]
  | some effectiveTo => cases version.expiredAt <;> simp [not_or, and_assoc]

/-- The end of what is paid is the earlier of the two ends. -/
theorem lt_paidUntil_iff {version : PriceVersion} {t : ℤ} :
    (∀ paid, paidUntil version = some paid → t < paid) ↔
      (∀ effectiveTo, version.effectiveTo = some effectiveTo → t < effectiveTo) ∧
        ∀ expiredAt, version.expiredAt = some expiredAt → t < expiredAt := by
  unfold paidUntil
  cases version.effectiveTo with
  | none => simp
  | some effectiveTo =>
    cases version.expiredAt with
    | none => simp
    | some expiredAt =>
      simp only [Option.some.injEq, forall_eq']
      split_ifs with h
      · simp only [Option.some.injEq, forall_eq']
        omega
      · simp only [Option.some.injEq, forall_eq']
        omega

/-- The versions of a client that overlap a cycle. -/
def overlapping (versions : List PriceVersion) (client : String) (start stop : ℤ) :
    List PriceVersion :=
  versions.filter fun version =>
    decide (version.client = client) && versionOverlapsCycle version start stop

theorem mem_overlapping {versions : List PriceVersion} {client : String} {start stop : ℤ}
    {version : PriceVersion} : version ∈ overlapping versions client start stop ↔
      version ∈ versions ∧ version.client = client ∧
        versionOverlapsCycle version start stop = true := by
  simp [overlapping]

/-- **The version of a cycle is the greatest overlapping one**, by its start and its id. -/
theorem latestVersionForCycle_eq (versions : List PriceVersion) (client : String) (start stop : ℤ) :
    latestVersionForCycle versions client start stop =
      (overlapping versions client start stop).argmax PriceVersion.rank := by
  unfold latestVersionForCycle overlapping
  induction versions using List.reverseRecOn with
  | nil => rfl
  | append_singleton versions version ih =>
    rw [List.foldl_append, List.foldl_cons, List.foldl_nil, ih, List.filter_append]
    unfold betterVersion
    by_cases hskip : version.client ≠ client ∨ versionOverlapsCycle version start stop = false
    · have hnil : [version].filter (fun version => decide (version.client = client) &&
          versionOverlapsCycle version start stop) = [] := by
        rcases hskip with h | h <;> simp [h]
      rw [if_pos hskip, hnil, List.append_nil]
    · have hkeep : [version].filter (fun version => decide (version.client = client) &&
          versionOverlapsCycle version start stop) = [version] := by
        push Not at hskip
        simpa using hskip
      rw [if_neg hskip, hkeep, List.argmax_concat]
      cases (versions.filter fun version => decide (version.client = client) &&
          versionOverlapsCycle version start stop).argmax PriceVersion.rank with
      | none => rfl
      | some found =>
        refine if_congr ?_ rfl rfl
        rw [PriceVersion.rank, PriceVersion.rank, Prod.Lex.toLex_lt_toLex]
        exact or_congr Iff.rfl (and_congr eq_comm Iff.rfl)

end Billing

end Komari
