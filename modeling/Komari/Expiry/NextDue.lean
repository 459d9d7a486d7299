import Komari.Expiry.Gentle

/-!
# The next due date

An expired term is renewed again and again until it ends in the future.  One that expired more than
thirty local days ago starts from its clock on today's date.

* `nextDue_first` : in a gentle zone the result is the first renewal after now, when dates do not wrap
  around; `nextDue_wraps` : a cycle that is too long gets nowhere.
-/

namespace Komari

namespace Expiry

open Calendar TrafficReset

/-! ### The search -/

/-- Nothing is due. -/
def isLongTerm : Option ℤ → Bool
  | none => true
  | some stamp => stamp = zeroTime || (utcTime stamp).year < 2 || 2200 < (utcTime stamp).year

/-- `NextDue` looks at so many cycles. -/
def maxCatchUp : ℕ := 4000

section Names

variable [ZoneTables]

/-- The clock of an instant on another date. -/
def keepClockOnDate (instant : ℤ) (timezone : String) (year month day : ℤ) : Except String ℤ :=
  let zone := timezoneOrDefault timezone
  let c := localTime (location zone).zone instant
  resolveWallTime (location zone).zone (locationName zone) { c with year := year, month := month, day := day }

/-- The loop of `NextDue`. -/
def catchUp (zone : String) (billingCycle now : ℤ) : ℕ → ℤ → Except String ℤ
  | 0, next => .ok next
  | fuel + 1, next =>
    if now < next then .ok next
    else
      match advance next zone billingCycle with
      | .error e => .error e
      | .ok next => catchUp zone billingCycle now fuel next

/-- `base` of `NextDue`. -/
def dueBase (expiredAt : ℤ) (zone : String) (now : ℤ) : Except String ℤ :=
  let date := localTime (location zone).zone now
  if expiredAt < addDate (location zone).zone now 0 0 (-30) then
    keepClockOnDate expiredAt zone date.year date.month date.day
  else .ok expiredAt

/-- `NextDue`, with a bound on the renewals of one call. -/
def nextDue (expiredAt : ℤ) (timezone : String) (billingCycle now : ℤ) : Except String ℤ :=
  if billingCycle ≤ 0 then .error "billing cycle must be positive"
  else if isLongTerm (some expiredAt) then .error "long-term expiry cannot be renewed"
  else do
    let zone := timezoneOrDefault timezone
    let base ← dueBase expiredAt zone now
    let next ← advance base zone billingCycle
    let next ← catchUp zone billingCycle now maxCatchUp next
    if now < next then .ok next
    else .error s!"unable to advance expiry past {rfc3339 (now / nanosPerSecond)}"

/-- The renewals of an instant: the first one, and each one renewed. -/
def renewal (zone : String) (billingCycle base : ℤ) : ℕ → Except String ℤ
  | 0 => advance base zone billingCycle
  | n + 1 => do advance (← renewal zone billingCycle base n) zone billingCycle

end Names

/-- The instant that the renewals start from: the expiry, or, where that is more than thirty local days
before now, the first instant of its clock on the date of now, or of what stands for that. -/
structure Base (z : Zone) (expiredAt now base : ℤ) : Prop where
  late : expiredAt < addDate z now 0 0 (-30) → ∃ k,
    Settles z (dayNanos * wallDay (wallNanos z now) + wallClock (wallNanos z expiredAt)) k ∧
      IsLeast {u | wallNanos z u = k} base
  recent : ¬expiredAt < addDate z now 0 0 (-30) → base = expiredAt

/-! ### Names -/

section Names

variable [ZoneTables]

theorem normalizeTimezone_default (hdefault : (ZoneTables.loadLocation defaultTimezone).isSome) :
    normalizeTimezone defaultTimezone = .ok defaultTimezone := by
  obtain ⟨table, htable⟩ := Option.isSome_iff_exists.mp hdefault
  have htrim : trimSpace defaultTimezone = defaultTimezone := by decide
  simp only [normalizeTimezone, htrim, htable, if_neg (show ¬defaultTimezone = "" by decide)]

/-- A name that has been normalized is its own normal form. -/
theorem normalizeTimezone_timezoneOrDefault
    (hdefault : (ZoneTables.loadLocation defaultTimezone).isSome) (name : String) :
    normalizeTimezone (timezoneOrDefault name) = .ok (timezoneOrDefault name) := by
  have hself := normalizeTimezone_default hdefault
  unfold timezoneOrDefault
  cases hname : normalizeTimezone name with
  | error e => exact hself
  | ok zone =>
    dsimp only
    unfold normalizeTimezone at hname
    dsimp only at hname
    split_ifs at hname with hempty
    · cases hname
      exact hself
    · cases htable : ZoneTables.loadLocation (trimSpace name) with
      | none =>
        rw [htable] at hname
        cases hname
      | some table =>
        rw [htable] at hname
        cases hname
        simp only [normalizeTimezone, trimSpace_trimSpace, if_neg hempty, htable]

end Names

/-! ### Catching up -/

/-- The renewal of an instant has a date that does not wrap around. -/
def HasRoom (billingCycle t : ℤ) : Prop :=
  t / nanosPerSecond + secondsPerDay * billingCycle ≤ maxUnix

section CatchUp

variable [ZoneTables] {zone : String} {billingCycle : ℤ}

/-- A renewal succeeds, and gets to a later day, when its date does not wrap around. -/
theorem advance_gentle (hzone : normalizeTimezone zone = .ok zone) (h : Gentle (location zone).zone)
    (hcycle : 0 < billingCycle) {t : ℤ} (hlow : -maxUnix - 10 ^ 11 ≤ t / nanosPerSecond)
    (hroom : t / nanosPerSecond + secondsPerDay * billingCycle ≤ maxUnix + 10 ^ 11) :
    ∃ r, advance t zone billingCycle = .ok r ∧ t < r ∧
      wallDay (wallNanos (location zone).zone t) < wallDay (wallNanos (location zone).zone r) := by
  have hday := lt_movedDay hcycle (wallNanos (location zone).zone t)
  have hdays := movedDay_le billingCycle (wallNanos (location zone).zone t)
  have hnear := wallNanos_near (location zone).zone t
  have hasked := askedWall_eq (h.steady (cycleSpan billingCycle) t)
    (by
      unfold Dated noonSec wallDay maxUnix maxOffset nanosPerSecond secondsPerDay at *
      constructor <;> omega)
    (by
      unfold Dated noonSec maxUnix maxOffset nanosPerSecond secondsPerDay at *
      unfold wallDay nanosPerSecond secondsPerDay at hday hdays
      constructor <;> omega)
  obtain ⟨k, hsettled, hshown⟩ := h.exists_settled
    (askedWall (location zone).zone t (cycleSpan billingCycle))
  obtain ⟨r, hleast⟩ := exists_isLeast hshown
  have hwall : wallNanos (location zone).zone r = k := hleast.1
  refine ⟨r, (advance_ok hzone hcycle).mpr ⟨k, hsettled, hleast⟩, ?_⟩
  have hle := hsettled.settles.le
  rw [hasked, ← hwall] at hle
  have hwhole := wallDay_add_wallClock (wallNanos (location zone).zone t)
  refine ⟨h.lt_of_wall ?_, hday.trans_le ?_⟩
  · unfold dayNanos hourNanos nanosPerSecond secondsPerDay at *
    omega
  · have hmoved := wallDay_mono hle
    rwa [wallDay_add (wallClock_nonneg _) (wallClock_lt _)] at hmoved

variable {now : ℤ}

theorem catchUp_of_lt {next : ℤ} (h : now < next) (fuel : ℕ) :
    catchUp zone billingCycle now fuel next = .ok next := by
  cases fuel with
  | zero => rfl
  | succ fuel => exact if_pos h

/-- Each renewal is a renewal of the one before. -/
theorem renewal_succ {base t : ℤ} {n : ℕ} :
    renewal zone billingCycle base (n + 1) = .ok t ↔
      ∃ u, renewal zone billingCycle base n = .ok u ∧ advance u zone billingCycle = .ok t := by
  rw [renewal]
  cases renewal zone billingCycle base n with
  | error e => exact ⟨nofun, fun ⟨_, h, _⟩ => nomatch h⟩
  | ok u => exact ⟨fun h => ⟨u, rfl, h⟩, fun ⟨_, h, ht⟩ => Except.ok.inj h ▸ ht⟩

section Climb

variable (hzone : normalizeTimezone zone = .ok zone) (h : Gentle (location zone).zone)
  (hcycle : 0 < billingCycle)

include hzone h hcycle

/-- The loop stops at the first renewal after now, when that comes soon enough. -/
theorem exists_catchUp (hroom : HasRoom billingCycle now) {base next : ℤ} {k n fuel : ℕ}
    (hn : n ≤ fuel) (hnext : renewal zone billingCycle base k = .ok next)
    (hlow : -maxUnix - 10 ^ 11 ≤ next / nanosPerSecond)
    (hreach : wallDay (wallNanos (location zone).zone now) + 2 ≤
      wallDay (wallNanos (location zone).zone next) + n) :
    ∃ m ≤ n, ∃ r, catchUp zone billingCycle now fuel next = .ok r ∧
      renewal zone billingCycle base (k + m) = .ok r ∧ now < r ∧
        ∀ i, k ≤ i → i < k + m → ∀ u, renewal zone billingCycle base i = .ok u → u ≤ now := by
  induction n generalizing k fuel next with
  | zero =>
    have hlater := h.lt_of_wallDay (t := now) (u := next) (by simpa using hreach)
    exact ⟨0, le_rfl, next, catchUp_of_lt hlater fuel, hnext, hlater, fun i hi hi' => by omega⟩
  | succ n ih =>
    by_cases hlater : now < next
    · exact ⟨0, Nat.zero_le _, next, catchUp_of_lt hlater fuel, hnext, hlater,
        fun i hi hi' => by omega⟩
    obtain ⟨fuel, rfl⟩ : ∃ rest, fuel = rest + 1 := ⟨fuel - 1, by omega⟩
    have hsecs : next / nanosPerSecond ≤ now / nanosPerSecond :=
      Int.ediv_le_ediv (by decide) (not_lt.mp hlater)
    unfold HasRoom at hroom
    obtain ⟨r, hadvance, hup, hday⟩ := advance_gentle hzone h hcycle hlow (by omega)
    have hup' : next / nanosPerSecond ≤ r / nanosPerSecond := Int.ediv_le_ediv (by decide) hup.le
    obtain ⟨m, hm, last, hcatch, hlast, hafter, hbefore⟩ := ih (Nat.le_of_succ_le_succ hn)
      (renewal_succ.mpr ⟨next, hnext, hadvance⟩) (hlow.trans hup') (by push_cast at hreach; omega)
    refine ⟨m + 1, Nat.succ_le_succ hm, last, ?_, ?_, hafter, fun i hi hi' u hu => ?_⟩
    · simp only [catchUp, if_neg hlater, hadvance]
      exact hcatch
    · rwa [← Nat.add_assoc, Nat.add_right_comm]
    · rcases hi.eq_or_lt with rfl | hlt
      · exact Except.ok.inj (hnext.symm.trans hu) ▸ not_lt.mp hlater
      · exact hbefore i hlt (by omega) u hu

/-- Renewals get later while their dates do not wrap around. -/
theorem renewal_le {base r t : ℤ} {m n : ℕ} (hmn : m ≤ n)
    (hr : renewal zone billingCycle base m = .ok r) (hlow : -maxUnix ≤ r / nanosPerSecond)
    (hroom : ∀ i < n, ∀ u, renewal zone billingCycle base i = .ok u → HasRoom billingCycle u)
    (ht : renewal zone billingCycle base n = .ok t) : r ≤ t := by
  induction n, hmn using Nat.le_induction generalizing t with
  | base => exact (Except.ok.inj (hr.symm.trans ht)).le
  | succ n hmn ih =>
    obtain ⟨u, hu, hadvance⟩ := renewal_succ.mp ht
    have hle := ih (fun i hi => hroom i (by omega)) hu
    have hsecs : r / nanosPerSecond ≤ u / nanosPerSecond := Int.ediv_le_ediv (by decide) hle
    have hspace := hroom n (Nat.lt_succ_self n) u hu
    unfold HasRoom at hspace
    obtain ⟨t', ht', hup, -⟩ := advance_gentle hzone h hcycle (t := u) (by omega) (by omega)
    exact hle.trans (Except.ok.inj (ht'.symm.trans hadvance) ▸ hup.le)

end Climb

end CatchUp

/-! ### The start -/

section Start

variable [ZoneTables] {zone : String}

/-- The clock of an instant on a date is found. -/
theorem keepClockOnDate_ok (h : Gentle (location zone).zone) (hzone : timezoneOrDefault zone = zone)
    (expiredAt now : ℤ) :
    ∃ k base, keepClockOnDate expiredAt zone (localTime (location zone).zone now).year
        (localTime (location zone).zone now).month (localTime (location zone).zone now).day = .ok base ∧
      Settles (location zone).zone (dayNanos * wallDay (wallNanos (location zone).zone now) +
        wallClock (wallNanos (location zone).zone expiredAt)) k ∧
      IsLeast {u | wallNanos (location zone).zone u = k} base := by
  obtain ⟨k, hsettled, hshown⟩ := h.exists_settled
    (dayNanos * wallDay (wallNanos (location zone).zone now) +
      wallClock (wallNanos (location zone).zone expiredAt))
  obtain ⟨base, hleast⟩ := exists_isLeast hshown
  refine ⟨k, base, ?_, hsettled.settles, hleast⟩
  have hok := (resolveWallTime_ok (locationName zone) base).mpr ⟨k, hsettled, hleast⟩
  rw [← withClock_utcTime] at hok
  simp only [keepClockOnDate, hzone]
  exact hok

/-- The start is found, and lies on one of the last 32 days, or later; it is the expiry or lies near
now. -/
theorem exists_base (h : Gentle (location zone).zone) (hzone : timezoneOrDefault zone = zone)
    (expiredAt : ℤ) {now : ℤ} (hlow : -maxUnix ≤ now / nanosPerSecond)
    (hhigh : now / nanosPerSecond ≤ maxUnix) :
    ∃ base, Base (location zone).zone expiredAt now base ∧ dueBase expiredAt zone now = .ok base ∧
      wallDay (wallNanos (location zone).zone now) - 32 ≤
        wallDay (wallNanos (location zone).zone base) ∧
      (base = expiredAt ∨ wallDay (wallNanos (location zone).zone base) ≤
        wallDay (wallNanos (location zone).zone now) + 1) := by
  by_cases hlate : expiredAt < addDate (location zone).zone now 0 0 (-30)
  · obtain ⟨k, base, hkeep, hsettles, hleast⟩ := keepClockOnDate_ok h hzone expiredAt now
    refine ⟨base, ⟨fun _ => ⟨k, hsettles, hleast⟩, fun hnot => absurd hlate hnot⟩, ?_, ?_⟩
    · simp only [dueBase, if_pos hlate, hkeep]
    have hwall : wallNanos (location zone).zone base = k := hleast.1
    have hclock := wallClock_nonneg (wallNanos (location zone).zone expiredAt)
    have hclock' := wallClock_lt (wallNanos (location zone).zone expiredAt)
    have hahead := h.lt_of_settles hsettles
    have hle := hsettles.le
    have hday := wallDay_add_wallClock (wallNanos (location zone).zone base)
    have hlow' := wallClock_nonneg (wallNanos (location zone).zone base)
    have hhigh' := wallClock_lt (wallNanos (location zone).zone base)
    rw [hwall] at hday hlow' hhigh' ⊢
    unfold dayNanos hourNanos nanosPerSecond secondsPerDay at *
    omega
  · refine ⟨expiredAt, ⟨fun hyes => absurd hyes hlate, fun _ => rfl⟩, ?_,
      h.wallDay_recent hlow hhigh hlate, Or.inl rfl⟩
    simp only [dueBase, if_neg hlate]

end Start

/-- **The first renewal after now.**  In a zone with small and rare changes, when a cycle behind now and
behind the expiry dates do not wrap around, the renewals of an expiry succeed, and the result is the
first one after now, one of the first 35, and the least of those before dates wrap around. -/
theorem nextDue_first [ZoneTables] (hdefault : (ZoneTables.loadLocation defaultTimezone).isSome)
    {timezone : String} (hgentle : Gentle (location (timezoneOrDefault timezone)).zone)
    {expiredAt billingCycle : ℤ} (hfinite : isLongTerm (some expiredAt) = false)
    (hcycle : 0 < billingCycle) {now : ℤ} (hlow : -maxUnix ≤ now / nanosPerSecond)
    (hroom : HasRoom billingCycle now) (hexpired : HasRoom billingCycle expiredAt) :
    ∃ base next, Base (location (timezoneOrDefault timezone)).zone expiredAt now base ∧
      nextDue expiredAt timezone billingCycle now = .ok next ∧
      (∃ n ≤ 34, renewal (timezoneOrDefault timezone) billingCycle base n = .ok next) ∧
      IsLeast {t | now < t ∧ ∃ n,
        (∀ i < n, ∀ u, renewal (timezoneOrDefault timezone) billingCycle base i = .ok u →
          HasRoom billingCycle u) ∧
        renewal (timezoneOrDefault timezone) billingCycle base n = .ok t} next := by
  have hzone := normalizeTimezone_timezoneOrDefault hdefault timezone
  have hself : timezoneOrDefault (timezoneOrDefault timezone) = timezoneOrDefault timezone := by
    rw [timezoneOrDefault, hzone]
  generalize hname : timezoneOrDefault timezone = zone at *
  obtain ⟨base, hbase, hstart, hnear, hclose⟩ := exists_base hgentle hself expiredAt
    hlow (by unfold HasRoom secondsPerDay at hroom; omega)
  have hwall := wallNanos_near (location zone).zone now
  have hwall' := wallNanos_near (location zone).zone base
  -- there is room behind the start
  have hbaseLow : -maxUnix - 10 ^ 10 ≤ base / nanosPerSecond := by
    unfold wallDay maxUnix maxOffset nanosPerSecond secondsPerDay at *
    omega
  have hbaseRoom : base / nanosPerSecond + secondsPerDay * billingCycle ≤ maxUnix + 10 ^ 11 := by
    unfold HasRoom at hroom hexpired
    rcases hclose with rfl | hclose
    · omega
    · unfold wallDay maxUnix maxOffset nanosPerSecond secondsPerDay at *
      omega
  obtain ⟨first, hfirst, hup, hday⟩ := advance_gentle hzone hgentle hcycle
    (show -maxUnix - 10 ^ 11 ≤ base / nanosPerSecond by omega) hbaseRoom
  have hfirstLow : base / nanosPerSecond ≤ first / nanosPerSecond :=
    Int.ediv_le_ediv (by decide) hup.le
  obtain ⟨m, hm, next, hcatch, hnext, hafter, hbefore⟩ := exists_catchUp hzone hgentle hcycle hroom
    (k := 0) (show 34 ≤ maxCatchUp by decide) (show renewal zone billingCycle base 0 = _ from
      hfirst) (by omega) (by push_cast; omega)
  rw [Nat.zero_add] at hnext hbefore
  refine ⟨base, next, hbase, ?_, ⟨m, hm, hnext⟩, ⟨hafter, m, fun i hi u hu => ?_, hnext⟩, ?_⟩
  · simp only [nextDue, hname, if_neg (not_le.mpr hcycle), hfinite, Bool.false_eq_true, if_false]
    rw [hstart]
    change (advance base zone billingCycle >>= _) = _
    rw [hfirst]
    change (catchUp zone billingCycle now maxCatchUp first >>= _) = _
    rw [hcatch]
    exact if_pos hafter
  · have hsecs : u / nanosPerSecond ≤ now / nanosPerSecond :=
      Int.ediv_le_ediv (by decide) (hbefore i (Nat.zero_le i) hi u hu)
    unfold HasRoom at hroom ⊢
    omega
  · rintro t ⟨hlater, n, hspace, ht⟩
    have hmn : m ≤ n := not_lt.mp fun hlt =>
      absurd (hbefore n (Nat.zero_le n) hlt t ht) (not_le.mpr hlater)
    exact renewal_le hzone hgentle hcycle hmn hnext
      (hlow.trans (Int.ediv_le_ediv (by decide) hafter.le)) hspace ht

/-- The zone of an empty name. -/
@[reducible] def defaultZone : ZoneTables :=
  ⟨fun name => if name = defaultTimezone then some beijingLocation else none⟩

/-- A term of a month that ended in 2025, seen in the middle of 2026. -/
theorem nextDue_first_late : ∃ next,
    @nextDue defaultZone (1735689600 * nanosPerSecond) "" 30 (1781740800 * nanosPerSecond) = .ok next ∧
      1781740800 * nanosPerSecond < next := by
  obtain ⟨-, next, -, hnext, -, ⟨hlater, -⟩, -⟩ := @nextDue_first defaultZone (by decide) ""
    (gentle_fixed (by decide)) (1735689600 * nanosPerSecond) 30 (by decide) (by decide)
    (1781740800 * nanosPerSecond) (by decide) (by unfold HasRoom; decide) (by unfold HasRoom; decide)
  exact ⟨next, hnext, hlater⟩

/-- A renewal that gets nowhere is tried as often as the loop allows. -/
theorem catchUp_of_advance_eq [ZoneTables] {zone : String} {billingCycle now next : ℤ}
    (hle : ¬now < next) (hstay : advance next zone billingCycle = .ok next) (fuel : ℕ) :
    catchUp zone billingCycle now fuel next = .ok next := by
  induction fuel with
  | zero => rfl
  | succ fuel ih => simpa only [catchUp, if_neg hle, hstay] using ih

/-- The failure of a term whose renewals get nowhere. -/
theorem nextDue_of_advance_eq [ZoneTables] {expiredAt billingCycle now base : ℤ} {timezone : String}
    (hcycle : 0 < billingCycle) (hfinite : isLongTerm (some expiredAt) = false)
    (hstart : dueBase expiredAt (timezoneOrDefault timezone) now = .ok base)
    (hstay : advance base (timezoneOrDefault timezone) billingCycle = .ok base) (hle : ¬now < base) :
    nextDue expiredAt timezone billingCycle now =
      .error s!"unable to advance expiry past {rfc3339 (now / nanosPerSecond)}" := by
  simp only [nextDue, if_neg (not_le.mpr hcycle), hfinite, Bool.false_eq_true, if_false, hstart]
  change (advance base (timezoneOrDefault timezone) billingCycle >>= _) = _
  rw [hstay]
  change (catchUp (timezoneOrDefault timezone) billingCycle now maxCatchUp base >>= _) = _
  rw [catchUp_of_advance_eq hle hstay]
  exact if_neg hle

/-- A cycle of `2 ^ 62` days, which is a whole number of words of seconds, gets nowhere: the term is not
renewed. -/
theorem nextDue_wraps :
    @Gentle (@location defaultZone "").zone ∧ isLongTerm (some (1735689600 * nanosPerSecond)) = false ∧
      @nextDue defaultZone (1735689600 * nanosPerSecond) "" (2 ^ 62) (1781740800 * nanosPerSecond) =
        .error "unable to advance expiry past 2026-06-18T00:00:00Z" := by
  refine ⟨gentle_fixed (by decide), by decide, ?_⟩
  have hfails := @nextDue_of_advance_eq defaultZone (1735689600 * nanosPerSecond) (2 ^ 62)
    (1781740800 * nanosPerSecond) (1781740800 * nanosPerSecond) "" (by decide) (by decide)
    (by decide +kernel) (by decide +kernel) (lt_irrefl _)
  exact hfails.trans (by decide +kernel)

end Expiry

end Komari
