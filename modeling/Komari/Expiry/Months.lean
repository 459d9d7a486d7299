import Komari.Expiry.Gap

/-!
# Renewals by months

A renewal should show the month that is so many months later, with the day of the month, or the last
day of a shorter month, and the clock.  The date is moved by `AddDate`, which carries days over into
the following month; the schedule of traffic resets clamps them instead.
-/

namespace Komari

namespace Expiry

open Calendar TrafficReset

/-! ### Months of wall clocks -/

def dayNanos : ℤ := nanosPerSecond * secondsPerDay

/-- The day of a wall clock. -/
def wallDay (w : ℤ) : ℤ := w / nanosPerSecond / secondsPerDay

/-- The month of a wall clock. -/
def wallMonth (w : ℤ) : ℤ := monthOfDay (wallDay w)

/-- The time of day of a wall clock. -/
def wallClock (w : ℤ) : ℤ := w - dayNanos * wallDay w

/-- The number of days. -/
def monthLength (month : ℤ) : ℤ := monthStart (month + 1) - monthStart month

/-- The wall clock some months later: with its day of the month and its time of day, where a month that
does not have the day shows its last day. -/
def clampedWall (w months : ℤ) : ℤ :=
  let month := wallMonth w + months
  dayNanos * (monthStart month + min (dayOfMonth (wallDay w)) (monthLength month) - 1) + wallClock w

theorem wallClock_nonneg (w : ℤ) : 0 ≤ wallClock w := by
  unfold wallClock wallDay dayNanos nanosPerSecond secondsPerDay
  omega

theorem wallClock_lt (w : ℤ) : wallClock w < dayNanos := by
  unfold wallClock wallDay dayNanos nanosPerSecond secondsPerDay
  omega

theorem wallDay_add {day clock : ℤ} (hlow : 0 ≤ clock) (hhigh : clock < dayNanos) :
    wallDay (dayNanos * day + clock) = day := by
  unfold wallDay dayNanos nanosPerSecond secondsPerDay at *
  omega

/-- A later month begins at least 28 days later, and so the day in it is. -/
theorem clampedWall_ge {w months : ℤ} (hmonths : 1 ≤ months) :
    w + 28 * dayNanos ≤ clampedWall w months := by
  have hstart := monthStart_add_le (show wallMonth w < wallMonth w + months by omega)
  have hnext := monthStart_add_le (show wallMonth w + 1 < wallMonth w + months + 1 by omega)
  have hday := lt_monthStart_succ (wallDay w)
  have hclock : w = dayNanos * wallDay w + wallClock w := by
    unfold wallClock
    omega
  change wallDay w < monthStart (wallMonth w + 1) at hday
  have hlow : wallDay w + 28 ≤ monthStart (wallMonth w + months) +
      min (dayOfMonth (wallDay w)) (monthLength (wallMonth w + months)) - 1 := by
    have hnumber : wallDay w = monthStart (wallMonth w) + dayOfMonth (wallDay w) - 1 := by
      unfold dayOfMonth wallMonth
      omega
    unfold monthLength
    omega
  have hmul := mul_le_mul_of_nonneg_left hlow (show 0 ≤ dayNanos by decide)
  rw [Int.mul_add] at hmul
  unfold clampedWall
  dsimp only
  omega

/-! ### The wall clock that is asked for -/

/-- The wall clock of `askedTime`. -/
def askedWall (z : Zone) (t : ℤ) (span : Span) : ℤ := civilUTC (askedTime z t span)

theorem withClock_utcTime (a b : ℤ) :
    withClock (utcTime a) (utcTime b) = utcTime (dayNanos * wallDay a + wallClock b) := by
  have hlow := wallClock_nonneg b
  have hhigh := wallClock_lt b
  have hday : wallDay (dayNanos * wallDay a + wallClock b) = wallDay a := wallDay_add hlow hhigh
  have hsec : (dayNanos * wallDay a + wallClock b) / nanosPerSecond % secondsPerDay =
      b / nanosPerSecond % secondsPerDay := by
    unfold wallClock wallDay dayNanos nanosPerSecond secondsPerDay
    omega
  have hnano : (dayNanos * wallDay a + wallClock b) % nanosPerSecond = b % nanosPerSecond := by
    unfold wallClock wallDay dayNanos nanosPerSecond secondsPerDay
    omega
  unfold wallDay at hday hsec hnano
  simp only [withClock, utcTime, hday, hsec, hnano, wallDay]

theorem utcTime_askedWall (z : Zone) (t : ℤ) (span : Span) :
    utcTime (askedWall z t span) = askedTime z t span := by
  simp only [askedWall, askedTime, localTime, withClock_utcTime, civilUTC_utcTime]

/-! ### Renewals -/

/-- `r` renews `t` by months: later, in the month, and at the clamped wall clock or behind a gap over
it. -/
structure Moves (z : Zone) (months t r : ℤ) : Prop where
  later : t < r
  month : wallMonth (wallNanos z r) = wallMonth (wallNanos z t) + months
  /-- The clock is kept, or moved by the gap. -/
  clock : Settles z (clampedWall (wallNanos z t) months) (wallNanos z r)

/-- The instant is renewed, and by months. -/
def Renews (renewal : ℤ → Except String ℤ) (z : Zone) (months t : ℤ) : Prop :=
  ∃ r, renewal t = .ok r ∧ Moves z months t r

/-- The wall clocks of two instants show the same time of day. -/
def SameClock (z : Zone) (t₁ t₂ : ℤ) : Prop := wallClock (wallNanos z t₁) = wallClock (wallNanos z t₂)

/-- What is looked up for the wall clock that is asked for is shown, lies in the month, and stands for
the clamped wall clock. -/
def MonthKept (z : Zone) (span : Span) (months t : ℤ) : Prop :=
  ∃ k, Settled z (askedWall z t span) k ∧ Shown z k ∧
    Settles z (clampedWall (wallNanos z t) months) k ∧
      wallMonth k = wallMonth (wallNanos z t) + months

/-- The zone shows what stands for the first wall clock before what stands for the second. -/
def InOrder (z : Zone) (w₁ w₂ : ℤ) : Prop :=
  ∀ k₁ k₂, Settled z w₁ k₁ → Settled z w₂ k₂ →
    ∀ u₂, wallNanos z u₂ = k₂ → ∃ u₁ ≤ u₂, wallNanos z u₁ = k₁

/-- Two instants are renewed by months, and in order when their clocks are equal. -/
def RenewsInOrder (renewal : ℤ → Except String ℤ) (z : Zone) (months t₁ t₂ : ℤ) : Prop :=
  Renews renewal z months t₁ ∧ Renews renewal z months t₂ ∧
    (t₁ ≤ t₂ → SameClock z t₁ t₂ →
      ∀ r₁ r₂, renewal t₁ = .ok r₁ → renewal t₂ = .ok r₂ → r₁ ≤ r₂)

/-- The months of a billing cycle in days. -/
def monthsOfCycle (billingCycle : ℤ) : Option ℤ :=
  if 27 ≤ billingCycle ∧ billingCycle ≤ 32 then some 1
  else if 87 ≤ billingCycle ∧ billingCycle ≤ 95 then some 3
  else if 175 ≤ billingCycle ∧ billingCycle ≤ 185 then some 6
  else if 360 ≤ billingCycle ∧ billingCycle ≤ 370 then some 12
  else if 720 ≤ billingCycle ∧ billingCycle ≤ 750 then some 24
  else if 1080 ≤ billingCycle ∧ billingCycle ≤ 1150 then some 36
  else if 1800 ≤ billingCycle ∧ billingCycle ≤ 1850 then some 60
  else none

theorem cycleSpan_of_months {billingCycle months : ℤ} (h : monthsOfCycle billingCycle = some months) :
    (0 < billingCycle ∧ 1 ≤ months) ∧ (cycleSpan billingCycle).days = 0 ∧
      12 * (cycleSpan billingCycle).years + (cycleSpan billingCycle).months = months := by
  unfold monthsOfCycle at h
  unfold cycleSpan
  split_ifs at h ⊢ <;> cases h <;> exact ⟨⟨by omega, by decide⟩, rfl, rfl⟩

theorem le_of_monthsOfCycle {billingCycle months : ℤ} (h : monthsOfCycle billingCycle = some months) :
    months ≤ 60 := by
  unfold monthsOfCycle at h
  split_ifs at h <;> cases h <;> decide

/-- A wall clock that is shown is shown first. -/
theorem exists_isLeast {table : ZoneTable} {k : ℤ} (h : Shown table.zone k) :
    ∃ r, IsLeast {u | wallNanos table.zone u = k} r := by
  obtain ⟨r, rest, hmatches⟩ :=
    List.exists_cons_of_ne_nil (fun hnil => matchingWallTimes_eq_nil.mp hnil h)
  exact ⟨r, isLeast_of_matchingWallTimes hmatches⟩

/-- A renewal by a month is later, whatever the offsets. -/
theorem lt_of_settles {table : ZoneTable} {months t r : ℤ} (hmonths : 1 ≤ months)
    (h : Settles table.zone (clampedWall (wallNanos table.zone t) months) (wallNanos table.zone r)) :
    t < r := by
  have hge := (clampedWall_ge (w := wallNanos table.zone t) hmonths).trans h.le
  have h₁ := table.offset_zone_lt (t / nanosPerSecond)
  have h₂ := table.offset_zone_lt (r / nanosPerSecond)
  unfold wallNanos offsetNanos dayNanos nanosPerSecond secondsPerDay at *
  omega

section Advance

variable [ZoneTables] {timezone zone : String} {billingCycle months : ℤ}

section

variable (hzone : normalizeTimezone timezone = .ok zone)

include hzone

/-- A renewal is the first instant of what is looked up. -/
theorem advance_ok (hcycle : 0 < billingCycle) {t r : ℤ} : advance t timezone billingCycle = .ok r ↔
      ∃ k, Settled (location zone).zone (askedWall (location zone).zone t (cycleSpan billingCycle)) k ∧
        IsLeast {u | wallNanos (location zone).zone u = k} r := by
  simp only [advance, if_neg (not_le.mpr hcycle), hzone]
  rw [← utcTime_askedWall, resolveWallTime_ok]

theorem renews_iff (hcycle : monthsOfCycle billingCycle = some months) (t : ℤ) :
    Renews (fun t => advance t timezone billingCycle) (location zone).zone months t ↔
      MonthKept (location zone).zone (cycleSpan billingCycle) months t := by
  obtain ⟨⟨hpos, hmonths⟩, -⟩ := cycleSpan_of_months hcycle
  constructor
  · rintro ⟨r, hr, -, hmonth, hclock⟩
    obtain ⟨k, hsettled, hleast⟩ := (advance_ok hzone hpos).mp hr
    obtain rfl : wallNanos (location zone).zone r = k := hleast.1
    exact ⟨_, hsettled, ⟨r, rfl⟩, hclock, hmonth⟩
  · rintro ⟨k, hsettled, hshown, hclock, hmonth⟩
    obtain ⟨r, hleast⟩ := exists_isLeast hshown
    obtain rfl : wallNanos (location zone).zone r = k := hleast.1
    exact ⟨r, (advance_ok hzone hpos).mpr ⟨_, hsettled, hleast⟩, lt_of_settles hmonths hclock, hmonth,
      hclock⟩

theorem renewals_iff (hcycle : monthsOfCycle billingCycle = some months) (t₁ t₂ : ℤ) :
    RenewsInOrder (fun t => advance t timezone billingCycle) (location zone).zone months t₁ t₂ ↔
      MonthKept (location zone).zone (cycleSpan billingCycle) months t₁ ∧
      MonthKept (location zone).zone (cycleSpan billingCycle) months t₂ ∧
      (t₁ ≤ t₂ → SameClock (location zone).zone t₁ t₂ →
        InOrder (location zone).zone (askedWall (location zone).zone t₁ (cycleSpan billingCycle))
          (askedWall (location zone).zone t₂ (cycleSpan billingCycle))) := by
  obtain ⟨⟨hpos, -⟩, -⟩ := cycleSpan_of_months hcycle
  rw [RenewsInOrder, renews_iff hzone hcycle, renews_iff hzone hcycle]
  refine and_congr_right fun hkept₁ => and_congr_right fun hkept₂ => ?_
  refine forall_congr' fun _ => forall_congr' fun _ => ?_
  constructor
  · intro hle k₁ k₂ hk₁ hk₂ u₂ hu₂
    obtain ⟨r₁, hr₁, -⟩ := (renews_iff hzone hcycle t₁).mpr hkept₁
    obtain ⟨k, hk, hleast₁⟩ := (advance_ok hzone hpos).mp hr₁
    obtain rfl := hk.unique hk₁
    obtain ⟨r₂, hleast₂⟩ := exists_isLeast ⟨u₂, hu₂⟩
    have hr₂ := (advance_ok hzone hpos).mpr ⟨k₂, hk₂, hleast₂⟩
    exact ⟨r₁, (hle r₁ r₂ hr₁ hr₂).trans (hleast₂.2 hu₂), hleast₁.1⟩
  · intro horder r₁ r₂ hr₁ hr₂
    obtain ⟨k₁, hk₁, hleast₁⟩ := (advance_ok hzone hpos).mp hr₁
    obtain ⟨k₂, hk₂, hleast₂⟩ := (advance_ok hzone hpos).mp hr₂
    obtain ⟨u₁, hle, hu₁⟩ := horder k₁ k₂ hk₁ hk₂ r₂ hleast₂.1
    exact (hleast₁.2 hu₁).trans hle

end

end Advance

theorem wallMonth_mono {w w' : ℤ} (h : w ≤ w') : wallMonth w ≤ wallMonth w' := by
  refine le_monthOfDay_iff.mpr ((monthStart_le (wallDay w)).trans ?_)
  exact Int.ediv_le_ediv (by decide) (Int.ediv_le_ediv (by decide) h)

/-- A renewal is wrong when `AddDate` carries the date over the end of the month. -/
theorem not_monthKept_of_lt {z : Zone} {span : Span} {months t : ℤ}
    (h : wallMonth (wallNanos z t) + months < wallMonth (askedWall z t span)) :
    ¬MonthKept z span months t := by
  rintro ⟨k, hsettled, -, -, hmonth⟩
  have := wallMonth_mono hsettled.settles.le
  omega

theorem utcTime_noonOf (w : ℤ) : { utcTime w with hour := 12, minute := 0, second := 0, nano := 0 } =
    utcTime (dayNanos * wallDay w + 12 * hourNanos) := by
  have hnoon : utcTime (12 * hourNanos) = ⟨1970, 1, 1, 12, 0, 0, 0⟩ := by decide
  have hclock : wallClock (12 * hourNanos) = 12 * hourNanos := by decide
  have h := withClock_utcTime w (12 * hourNanos)
  rwa [hnoon, hclock] at h

end Expiry

end Komari
