import Komari.Expiry.Gentle

/-!
# When renewals by months are right

A renewal is right when the month that it should show has the day of the month, and when the zone shows
the clock on that day, or skips it by a change that does not lead out of the month.

* `advance_months_iff` : so renewals are right, and in order, exactly when they fit.
-/

namespace Komari

namespace Expiry

open Calendar TrafficReset

/-! ### The day and the clock -/

/-- The month that is so many months later has the day of the month. -/
def HasDay (w months : ℤ) : Prop := dayOfMonth (wallDay w) ≤ monthLength (wallMonth w + months)

/-- The zone shows the wall clock, or moves its clock over it, at first by two seconds or more and to a
wall clock of the same month that it shows. -/
def KeepsMonth (z : Zone) (w : ℤ) : Prop :=
  Shown z w ∨ ∃ sec, IsLeast {s | Skips z w s ∧ 2 ≤ jumpAt z s} sec ∧
    Shown z (w + nanosPerSecond * jumpAt z sec) ∧
      wallMonth (w + nanosPerSecond * jumpAt z sec) = wallMonth w

/-- An instant that can be renewed by months: the month has the day, and its wall clock is shown, or
what stands for it in the month. -/
structure Renewable (z : Zone) (months t : ℤ) : Prop where
  hasDay : HasDay (wallNanos z t) months
  keepsMonth : KeepsMonth z (clampedWall (wallNanos z t) months)

/-- The dates around an instant do not wrap around. -/
def InDates (t : ℤ) : Prop := -maxUnix ≤ t / nanosPerSecond ∧ t / nanosPerSecond ≤ maxUnix

theorem wallMonth_add {month day clock : ℤ} (hday : 1 ≤ day) (hle : day ≤ monthLength month)
    (hlow : 0 ≤ clock) (hhigh : clock < dayNanos) :
    wallMonth (dayNanos * (monthStart month + day - 1) + clock) = month := by
  rw [wallMonth, wallDay_add hlow hhigh]
  unfold monthLength at hle
  exact monthOfDay_eq (by omega) (by omega)

theorem wallMonth_clampedWall (w months : ℤ) :
    wallMonth (clampedWall w months) = wallMonth w + months := by
  have hlength := (monthStart_succ (wallMonth w + months)).1
  have hday := one_le_dayOfMonth (wallDay w)
  exact wallMonth_add (le_min hday (by unfold monthLength; omega)) (min_le_right _ _)
    (wallClock_nonneg w) (wallClock_lt w)

theorem clampedWall_eq {w months : ℤ} (h : HasDay w months) : clampedWall w months =
    dayNanos * (monthStart (wallMonth w + months) + dayOfMonth (wallDay w) - 1) + wallClock w := by
  unfold HasDay at h
  simp only [clampedWall, min_eq_left h]

/-- The zone shows what it looks up for a wall clock, in its month. -/
theorem keepsMonth_iff {z : Zone} {w : ℤ} :
    KeepsMonth z w ↔ ∃ k, Settled z w k ∧ Shown z k ∧ wallMonth k = wallMonth w := by
  by_cases hw : Shown z w
  · exact ⟨fun _ => ⟨w, Or.inl ⟨hw, rfl⟩, hw, rfl⟩, fun _ => Or.inl hw⟩
  · constructor
    · rintro (hshown | ⟨sec, hleast, hshown, hmonth⟩)
      · exact absurd hshown hw
      · exact ⟨_, Or.inr ⟨hw, sec, hleast, rfl⟩, hshown, hmonth⟩
    · rintro ⟨k, ⟨hshown, -⟩ | ⟨-, sec, hleast, rfl⟩, hk, hmonth⟩
      · exact absurd hshown hw
      · exact Or.inr ⟨sec, hleast, hk, hmonth⟩

/-! ### What is asked for -/

section Asked

variable {z : Zone} {span : Span} {months t : ℤ} (hdays : span.days = 0)
  (hspan : 12 * span.years + span.months = months)

include hdays hspan

theorem movedDay_of_months (w : ℤ) :
    movedDay w span = monthStart (wallMonth w + months) + dayOfMonth (wallDay w) - 1 := by
  rw [movedDay, hdays, hspan, add_zero]

/-- A day that is moved by up to five years is not moved far. -/
theorem dated_noonSec (hmonths : 1 ≤ months ∧ months ≤ 60) (ht : InDates t) :
    Dated (noonSec (wallDay (wallNanos z t))) ∧
      Dated (noonSec (movedDay (wallNanos z t) span)) := by
  have hnear := wallNanos_near z t
  have hfirst := monthStart_near (wallMonth (wallNanos z t))
  have hlast := monthStart_near (wallMonth (wallNanos z t) + months)
  have hnumber : dayOfMonth (wallDay (wallNanos z t)) =
      wallDay (wallNanos z t) - monthStart (wallMonth (wallNanos z t)) + 1 := rfl
  rw [movedDay_of_months hdays hspan, hnumber]
  have hday : wallDay (wallNanos z t) = wallNanos z t / nanosPerSecond / secondsPerDay := rfl
  generalize monthStart (wallMonth (wallNanos z t)) = first at *
  generalize monthStart (wallMonth (wallNanos z t) + months) = last at *
  obtain ⟨hlow, hhigh⟩ := ht
  unfold Dated noonSec maxUnix maxOffset nanosPerSecond secondsPerDay at *
  constructor <;> constructor <;> omega

/-- What is asked for is the clamped wall clock when the month has the day. -/
theorem askedWall_clamped (hmonths : 1 ≤ months ∧ months ≤ 60) (ht : InDates t)
    (hsteady : Steady z span t) (hhas : HasDay (wallNanos z t) months) :
    askedWall z t span = clampedWall (wallNanos z t) months := by
  obtain ⟨hfrom, hto⟩ := dated_noonSec hdays hspan hmonths ht
  rw [askedWall_eq hsteady hfrom hto, movedDay_of_months hdays hspan, clampedWall_eq hhas]

/-- **What is asked for is right** when the month has the day and the zone keeps its wall clock in the
month: `AddDate` carries the days of a longer month over into the next one. -/
theorem monthKept_iff (hmonths : 1 ≤ months ∧ months ≤ 60) (ht : InDates t)
    (hsteady : Steady z span t) : MonthKept z span months t ↔ Renewable z months t := by
  by_cases hhas : HasDay (wallNanos z t) months
  · have hclamped := askedWall_clamped hdays hspan hmonths ht hsteady hhas
    have hmonth := wallMonth_clampedWall (wallNanos z t) months
    constructor
    · rintro ⟨k, hsettled, hshown, -, hk⟩
      rw [hclamped] at hsettled
      exact ⟨hhas, keepsMonth_iff.mpr ⟨k, hsettled, hshown, hk.trans hmonth.symm⟩⟩
    · rintro ⟨-, hkeeps⟩
      obtain ⟨k, hsettled, hshown, hk⟩ := keepsMonth_iff.mp hkeeps
      exact ⟨k, hclamped ▸ hsettled, hshown, hsettled.settles, hk.trans hmonth⟩
  · refine iff_of_false (not_monthKept_of_lt ?_) fun hrenewable => hhas hrenewable.hasDay
    obtain ⟨hfrom, hto⟩ := dated_noonSec hdays hspan hmonths ht
    -- the day lies behind the end of the month
    refine Int.add_one_le_iff.mp (le_monthOfDay_iff.mpr ?_)
    rw [askedWall_eq hsteady hfrom hto, movedDay_of_months hdays hspan,
      wallDay_add (wallClock_nonneg _) (wallClock_lt _)]
    unfold HasDay monthLength at hhas
    omega

end Asked

/-! ### Order -/

section Gentle

variable {z : Zone} (h : Gentle z) {months t₁ t₂ : ℤ}

include h

/-- Instants in order, with equal clocks, show their dates in order. -/
theorem Gentle.wallDay_le (hle : t₁ ≤ t₂) (hclock : SameClock z t₁ t₂) :
    wallDay (wallNanos z t₁) ≤ wallDay (wallNanos z t₂) := by
  by_contra hlt
  have h₁ := wallDay_add_wallClock (wallNanos z t₁)
  have h₂ := wallDay_add_wallClock (wallNanos z t₂)
  unfold SameClock at hclock
  refine absurd (h.lt_of_wall (t := t₂) (u := t₁) ?_) (not_lt.mpr hle)
  unfold dayNanos hourNanos nanosPerSecond secondsPerDay at *
  omega

/-- Days that both months have are in order some months later. -/
theorem Gentle.clampedWall_le (hhas₁ : HasDay (wallNanos z t₁) months)
    (hhas₂ : HasDay (wallNanos z t₂) months) (hle : t₁ ≤ t₂) (hclock : SameClock z t₁ t₂) :
    clampedWall (wallNanos z t₁) months = clampedWall (wallNanos z t₂) months ∨
      clampedWall (wallNanos z t₁) months + dayNanos ≤ clampedWall (wallNanos z t₂) months := by
  have hdays := h.wallDay_le hle hclock
  rw [clampedWall_eq hhas₁, clampedWall_eq hhas₂, ← show _ = _ from hclock]
  unfold HasDay at hhas₁ hhas₂
  have hone := one_le_dayOfMonth (wallDay (wallNanos z t₂))
  have hmoved : monthStart (wallMonth (wallNanos z t₁) + months) +
      dayOfMonth (wallDay (wallNanos z t₁)) ≤ monthStart (wallMonth (wallNanos z t₂) + months) +
        dayOfMonth (wallDay (wallNanos z t₂)) := by
    have hmonth : wallMonth (wallNanos z t₁) ≤ wallMonth (wallNanos z t₂) :=
      le_monthOfDay_iff.mpr ((monthStart_le _).trans hdays)
    rcases hmonth.eq_or_lt with heq | hlt
    · unfold wallMonth at heq
      simp only [wallMonth, dayOfMonth, heq]
      omega
    · have hnext := monthStart_strictMono.monotone (show wallMonth (wallNanos z t₁) + months + 1 ≤
        wallMonth (wallNanos z t₂) + months by omega)
      unfold monthLength at hhas₁
      omega
  generalize monthStart (wallMonth (wallNanos z t₁) + months) +
    dayOfMonth (wallDay (wallNanos z t₁)) = day₁ at *
  generalize monthStart (wallMonth (wallNanos z t₂) + months) +
    dayOfMonth (wallDay (wallNanos z t₂)) = day₂ at *
  unfold dayNanos nanosPerSecond secondsPerDay
  omega

/-- **Renewals that fit are in order**: a gap is shorter than a day. -/
theorem Gentle.inOrder (hhas₁ : HasDay (wallNanos z t₁) months)
    (hhas₂ : HasDay (wallNanos z t₂) months) (hle : t₁ ≤ t₂) (hclock : SameClock z t₁ t₂) :
    InOrder z (clampedWall (wallNanos z t₁) months) (clampedWall (wallNanos z t₂) months) := by
  intro k₁ k₂ hk₁ hk₂ u₂ hu₂
  rcases h.clampedWall_le hhas₁ hhas₂ hle hclock with heq | hday
  · rw [heq] at hk₁
    exact ⟨u₂, le_rfl, hu₂.trans (hk₂.unique hk₁)⟩
  · obtain ⟨k, hsettled, u₁, hu₁⟩ := h.exists_settled (clampedWall (wallNanos z t₁) months)
    obtain rfl := hsettled.unique hk₁
    have hle₂ := hk₂.settles.le
    have hgap := h.lt_of_settles hk₁.settles
    refine ⟨u₁, (h.lt_of_wall ?_).le, hu₁⟩
    rw [hu₁, hu₂]
    unfold dayNanos hourNanos nanosPerSecond secondsPerDay at *
    omega

end Gentle

/-! ### Renewals -/

theorem renewable_fixed {offset : ℤ} (h : -84600 < offset ∧ offset < 84600) (months t : ℤ) :
    Renewable (ZoneTable.fixed offset h).zone months t ↔
      HasDay (wallNanos (ZoneTable.fixed offset h).zone t) months := by
  refine ⟨Renewable.hasDay, fun hhas => ⟨hhas, Or.inl ?_⟩⟩
  exact shown_of_offset (ZoneTable.offset_zone_fixed offset h _)

/-- **When renewals are right.**  In a zone that is steady around the noons of the dates, two renewals by
months show the months and the clocks that they should, and are in order, exactly when each month has the
day and the zone keeps the wall clock in it, and when the zone shows the two in order.  In a gentle zone
the order is no condition; in a zone without changes, only the day is.  In every zone, they are right
when what is looked up for the date of `AddDate` stands for the clamped wall clock. -/
theorem advance_months_iff [ZoneTables] {timezone zone : String} {billingCycle months : ℤ}
    (hzone : normalizeTimezone timezone = .ok zone)
    (hcycle : monthsOfCycle billingCycle = some months) (t₁ t₂ : ℤ) :
    let z := (location zone).zone
    let span := cycleSpan billingCycle
    let right := RenewsInOrder (fun t => advance t timezone billingCycle) z months t₁ t₂
    (InDates t₁ → InDates t₂ → Steady z span t₁ → Steady z span t₂ →
      (right ↔ Renewable z months t₁ ∧ Renewable z months t₂ ∧ (t₁ ≤ t₂ → SameClock z t₁ t₂ →
        InOrder z (clampedWall (wallNanos z t₁) months) (clampedWall (wallNanos z t₂) months)))) ∧
    (InDates t₁ → InDates t₂ → Gentle z → (right ↔ Renewable z months t₁ ∧ Renewable z months t₂)) ∧
    (right ↔ MonthKept z span months t₁ ∧ MonthKept z span months t₂ ∧
      (t₁ ≤ t₂ → SameClock z t₁ t₂ → InOrder z (askedWall z t₁ span) (askedWall z t₂ span))) ∧
    ∀ (offset : ℤ) (h : -84600 < offset ∧ offset < 84600) (t : ℤ),
      Renewable (ZoneTable.fixed offset h).zone months t ↔
        HasDay (wallNanos (ZoneTable.fixed offset h).zone t) months := by
  intro z span right
  obtain ⟨⟨-, hone⟩, hdays, hspan⟩ := cycleSpan_of_months hcycle
  have hmonths : 1 ≤ months ∧ months ≤ 60 := ⟨hone, le_of_monthsOfCycle hcycle⟩
  have hright : right ↔ _ := renewals_iff hzone hcycle t₁ t₂
  have hsteady : InDates t₁ → InDates t₂ → Steady z span t₁ → Steady z span t₂ →
      (right ↔ Renewable z months t₁ ∧ Renewable z months t₂ ∧ (t₁ ≤ t₂ → SameClock z t₁ t₂ →
        InOrder z (clampedWall (wallNanos z t₁) months) (clampedWall (wallNanos z t₂) months))) := by
    intro ht₁ ht₂ hs₁ hs₂
    rw [hright, monthKept_iff hdays hspan hmonths ht₁ hs₁, monthKept_iff hdays hspan hmonths ht₂ hs₂]
    refine and_congr_right fun hfit₁ => and_congr_right fun hfit₂ => ?_
    rw [askedWall_clamped hdays hspan hmonths ht₁ hs₁ hfit₁.hasDay,
      askedWall_clamped hdays hspan hmonths ht₂ hs₂ hfit₂.hasDay]
  refine ⟨hsteady, fun ht₁ ht₂ hgentle => ?_, hright, fun offset h t => renewable_fixed h months t⟩
  rw [hsteady ht₁ ht₂ (hgentle.steady span t₁) (hgentle.steady span t₂), ← and_assoc]
  exact and_iff_left_of_imp fun hrenewable hle hclock =>
    hgentle.inOrder hrenewable.1.hasDay hrenewable.2.hasDay hle hclock

/-- The 15th of January is renewed to the 15th of February in the default zone. -/
theorem advance_months_iff_january :
    Renews (fun t => @advance noZones t "" 30) (@location noZones defaultTimezone).zone 1
      (1768442400 * nanosPerSecond) := by
  have h := @advance_months_iff noZones "" defaultTimezone 30 1 rfl rfl (1768442400 * nanosPerSecond)
    (1768442400 * nanosPerSecond)
  have hrenewable := (h.2.2.2 (8 * 60 * 60) (by decide) (1768442400 * nanosPerSecond)).mpr
    (by unfold HasDay; decide +kernel)
  exact ((h.2.1 (by unfold InDates; decide) (by unfold InDates; decide)
    (gentle_fixed (by decide))).mpr ⟨hrenewable, hrenewable⟩).1

/-- The 31st of January is renewed to the 3rd of March: February is skipped. -/
theorem advance_skips_february : ¬∀ (zones : ZoneTables) (timezone zone : String)
    (billingCycle months : ℤ), @normalizeTimezone zones timezone = .ok zone →
      monthsOfCycle billingCycle = some months → ∀ t₁ t₂ : ℤ,
        RenewsInOrder (fun t => @advance zones t timezone billingCycle) (@location zones zone).zone
          months t₁ t₂ := by
  intro h
  obtain ⟨r, hr, hmoves⟩ := (h noZones "" defaultTimezone 30 1 rfl rfl
    (1769824800 * nanosPerSecond) (1769824800 * nanosPerSecond)).1
  have hadvance : @advance noZones (1769824800 * nanosPerSecond) "" 30 =
      .ok (1772503200 * nanosPerSecond) := by decide +kernel
  obtain rfl : 1772503200 * nanosPerSecond = r := Except.ok.inj (hadvance.symm.trans hr)
  exact absurd hmoves.month (by decide +kernel)

end Expiry

end Komari
