import Komari.Expiry.Months
import Mathlib.Data.Int.LeastGreatest

/-!
# Zones with small and rare changes

Where the offsets around noon hardly differ, the date that `AddDate` moves is the one that is meant.
In a gentle zone offsets change by whole minutes, by less than three hours, and not twice within four
days.  Then every wall clock stands for one that the zone shows, and a wall clock that is hours ahead is
shown later.
-/

namespace Komari

namespace Expiry

open Calendar TrafficReset

/-- Offsets change by whole minutes, by less than three hours, and not twice within four days. -/
structure Gentle (z : Zone) : Prop where
  /-- A change is one of whole minutes. -/
  minutes : ∀ sec, 60 ∣ jumpAt z sec
  /-- A change is less than three hours. -/
  small : ∀ sec, -10800 < jumpAt z sec ∧ jumpAt z sec < 10800
  /-- Changes are four days apart. -/
  apart : ∀ sec sec', jumpAt z sec ≠ 0 → jumpAt z sec' ≠ 0 → sec < sec' → sec + 4 * secondsPerDay ≤ sec'

theorem gentle_fixed {offset : ℤ} (h : -84600 < offset ∧ offset < 84600) :
    Gentle (ZoneTable.fixed offset h).zone where
  minutes sec := by simp [jumpAt]
  small sec := by simp [jumpAt]
  apart sec sec' hsec := by simp [jumpAt] at hsec

theorem offset_eq_of_jumpAt {z : Zone} {first last : ℤ} (hle : first ≤ last)
    (h : ∀ sec, first < sec → sec ≤ last → jumpAt z sec = 0) : z.offset last = z.offset first := by
  obtain ⟨n, rfl⟩ := Int.le.dest hle
  induction n with
  | zero => simp
  | succ n ih =>
    have hjump := h (first + (n + 1 : ℕ)) (by omega) le_rfl
    have hprev := ih (by omega) fun sec hlow hhigh => h sec hlow (by omega)
    rw [jumpAt, show first + ((n + 1 : ℕ) : ℤ) - 1 = first + (n : ℕ) by omega, sub_eq_zero] at hjump
    exact hjump.trans hprev

section Gentle

variable {z : Zone} (h : Gentle z)

include h

/-- From a change on, the offset stays for four days. -/
theorem Gentle.offset_after {sec last : ℤ} (hjump : jumpAt z sec ≠ 0) (hle : sec ≤ last)
    (hlt : last < sec + 4 * secondsPerDay) : z.offset last = z.offset sec := by
  refine offset_eq_of_jumpAt hle fun s hlow hhigh => ?_
  by_contra hne
  have := h.apart sec s hjump hne hlow
  omega

/-- Within four days the offset changes by less than three hours. -/
theorem Gentle.offset_near_of_le {first last : ℤ} (hle : first ≤ last)
    (hlt : last < first + 4 * secondsPerDay) :
    -10800 < z.offset last - z.offset first ∧ z.offset last - z.offset first < 10800 := by
  by_cases hchange : ∃ sec, (first < sec ∧ sec ≤ last) ∧ jumpAt z sec ≠ 0
  · obtain ⟨sec, ⟨hlow, hhigh⟩, hne⟩ := hchange
    -- the only change: nothing happens before it and behind it
    have hbefore : z.offset (sec - 1) = z.offset first := by
      refine offset_eq_of_jumpAt (by omega) fun s hlow' hhigh' => ?_
      by_contra hne'
      have := h.apart s sec hne' hne (by omega)
      omega
    have hafter := h.offset_after hne hhigh (by omega)
    have hsmall := h.small sec
    unfold jumpAt at hsmall
    omega
  · have := offset_eq_of_jumpAt hle fun sec hlow hhigh => not_not.mp fun hne =>
      hchange ⟨sec, ⟨hlow, hhigh⟩, hne⟩
    omega

theorem Gentle.offset_near (sec sec' : ℤ) (hlow : sec - 4 * secondsPerDay < sec')
    (hhigh : sec' < sec + 4 * secondsPerDay) :
    -10800 < z.offset sec' - z.offset sec ∧ z.offset sec' - z.offset sec < 10800 := by
  rcases le_total sec sec' with hle | hle
  · exact h.offset_near_of_le hle hhigh
  · have := h.offset_near_of_le hle (by omega)
    omega

/-- **A wall clock that is three hours ahead is shown later.** -/
theorem Gentle.lt_of_wall {t u : ℤ} (hahead : wallNanos z t + 3 * hourNanos ≤ wallNanos z u) : t < u := by
  by_contra hle
  have hsecs : u / nanosPerSecond ≤ t / nanosPerSecond := Int.ediv_le_ediv (by decide) (not_lt.mp hle)
  have ht := z.offset_lt (t / nanosPerSecond)
  have hu := z.offset_lt (u / nanosPerSecond)
  have hnear := h.offset_near_of_le hsecs
  change -maxOffset < z.offset _ ∧ z.offset _ < maxOffset at ht hu
  unfold wallNanos offsetNanos hourNanos at hahead
  unfold maxOffset at ht hu
  unfold nanosPerSecond secondsPerDay at *
  omega

/-! ### What is looked up -/

omit h in
/-- Where a wall clock is not shown, some change skips it. -/
theorem exists_skips {w : ℤ} (hw : ¬Shown z w) : ∃ sec, Skips z w sec := by
  -- the first second whose wall clock is behind `w`
  obtain ⟨sec, hsec, hleast⟩ := Int.exists_least_of_bdd
    (P := fun s => w / nanosPerSecond < s + z.offset s)
    ⟨w / nanosPerSecond - maxOffset, fun s hs => by
      have hoffset : z.offset s < maxOffset := (z.offset_lt s).2
      omega⟩
    ⟨w / nanosPerSecond + maxOffset, by
      have hoffset := (z.offset_lt (w / nanosPerSecond + maxOffset)).1
      change -maxOffset < z.offset _ at hoffset
      omega⟩
  have hbefore : sec - 1 + z.offset (sec - 1) ≤ w / nanosPerSecond := by
    by_contra hlt
    have := hleast (sec - 1) (not_le.mp hlt)
    omega
  have hne : sec - 1 + z.offset (sec - 1) ≠ w / nanosPerSecond := by
    intro heq
    refine hw ⟨nanosPerSecond * (sec - 1) + w % nanosPerSecond, ?_⟩
    rw [wallNanos_add (Int.emod_nonneg _ (by decide)) (Int.emod_lt_of_pos _ (by decide)), heq]
    exact Int.mul_ediv_add_emod w nanosPerSecond
  refine ⟨sec, ?_, ?_⟩
  · unfold nanosPerSecond at *
    omega
  · unfold nanosPerSecond at *
    omega

omit h in
theorem Skips.near {w sec : ℤ} (hskips : Skips z w sec) :
    w / nanosPerSecond - maxOffset < sec ∧ sec < w / nanosPerSecond + maxOffset := by
  have h₁ : -maxOffset < z.offset (sec - 1) := (z.offset_lt (sec - 1)).1
  have h₂ : z.offset sec < maxOffset := (z.offset_lt sec).2
  obtain ⟨hlow, hhigh⟩ := hskips
  unfold maxOffset nanosPerSecond at *
  omega

/-- A change that skips a wall clock moves the clock forward by a minute or more. -/
theorem Gentle.jump_of_skips {w sec : ℤ} (hskips : Skips z w sec) : 60 ≤ jumpAt z sec := by
  obtain ⟨hlow, hhigh⟩ := hskips
  obtain ⟨k, hk⟩ := h.minutes sec
  have hlt := hlow.trans_lt hhigh
  unfold jumpAt nanosPerSecond at *
  omega

/-- **What is looked up for a wall clock is shown.** -/
theorem Gentle.exists_settled (w : ℤ) : ∃ k, Settled z w k ∧ Shown z k := by
  by_cases hw : Shown z w
  · exact ⟨w, Or.inl ⟨hw, rfl⟩, hw⟩
  obtain ⟨sec, hskips⟩ := exists_skips hw
  have hjump := h.jump_of_skips hskips
  have hnear := hskips.near
  refine ⟨w + nanosPerSecond * jumpAt z sec, Or.inr ⟨hw, sec, ⟨⟨hskips, by omega⟩, ?_⟩, rfl⟩,
    w - nanosPerSecond * z.offset (sec - 1), ?_⟩
  · -- no other change lies so near
    rintro s ⟨hskips', hjump'⟩
    have hnear' := hskips'.near
    by_contra hlt
    have := h.apart s sec (by omega) (by omega) (not_le.mp hlt)
    unfold maxOffset secondsPerDay at *
    omega
  · -- the offset behind the gap is in force
    have hdiv : (w - nanosPerSecond * z.offset (sec - 1)) / nanosPerSecond =
        w / nanosPerSecond - z.offset (sec - 1) := by
      unfold nanosPerSecond
      omega
    have hsmall := (h.small sec).2
    obtain ⟨hlow, hhigh⟩ := hskips
    have hoffset : z.offset (w / nanosPerSecond - z.offset (sec - 1)) = z.offset sec := by
      refine h.offset_after (by omega) ?_ ?_
      · unfold nanosPerSecond at *
        omega
      · unfold jumpAt nanosPerSecond secondsPerDay at *
        omega
    rw [wallNanos, offsetNanos, hdiv, hoffset, jumpAt]
    ring

/-- What stands for a wall clock is less than three hours ahead. -/
theorem Gentle.lt_of_settles {w k : ℤ} (hsettles : Settles z w k) : k < w + 3 * hourNanos := by
  rcases hsettles with ⟨-, rfl⟩ | ⟨-, sec, -, rfl⟩
  · unfold hourNanos nanosPerSecond
    omega
  · have := (h.small sec).2
    unfold hourNanos nanosPerSecond
    omega

end Gentle

/-! ### Dates -/

/-- The day to which a span of years, months and days moves the day of a wall clock. -/
def movedDay (w : ℤ) (span : Span) : ℤ :=
  monthStart (wallMonth w + (12 * span.years + span.months)) + dayOfMonth (wallDay w) - 1 + span.days

/-- The day and the time of day of a wall clock. -/
theorem wallDay_add_wallClock (w : ℤ) : dayNanos * wallDay w + wallClock w = w := by
  unfold wallClock
  omega

theorem wallDay_mono {w w' : ℤ} (h : w ≤ w') : wallDay w ≤ wallDay w' :=
  Int.ediv_le_ediv (by decide) (Int.ediv_le_ediv (by decide) h)

/-- The fields that `AddDate` passes to `time.Date`. -/
def carry (c : LocalTime) (span : Span) : LocalTime :=
  { c with year := c.year + span.years, month := c.month + span.months, day := c.day + span.days }

theorem civilUTC_carry (w : ℤ) (span : Span) :
    civilUTC (carry (utcTime w) span) = dayNanos * movedDay w span + wallClock w := by
  have hwhole := civilUTC_utcTime w
  have hclock := wallDay_add_wallClock w
  have hmonth : 12 * ((utcTime w).year + span.years) + ((utcTime w).month + span.months) - 1 =
      wallMonth w + (12 * span.years + span.months) := by
    change 12 * (wallMonth w / 12 + span.years) + (wallMonth w % 12 + 1 + span.months) - 1 = _
    omega
  have hmonth' : 12 * (utcTime w).year + (utcTime w).month - 1 = wallMonth w := by
    change 12 * (wallMonth w / 12) + (wallMonth w % 12 + 1) - 1 = _
    omega
  have hday : (utcTime w).day = wallDay w - monthStart (wallMonth w) + 1 := rfl
  simp only [civilUTC, carry, hmonth, hmonth', hday] at hwhole ⊢
  have hnumber : dayOfMonth (wallDay w) = wallDay w - monthStart (wallMonth w) + 1 := rfl
  rw [movedDay, hnumber]
  unfold dayNanos at hclock ⊢
  unfold nanosPerSecond secondsPerDay at *
  omega

/-- A billing cycle moves the day by one day at least. -/
theorem lt_movedDay {billingCycle : ℤ} (hcycle : 0 < billingCycle) (w : ℤ) :
    wallDay w < movedDay w (cycleSpan billingCycle) := by
  have hnumber : dayOfMonth (wallDay w) = wallDay w - monthStart (wallMonth w) + 1 := rfl
  have hmonths : ∀ months, 1 ≤ months → monthStart (wallMonth w) + 28 ≤ monthStart (wallMonth w + months) :=
    fun months hle => monthStart_add_le (by omega)
  unfold cycleSpan
  split_ifs
  all_goals
    unfold movedDay
    dsimp only
  · have := hmonths _ (show (1 : ℤ) ≤ 12 * 0 + 1 by decide)
    omega
  · have := hmonths _ (show (1 : ℤ) ≤ 12 * 0 + 3 by decide)
    omega
  · have := hmonths _ (show (1 : ℤ) ≤ 12 * 0 + 6 by decide)
    omega
  · have := hmonths _ (show (1 : ℤ) ≤ 12 * 1 + 0 by decide)
    omega
  · have := hmonths _ (show (1 : ℤ) ≤ 12 * 2 + 0 by decide)
    omega
  · have := hmonths _ (show (1 : ℤ) ≤ 12 * 3 + 0 by decide)
    omega
  · have := hmonths _ (show (1 : ℤ) ≤ 12 * 5 + 0 by decide)
    omega
  · rw [show wallMonth w + (12 * 0 + 0) = wallMonth w by omega]
    omega

/-- A billing cycle moves the day by its days, or by up to five years. -/
theorem movedDay_le (billingCycle w : ℤ) :
    movedDay w (cycleSpan billingCycle) ≤ wallDay w + billingCycle + 2000 := by
  have hspan : (cycleSpan billingCycle).days ≤ billingCycle ∧
      12 * (cycleSpan billingCycle).years + (cycleSpan billingCycle).months ≤ 60 := by
    unfold cycleSpan
    split_ifs <;> constructor <;> dsimp only <;> omega
  have hfirst := monthStart_near (wallMonth w)
  have hlast := monthStart_near (wallMonth w +
    (12 * (cycleSpan billingCycle).years + (cycleSpan billingCycle).months))
  have hnumber : dayOfMonth (wallDay w) = wallDay w - monthStart (wallMonth w) + 1 := rfl
  rw [movedDay, hnumber]
  omega

/-- Noon of a day, read as UTC. -/
def noonSec (day : ℤ) : ℤ := secondsPerDay * day + 12 * 3600

/-- Offsets at less than 32 hours from a second differ by less than six hours. -/
def SteadyAt (z : Zone) (sec : ℤ) : Prop :=
  ∀ s s', sec - 32 * 3600 < s → s < sec + 32 * 3600 → sec - 32 * 3600 < s' → s' < sec + 32 * 3600 →
    z.offset s - z.offset s' < 6 * 3600

/-- The zone is steady around the noon of the day of an instant and of the day to which it is moved. -/
def Steady (z : Zone) (span : Span) (t : ℤ) : Prop :=
  SteadyAt z (noonSec (wallDay (wallNanos z t))) ∧
    SteadyAt z (noonSec (movedDay (wallNanos z t) span))

/-- The seconds up to which dates are computed without wrapping around. -/
def maxUnix : ℤ := 9 * 10 ^ 18

/-- The dates around a second do not wrap around, with thirty thousand years to spare. -/
def Dated (sec : ℤ) : Prop := -maxUnix - 10 ^ 12 ≤ sec ∧ sec ≤ maxUnix + 10 ^ 12

/-- A wall clock differs from its instant by an offset. -/
theorem wallNanos_near (z : Zone) (t : ℤ) :
    t - nanosPerSecond * maxOffset < wallNanos z t ∧ wallNanos z t < t + nanosPerSecond * maxOffset := by
  have hoffset := z.offset_lt (t / nanosPerSecond)
  change -maxOffset < z.offset _ ∧ z.offset _ < maxOffset at hoffset
  unfold wallNanos offsetNanos nanosPerSecond
  unfold nanosPerSecond at hoffset
  omega

/-- `time.Date` misses a wall clock by less than six hours where the zone is steady. -/
theorem wallNanos_goDate {z : Zone} {c : LocalTime} {sec : ℤ} (hsteady : SteadyAt z sec)
    (hdated : Dated sec) (hlow : sec - 6 * 3600 ≤ civilUTC c / nanosPerSecond)
    (hhigh : civilUTC c / nanosPerSecond < sec + 6 * 3600) :
    civilUTC c - 6 * hourNanos < wallNanos z (goDate z c) ∧
      wallNanos z (goDate z c) < civilUTC c + 6 * hourNanos := by
  have hcivil := Int.mul_ediv_add_emod (civilUTC c) nanosPerSecond
  have hnano := Int.emod_nonneg (civilUTC c) (show nanosPerSecond ≠ 0 by decide)
  have hnano' := Int.emod_lt_of_pos (civilUTC c) (show 0 < nanosPerSecond by decide)
  unfold goDate
  generalize civilUTC c / nanosPerSecond = unix at *
  generalize civilUTC c % nanosPerSecond = nano at *
  have hnear := z.date_near unix
  unfold Dated maxUnix at hdated
  unfold maxOffset at hnear
  rw [int64_eq_self (x := unix) (by unfold InInt64 minInt64 maxInt64; omega),
    int64_eq_self (x := z.date unix) (by unfold InInt64 minInt64 maxInt64; omega),
    wallNanos_add hnano hnano']
  -- the offset that is used is one of the offsets near the second
  have hfound : ∃ s, (sec - 32 * 3600 < s ∧ s < sec + 32 * 3600) ∧
      z.date unix = unix - z.offset s := by
    have hoffset := z.offset_lt unix
    change -maxOffset < z.offset _ ∧ z.offset _ < maxOffset at hoffset
    unfold maxOffset at hoffset
    rcases z.date_eq_sub_offset unix with hdate | hdate
    · exact ⟨unix, by omega, hdate⟩
    · exact ⟨unix - z.offset unix, by omega, hdate⟩
  obtain ⟨s, hs, hdate⟩ := hfound
  have h₁ := hsteady (z.date unix) s (by omega) (by omega) hs.1 hs.2
  have h₂ := hsteady s (z.date unix) hs.1 hs.2 (by omega) (by omega)
  unfold hourNanos nanosPerSecond at *
  omega

/-- Six hours within a day, `time.Date` does not miss the day. -/
theorem wallNanos_goDate_day {z : Zone} {c : LocalTime} {day clock : ℤ}
    (hsteady : SteadyAt z (noonSec day)) (hdated : Dated (noonSec day))
    (hc : civilUTC c = dayNanos * day + clock) (hlow : 6 * hourNanos ≤ clock)
    (hhigh : clock < 18 * hourNanos) :
    wallDay (wallNanos z (goDate z c)) = day ∧
      clock - 6 * hourNanos < wallClock (wallNanos z (goDate z c)) ∧
        wallClock (wallNanos z (goDate z c)) < clock + 6 * hourNanos := by
  have hnear := wallNanos_goDate hsteady hdated (c := c)
    (by unfold noonSec dayNanos hourNanos nanosPerSecond secondsPerDay at *; omega)
    (by unfold noonSec dayNanos hourNanos nanosPerSecond secondsPerDay at *; omega)
  rw [hc] at hnear
  generalize wallNanos z (goDate z c) = w at hnear ⊢
  have hday : wallDay w = day := by
    unfold wallDay dayNanos hourNanos nanosPerSecond secondsPerDay at *
    omega
  have hw := wallDay_add_wallClock w
  rw [hday] at hw
  exact ⟨hday, by omega, by omega⟩

/-- **The wall clock that is asked for**: the day is moved, and the time of day kept. -/
theorem askedWall_eq {z : Zone} {t : ℤ} {span : Span} (hsteady : Steady z span t)
    (hfrom : Dated (noonSec (wallDay (wallNanos z t))))
    (hto : Dated (noonSec (movedDay (wallNanos z t) span))) :
    askedWall z t span =
      dayNanos * movedDay (wallNanos z t) span + wallClock (wallNanos z t) := by
  obtain ⟨hsteady, hsteady'⟩ := hsteady
  generalize hw : wallNanos z t = w at *
  have hlocal : localTime z t = utcTime w := localTime_eq_iff.mpr hw
  -- noon is asked for, and what is found is six hours away at most; and so once more
  obtain ⟨hnoonDay, hnoonLow, hnoonHigh⟩ := wallNanos_goDate_day hsteady hfrom
    (civilUTC_utcTime (dayNanos * wallDay w + 12 * hourNanos)) (by decide) (by decide)
  rw [← utcTime_noonOf] at hnoonDay hnoonLow hnoonHigh
  generalize hnoon : goDate z
    { utcTime w with hour := 12, minute := 0, second := 0, nano := 0 } = noon at *
  have hmoved : movedDay (wallNanos z noon) span = movedDay w span := by
    simp only [movedDay, wallMonth, hnoonDay]
  have hcarry := civilUTC_carry (wallNanos z noon) span
  rw [hmoved] at hcarry
  have hanchor := (wallNanos_goDate_day hsteady' hto hcarry (by unfold hourNanos at *; omega)
    (by unfold hourNanos at *; omega)).1
  change wallDay (wallNanos z (addDate z noon span.years span.months span.days)) = _ at hanchor
  change civilUTC (withClock (utcTime (wallNanos z (addDate z (goDate z _) _ _ _))) (localTime z t)) = _
  rw [hlocal, hnoon, withClock_utcTime, civilUTC_utcTime, hanchor]

section Gentle

variable {z : Zone} (h : Gentle z)

include h

theorem Gentle.steadyAt (sec : ℤ) : SteadyAt z sec := by
  intro s s' hlow hhigh hlow' hhigh'
  have := (h.offset_near s' s (by unfold secondsPerDay; omega) (by unfold secondsPerDay; omega)).2
  omega

theorem Gentle.steady (span : Span) (t : ℤ) : Steady z span t := ⟨h.steadyAt _, h.steadyAt _⟩

/-- An instant on a later day but one is later. -/
theorem Gentle.lt_of_wallDay {t u : ℤ}
    (hday : wallDay (wallNanos z t) + 2 ≤ wallDay (wallNanos z u)) : t < u := by
  refine h.lt_of_wall ?_
  unfold wallDay hourNanos nanosPerSecond secondsPerDay at *
  omega

/-- An instant that is not more than thirty days before now lies on one of the last 32 days, or later. -/
theorem Gentle.wallDay_recent {t now : ℤ} (hlow : -maxUnix ≤ now / nanosPerSecond)
    (hhigh : now / nanosPerSecond ≤ maxUnix) (hrecent : ¬t < addDate z now 0 0 (-30)) :
    wallDay (wallNanos z now) - 32 ≤ wallDay (wallNanos z t) := by
  have hmoved : movedDay (wallNanos z now) ⟨0, 0, -30⟩ = wallDay (wallNanos z now) - 30 := by
    simp only [movedDay, dayOfMonth, wallMonth, mul_zero, add_zero]
    omega
  have hcarry := civilUTC_carry (wallNanos z now) ⟨0, 0, -30⟩
  have hwhole := wallDay_add_wallClock (wallNanos z now)
  have hnear := wallNanos_near z now
  rw [hmoved] at hcarry
  have hstart := wallNanos_goDate (c := carry (utcTime (wallNanos z now)) ⟨0, 0, -30⟩)
    (h.steadyAt (civilUTC (carry (utcTime (wallNanos z now)) ⟨0, 0, -30⟩) / nanosPerSecond))
    (by
      rw [hcarry]
      unfold Dated maxUnix maxOffset dayNanos nanosPerSecond secondsPerDay at *
      omega) (by omega) (by omega)
  change _ < wallNanos z (addDate z now 0 0 (-30)) ∧ _ at hstart
  have hbefore : ¬wallNanos z t + 3 * hourNanos ≤ wallNanos z (addDate z now 0 0 (-30)) :=
    fun hle => hrecent (h.lt_of_wall hle)
  have hclock := wallClock_nonneg (wallNanos z now)
  rw [hcarry] at hstart
  unfold wallDay dayNanos hourNanos nanosPerSecond secondsPerDay at *
  omega

end Gentle

end Expiry

end Komari
