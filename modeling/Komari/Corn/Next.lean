import Komari.Corn.Parse
import Komari.Expiry.Local

/-!
# The next run of a job

The next run of a cron expression is searched for second by second, for 366 days; the zero time says
that there is none, and ends the job.

* `CronSchedule.next_exact_iff` : it is exact when the first match is not too far away.
* `ticks` : the runs of a job; `exists_ticks_iff` : then it misses no match.
-/

namespace Komari

namespace Corn

open Calendar Expiry TrafficReset

/-! ### The search -/

/-- `366 * 24 * time.Hour`, in seconds. -/
def horizon : ℕ := 366 * 24 * 3600

/-- The day of the week of an instant in a zone: `time.Weekday`. -/
def weekday (z : Zone) (t : ℤ) : ℤ := ((t + offsetNanos z t) / nanosPerSecond / secondsPerDay + 4) % 7

namespace CronSchedule

/-- `match`. -/
def matchAt (s : CronSchedule) (t : ℤ) : Bool :=
  let c := localTime s.location t
  decide (c.second ∈ s.seconds ∧ c.minute ∈ s.minutes ∧ c.hour ∈ s.hours ∧ c.day ∈ s.dom ∧
    c.month ∈ s.months ∧ weekday s.location t ∈ s.dow)

/-- The loop of `Next`, for so many seconds. -/
def search (s : CronSchedule) : ℕ → ℤ → ℤ
  | 0, _ => zeroTime
  | n + 1, next => if s.matchAt next then next else s.search n (next + nanosPerSecond)

/-- The next full second. -/
def nextSecond (t : ℤ) : ℤ := nanosPerSecond * (t / nanosPerSecond) + nanosPerSecond

/-- The first match, within the horizon. -/
def next (s : CronSchedule) (t : ℤ) : ℤ := s.search horizon (nextSecond t)

end CronSchedule

/-- `Next` of a schedule. -/
def Schedule.next : Schedule → ℤ → ℤ
  | .every interval, t => t + interval
  | .cron s, t => s.next t

/-- The next run, where the zero time stands for none. -/
def Schedule.nextTick (s : Schedule) (t : ℤ) : Option ℤ :=
  if s.next t = zeroTime then none else some (s.next t)

/-- The instants of the runs in `run`; the loop ends where there is no next run. -/
def ticks (s : Schedule) (now : ℤ) : ℕ → Option ℤ
  | 0 => s.nextTick now
  | n + 1 => (ticks s now n).bind s.nextTick

/-! ### Matches -/

namespace CronSchedule

/-- The instants that match. -/
def Matches (s : CronSchedule) : Set ℤ := {u | u % nanosPerSecond = 0 ∧ s.matchAt u = true}

/-- `u` is the first match after `t`. -/
def IsNext (s : CronSchedule) (t u : ℤ) : Prop := IsLeast {v | t < v ∧ v ∈ s.Matches} u

/-- `Next` is exact at `t`: it is the first match after `t`, and the zero time when there is none. -/
structure Exact (s : CronSchedule) (t : ℤ) : Prop where
  found : (∃ u ∈ s.Matches, t < u) → s.IsNext t (s.next t) ∧ s.next t ≠ zeroTime
  none : s.next t = zeroTime → s.Matches = ∅

/-- The first match after `t` comes at most 366 days after the next second; it is not the zero time. -/
def Near (s : CronSchedule) (t : ℤ) : Prop :=
  ∃ u, s.IsNext t u ∧ u < nextSecond t + nanosPerSecond * horizon ∧ u ≠ zeroTime

/-- The loop finds the first second that matches, if one does. -/
theorem search_spec (s : CronSchedule) (n : ℕ) (start : ℤ) :
    (∃ k < n, s.search n start = start + nanosPerSecond * k ∧
      s.matchAt (start + nanosPerSecond * k) = true ∧
        ∀ j < k, s.matchAt (start + nanosPerSecond * j) = false) ∨
    (s.search n start = zeroTime ∧ ∀ k < n, s.matchAt (start + nanosPerSecond * k) = false) := by
  induction n generalizing start with
  | zero => exact Or.inr ⟨rfl, fun k hk => absurd hk (Nat.not_lt_zero k)⟩
  | succ n ih =>
    have hshift : ∀ k : ℕ, start + nanosPerSecond * ((k + 1 : ℕ) : ℤ) =
        start + nanosPerSecond + nanosPerSecond * k := fun k => by push_cast; ring
    by_cases hfirst : s.matchAt start = true
    · refine Or.inl ⟨0, Nat.succ_pos n, ?_, ?_, fun j hj => absurd hj (Nat.not_lt_zero j)⟩
      · simp [search, hfirst]
      · simpa using hfirst
    have hstep : s.search (n + 1) start = s.search n (start + nanosPerSecond) := if_neg hfirst
    have hzero : s.matchAt (start + nanosPerSecond * ((0 : ℕ) : ℤ)) = false := by
      simpa using hfirst
    rw [hstep]
    rcases ih (start + nanosPerSecond) with ⟨k, hk, heq, hmatch, hbefore⟩ | ⟨heq, hnone⟩
    · refine Or.inl ⟨k + 1, Nat.succ_lt_succ hk, ?_, ?_, fun j hj => ?_⟩
      · rw [heq, hshift]
      · rwa [hshift]
      · cases j with
        | zero => exact hzero
        | succ j =>
          rw [hshift]
          exact hbefore j (Nat.lt_of_succ_lt_succ hj)
    · refine Or.inr ⟨heq, fun k hk => ?_⟩
      cases k with
      | zero => exact hzero
      | succ k =>
        rw [hshift]
        exact hnone k (Nat.lt_of_succ_lt_succ hk)

theorem exists_second {t u : ℤ} (hu : u % nanosPerSecond = 0) :
    t < u ↔ ∃ k : ℕ, u = nextSecond t + nanosPerSecond * k := by
  unfold nextSecond nanosPerSecond at *
  constructor
  · intro hlt
    refine ⟨(u / 1000000000 - t / 1000000000 - 1).toNat, ?_⟩
    omega
  · rintro ⟨k, rfl⟩
    omega

/-- A whole second after `t`. -/
theorem lt_second (t : ℤ) (k : ℕ) : t < nextSecond t + nanosPerSecond * k ∧
    (nextSecond t + nanosPerSecond * k) % nanosPerSecond = 0 := by
  have hwhole : (nextSecond t + nanosPerSecond * k) % nanosPerSecond = 0 := by
    unfold nextSecond nanosPerSecond
    omega
  exact ⟨(exists_second hwhole).mpr ⟨k, rfl⟩, hwhole⟩

/-- The first second that matches is the next run. -/
theorem isNext_of_first {s : CronSchedule} {t : ℤ} {k : ℕ}
    (hmatch : s.matchAt (nextSecond t + nanosPerSecond * k) = true)
    (hbefore : ∀ j < k, s.matchAt (nextSecond t + nanosPerSecond * j) = false) :
    s.IsNext t (nextSecond t + nanosPerSecond * k) := by
  obtain ⟨hlt, hwhole⟩ := lt_second t k
  refine ⟨⟨hlt, hwhole, hmatch⟩, ?_⟩
  rintro v ⟨hv, hwhole', hmatch'⟩
  obtain ⟨j, rfl⟩ := (exists_second hwhole').mp hv
  by_contra hnot
  have hj : j < k := by
    unfold nanosPerSecond at hnot
    omega
  simp [hbefore j hj] at hmatch'

/-- What the search finds: the first match, when it is not too far away. -/
theorem next_spec (s : CronSchedule) (t : ℤ) :
    (s.IsNext t (s.next t) ∧ s.next t < nextSecond t + nanosPerSecond * horizon) ∨
    (s.next t = zeroTime ∧
      ∀ u ∈ s.Matches, t < u → nextSecond t + nanosPerSecond * horizon ≤ u) := by
  rcases s.search_spec horizon (nextSecond t) with ⟨k, hk, heq, hmatch, hbefore⟩ | ⟨heq, hnone⟩
  · refine Or.inl ?_
    rw [next, heq]
    refine ⟨isNext_of_first hmatch hbefore, ?_⟩
    unfold nanosPerSecond
    omega
  · refine Or.inr ⟨heq, ?_⟩
    rintro u ⟨hwhole, hmatch⟩ hlt
    obtain ⟨k, rfl⟩ := (exists_second hwhole).mp hlt
    by_contra hnot
    have hk : k < horizon := by
      unfold nanosPerSecond at hnot
      omega
    simp [hnone k hk] at hmatch

/-- A match that is not too far away is found. -/
theorem next_eq_of_near {s : CronSchedule} {t u : ℤ} (hu : s.IsNext t u)
    (hfar : u < nextSecond t + nanosPerSecond * horizon) : s.next t = u := by
  rcases s.next_spec t with ⟨hfound, -⟩ | ⟨-, hnone⟩
  · exact hfound.unique hu
  · exact absurd (hnone u hu.1.2 hu.1.1) (not_le.mpr hfar)

/-- The search is exact if nothing matches at all, or the first match is not too far away. -/
theorem next_exact_iff (s : CronSchedule) (t : ℤ) :
    s.Exact t ↔ (s.Matches.Nonempty → s.Near t) := by
  constructor
  · rintro ⟨-, hnone⟩ hsome
    have hne : s.next t ≠ zeroTime := fun hzero => hsome.ne_empty (hnone hzero)
    rcases s.next_spec t with ⟨hfound, hfar⟩ | ⟨hzero, -⟩
    · exact ⟨s.next t, hfound, hfar, hne⟩
    · exact absurd hzero hne
  · intro hnear
    refine ⟨?_, fun hzero => ?_⟩
    · rintro ⟨u, hu, -⟩
      obtain ⟨v, hv, hfar, hne⟩ := hnear ⟨u, hu⟩
      rw [next_eq_of_near hv hfar]
      exact ⟨hv, hne⟩
    · by_contra hsome
      obtain ⟨v, hv, hfar, hne⟩ := hnear (Set.nonempty_iff_ne_empty.mpr hsome)
      exact hne ((next_eq_of_near hv hfar).symm.trans hzero)

end CronSchedule

/-! ### Leap days -/

/-- The fields of `0 0 29 2 *`. -/
def leapFields : Fields where
  seconds := [0]
  minutes := [0]
  hours := [0]
  dom := [29]
  months := [2]
  dow := [0, 0, 1, 2, 3, 4, 5, 6]

theorem parse_leapFields [Durations] (z : Zone) :
    parseInLocation "0 0 29 2 *" (some z) = .ok (.cron ⟨leapFields, z⟩) := by
  have hfields : parseFields (fieldsOf "0 0 29 2 *") = .ok leapFields := by decide +kernel
  have htrim : trimSpace "0 0 29 2 *" = "0 0 29 2 *" := by decide +kernel
  simp only [parseInLocation, htrim, hfields]
  rfl

/-- `0 0 29 2 *` in UTC. -/
def leapSchedule : CronSchedule := ⟨leapFields, Zone.fixed 0 (by decide)⟩

/-- Midnight of a day since 1970-01-01, in UTC. -/
def midnight (day : ℤ) : ℤ := nanosPerSecond * (secondsPerDay * day)

theorem matchAt_leapSchedule {u : ℤ} (h : leapSchedule.matchAt u = true) :
    dayOfMonth (u / nanosPerSecond / secondsPerDay) = 29 ∧
      monthOfDay (u / nanosPerSecond / secondsPerDay) % 12 = 1 ∧
        u / nanosPerSecond % secondsPerDay = 0 := by
  simp [CronSchedule.matchAt, leapSchedule, leapFields, localTime, utcTime, offsetNanos] at h
  obtain ⟨hsecond, hminute, hhour, hday, hmonth, -⟩ := h
  exact ⟨hday, by omega, by omega⟩

theorem no_leap_day : ∀ k : ℕ, k < 366 →
    ¬(dayOfMonth (19783 + k) = 29 ∧ monthOfDay (19783 + k) % 12 = 1) := by decide +kernel

theorem next_leapSchedule : leapSchedule.next (midnight 19782) = zeroTime := by
  rcases leapSchedule.next_spec (midnight 19782) with ⟨⟨⟨hlt, hwhole, hmatch⟩, -⟩, hfar⟩ | ⟨hzero, -⟩
  · exfalso
    obtain ⟨hday, hmonth, hclock⟩ := matchAt_leapSchedule hmatch
    generalize leapSchedule.next (midnight 19782) = u at *
    have hk : 19783 ≤ u / nanosPerSecond / secondsPerDay ∧
        u / nanosPerSecond / secondsPerDay < 19783 + 366 := by
      unfold CronSchedule.nextSecond horizon midnight nanosPerSecond secondsPerDay at *
      omega
    refine no_leap_day (u / nanosPerSecond / secondsPerDay - 19783).toNat (by omega) ?_
    have heq : 19783 + ((u / nanosPerSecond / secondsPerDay - 19783).toNat : ℤ) =
        u / nanosPerSecond / secondsPerDay := by omega
    rw [heq]
    exact ⟨hday, hmonth⟩
  · exact hzero

/-- A job for leap days stops behind the first one: 2028-02-29 is never reached. -/
theorem leapSchedule_not_exact :
    (∀ [Durations], parseInLocation "0 0 29 2 *" (some leapSchedule.location) =
      .ok (.cron leapSchedule)) ∧
      midnight 21243 ∈ leapSchedule.Matches ∧ midnight 19782 < midnight 21243 ∧
        leapSchedule.next (midnight 19782) = zeroTime ∧ ¬leapSchedule.Exact (midnight 19782) := by
  have hmem : midnight 21243 ∈ leapSchedule.Matches := ⟨by decide, by decide +kernel⟩
  refine ⟨parse_leapFields _, hmem, by decide, next_leapSchedule, fun hexact => ?_⟩
  exact (hexact.found ⟨_, hmem, by decide⟩).2 next_leapSchedule

/-! ### The runs of a job -/

theorem ticks_succ (s : Schedule) (now : ℤ) (n : ℕ) :
    ticks s now (n + 1) = (s.nextTick now).bind fun t => ticks s t n := by
  induction n with
  | zero => rfl
  | succ n ih =>
    rw [ticks, ih, Option.bind_assoc]
    rfl

theorem CronSchedule.Near.nextTick {s : CronSchedule} {t : ℤ} (h : s.Near t) :
    ∃ u, Schedule.nextTick (.cron s) t = some u ∧ s.IsNext t u := by
  obtain ⟨u, hu, hfar, hne⟩ := h
  have heq : Schedule.next (.cron s) t = u := CronSchedule.next_eq_of_near hu hfar
  exact ⟨u, by rw [Schedule.nextTick, heq, if_neg hne], hu⟩

/-- A job runs at the instants that match, and misses none, as long as no match is too far away. -/
theorem exists_ticks_iff {s : CronSchedule} {now u : ℤ} (hnear : ∀ t, now ≤ t → s.Near t) :
    (∃ n, ticks (.cron s) now n = some u) ↔ u ∈ s.Matches ∧ now < u := by
  constructor
  · rintro ⟨n, hn⟩
    induction n generalizing now with
    | zero =>
      obtain ⟨v, hv, hfirst⟩ := (hnear now le_rfl).nextTick
      obtain rfl : v = u := Option.some.inj (hv.symm.trans hn)
      exact ⟨hfirst.1.2, hfirst.1.1⟩
    | succ n ih =>
      obtain ⟨v, hv, hfirst⟩ := (hnear now le_rfl).nextTick
      have hlt : now < v := hfirst.1.1
      rw [ticks_succ, hv] at hn
      obtain ⟨hu, hvu⟩ := ih (fun t ht => hnear t (hlt.le.trans ht)) hn
      exact ⟨hu, hlt.trans hvu⟩
  · rintro ⟨hu, hlt⟩
    -- the time that is left goes down with every run
    induction hleft : (u - now).toNat using Nat.strong_induction_on generalizing now with
    | _ left ih =>
      obtain ⟨v, hv, hfirst⟩ := (hnear now le_rfl).nextTick
      have hnow : now < v := hfirst.1.1
      rcases eq_or_lt_of_le (hfirst.2 ⟨hlt, hu⟩) with rfl | hvu
      · exact ⟨0, hv⟩
      · obtain ⟨n, hn⟩ := ih (u - v).toNat (by omega) (fun t ht => hnear t (hnow.le.trans ht)) hvu rfl
        exact ⟨n + 1, by rw [ticks_succ, hv]; exact hn⟩

/-- `0,30 * * * * *` in UTC. -/
def halfMinutes : CronSchedule :=
  ⟨⟨stepValues 0 59 30, stepValues 0 59 1, stepValues 0 23 1, stepValues 1 31 1, stepValues 1 12 1,
    0 :: (stepValues 0 7 1).filter (· ≠ 7)⟩, Zone.fixed 0 (by decide)⟩

theorem matchAt_halfMinutes (u : ℤ) : halfMinutes.matchAt u = true ↔ u / nanosPerSecond % 30 = 0 := by
  have hmem : ∀ (l : List ℤ) (a : ℤ) (n : ℕ), (∀ k : ℕ, k < n → a + k ∈ l) →
      ∀ x, a ≤ x ∧ x ≤ a + n - 1 → x ∈ l := by
    intro l a n hl x hx
    have := hl (x - a).toNat (by omega)
    rwa [Int.toNat_of_nonneg (by omega), add_sub_cancel] at this
  obtain ⟨hmonth, hday, hhour, hminute, -⟩ := inRange_localTime halfMinutes.location u
  have hsecond : (localTime halfMinutes.location u).second = u / nanosPerSecond % secondsPerDay % 60 := by
    have hutc : u + offsetNanos halfMinutes.location u = u := by
      show u + nanosPerSecond * 0 = u
      omega
    rw [localTime, hutc]
    rfl
  have hseconds : halfMinutes.seconds = [0, 30] := by decide +kernel
  rw [CronSchedule.matchAt, decide_eq_true_eq, hsecond, hseconds]
  constructor
  · rintro ⟨h, -⟩
    unfold secondsPerDay at h
    simp only [List.mem_cons, List.not_mem_nil, or_false] at h
    omega
  · intro h
    refine ⟨?_, hmem _ 0 60 (by decide +kernel) _ hminute, hmem _ 0 24 (by decide +kernel) _ hhour,
      hmem _ 1 31 (by decide +kernel) _ hday, hmem _ 1 12 (by decide +kernel) _ hmonth,
      hmem _ 0 7 (by decide +kernel) _ ?_⟩
    · unfold secondsPerDay
      simp only [List.mem_cons, List.not_mem_nil, or_false]
      omega
    · unfold weekday
      omega

/-- The job of every half minute, since 1970. -/
theorem exists_ticks_halfMinutes :
    (∃ n, ticks (.cron halfMinutes) 0 n = some (90 * nanosPerSecond)) ↔
      90 * nanosPerSecond ∈ halfMinutes.Matches ∧ 0 < 90 * nanosPerSecond := by
  refine exists_ticks_iff fun t ht => ?_
  obtain ⟨k, hk⟩ : ∃ k : ℕ, (k : ℤ) = -(t / nanosPerSecond + 1) % 30 :=
    ⟨_, Int.toNat_of_nonneg (Int.emod_nonneg _ (by decide))⟩
  have hdiv : ∀ j : ℕ, (CronSchedule.nextSecond t + nanosPerSecond * j) / nanosPerSecond =
      t / nanosPerSecond + 1 + j := by
    intro j
    unfold CronSchedule.nextSecond nanosPerSecond
    omega
  refine ⟨_, CronSchedule.isNext_of_first (k := k) ?_ fun j hj => ?_, ?_, ?_⟩
  · rw [matchAt_halfMinutes, hdiv]
    omega
  · rw [Bool.eq_false_iff, Ne, matchAt_halfMinutes, hdiv]
    omega
  · unfold horizon nanosPerSecond
    omega
  · unfold CronSchedule.nextSecond zeroTime nanosPerSecond
    omega

end Corn

end Komari
