import Komari.TrafficReset.Schedule

/-!
# Reset cycles partition time

`Last` and `Next` compare an instant with the boundary of the month that the wall clock shows.  They
partition time exactly when wall clocks and boundaries agree on the order of months.

* `Schedule.partitions_iff` : the two are equivalent; `Schedule.cycleKey_eq_iff` : keys tell cycles apart.
* `next_stuck` : a clock change at midnight of the first, after which `Next` no longer advances.
-/

namespace Komari

namespace TrafficReset

open Calendar

namespace Schedule

variable [TimezoneDatabase] {s : Schedule}

/-! ### The two properties -/

/-- `Last` and `Next` partition time into cycles, and the keys of cycles tell them apart. -/
structure Partitions (s : Schedule) : Prop where
  last_le : ∀ t, s.last t ≤ t
  lt_next : ∀ t, t < s.next t
  consecutive : ∀ t month, ¬(s.last t < s.boundary month ∧ s.boundary month < s.next t)
  next_last : ∀ t, s.next (s.last t) = s.next t
  last_next : ∀ t, s.last (s.next t) = s.next t
  iterate : ∀ month, StrictMono fun n => s.next^[n] (s.boundary month)
  cycleKey : ∀ t₁ t₂, s.cycleKey t₁ = s.cycleKey t₂ ↔ s.last t₁ = s.last t₂

/-- From the boundary of a month on the wall clock shows that month or a later one, and before it that
month or an earlier one. -/
def MonthsInOrder (s : Schedule) : Prop :=
  ∀ t month, (s.boundary month ≤ t → month ≤ s.localMonth t) ∧
    (t < s.boundary month → s.localMonth t ≤ month)

/-! ### Boundaries -/

section

variable (hs : s.active = true)

include hs

theorem last_eq (t : ℤ) :
    s.last t = if t < s.boundary (s.localMonth t) then s.boundary (s.localMonth t - 1)
      else s.boundary (s.localMonth t) := by
  rw [last, if_neg (by simp [hs])]
  dsimp only
  rw [ite_not]

theorem next_eq (t : ℤ) :
    s.next t = if t < s.boundary (s.localMonth t) then s.boundary (s.localMonth t)
      else s.boundary (s.localMonth t + 1) := by
  rw [next, if_neg (by simp [hs])]

theorem last_mem (t : ℤ) : ∃ month, s.last t = s.boundary month := by
  rw [last_eq hs]
  split_ifs
  · exact ⟨_, rfl⟩
  · exact ⟨_, rfl⟩

theorem next_mem (t : ℤ) : ∃ month, s.next t = s.boundary month := by
  rw [next_eq hs]
  split_ifs
  · exact ⟨_, rfl⟩
  · exact ⟨_, rfl⟩

/-- A boundary's wall clock is not before the first second of its month. -/
theorem monthStart_le_boundaryWall (month : ℤ) :
    secondsPerDay * monthStart month ≤ s.boundaryWall month := by
  have hday : 1 ≤ s.day := by
    simp only [active, Bool.and_eq_true, decide_eq_true_eq] at hs
    exact hs.1
  have hlast := one_le_dayOfMonth
    (s.loc.day (s.loc.date (secondsPerDay * (monthStart (month + 1) - 1))))
  have hclock := s.clock.seconds_nonneg
  unfold boundaryWall daysInMonth secondsPerDay at *
  dsimp only
  split_ifs <;> omega

/-- The tenth day of a month is in the month on every wall clock, and before the next boundary. -/
theorem exists_localMonth_eq (month : ℤ) :
    ∃ t, s.localMonth t = month ∧ t < s.boundary (month + 1) := by
  refine ⟨nanosPerSecond * (secondsPerDay * (monthStart month + 10)), ?_, ?_⟩
  · have hwall := s.loc.wall_near (secondsPerDay * (monthStart month + 10))
    have hsucc := (monthStart_succ month).1
    rw [localMonth, Int.mul_ediv_cancel_left _ (by decide), Zone.month]
    refine monthOfDay_eq ?_ ?_
    · unfold Zone.day secondsPerDay maxOffset at *
      omega
    · unfold Zone.day secondsPerDay maxOffset at *
      omega
  · have hwall := monthStart_le_boundaryWall hs (month + 1)
    have hdate := s.loc.date_near (s.boundaryWall (month + 1))
    have hsucc := (monthStart_succ month).1
    unfold boundary nanosPerSecond secondsPerDay maxOffset at *
    omega

/-! ### From partitions to the order of months -/

/-- The boundaries of a partition are in the order of their months. -/
theorem Partitions.monotone (h : s.Partitions) : Monotone s.boundary := by
  refine monotone_int_of_le_succ fun month => ?_
  obtain ⟨t, hmonth, hlt⟩ := exists_localMonth_eq hs month
  by_contra hgt
  -- the next boundary would lie between the instant and the boundary of its own month
  have hbefore : t < s.boundary (s.localMonth t) := by
    rw [hmonth]
    exact hlt.trans (not_le.mp hgt)
  have hnext : s.next t = s.boundary month := by rw [next_eq hs, if_pos hbefore, hmonth]
  refine h.consecutive t (month + 1) ⟨(h.last_le t).trans_lt hlt, ?_⟩
  rw [hnext]
  exact not_le.mp hgt

theorem Partitions.monthsInOrder (h : s.Partitions) : s.MonthsInOrder := by
  intro t month
  have hmono := h.monotone hs
  have hlast := h.last_le t
  have hnext := h.lt_next t
  rw [last_eq hs] at hlast
  rw [next_eq hs] at hnext
  constructor
  · intro hle
    by_contra hgt
    split_ifs at hlast hnext with hbefore
    · have := hmono (not_le.mp hgt).le
      omega
    · have := hmono (Int.add_one_le_iff.mpr (not_le.mp hgt))
      omega
  · intro hlt
    by_contra hgt
    split_ifs at hlast hnext with hbefore
    · have := hmono (Int.le_sub_one_iff.mpr (not_le.mp hgt))
      omega
    · have := hmono (not_le.mp hgt).le
      omega

end

/-! ### From the order of months to partitions -/

theorem MonthsInOrder.monotone (h : s.MonthsInOrder) : Monotone s.boundary := by
  refine monotone_int_of_le_succ fun month => ?_
  have h₁ := (h (s.boundary month - 1) month).2 (by omega)
  have h₂ := mt (h (s.boundary month - 1) (month + 1)).1 (by omega)
  omega

theorem MonthsInOrder.last_le (hs : s.active = true) (h : s.MonthsInOrder) (t : ℤ) :
    s.last t ≤ t := by
  rw [last_eq hs]
  split_ifs with hbefore
  · by_contra hgt
    have := (h t (s.localMonth t - 1)).2 (not_le.mp hgt)
    omega
  · exact not_lt.mp hbefore

theorem MonthsInOrder.lt_next (hs : s.active = true) (h : s.MonthsInOrder) (t : ℤ) :
    t < s.next t := by
  rw [next_eq hs]
  split_ifs with hbefore
  · exact hbefore
  · by_contra hle
    have := (h t (s.localMonth t + 1)).1 (not_lt.mp hle)
    omega

theorem MonthsInOrder.consecutive (hs : s.active = true) (h : s.MonthsInOrder) (t month : ℤ) :
    ¬(s.last t < s.boundary month ∧ s.boundary month < s.next t) := by
  rintro ⟨hlow, hhigh⟩
  rw [last_eq hs] at hlow
  rw [next_eq hs] at hhigh
  split_ifs at hlow hhigh
  · have h₁ := h.monotone.reflect_lt hlow
    have h₂ := h.monotone.reflect_lt hhigh
    omega
  · have h₁ := h.monotone.reflect_lt hlow
    have h₂ := h.monotone.reflect_lt hhigh
    omega

/-! ### Keys -/

/-- The records of a legacy plan are those of a Beijing midnight. -/
theorem loc_of_usesLegacyCycleKey (h : s.usesLegacyCycleKey = true) :
    s.loc = beijingZone ∧ s.clock.seconds = 0 := by
  simp only [usesLegacyCycleKey, Bool.and_eq_true, decide_eq_true_eq] at h
  obtain ⟨⟨⟨hhour, hminute⟩, hsecond⟩, hzone⟩ := h
  constructor
  · rw [beijingTimezone] at hzone
    rw [loc, location, if_pos hzone]
  · rw [Clock.seconds, hhour, hminute, hsecond]
    rfl

/-- The text of the cycle that starts in a month, when that is not the zero time. -/
def cycleText (s : Schedule) (month : ℤ) : String :=
  if s.usesLegacyCycleKey then dateOnly (s.loc.day (s.boundary month / nanosPerSecond))
  else rfc3339 (s.boundary month / nanosPerSecond)

theorem cycleText_ne_empty (s : Schedule) (month : ℤ) : s.cycleText month ≠ "" := by
  unfold cycleText
  split_ifs
  · exact dateOnly_ne_empty _
  · exact rfc3339_ne_empty _

theorem cycleKey_eq {t month : ℤ} (h : s.last t = s.boundary month) :
    s.cycleKey t = if s.boundary month = zeroTime then "" else s.cycleText month := by
  simp only [cycleKey, h]
  rfl

theorem boundary_eq_of_cycleText {a b : ℤ} (h : s.cycleText a = s.cycleText b) :
    s.boundary a = s.boundary b := by
  simp only [cycleText, boundary,
    Int.mul_ediv_cancel_left _ (show nanosPerSecond ≠ 0 by decide)] at h ⊢
  split_ifs at h with hlegacy
  · obtain ⟨hloc, hclock⟩ := loc_of_usesLegacyCycleKey hlegacy
    have hday := dateOnly_inj h
    -- a Beijing midnight is the start of the day that it shows
    have hwall : ∀ month, ∃ day, s.boundaryWall month = secondsPerDay * day := by
      intro month
      rw [boundaryWall, hclock, add_zero]
      exact ⟨_, rfl⟩
    obtain ⟨dayA, ha⟩ := hwall a
    obtain ⟨dayB, hb⟩ := hwall b
    rw [hloc, beijingZone, fixedZone] at hday ⊢
    simp only [Zone.day, Zone.wall, Zone.date_fixed, Zone.offset_fixed, sub_add_cancel, ha, hb,
      Int.mul_ediv_cancel_left _ (show secondsPerDay ≠ 0 by decide)] at hday ⊢
    rw [hday]
  · rw [rfc3339_inj h]

/-- The keys of a schedule tell its cycles apart. -/
theorem cycleKey_eq_iff (hs : s.active = true) (t₁ t₂ : ℤ) :
    s.cycleKey t₁ = s.cycleKey t₂ ↔ s.last t₁ = s.last t₂ := by
  constructor
  · intro h
    obtain ⟨a, ha⟩ := last_mem hs t₁
    obtain ⟨b, hb⟩ := last_mem hs t₂
    rw [cycleKey_eq ha, cycleKey_eq hb] at h
    rw [ha, hb]
    by_cases hzeroA : s.boundary a = zeroTime <;> by_cases hzeroB : s.boundary b = zeroTime
    · rw [hzeroA, hzeroB]
    · rw [if_pos hzeroA, if_neg hzeroB] at h
      exact absurd h.symm (s.cycleText_ne_empty b)
    · rw [if_neg hzeroA, if_pos hzeroB] at h
      exact absurd h (s.cycleText_ne_empty a)
    · rw [if_neg hzeroA, if_neg hzeroB] at h
      exact boundary_eq_of_cycleText h
  · intro h
    rw [cycleKey, cycleKey, h]

/-! ### The equivalence -/

/-- The schedule partitions time exactly when its months are in order. -/
theorem partitions_iff (s : Schedule) (hs : s.active = true) : s.Partitions ↔ s.MonthsInOrder := by
  refine ⟨fun h => h.monthsInOrder hs, fun h => ?_⟩
  have hlast := h.last_le hs
  have hnext := h.lt_next hs
  have hbetween := h.consecutive hs
  refine ⟨hlast, hnext, hbetween, fun t => ?_, fun t => ?_, fun month => ?_, cycleKey_eq_iff hs⟩
  · -- both are the first boundary after `Last`
    obtain ⟨a, ha⟩ := next_mem hs t
    obtain ⟨b, hb⟩ := next_mem hs (s.last t)
    rcases lt_trichotomy (s.next (s.last t)) (s.next t) with hlt | heq | hgt
    · exact absurd ⟨hb ▸ hnext (s.last t), hb ▸ hlt⟩ (hbetween t b)
    · exact heq
    · have hin := (hlast (s.last t)).trans_lt ((hlast t).trans_lt (hnext t))
      exact absurd ⟨ha ▸ hin, ha ▸ hgt⟩ (hbetween (s.last t) a)
  · obtain ⟨a, ha⟩ := next_mem hs t
    refine (hlast _).antisymm (not_lt.mp fun hlt => ?_)
    exact hbetween (s.next t) a ⟨ha ▸ hlt, ha ▸ hnext (s.next t)⟩
  · refine strictMono_nat_of_lt_succ fun n => ?_
    rw [Function.iterate_succ_apply']
    exact hnext _

/-! ### Zones that are steady at the start of a month -/

/-- The offset does not change in the four days around the start of a month. -/
def SteadyAt (z : Zone) (month : ℤ) : Prop :=
  ∀ sec, secondsPerDay * (monthStart month - 4) ≤ sec → sec ≤ secondsPerDay * (monthStart month + 4) →
    z.offset sec = z.offset (secondsPerDay * monthStart month)

omit [TimezoneDatabase] in
/-- A wall clock near the start of the month is shown with the offset of that time. -/
theorem SteadyAt.date_eq {z : Zone} {month : ℤ} (h : SteadyAt z month) (wall : ℤ)
    (hlow : secondsPerDay * monthStart month - 2 * maxOffset ≤ wall)
    (hhigh : wall ≤ secondsPerDay * monthStart month + 2 * maxOffset) :
    z.date wall = wall - z.offset (secondsPerDay * monthStart month) := by
  have hbound := z.offset_lt wall
  have hwall : z.offset wall = z.offset (secondsPerDay * monthStart month) := by
    refine h wall ?_ ?_ <;> unfold secondsPerDay maxOffset at * <;> omega
  rcases z.date_eq_sub_offset wall with hdate | hdate
  · rw [hdate, hwall]
  · rw [hdate]
    congr 1
    rw [← Zone.offset] at hbound
    refine h _ ?_ ?_ <;> unfold secondsPerDay maxOffset at * <;> omega

/-- The last day of a month, where the zone is steady, is shown as such. -/
theorem boundaryWall_lt_of_steady (s : Schedule) {month : ℤ} (h : SteadyAt s.loc (month + 1)) :
    s.boundaryWall month < secondsPerDay * monthStart (month + 1) := by
  have hsucc := monthStart_succ month
  have hdate := h.date_eq (secondsPerDay * (monthStart (month + 1) - 1))
    (by unfold secondsPerDay maxOffset; omega) (by unfold secondsPerDay maxOffset; omega)
  have hbound := s.loc.offset_lt (secondsPerDay * monthStart (month + 1))
  rw [← Zone.offset] at hbound
  have hoffset : s.loc.offset (s.loc.date (secondsPerDay * (monthStart (month + 1) - 1))) =
      s.loc.offset (secondsPerDay * monthStart (month + 1)) := by
    rw [hdate]
    refine h _ ?_ ?_ <;> unfold secondsPerDay maxOffset at * <;> omega
  have hday : s.loc.day (s.loc.date (secondsPerDay * (monthStart (month + 1) - 1))) =
      monthStart (month + 1) - 1 := by
    rw [Zone.day, Zone.wall, hoffset, hdate, sub_add_cancel,
      Int.mul_ediv_cancel_left _ (by decide)]
  have hmonth : monthOfDay (monthStart (month + 1) - 1) = month :=
    monthOfDay_eq (by omega) (by omega)
  have hclock := s.clock.seconds_lt
  rw [boundaryWall, daysInMonth, hday, dayOfMonth, hmonth]
  unfold secondsPerDay at *
  split_ifs <;> omega

/-- A clock change that is not within four days of the first of a month leaves the months in order. -/
theorem monthsInOrder_of_steady (hs : s.active = true) (h : ∀ month, SteadyAt s.loc month) :
    s.MonthsInOrder := by
  intro t month
  have hstart := monthStart_le_boundaryWall hs month
  have hend := boundaryWall_lt_of_steady s (h (month + 1))
  have hsec : ∀ x, nanosPerSecond * x ≤ t ↔ x ≤ t / nanosPerSecond := by
    intro x
    unfold nanosPerSecond
    omega
  have hdate := s.loc.date_near (s.boundaryWall month)
  have hwall := s.loc.wall_near (t / nanosPerSecond)
  have hoffset := s.loc.offset_lt (t / nanosPerSecond)
  rw [← Zone.offset] at hoffset
  constructor
  · intro hle
    rw [boundary, hsec] at hle
    rw [localMonth, Zone.le_month_iff]
    by_contra hlt
    rw [not_le] at hlt
    have hnear : s.loc.offset (t / nanosPerSecond) =
        s.loc.offset (secondsPerDay * monthStart month) := by
      refine h month _ ?_ ?_ <;> unfold secondsPerDay maxOffset at * <;> omega
    by_cases hfar : s.boundaryWall month ≤ secondsPerDay * monthStart month + 2 * maxOffset
    · rw [(h month).date_eq _ (by unfold secondsPerDay maxOffset at *; omega) hfar, ← hnear] at hle
      rw [Zone.wall] at hlt
      omega
    · unfold secondsPerDay maxOffset at *
      omega
  · intro hlt
    rw [boundary, ← not_le, hsec, not_le] at hlt
    rw [localMonth]
    by_contra hgt
    have hge := s.loc.le_month_iff.mp (Int.add_one_le_iff.mpr (not_le.mp hgt))
    have hnear : s.loc.offset (t / nanosPerSecond) =
        s.loc.offset (secondsPerDay * monthStart (month + 1)) := by
      refine h (month + 1) _ ?_ ?_ <;> unfold secondsPerDay maxOffset at * <;> omega
    by_cases hfar : secondsPerDay * monthStart (month + 1) - 2 * maxOffset ≤ s.boundaryWall month
    · rw [(h (month + 1)).date_eq _ hfar (by unfold secondsPerDay maxOffset at *; omega), ← hnear] at hlt
      rw [Zone.wall] at hge
      omega
    · unfold secondsPerDay maxOffset at *
      omega

/-- In a zone of fixed offset the months are in order. -/
theorem monthsInOrder_of_fixed (hs : s.active = true) {offset : ℤ}
    (h : -maxOffset < offset ∧ offset < maxOffset) (hloc : s.loc = Zone.fixed offset h) :
    s.MonthsInOrder := by
  refine monthsInOrder_of_steady hs fun month sec _ _ => ?_
  rw [hloc, Zone.offset_fixed, Zone.offset_fixed]

end Schedule

/-! ### A clock change at midnight of the first -/

/-- The clock change of America/Asuncion at midnight of the first of October 2023. -/
def asuncion : Zone := Zone.change 1696132800 (-4 * 3600) (-3 * 3600) (by decide) (by decide)

/-- One zone, with a gap at midnight. -/
@[reducible] def asuncionDatabase : TimezoneDatabase where
  loadLocation name := if name = "America/Asuncion" then some asuncion else none

/-- A plan that resets at midnight of the first. -/
def midnightOfFirst (timezone : String) : Schedule := ⟨1, Clock.midnight, timezone⟩

/-- The boundary of October is shown as 23:00 of the last of September, and is its own next boundary. -/
theorem next_stuck :
    (midnightOfFirst "America/Asuncion").active = true ∧
      @Schedule.next asuncionDatabase (midnightOfFirst "America/Asuncion")
          (1696129200 * nanosPerSecond) = 1696129200 * nanosPerSecond ∧
      ¬@Schedule.Partitions asuncionDatabase (midnightOfFirst "America/Asuncion") := by
  have hnext : @Schedule.next asuncionDatabase (midnightOfFirst "America/Asuncion")
      (1696129200 * nanosPerSecond) = 1696129200 * nanosPerSecond := by decide +kernel
  refine ⟨by decide, hnext, fun h => ?_⟩
  have hlt := @Schedule.Partitions.lt_next asuncionDatabase _ h (1696129200 * nanosPerSecond)
  rw [hnext] at hlt
  exact lt_irrefl _ hlt

theorem partitions_beijing :
    @Schedule.Partitions asuncionDatabase (midnightOfFirst "Asia/Shanghai") :=
  (@Schedule.partitions_iff asuncionDatabase (midnightOfFirst "Asia/Shanghai") (by decide)).mpr
    (@Schedule.monthsInOrder_of_fixed asuncionDatabase _ (by decide) _ _
      (@Schedule.loc_of_usesLegacyCycleKey asuncionDatabase _ (by decide +kernel)).1)

end TrafficReset

end Komari
