import Mathlib

/-!
# The civil calendar

The proleptic Gregorian calendar.  Days are counted from 1970-01-01; months are counted from January
of the year zero, so that a month is one integer: its year is `month / 12`.
-/

namespace Komari

namespace Calendar

/-! ### Months -/

/-- The year has a 29th of February. -/
def isLeap (year : ℤ) : Bool := year % 4 == 0 && (year % 100 != 0 || year % 400 == 0)

/-- The days of a year before a month; January is month 0. -/
def daysBeforeMonth (leap : Bool) (month : ℤ) : ℤ :=
  let extra := if leap then 1 else 0
  if month ≤ 0 then 0
  else if month = 1 then 31
  else if month = 2 then 59 + extra
  else if month = 3 then 90 + extra
  else if month = 4 then 120 + extra
  else if month = 5 then 151 + extra
  else if month = 6 then 181 + extra
  else if month = 7 then 212 + extra
  else if month = 8 then 243 + extra
  else if month = 9 then 273 + extra
  else if month = 10 then 304 + extra
  else 334 + extra

/-- The days before a year, from 1970-01-01. -/
def yearStart (year : ℤ) : ℤ :=
  365 * (year - 1) + (year - 1) / 4 - (year - 1) / 100 + (year - 1) / 400 - 719162

/-- The first day of a month. -/
def monthStart (month : ℤ) : ℤ :=
  yearStart (month / 12) + daysBeforeMonth (isLeap (month / 12)) (month % 12)

/-- A year has 365 days, or 366 when it is a leap year. -/
theorem yearStart_succ (year : ℤ) :
    yearStart (year + 1) = yearStart year + if isLeap year then 366 else 365 := by
  have hleap : isLeap year = true ↔ year % 4 = 0 ∧ (year % 100 ≠ 0 ∨ year % 400 = 0) := by
    simp [isLeap]
  unfold yearStart
  by_cases h : isLeap year = true
  · rw [if_pos h]
    have := hleap.mp h
    omega
  · rw [if_neg h]
    have := mt hleap.mpr h
    omega

theorem monthStart_succ (month : ℤ) :
    monthStart month + 28 ≤ monthStart (month + 1) ∧
      monthStart (month + 1) ≤ monthStart month + 31 := by
  unfold monthStart
  have hlow := Int.emod_nonneg month (b := 12) (by decide)
  have hhigh := Int.emod_lt_of_pos month (b := 12) (by decide)
  by_cases hlast : month % 12 = 11
  · have hyear : (month + 1) / 12 = month / 12 + 1 := by omega
    have hmonth : (month + 1) % 12 = 0 := by omega
    rw [hyear, hmonth, hlast, yearStart_succ]
    cases isLeap (month / 12) <;> simp [daysBeforeMonth] <;> omega
  · have hyear : (month + 1) / 12 = month / 12 := by omega
    have hmonth : (month + 1) % 12 = month % 12 + 1 := by omega
    rw [hyear, hmonth]
    generalize month % 12 = m at hlow hhigh hlast ⊢
    generalize yearStart (month / 12) = start
    have hm : m = 0 ∨ m = 1 ∨ m = 2 ∨ m = 3 ∨ m = 4 ∨ m = 5 ∨ m = 6 ∨ m = 7 ∨ m = 8 ∨ m = 9 ∨
        m = 10 := by omega
    cases isLeap (month / 12) <;>
      rcases hm with rfl | rfl | rfl | rfl | rfl | rfl | rfl | rfl | rfl | rfl | rfl <;>
        simp [daysBeforeMonth] <;> omega

theorem monthStart_strictMono : StrictMono monthStart :=
  strictMono_int_of_lt_succ fun month => by
    have := (monthStart_succ month).1
    omega

/-- A month starts at least 28 days after each earlier one. -/
theorem monthStart_add_le {a b : ℤ} (h : a < b) : monthStart a + 28 ≤ monthStart b :=
  (monthStart_succ a).1.trans (monthStart_strictMono.monotone (Int.add_one_le_iff.mpr h))

/-! ### The month of a day -/

/-- The month of a day: the mean length of a month gives it, up to one. -/
def monthOfDay (day : ℤ) : ℤ :=
  let month := ((day + 719162) * 4800) / 146097 + 12
  if day < monthStart month then month - 1
  else if monthStart (month + 1) ≤ day then month + 1
  else month

/-- A month starts within four days of the mean. -/
theorem monthStart_near (month : ℤ) :
    146097 * (month - 12) - 4800 * 4 ≤ 4800 * (monthStart month + 719162) ∧
      4800 * (monthStart month + 719162) ≤ 146097 * (month - 12) + 4800 * 2 := by
  have hmonth : month = 12 * (month / 12) + month % 12 := by omega
  have hlow := Int.emod_nonneg month (b := 12) (by decide)
  have hhigh := Int.emod_lt_of_pos month (b := 12) (by decide)
  -- the years before, up to two days
  have hyear : 1753164 * (month / 12 - 1) - 8388 ≤ 4800 * (yearStart (month / 12) + 719162) ∧
      4800 * (yearStart (month / 12) + 719162) ≤ 1753164 * (month / 12 - 1) + 4752 := by
    unfold yearStart
    omega
  unfold monthStart
  generalize yearStart (month / 12) = start at hyear ⊢
  generalize isLeap (month / 12) = leap
  generalize month / 12 = y at hmonth hyear
  generalize month % 12 = m at hmonth hlow hhigh ⊢
  subst hmonth
  have hm : m = 0 ∨ m = 1 ∨ m = 2 ∨ m = 3 ∨ m = 4 ∨ m = 5 ∨ m = 6 ∨ m = 7 ∨ m = 8 ∨ m = 9 ∨
      m = 10 ∨ m = 11 := by omega
  cases leap <;>
    rcases hm with rfl | rfl | rfl | rfl | rfl | rfl | rfl | rfl | rfl | rfl | rfl | rfl <;>
      simp only [daysBeforeMonth] <;> norm_num <;> omega

theorem monthOfDay_spec (day : ℤ) :
    monthStart (monthOfDay day) ≤ day ∧ day < monthStart (monthOfDay day + 1) := by
  unfold monthOfDay
  dsimp only
  have hmonth : 146097 * (((day + 719162) * 4800) / 146097) ≤ (day + 719162) * 4800 ∧
      (day + 719162) * 4800 < 146097 * (((day + 719162) * 4800) / 146097) + 146097 := by omega
  generalize ((day + 719162) * 4800) / 146097 = k at hmonth ⊢
  have h₀ := monthStart_near (k + 12 - 1)
  have h₂ := monthStart_near (k + 12 + 1 + 1)
  split_ifs with hlt hle
  · refine ⟨?_, by rwa [sub_add_cancel]⟩
    omega
  · refine ⟨hle, ?_⟩
    omega
  · exact ⟨not_lt.mp hlt, not_le.mp hle⟩

theorem monthStart_le (day : ℤ) : monthStart (monthOfDay day) ≤ day := (monthOfDay_spec day).1

theorem lt_monthStart_succ (day : ℤ) : day < monthStart (monthOfDay day + 1) :=
  (monthOfDay_spec day).2

/-- A day is in the month between whose start and the next one it lies. -/
theorem monthOfDay_eq {day month : ℤ} (hlow : monthStart month ≤ day)
    (hhigh : day < monthStart (month + 1)) : monthOfDay day = month := by
  have h₁ := monthStart_strictMono.lt_iff_lt.mp (hlow.trans_lt (lt_monthStart_succ day))
  have h₂ := monthStart_strictMono.lt_iff_lt.mp ((monthStart_le day).trans_lt hhigh)
  omega

/-- A month is not over before its first day. -/
theorem le_monthOfDay_iff {day month : ℤ} : month ≤ monthOfDay day ↔ monthStart month ≤ day := by
  constructor
  · exact fun h => (monthStart_strictMono.monotone h).trans (monthStart_le day)
  · intro h
    have := monthStart_strictMono.lt_iff_lt.mp (h.trans_lt (lt_monthStart_succ day))
    omega

/-- The number of a day in its month, from one. -/
def dayOfMonth (day : ℤ) : ℤ := day - monthStart (monthOfDay day) + 1

theorem one_le_dayOfMonth (day : ℤ) : 1 ≤ dayOfMonth day := by
  have := monthStart_le day
  unfold dayOfMonth
  omega

theorem dayOfMonth_le (day : ℤ) : dayOfMonth day ≤ 31 := by
  have h₁ := lt_monthStart_succ day
  have h₂ := (monthStart_succ (monthOfDay day)).2
  unfold dayOfMonth
  omega

/-! ### Texts -/

/-- A number with at least `width` digits. -/
def appendInt (x : ℤ) (width : ℕ) : List Char :=
  let digits := Nat.toDigits 10 x.natAbs
  (if x < 0 then ['-'] else []) ++ (List.replicate (width - digits.length) '0' ++ digits)

/-- `YYYY-MM-DD`. -/
def dateChars (day : ℤ) : List Char :=
  appendInt (monthOfDay day / 12) 4 ++
    ('-' :: (appendInt (monthOfDay day % 12 + 1) 2 ++ ('-' :: appendInt (dayOfMonth day) 2)))

/-- The text of a date: `time.DateOnly`. -/
def dateOnly (day : ℤ) : String := String.ofList (dateChars day)

def secondsPerDay : ℤ := 24 * 60 * 60

/-- The text of an instant in UTC, in seconds: `time.RFC3339`. -/
def rfc3339 (sec : ℤ) : String :=
  String.ofList (dateChars (sec / secondsPerDay) ++
    ('T' :: (appendInt (sec % secondsPerDay / 3600) 2 ++
      (':' :: (appendInt (sec % secondsPerDay / 60 % 60) 2 ++
        (':' :: (appendInt (sec % secondsPerDay % 60) 2 ++ ['Z'])))))))

theorem ofDigitChars_padded (n width : ℕ) :
    Nat.ofDigitChars 10 (List.replicate width '0' ++ Nat.toDigits 10 n) 0 = n := by
  rw [Nat.ofDigitChars_append, Nat.ofDigitChars_replicate_zero, Nat.mul_zero,
    Nat.ofDigitChars_ten_toDigits]

theorem appendInt_inj {x y : ℤ} {width : ℕ} (h : appendInt x width = appendInt y width) :
    x = y := by
  have hnotMem : ∀ n k : ℕ, '-' ∉ List.replicate k '0' ++ Nat.toDigits 10 n := by
    intro n k hmem
    rcases List.mem_append.mp hmem with hmem | hmem
    · exact absurd (List.eq_of_mem_replicate hmem) (by decide)
    · exact absurd (Nat.isDigit_of_mem_toDigits (by decide) (by decide) hmem) (by decide)
  have hread := fun n => ofDigitChars_padded n (width - (Nat.toDigits 10 n).length)
  unfold appendInt at h
  dsimp only at h
  by_cases hx : x < 0 <;> by_cases hy : y < 0
  · rw [if_pos hx, if_pos hy] at h
    have habs := congrArg (fun l => Nat.ofDigitChars 10 l 0) (List.append_cancel_left h)
    rw [hread, hread] at habs
    omega
  · rw [if_pos hx, if_neg hy, List.nil_append] at h
    exact absurd (h ▸ List.mem_append_left _ (List.mem_singleton_self _)) (hnotMem _ _)
  · rw [if_neg hx, if_pos hy, List.nil_append] at h
    exact absurd (h.symm ▸ List.mem_append_left _ (List.mem_singleton_self _)) (hnotMem _ _)
  · rw [if_neg hx, if_neg hy] at h
    have habs := congrArg (fun l => Nat.ofDigitChars 10 l 0) (List.append_cancel_left h)
    rw [hread, hread] at habs
    omega

/-- Numbers that are not negative are written in digits, `width` of them at least. -/
theorem appendInt_natCast (n width : ℕ) : appendInt n width =
    List.replicate (width - (Nat.toDigits 10 n).length) '0' ++ Nat.toDigits 10 n := by
  unfold appendInt
  rw [if_neg (by omega), List.nil_append, Int.natAbs_natCast]

theorem isDigit_of_mem_appendInt {n width : ℕ} {c : Char} (h : c ∈ appendInt n width) :
    c.isDigit = true := by
  rw [appendInt_natCast] at h
  rcases List.mem_append.mp h with h | h
  · rw [List.eq_of_mem_replicate h]
    rfl
  · exact Nat.isDigit_of_mem_toDigits (by decide) (by decide) h

theorem appendInt_ne_nil (n width : ℕ) : appendInt n width ≠ [] := by
  rw [appendInt_natCast]
  simp [Nat.toDigits_ne_nil]

theorem length_appendInt_two {x : ℤ} (hlow : 0 ≤ x) (hhigh : x < 100) :
    (appendInt x 2).length = 2 := by
  have hle : (Nat.toDigits 10 x.natAbs).length ≤ 2 :=
    (Nat.length_toDigits_le_iff (by decide) (by decide)).mpr (by omega)
  simp only [appendInt, if_neg (not_lt.mpr hlow), List.nil_append, List.length_append,
    List.length_replicate]
  omega

/-- A date is determined by its month and its number in the month. -/
theorem eq_of_month_eq {a b : ℤ} (hmonth : monthOfDay a = monthOfDay b)
    (hday : dayOfMonth a = dayOfMonth b) : a = b := by
  rw [dayOfMonth, dayOfMonth, hmonth] at hday
  omega

theorem length_dateChars_suffix (day : ℤ) :
    (appendInt (dayOfMonth day) 2).length = 2 ∧ (appendInt (monthOfDay day % 12 + 1) 2).length = 2 := by
  have := one_le_dayOfMonth day
  have := dayOfMonth_le day
  exact ⟨length_appendInt_two (by omega) (by omega), length_appendInt_two (by omega) (by omega)⟩

theorem dateChars_inj {a b : ℤ} (h : dateChars a = dateChars b) : a = b := by
  obtain ⟨haDay, haMonth⟩ := length_dateChars_suffix a
  obtain ⟨hbDay, hbMonth⟩ := length_dateChars_suffix b
  obtain ⟨hyear, h⟩ := List.append_inj' h (by
    simp only [List.length_cons, List.length_append, haDay, haMonth, hbDay, hbMonth])
  obtain ⟨hmonth, h⟩ := List.append_inj' (List.tail_eq_of_cons_eq h) (by
    simp only [List.length_cons, haDay, hbDay])
  have hday := appendInt_inj (List.tail_eq_of_cons_eq h)
  have hyear := appendInt_inj hyear
  have hmonth := appendInt_inj hmonth
  exact eq_of_month_eq (by omega) hday

theorem dateOnly_inj {a b : ℤ} (h : dateOnly a = dateOnly b) : a = b :=
  dateChars_inj (String.ofList_injective h)

theorem rfc3339_inj {a b : ℤ} (h : rfc3339 a = rfc3339 b) : a = b := by
  have h := String.ofList_injective h
  have hmod : ∀ x : ℤ, 0 ≤ x % secondsPerDay ∧ x % secondsPerDay < 86400 := fun x =>
    ⟨Int.emod_nonneg _ (by decide), Int.emod_lt_of_pos _ (by decide)⟩
  have hlen : ∀ x : ℤ, (appendInt (x % secondsPerDay / 3600) 2).length = 2 ∧
      (appendInt (x % secondsPerDay / 60 % 60) 2).length = 2 ∧
      (appendInt (x % secondsPerDay % 60) 2).length = 2 := by
    intro x
    have := hmod x
    generalize x % secondsPerDay = y at this
    exact ⟨length_appendInt_two (by omega) (by omega), length_appendInt_two (by omega) (by omega),
      length_appendInt_two (by omega) (by omega)⟩
  obtain ⟨haHour, haMinute, haSecond⟩ := hlen a
  obtain ⟨hbHour, hbMinute, hbSecond⟩ := hlen b
  obtain ⟨hday, h⟩ := List.append_inj' h (by
    simp only [List.length_cons, List.length_append, haHour, haMinute, haSecond, hbHour, hbMinute,
      hbSecond])
  obtain ⟨hhour, h⟩ := List.append_inj (List.tail_eq_of_cons_eq h) (haHour.trans hbHour.symm)
  obtain ⟨hminute, h⟩ := List.append_inj (List.tail_eq_of_cons_eq h) (haMinute.trans hbMinute.symm)
  obtain ⟨hsecond, -⟩ := List.append_inj (List.tail_eq_of_cons_eq h) (haSecond.trans hbSecond.symm)
  have hday := dateChars_inj hday
  have hhour := appendInt_inj hhour
  have hminute := appendInt_inj hminute
  have hsecond := appendInt_inj hsecond
  have hrest : a % secondsPerDay = b % secondsPerDay := by
    have ha := hmod a
    have hb := hmod b
    generalize a % secondsPerDay = y at ha hhour hminute hsecond ⊢
    generalize b % secondsPerDay = z at hb hhour hminute hsecond ⊢
    omega
  rw [← Int.mul_ediv_add_emod a secondsPerDay, ← Int.mul_ediv_add_emod b secondsPerDay, hday, hrest]

theorem dateChars_ne_nil (day : ℤ) : dateChars day ≠ [] := by
  unfold dateChars
  simp

theorem dateOnly_ne_empty (day : ℤ) : dateOnly day ≠ "" := by
  intro h
  exact dateChars_ne_nil day (String.ofList_injective (h.trans String.ofList_nil.symm))

theorem rfc3339_ne_empty (sec : ℤ) : rfc3339 sec ≠ "" := by
  intro h
  have hnil := String.ofList_injective (h.trans String.ofList_nil.symm)
  exact dateChars_ne_nil _ (List.append_eq_nil_iff.mp hnil).1

end Calendar

end Komari
