import Komari.Calendar.Civil
import Mathlib.Data.String.Basic
import Mathlib.Data.List.Lex

/-!
# Months and years as texts

Reports select the dates of a month by their text: by a prefix, or by the first and the last date.
-/

namespace Komari

namespace Calendar

/-- `2006-01`. -/
def monthChars (month : ℤ) : List Char :=
  appendInt (month / 12) 4 ++ ('-' :: appendInt (month % 12 + 1) 2)

/-- The text of a month: the layout `2006-01`. -/
def monthText (month : ℤ) : String := String.ofList (monthChars month)

/-- The text of a year: the layout `2006`. -/
def yearText (year : ℤ) : String := String.ofList (appendInt year 4)

/-- `strings.HasPrefix`. -/
def hasPrefix (s pre : String) : Bool := pre.toList.isPrefixOf s.toList

/-- The rest behind a text. -/
def takeText (n : ℕ) (s : String) : String := String.ofList (s.toList.take n)

/-- The first day of a month. -/
def firstOfMonth (month : ℤ) : ℤ := monthStart month

/-- The last day of a month. -/
def lastOfMonth (month : ℤ) : ℤ := monthStart (month + 1) - 1

/-! ### Prefixes -/

/-- A date is its month and the number of the day. -/
theorem dateChars_eq (day : ℤ) :
    dateChars day = monthChars (monthOfDay day) ++ '-' :: appendInt (dayOfMonth day) 2 := by
  simp [dateChars, monthChars]

theorem hyphen_notMem_appendInt {x : ℤ} (hx : 0 ≤ x) (width : ℕ) : '-' ∉ appendInt x width := by
  unfold appendInt
  rw [if_neg (by omega), List.nil_append]
  intro hmem
  rcases List.mem_append.mp hmem with hmem | hmem
  · exact absurd (List.eq_of_mem_replicate hmem) (by decide)
  · exact absurd (Nat.isDigit_of_mem_toDigits (by decide) (by decide) hmem) (by decide)

/-- A year that is not negative ends at the first hyphen. -/
theorem year_eq_of_append {y y' : ℤ} (hy : 0 ≤ y) {s t : List Char}
    (h : appendInt y 4 ++ '-' :: s = appendInt y' 4 ++ '-' :: t) : y = y' ∧ s = t := by
  have htake : ∀ {x : ℤ} {u : List Char}, 0 ≤ x →
      (appendInt x 4 ++ '-' :: u).takeWhile (· ≠ '-') = appendInt x 4 := by
    intro x u hx
    rw [List.takeWhile_append_of_pos fun c hc => by
      simpa using fun heq : c = '-' => hyphen_notMem_appendInt hx 4 (heq ▸ hc)]
    simp
  by_cases hy' : 0 ≤ y'
  · have hyear : appendInt y 4 = appendInt y' 4 := by
      rw [← htake (u := s) hy, h, htake hy']
    rw [hyear] at h
    exact ⟨appendInt_inj hyear, List.tail_eq_of_cons_eq (List.append_cancel_left h)⟩
  · -- a negative year begins with the hyphen
    exfalso
    have hhead : (appendInt y' 4 ++ '-' :: t).takeWhile (· ≠ '-') = [] := by
      simp [appendInt, if_pos (not_le.mp hy')]
    rw [← h, htake hy] at hhead
    have hdigits : (Nat.toDigits 10 y.natAbs) ≠ [] := Nat.toDigits_ne_nil
    simp [appendInt, hdigits] at hhead

theorem length_monthDigits (month : ℤ) : (appendInt (month % 12 + 1) 2).length = 2 := by
  have := Int.emod_nonneg month (b := 12) (by decide)
  have := Int.emod_lt_of_pos month (b := 12) (by decide)
  exact length_appendInt_two (by omega) (by omega)

theorem month_eq_of_append {m m' : ℤ} (hm : 0 ≤ m) {s t : List Char}
    (h : monthChars m ++ s = monthChars m' ++ t) : m = m' := by
  unfold monthChars at h
  rw [List.append_assoc, List.append_assoc, List.cons_append, List.cons_append] at h
  obtain ⟨hyear, h⟩ := year_eq_of_append (Int.ediv_nonneg hm (by decide)) h
  have hdigits := (List.append_inj h ((length_monthDigits m).trans (length_monthDigits m').symm)).1
  have := appendInt_inj hdigits
  omega

theorem monthText_inj {m m' : ℤ} (hm : 0 ≤ m) (h : monthText m = monthText m') : m = m' :=
  month_eq_of_append hm (congrArg (· ++ []) (String.ofList_injective h))

variable {month : ℤ}

/-- **A date begins with its month.** -/
theorem hasPrefix_dateOnly (hmonth : 0 ≤ month) (day : ℤ) :
    hasPrefix (dateOnly day) (monthText month) = true ↔ monthOfDay day = month := by
  unfold hasPrefix dateOnly monthText
  rw [String.toList_ofList, String.toList_ofList, List.isPrefixOf_iff_prefix, dateChars_eq]
  constructor
  · rintro ⟨rest, h⟩
    exact (month_eq_of_append hmonth h).symm
  · rintro rfl
    exact List.prefix_append _ _

theorem length_yearDigits (hlow : 0 ≤ month) (hhigh : month < 120000) :
    (appendInt (month / 12) 4).length = 4 := by
  have hle : (Nat.toDigits 10 (month / 12).natAbs).length ≤ 4 :=
    (Nat.length_toDigits_le_iff (by decide) (by decide)).mpr (by omega)
  simp only [appendInt, if_neg (show ¬month / 12 < 0 by omega), List.nil_append, List.length_append,
    List.length_replicate]
  omega

/-- In a year of four digits a month is seven characters long. -/
theorem length_monthChars (hlow : 0 ≤ month) (hhigh : month < 120000) :
    (monthChars month).length = 7 := by
  simp only [monthChars, List.length_append, List.length_cons, length_yearDigits hlow hhigh,
    length_monthDigits]

theorem take_dateOnly {day : ℤ} (hlow : 0 ≤ monthOfDay day) (hhigh : monthOfDay day < 120000) :
    takeText 7 (dateOnly day) = monthText (monthOfDay day) := by
  unfold takeText dateOnly monthText
  rw [String.toList_ofList, dateChars_eq, ← length_monthChars hlow hhigh, List.take_left]

/-- A text has a month as its prefix when its first seven characters are the month. -/
theorem takeText_eq_iff (hlow : 0 ≤ month) (hhigh : month < 120000) (s : String) :
    takeText 7 s = monthText month ↔ hasPrefix s (monthText month) = true := by
  unfold hasPrefix takeText monthText
  rw [String.toList_ofList, List.isPrefixOf_iff_prefix, List.prefix_iff_eq_take,
    length_monthChars hlow hhigh, eq_comm]
  exact ⟨fun h => String.ofList_injective h, fun h => congrArg String.ofList h⟩

theorem ten_le_length_dateOnly (day : ℤ) : 10 ≤ (dateOnly day).length := by
  have hpad : ∀ (x : ℤ) (width : ℕ), width ≤ (appendInt x width).length := by
    intro x width
    simp only [appendInt, List.length_append, List.length_replicate]
    omega
  have hyear := hpad (monthOfDay day / 12) 4
  obtain ⟨hday, hmonth⟩ := length_dateChars_suffix day
  rw [dateOnly, String.length_ofList]
  simp only [dateChars, List.length_append, List.length_cons, hday, hmonth]
  omega

/-! ### Ranges -/

/-- Texts compare by their first characters, or behind them. -/
theorem cons_le_cons {α : Type*} [LinearOrder α] {x y : α} {s t : List α} :
    x :: s ≤ y :: t ↔ x < y ∨ x = y ∧ s ≤ t := by
  have hlt : ∀ {x y : α} {s t : List α}, x :: s < y :: t ↔ x < y ∨ x = y ∧ s < t :=
    List.cons_lt_cons_iff
  rw [← not_lt, hlt, ← not_lt (a := t)]
  rcases lt_trichotomy x y with h | rfl | h
  · simp [h, h.ne', h.not_gt]
  · simp
  · simp [h, h.ne', h.not_gt]

/-- A text between two texts with a common beginning has it too. -/
theorem prefix_of_le_of_le {α : Type*} [LinearOrder α] {common a b s : List α}
    (hlow : common ++ a ≤ s) (hhigh : s ≤ common ++ b) : common <+: s := by
  induction common generalizing s with
  | nil => exact List.nil_prefix
  | cons c common ih =>
    cases s with
    | nil => exact absurd hlow (not_le.mpr (List.nil_lt_cons _ _))
    | cons x s =>
      rw [List.cons_append, cons_le_cons] at hlow hhigh
      rcases hlow with hlt | ⟨rfl, hlow⟩
      · rcases hhigh with hlt' | ⟨rfl, -⟩
        · exact absurd (hlt.trans hlt') (lt_irrefl _)
        · exact absurd hlt (lt_irrefl _)
      · rcases hhigh with hlt | ⟨-, hhigh⟩
        · exact absurd hlt (lt_irrefl _)
        · exact List.cons_prefix_cons.mpr ⟨rfl, ih hlow hhigh⟩

theorem append_le_append_left {α : Type*} [LinearOrder α] (common : List α) {a b : List α}
    (h : a ≤ b) : common ++ a ≤ common ++ b := by
  induction common with
  | nil => exact h
  | cons c common ih => exact cons_le_cons.mpr (Or.inr ⟨rfl, ih⟩)

theorem dayText_le {i j : ℤ} (hi : 1 ≤ i) (hij : i ≤ j) (hj : j ≤ 31) :
    appendInt i 2 ≤ appendInt j 2 := by
  have hall : ∀ i j : Fin 32, i ≤ j → appendInt (i : ℕ) 2 ≤ appendInt (j : ℕ) 2 := by decide +kernel
  have h := hall ⟨i.toNat, by omega⟩ ⟨j.toNat, by omega⟩ (by simp only [Fin.mk_le_mk]; omega)
  rwa [Int.toNat_of_nonneg (by omega), Int.toNat_of_nonneg (by omega)] at h

theorem monthOfDay_first (month : ℤ) : monthOfDay (firstOfMonth month) = month :=
  monthOfDay_eq le_rfl (monthStart_strictMono (lt_add_one month))

theorem monthOfDay_last (month : ℤ) : monthOfDay (lastOfMonth month) = month := by
  have := (monthStart_succ month).1
  exact monthOfDay_eq (by unfold lastOfMonth; omega) (by unfold lastOfMonth; omega)

/-- **The dates from the first to the last of a month are its dates.** -/
theorem dateOnly_mem_month (hmonth : 0 ≤ month) (day : ℤ) :
    (dateOnly (firstOfMonth month) ≤ dateOnly day ∧ dateOnly day ≤ dateOnly (lastOfMonth month)) ↔
      monthOfDay day = month := by
  rw [String.le_iff_toList_le, String.le_iff_toList_le]
  unfold dateOnly
  rw [String.toList_ofList, String.toList_ofList, String.toList_ofList, dateChars_eq,
    dateChars_eq (lastOfMonth month), monthOfDay_first, monthOfDay_last]
  constructor
  · rintro ⟨hlow, hhigh⟩
    obtain ⟨rest, h⟩ := prefix_of_le_of_le hlow hhigh
    rw [dateChars_eq] at h
    exact (month_eq_of_append hmonth h).symm
  · rintro rfl
    rw [dateChars_eq]
    have hday := one_le_dayOfMonth day
    have hday' := lt_monthStart_succ day
    have hlast := dayOfMonth_le (lastOfMonth (monthOfDay day))
    have hone : dayOfMonth (firstOfMonth (monthOfDay day)) = 1 := by
      unfold dayOfMonth
      rw [monthOfDay_first]
      simp [firstOfMonth]
    have hle : dayOfMonth day ≤ dayOfMonth (lastOfMonth (monthOfDay day)) := by
      unfold dayOfMonth
      rw [monthOfDay_last]
      unfold lastOfMonth
      omega
    refine ⟨append_le_append_left _ (cons_le_cons.mpr (Or.inr ⟨rfl, ?_⟩)),
      append_le_append_left _ (cons_le_cons.mpr (Or.inr ⟨rfl, ?_⟩))⟩
    · exact dayText_le (by omega) (by omega) (hle.trans hlast)
    · exact dayText_le (by omega) hle hlast

end Calendar

end Komari
