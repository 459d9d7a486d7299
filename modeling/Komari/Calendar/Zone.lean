import Komari.Calendar.Civil

/-!
# Time zones

A zone says for every instant how far its wall clock is ahead of UTC, and how long that holds.
Instants and wall clocks are seconds.  A wall clock need not be shown at any instant, or be shown
twice, where the offset changes.
-/

namespace Komari

namespace Calendar

/-! ### Zones -/

/-- A span of time with one offset; a missing end is infinite. -/
structure ZoneSpan where
  offset : ℤ
  start : Option ℤ
  stop : Option ℤ
deriving DecidableEq

/-- The span is in force at a second. -/
def ZoneSpan.contains (span : ZoneSpan) (sec : ℤ) : Bool :=
  (span.start.all fun start => decide (start ≤ sec)) && span.stop.all fun stop => decide (sec < stop)

/-- Offsets of the time zone database are shorter than 26 hours. -/
def maxOffset : ℤ := 26 * 3600

/-- A time zone: the span of every instant. -/
structure Zone where
  lookup : ℤ → ZoneSpan
  /-- An instant lies in its span. -/
  contains_lookup : ∀ sec, (lookup sec).contains sec = true
  /-- All instants of a span have that span. -/
  lookup_eq : ∀ sec sec', (lookup sec).contains sec' = true → lookup sec' = lookup sec
  offset_lt : ∀ sec, -maxOffset < (lookup sec).offset ∧ (lookup sec).offset < maxOffset

namespace Zone

/-- Seconds ahead of UTC at an instant. -/
def offset (z : Zone) (sec : ℤ) : ℤ := (z.lookup sec).offset

/-- The wall clock of an instant. -/
def wall (z : Zone) (sec : ℤ) : ℤ := sec + z.offset sec

/-- The day that the wall clock shows. -/
def day (z : Zone) (sec : ℤ) : ℤ := z.wall sec / secondsPerDay

/-- The month that the wall clock shows. -/
def month (z : Zone) (sec : ℤ) : ℤ := monthOfDay (z.day sec)

/-- The instant of a wall clock, as `time.Date` finds it: with the offset in force at the wall clock
read as UTC, looked up once more when that leaves the span. -/
def date (z : Zone) (wall : ℤ) : ℤ :=
  let span := z.lookup wall
  if span.offset ≠ 0 then
    let utc := wall - span.offset
    if span.contains utc then wall - span.offset else wall - (z.lookup utc).offset
  else wall

/-- The instant of a wall clock differs from it by an offset of the zone. -/
theorem date_eq_sub_offset (z : Zone) (wall : ℤ) :
    z.date wall = wall - z.offset wall ∨ z.date wall = wall - z.offset (wall - z.offset wall) := by
  unfold date offset
  dsimp only
  split_ifs with hzero hin
  · exact Or.inl rfl
  · exact Or.inr rfl
  · left
    rw [not_not.mp hzero, sub_zero]

theorem date_near (z : Zone) (wall : ℤ) :
    wall - maxOffset < z.date wall ∧ z.date wall < wall + maxOffset := by
  have h₁ := z.offset_lt wall
  have h₂ := z.offset_lt (wall - z.offset wall)
  rcases z.date_eq_sub_offset wall with h | h
  · rw [h, offset]
    omega
  · rw [h, offset]
    omega

theorem wall_near (z : Zone) (sec : ℤ) :
    sec - maxOffset < z.wall sec ∧ z.wall sec < sec + maxOffset := by
  have := z.offset_lt sec
  rw [wall, offset]
  omega

/-- A month is shown when the wall clock has reached its first second. -/
theorem le_month_iff (z : Zone) {month sec : ℤ} :
    month ≤ z.month sec ↔ secondsPerDay * monthStart month ≤ z.wall sec := by
  rw [Zone.month, le_monthOfDay_iff, day, secondsPerDay]
  omega

/-! ### Examples of zones -/

/-- A zone without changes. -/
def fixed (offset : ℤ) (h : -maxOffset < offset ∧ offset < maxOffset) : Zone where
  lookup _ := ⟨offset, none, none⟩
  contains_lookup _ := rfl
  lookup_eq _ _ _ := rfl
  offset_lt _ := h

@[simp] theorem offset_fixed (offset : ℤ) (h : -maxOffset < offset ∧ offset < maxOffset) (sec : ℤ) :
    (fixed offset h).offset sec = offset := rfl

@[simp] theorem date_fixed (offset : ℤ) (h : -maxOffset < offset ∧ offset < maxOffset) (wall : ℤ) :
    (fixed offset h).date wall = wall - offset := by
  rcases (fixed offset h).date_eq_sub_offset wall with h | h <;> exact h

/-- A zone with one change. -/
def change (at' before after : ℤ) (h : -maxOffset < before ∧ before < maxOffset)
    (h' : -maxOffset < after ∧ after < maxOffset) : Zone where
  lookup sec := if sec < at' then ⟨before, none, some at'⟩ else ⟨after, some at', none⟩
  contains_lookup sec := by
    split_ifs with hlt
    · simpa [ZoneSpan.contains] using hlt
    · simpa [ZoneSpan.contains] using hlt
  lookup_eq sec sec' hin := by
    by_cases hlt : sec < at'
    · rw [if_pos hlt] at hin ⊢
      rw [if_pos (by simpa [ZoneSpan.contains] using hin)]
    · rw [if_neg hlt] at hin ⊢
      rw [if_neg (not_lt.mpr (by simpa [ZoneSpan.contains] using hin))]
  offset_lt sec := by
    split_ifs
    · exact h
    · exact h'

end Zone

end Calendar

end Komari
