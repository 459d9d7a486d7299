import Komari.Calendar.Changes
import Komari.Table.Ordered
import Komari.TrafficReset.Schedule
import Komari.Word.Int64
import Mathlib.Order.Bounds.Basic

/-!
# Wall clocks

A date and a clock are shown by the instants of a zone: by none in a gap, by two where the clock is
set back.  The instants are searched with the offsets that the zone has every half hour around the
date.  Instants are nanoseconds; they are not bounded.
-/

namespace Komari

namespace Expiry

open Calendar TrafficReset

/-! ### Dates and clocks -/

/-- The date and the clock of a `time.Time`. -/
structure LocalTime where
  year : ℤ
  month : ℤ
  day : ℤ
  hour : ℤ
  minute : ℤ
  second : ℤ
  nano : ℤ
deriving DecidableEq

/-- `civilUTC`: the instant that `time.Date` gives in UTC, where fields out of range carry over. -/
def civilUTC (c : LocalTime) : ℤ :=
  nanosPerSecond * (secondsPerDay * (monthStart (12 * c.year + c.month - 1) + c.day - 1) +
    c.hour * 3600 + c.minute * 60 + c.second) + c.nano

/-- The date and the clock of an instant in UTC. -/
def utcTime (t : ℤ) : LocalTime :=
  let sec := t / nanosPerSecond
  let day := sec / secondsPerDay
  let clock := sec % secondsPerDay
  { year := monthOfDay day / 12
    month := monthOfDay day % 12 + 1
    day := dayOfMonth day
    hour := clock / 3600
    minute := clock / 60 % 60
    second := clock % 60
    nano := t % nanosPerSecond }

/-- The offset of a zone at an instant, as a `time.Duration`. -/
def offsetNanos (z : Zone) (t : ℤ) : ℤ := nanosPerSecond * z.offset (t / nanosPerSecond)

/-- The date and the clock of an instant in a zone. -/
def localTime (z : Zone) (t : ℤ) : LocalTime := utcTime (t + offsetNanos z t)

@[simp] theorem civilUTC_utcTime (t : ℤ) : civilUTC (utcTime t) = t := by
  have hmonth : 12 * (monthOfDay (t / nanosPerSecond / secondsPerDay) / 12) +
      (monthOfDay (t / nanosPerSecond / secondsPerDay) % 12 + 1) - 1 =
        monthOfDay (t / nanosPerSecond / secondsPerDay) := by omega
  simp only [civilUTC, utcTime, hmonth, dayOfMonth]
  have hsec := Int.mul_ediv_add_emod t nanosPerSecond
  have hday := Int.mul_ediv_add_emod (t / nanosPerSecond) secondsPerDay
  generalize t / nanosPerSecond = sec at hsec hday ⊢
  generalize t % nanosPerSecond = nano at hsec ⊢
  have hclock : sec % secondsPerDay / 3600 * 3600 + sec % secondsPerDay / 60 % 60 * 60 +
      sec % secondsPerDay % 60 = sec % secondsPerDay := by omega
  rw [← hsec]
  congr 2
  generalize sec % secondsPerDay = clock at hday hclock ⊢
  generalize sec / secondsPerDay = day at hday ⊢
  generalize monthStart (monthOfDay day) = first
  have : first + (day - first + 1) - 1 = day := by omega
  rw [this]
  omega

theorem utcTime_injective : Function.Injective utcTime :=
  Function.LeftInverse.injective civilUTC_utcTime

variable {t : ℤ}

/-- The instant of a wall clock, for the offset in force. -/
theorem eq_of_localTime {z : Zone} {c : LocalTime} (h : localTime z t = c) :
    t = civilUTC c - offsetNanos z t := by
  rw [← h, localTime, civilUTC_utcTime]
  omega

/-! ### The search -/

/-- `time.Hour`. -/
def hourNanos : ℤ := 3600 * nanosPerSecond

/-- `time.Minute`. -/
def minuteNanos : ℤ := 60 * nanosPerSecond

/-- The seconds in which a wall clock is searched. -/
def scanWindow (c : LocalTime) : ℤ × ℤ :=
  let midnight := civilUTC { c with hour := 0, minute := 0, second := 0, nano := 0 }
  (midnight - 24 * hourNanos, midnight + 48 * hourNanos)

/-- The instants from `start` up to `stop`, each `step` behind the one before. -/
def every (start stop step : ℤ) : List ℤ :=
  (List.range ((stop - start) / step + 1).toNat).map fun k : ℕ => start + step * k

theorem mem_every {start stop step probe : ℤ} (hstep : 0 < step) :
    probe ∈ every start stop step ↔ probe ≤ stop ∧ ∃ k : ℕ, probe = start + step * k := by
  have hbound : ∀ k : ℕ, k < ((stop - start) / step + 1).toNat ↔ start + step * k ≤ stop := by
    intro k
    have hdiv := Int.le_ediv_iff_mul_le (a := k) (b := stop - start) hstep
    rw [mul_comm] at hdiv
    omega
  simp only [every, List.mem_map, List.mem_range]
  constructor
  · rintro ⟨k, hk, rfl⟩
    exact ⟨(hbound k).mp hk, k, rfl⟩
  · rintro ⟨hle, k, rfl⟩
    exact ⟨k, (hbound k).mpr hle, rfl⟩

/-- The instant that shows `want` when the offset at `probe` is in force, if it does show it. -/
def candidate (z : Zone) (want : LocalTime) (probe : ℤ) : Option ℤ :=
  let candidate := civilUTC want - offsetNanos z probe
  if localTime z candidate = want then some candidate else none

/-- `matchingWallTimes`: the candidates of all half hours, collected by `UnixNano` and sorted. -/
def matchingWallTimes (z : Zone) (want : LocalTime) : List ℤ :=
  let window := scanWindow want
  let found := (every window.1 window.2 (30 * minuteNanos)).filterMap (candidate z want)
  let seen : Table ℤ ℤ := Table.upsertAll ∅ (found.map fun t => (int64 t, t))
  sortOn id (seen.rows.map Prod.snd)

/-! ### It finds all -/

variable {table : ZoneTable}

/-- The instants of a wall clock lie close together. -/
theorem near_of_localTime {c : LocalTime} (h : localTime table.zone t = c) :
    civilUTC c - 84600 * nanosPerSecond < t ∧ t < civilUTC c + 84600 * nanosPerSecond := by
  have heq := eq_of_localTime h
  have := table.offset_zone_lt (t / nanosPerSecond)
  unfold offsetNanos nanosPerSecond at *
  omega

theorem midnight_le {c : LocalTime} (h : utcTime t = c) :
    ∃ midnight, civilUTC { c with hour := 0, minute := 0, second := 0, nano := 0 } =
      nanosPerSecond * midnight ∧ nanosPerSecond * midnight ≤ t ∧
        t < nanosPerSecond * midnight + 24 * hourNanos := by
  refine ⟨secondsPerDay * (monthStart (12 * c.year + c.month - 1) + c.day - 1), by simp [civilUTC], ?_⟩
  have hcivil := civilUTC_utcTime t
  rw [h] at hcivil
  have hclock : 0 ≤ c.hour * 3600 + c.minute * 60 + c.second ∧
      c.hour * 3600 + c.minute * 60 + c.second < secondsPerDay := by
    have hlow := Int.emod_nonneg (t / nanosPerSecond) (b := secondsPerDay) (by decide)
    have hhigh := Int.emod_lt_of_pos (t / nanosPerSecond) (b := secondsPerDay) (by decide)
    rw [← h]
    simp only [utcTime]
    generalize t / nanosPerSecond % secondsPerDay = clock at hlow hhigh ⊢
    omega
  have hnano : 0 ≤ c.nano ∧ c.nano < nanosPerSecond := by
    rw [← h]
    exact ⟨Int.emod_nonneg _ (by decide), Int.emod_lt_of_pos _ (by decide)⟩
  rw [← hcivil]
  unfold civilUTC hourNanos secondsPerDay nanosPerSecond at *
  omega

variable {want : LocalTime}

/-- The search finds a candidate for each instant of the wall clock. -/
theorem mem_candidates :
    t ∈ (every (scanWindow want).1 (scanWindow want).2 (30 * minuteNanos)).filterMap
      (candidate table.zone want) ↔ localTime table.zone t = want := by
  rw [List.mem_filterMap]
  constructor
  · rintro ⟨probe, -, h⟩
    simp only [candidate] at h
    split_ifs at h with hlocal
    cases h
    exact hlocal
  · intro h
    obtain ⟨midnight, hmidnight, hlow, hhigh⟩ := midnight_le h
    -- a half hour of the window has the offset of the instant
    obtain ⟨k, ⟨hklow, hkhigh⟩, hoffset⟩ :=
      table.exists_multiple (midnight - 24 * 3600) (t / nanosPerSecond)
    have hoff := table.offset_zone_lt (t / nanosPerSecond)
    refine ⟨nanosPerSecond * (midnight - 24 * 3600 + 1800 * k), (mem_every (by decide)).mpr ⟨?_, ?_⟩, ?_⟩
    · rw [scanWindow, hmidnight]
      unfold hourNanos offsetNanos nanosPerSecond at *
      omega
    · refine ⟨k.toNat, ?_⟩
      rw [scanWindow, hmidnight]
      unfold minuteNanos hourNanos offsetNanos nanosPerSecond at *
      omega
    · have heq := eq_of_localTime h
      have hnanos : offsetNanos table.zone (nanosPerSecond * (midnight - 24 * 3600 + 1800 * k)) =
          offsetNanos table.zone t := by
        rw [offsetNanos, Int.mul_ediv_cancel_left _ (by decide), hoffset, offsetNanos]
      simp only [candidate, hnanos, ← heq, h, if_true]

/-- Instants of one wall clock have different `UnixNano`. -/
theorem eq_of_int64_eq {c : LocalTime} {t' : ℤ}
    (h : localTime table.zone t = c) (h' : localTime table.zone t' = c) (heq : int64 t = int64 t') :
    t = t' := by
  have hnear := near_of_localTime h
  have hnear' := near_of_localTime h'
  obtain ⟨k, hk⟩ := int64_eq_int64_iff.mp heq
  unfold nanosPerSecond at *
  omega

theorem mem_seen {found : List ℤ}
    (hfound : ∀ t, t ∈ found ↔ localTime table.zone t = want) {k : ℤ} :
    (k, t) ∈ (Table.upsertAll (∅ : Table ℤ ℤ) (found.map fun t => (int64 t, t))).rows ↔
      k = int64 t ∧ localTime table.zone t = want := by
  rw [Table.mem_rows]
  by_cases hkey : k ∈ (found.map fun t => (int64 t, t)).map Prod.fst
  · obtain ⟨v, hmem, hfind⟩ := Table.exists_find?_upsertAll (t := (∅ : Table ℤ ℤ)) hkey
    obtain ⟨v, hv, heq⟩ := List.mem_map.mp hmem
    cases heq
    rw [hfind, Option.some_inj]
    constructor
    · rintro rfl
      exact ⟨rfl, (hfound _).mp hv⟩
    · rintro ⟨hk, hlocal⟩
      exact eq_of_int64_eq ((hfound _).mp hv) hlocal hk
  · rw [Table.find?_upsertAll_of_notMem hkey, Table.find?_empty]
    constructor
    · rintro ⟨⟩
    · rintro ⟨rfl, hlocal⟩
      refine absurd (List.mem_map.mpr ⟨(int64 t, t), ?_, rfl⟩) hkey
      exact List.mem_map.mpr ⟨t, (hfound t).mpr hlocal, rfl⟩

/-- **All instants of a wall clock are found.** -/
theorem mem_matchingWallTimes :
    t ∈ matchingWallTimes table.zone want ↔ localTime table.zone t = want := by
  simp only [matchingWallTimes, mem_sortOn, List.mem_map]
  constructor
  · rintro ⟨⟨k, t⟩, hmem, rfl⟩
    exact ((mem_seen fun _ => mem_candidates).mp hmem).2
  · exact fun h => ⟨(int64 t, t), (mem_seen fun _ => mem_candidates).mpr ⟨rfl, h⟩, rfl⟩

/-- **They are in increasing order.** -/
theorem pairwise_matchingWallTimes (table : ZoneTable) (want : LocalTime) :
    (matchingWallTimes table.zone want).Pairwise (· < ·) := by
  set found := (every (scanWindow want).1 (scanWindow want).2 (30 * minuteNanos)).filterMap
    (candidate table.zone want)
  set seen : Table ℤ ℤ := Table.upsertAll ∅ (found.map fun t => (int64 t, t)) with hseen
  have hvalues : (seen.rows.map Prod.snd).Nodup := by
    refine List.Nodup.map_on ?_ seen.nodup_rows
    rintro ⟨k, t⟩ hmem ⟨k', t'⟩ hmem' rfl
    rw [hseen, mem_seen fun _ => mem_candidates] at hmem hmem'
    rw [hmem.1, hmem'.1]
  have hle : (sortOn id (seen.rows.map Prod.snd)).Pairwise (· ≤ ·) :=
    List.pairwise_insertionSort _ _
  have hne : (sortOn id (seen.rows.map Prod.snd)).Nodup := (sortOn_perm _ _).nodup_iff.mpr hvalues
  exact hle.imp₂ (fun _ _ h₁ h₂ => lt_of_le_of_ne h₁ h₂) hne

/-- The first match is the earliest instant of the wall clock. -/
theorem isLeast_head {rest : List ℤ} (h : matchingWallTimes table.zone want = t :: rest) :
    IsLeast {u | localTime table.zone u = want} t := by
  have hmem : ∀ u, u ∈ t :: rest ↔ localTime table.zone u = want := fun u => by
    rw [← h, mem_matchingWallTimes]
  refine ⟨(hmem t).mp List.mem_cons_self, fun u hu => ?_⟩
  have hsorted := pairwise_matchingWallTimes table want
  rw [h, List.pairwise_cons] at hsorted
  rcases List.mem_cons.mp ((hmem u).mpr hu) with rfl | hrest
  · exact le_rfl
  · exact (hsorted.1 u hrest).le

end Expiry

end Komari
