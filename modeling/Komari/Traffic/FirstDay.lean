import Komari.Run.Along
import Komari.Traffic.Additive
import Komari.TrafficReset.Schedule

/-!
# The first day of a traffic cycle

A cycle that does not start at Beijing midnight shares its first day with the cycle before, so the
daily ledger cannot tell its traffic.  `syncCycleFirstDay` measures that traffic while the day goes
on, each call from where the last one stopped, and seals the row once the day is over.

* `firstDay_eq_metricUsage` : **the sealed row is the usage of the first day measured at once**, if no
  counter drop is recovered across a call.
* `firstDay_ne_metricUsage` : a call between a counter drop and its recovery.
-/

namespace Komari

namespace Traffic

open TrafficReset Calendar

/-! ### Cycles -/

/-- The settings of a client that decide its traffic cycles. -/
structure Client where
  uuid : String
  /-- Day of the month, if it is configured. -/
  trafficResetDay : Option ℤ
  trafficResetTime : String
  trafficResetTimezone : String
  trafficLimitType : String

section Cycle

variable [TimezoneDatabase]

/-- When the traffic of a client starts anew. -/
def clientSchedule (client : Client) : Schedule :=
  fromFields client.trafficResetDay client.trafficResetTime client.trafficResetTimezone

/-- `CurrentTrafficCycleFor`: the start and the key of the current cycle. -/
def currentTrafficCycleFor (client : Client) (now : ℤ) : Except String (ℤ × String) :=
  let schedule := clientSchedule client
  if schedule.active = false then
    .error "traffic reset day must be configured before calibration"
  else .ok (schedule.last now, schedule.cycleKey now)

theorem cycleKey_congr {s : Schedule} {t t' : ℤ} (h : s.last t = s.last t') :
    s.cycleKey t = s.cycleKey t' := by
  unfold Schedule.cycleKey
  rw [h]

end Cycle

/-- A day begins in Beijing. -/
def isBeijingMidnight (t : ℤ) : Bool := t ≠ zeroTime && t = dayStart (beijingDay t)

/-- The Beijing midnight that ends the day of `t`. -/
def dayEnd (t : ℤ) : ℤ := dayStart (beijingDay t + 1)

/-- `cycleFirstDayWindow`: the first and the last nanosecond of the first day, and the day. -/
def cycleFirstDayWindow (cycleStart : ℤ) : Option (ℤ × ℤ × ℤ) :=
  if isBeijingMidnight cycleStart then none
  else some (cycleStart, dayEnd cycleStart - 1, beijingDay cycleStart)

/-- The first day can still be read. -/
def firstDayHistoryStillRetained (cycleStart now : ℤ) : Bool :=
  if cycleStart = zeroTime ∨ now < cycleStart then false
  else decide (now ≤ cycleStart + 24 * 60 * 60 * 1000000000)

/-- Addition that stops at the end. -/
def saturatingAdd (left right : ℤ) : ℤ :=
  if 0 < right ∧ maxInt64 - right < left then maxInt64 else addInt64 left right

/-! ### Rows -/

/-- `TrafficCycleFirstDay`, stored under the client and the key of the cycle. -/
structure FirstDayRow where
  day : String
  upBytes : ℤ
  downBytes : ℤ
  /-- The first instant that is not measured yet; the zero time if there is none. -/
  coveredUntil : ℤ
  sealed : Bool
  /-- A calibration has replaced the missing history. -/
  recovered : Bool
deriving DecidableEq

/-- The usage of the first day. -/
def firstDayUsage (row : FirstDayRow) : Usage := ⟨row.upBytes, row.downBytes⟩

/-- The table of `TrafficCycleFirstDay`. -/
abbrev FirstDays := Table (String × String) FirstDayRow

/-- What a call of `syncCycleFirstDay` returns and leaves. -/
structure FirstDaySync where
  /-- The usage of the first day, if it is available. -/
  usage : Option Usage
  /-- The range that the call measures, with both ends. -/
  measured : Option (ℤ × ℤ)
  table : FirstDays

/-- The range that is still to be measured, up to `now` and within the first day. -/
def unmeasuredWindow (found : Option FirstDayRow) (cycleStart stop now : ℤ) : Option (ℤ × ℤ) :=
  let covered :=
    match found with
    | some row => if row.coveredUntil = zeroTime then cycleStart else row.coveredUntil
    | none => cycleStart
  let upTo := if stop < now then stop else now
  if covered ≤ upTo then some (covered, upTo) else none

/-- The stored row with the usage of the measured range added to it. -/
def addMeasured (records : List DeltaRecord) (found : Option FirstDayRow) :
    Option (ℤ × ℤ) → Option FirstDayRow
  | none => found
  | some (covered, upTo) =>
    let extra := metricUsage records covered upTo
    match found with
    | some row =>
      some { row with upBytes := saturatingAdd row.upBytes extra.up,
                      downBytes := saturatingAdd row.downBytes extra.down, coveredUntil := upTo + 1 }
    | none =>
      some { day := "", upBytes := extra.up, downBytes := extra.down, coveredUntil := upTo + 1,
             sealed := false, recovered := false }

section Sync

variable [TimezoneDatabase] (records : String → List DeltaRecord) (client : Client)

/-- The first day of the current cycle is put down. -/
def syncCycleFirstDay (now : ℤ) (table : FirstDays) : FirstDaySync :=
  match currentTrafficCycleFor client now with
  | .error _ => ⟨none, none, table⟩
  | .ok (cycleStart, cycle) =>
    match cycleFirstDayWindow cycleStart with
    | none => ⟨none, none, table⟩
    | some (_, stop, startDay) =>
      let found := table.find? (client.uuid, cycle)
      if found.any fun row => row.sealed || row.recovered then
        ⟨found.map firstDayUsage, none, table⟩
      else
        let firstDayEnded := decide (startDay < beijingDay now)
        if firstDayEnded && found.isNone && !firstDayHistoryStillRetained cycleStart now then
          ⟨none, none, table⟩
        else
          let window := unmeasuredWindow found cycleStart stop now
          match addMeasured (records client.uuid) found window with
          | none => ⟨none, none, table⟩
          | some row =>
            let row := { row with day := dateOnly startDay,
                                  sealed := firstDayEnded || !decide (now < stop + 1) }
            ⟨some (firstDayUsage row), window, table.upsert (client.uuid, cycle) row⟩

/-- The table after calls at the instants `nows`. -/
def syncAll (table : FirstDays) (nows : List ℤ) : FirstDays :=
  nows.foldl (fun table now => (syncCycleFirstDay records client now table).table) table

/-- The ranges that calls at the instants `nows` measure. -/
def measuredWindows (table : FirstDays) : List ℤ → List (ℤ × ℤ)
  | [] => []
  | now :: nows =>
    let r := syncCycleFirstDay records client now table
    r.measured.toList ++ measuredWindows r.table nows

end Sync

/-! ### What a call does -/

theorem lt_dayEnd (t : ℤ) : t < dayEnd t := by
  rw [dayEnd, lt_dayStart_iff]
  omega

theorem beijingDay_lt_iff (t now : ℤ) : beijingDay t < beijingDay now ↔ dayEnd t ≤ now := by
  rw [dayEnd, dayStart_le_iff]
  omega

theorem dayEnd_ne_zeroTime (t : ℤ) : dayEnd t ≠ zeroTime := by
  unfold dayEnd dayStart nanosPerDay beijingOffset zeroTime nanosPerSecond
  omega

theorem le_of_firstDayHistoryStillRetained {cycleStart now : ℤ}
    (h : firstDayHistoryStillRetained cycleStart now = true) : cycleStart ≤ now := by
  unfold firstDayHistoryStillRetained at h
  split_ifs at h with hearly
  omega

/-- The end of the part of the first day that calls up to `last` measure. -/
def coveredAfter (cycleStart last : ℤ) : ℤ := min (last + 1) (dayEnd cycleStart)

theorem coveredAfter_ne_zeroTime {cycleStart last : ℤ} (h : last + 1 ≠ zeroTime) :
    coveredAfter cycleStart last ≠ zeroTime := by
  unfold coveredAfter
  rcases min_choice (last + 1) (dayEnd cycleStart) with hmin | hmin <;> rw [hmin]
  · exact h
  · exact dayEnd_ne_zeroTime cycleStart

theorem upTo_eq (cycleStart now : ℤ) :
    (if dayEnd cycleStart - 1 < now then dayEnd cycleStart - 1 else now) =
      coveredAfter cycleStart now - 1 := by
  unfold coveredAfter
  split_ifs <;> omega

theorem unmeasuredWindow_none (cycleStart now : ℤ) :
    unmeasuredWindow none cycleStart (dayEnd cycleStart - 1) now =
      if cycleStart < coveredAfter cycleStart now then
        some (cycleStart, coveredAfter cycleStart now - 1) else none := by
  simp only [unmeasuredWindow, upTo_eq, Int.le_sub_one_iff]

theorem unmeasuredWindow_some {row : FirstDayRow} (hzero : row.coveredUntil ≠ zeroTime)
    (cycleStart now : ℤ) :
    unmeasuredWindow (some row) cycleStart (dayEnd cycleStart - 1) now =
      if row.coveredUntil < coveredAfter cycleStart now then
        some (row.coveredUntil, coveredAfter cycleStart now - 1) else none := by
  simp only [unmeasuredWindow, if_neg hzero, upTo_eq, Int.le_sub_one_iff]

/-- A row as calls up to the instant `last` leave it. -/
structure FirstDayRow.UpTo (cycleStart last : ℤ) (row : FirstDayRow) : Prop where
  recovered : row.recovered = false
  coveredUntil : row.coveredUntil = coveredAfter cycleStart last
  sealed : row.sealed = decide (dayEnd cycleStart ≤ last)

/-- What a call adds to the usage of a row. -/
def addWindow (records : List DeltaRecord) (usage : Usage) (start stop : ℤ) : Usage :=
  let extra := metricUsage records start (stop - 1)
  ⟨saturatingAdd usage.up extra.up, saturatingAdd usage.down extra.down⟩

/-- The nonempty ranges `[start, stop)`, with both ends. -/
def windowOf (start stop : ℤ) : List (ℤ × ℤ) := if start < stop then [(start, stop - 1)] else []

section Spec

variable [TimezoneDatabase] {records : String → List DeltaRecord} {client : Client}
  {table : FirstDays} {cycleStart now : ℤ} {cycle : String}

section

variable (hcur : currentTrafficCycleFor client now = .ok (cycleStart, cycle))

include hcur

/-- A call that finds no final row and whose history is retained. -/
theorem sync_of_live (hmid : isBeijingMidnight cycleStart = false)
    (hlive : (table.find? (client.uuid, cycle)).any (fun row => row.sealed || row.recovered) = false)
    (hret : table.find? (client.uuid, cycle) = none →
      firstDayHistoryStillRetained cycleStart now = true) :
    syncCycleFirstDay records client now table =
      let window := unmeasuredWindow (table.find? (client.uuid, cycle)) cycleStart
        (dayEnd cycleStart - 1) now
      match addMeasured (records client.uuid) (table.find? (client.uuid, cycle)) window with
      | none => ⟨none, none, table⟩
      | some row =>
        let row := { row with day := dateOnly (beijingDay cycleStart),
                              sealed := decide (dayEnd cycleStart ≤ now) }
        ⟨some (firstDayUsage row), window, table.upsert (client.uuid, cycle) row⟩ := by
  have hguard : (decide (beijingDay cycleStart < beijingDay now) &&
      (table.find? (client.uuid, cycle)).isNone &&
        !firstDayHistoryStillRetained cycleStart now) = false := by
    cases hfind : table.find? (client.uuid, cycle) with
    | none => simp [hret hfind]
    | some row => simp
  have hsealed : (decide (beijingDay cycleStart < beijingDay now) ||
      !decide (now < dayEnd cycleStart - 1 + 1)) = decide (dayEnd cycleStart ≤ now) := by
    rw [Bool.eq_iff_iff]
    simp [beijingDay_lt_iff]
  simp only [syncCycleFirstDay, hcur, cycleFirstDayWindow, hmid, hlive, hguard, hsealed,
    Bool.false_eq_true, if_false]

variable (records) in
theorem sync_first (hmid : isBeijingMidnight cycleStart = false)
    (hnone : table.find? (client.uuid, cycle) = none)
    (hret : firstDayHistoryStillRetained cycleStart now = true) :
    (syncCycleFirstDay records client now table).measured.toList =
        windowOf cycleStart (coveredAfter cycleStart now) ∧
      ∃ row, (syncCycleFirstDay records client now table).table.find? (client.uuid, cycle) =
          some row ∧ row.UpTo cycleStart now ∧
        firstDayUsage row =
          metricUsage (records client.uuid) cycleStart (coveredAfter cycleStart now - 1) := by
  have hstart := le_of_firstDayHistoryStillRetained hret
  have hlt := lt_dayEnd cycleStart
  have hcovered : cycleStart < coveredAfter cycleStart now := by
    unfold coveredAfter
    omega
  rw [sync_of_live hcur hmid (by rw [hnone]; rfl) fun _ => hret, hnone, unmeasuredWindow_none,
    if_pos hcovered]
  refine ⟨by simp [addMeasured, windowOf, hcovered], _, Table.find?_upsert_self _ _ _, ?_, rfl⟩
  exact ⟨rfl, by simp, rfl⟩

variable (records) in
/-- A later call: it measures what the calls before it left, if the day was not over by then. -/
theorem sync_next {last : ℤ} {row : FirstDayRow}
    (hmid : isBeijingMidnight cycleStart = false)
    (hrow : table.find? (client.uuid, cycle) = some row) (hup : row.UpTo cycleStart last)
    (hlast : last < now) (hzero : last + 1 ≠ zeroTime) :
    (syncCycleFirstDay records client now table).measured.toList =
        windowOf (coveredAfter cycleStart last) (coveredAfter cycleStart now) ∧
      ∃ row', (syncCycleFirstDay records client now table).table.find? (client.uuid, cycle) =
          some row' ∧ row'.UpTo cycleStart now ∧
        firstDayUsage row' =
          if coveredAfter cycleStart last < coveredAfter cycleStart now then
            addWindow (records client.uuid) (firstDayUsage row) (coveredAfter cycleStart last)
              (coveredAfter cycleStart now)
          else firstDayUsage row := by
  by_cases hend : dayEnd cycleStart ≤ last
  · -- the row is sealed
    have hsealed : row.sealed = true := by rw [hup.sealed, decide_eq_true hend]
    have hcovered : coveredAfter cycleStart last = dayEnd cycleStart ∧
        coveredAfter cycleStart now = dayEnd cycleStart := by
      unfold coveredAfter
      omega
    have hsync : syncCycleFirstDay records client now table =
        ⟨some (firstDayUsage row), none, table⟩ := by
      simp [syncCycleFirstDay, hcur, cycleFirstDayWindow, hmid, hrow, hsealed]
    rw [hsync, hcovered.1, hcovered.2]
    refine ⟨by simp [windowOf], row, hrow, ⟨hup.recovered, ?_, ?_⟩, by simp⟩
    · rw [hup.coveredUntil, hcovered.1, hcovered.2]
    · rw [hsealed, decide_eq_true (hend.trans hlast.le)]
  · have hlive : (table.find? (client.uuid, cycle)).any (fun row => row.sealed || row.recovered) =
        false := by
      simp [hrow, hup.recovered, hup.sealed, hend]
    have hcovered : row.coveredUntil = coveredAfter cycleStart last := hup.coveredUntil
    have hnonzero : row.coveredUntil ≠ zeroTime := by
      rw [hcovered]
      exact coveredAfter_ne_zeroTime hzero
    rw [sync_of_live hcur hmid hlive fun h => by simp [hrow] at h, hrow,
      unmeasuredWindow_some hnonzero, hcovered]
    split_ifs with hmore
    · refine ⟨by simp [addMeasured, windowOf, hmore], _, Table.find?_upsert_self _ _ _, ?_, rfl⟩
      exact ⟨hup.recovered, by simp, rfl⟩
    · refine ⟨by simp [addMeasured, windowOf, hmore], _, Table.find?_upsert_self _ _ _, ?_, rfl⟩
      refine ⟨hup.recovered, ?_, rfl⟩
      have hle : coveredAfter cycleStart last ≤ coveredAfter cycleStart now := by
        unfold coveredAfter
        omega
      exact hcovered.trans (le_antisymm hle (not_lt.mp hmore))

end

/-- A call never changes a sealed row, whatever client and cycle it is for. -/
theorem sync_sealed {key : String × String} {row : FirstDayRow} (hrow : table.find? key = some row)
    (hsealed : row.sealed = true) :
    (syncCycleFirstDay records client now table).table.find? key = some row := by
  unfold syncCycleFirstDay
  split
  · exact hrow
  next cycleStart cycle _ =>
    split
    · exact hrow
    · dsimp only
      split_ifs with hfinal
      · exact hrow
      · exact hrow
      · split
        · exact hrow
        · have hne : key ≠ (client.uuid, cycle) := by
            rintro rfl
            simp [hrow, hsealed] at hfinal
          rw [← hrow]
          exact Table.find?_upsert_ne hne

end Spec

/-! ### The windows of a run -/

/-- The windows, with both ends, follow each other from `start` up to just before `stop`. -/
def Tiles : ℤ → List (ℤ × ℤ) → ℤ → Prop
  | start, [], stop => start = stop
  | start, (a, b) :: windows, stop => a = start ∧ a ≤ b ∧ Tiles (b + 1) windows stop

theorem Tiles.windowOf_append {start mid stop : ℤ} (h : start ≤ mid) {windows : List (ℤ × ℤ)}
    (ht : Tiles mid windows stop) : Tiles start (windowOf start mid ++ windows) stop := by
  unfold windowOf
  split_ifs with hlt
  · refine ⟨rfl, by omega, ?_⟩
    rwa [sub_add_cancel]
  · obtain rfl : start = mid := le_antisymm h (not_lt.mp hlt)
    exact ht

theorem coveredAfter_mono (cycleStart : ℤ) {last now : ℤ} (h : last ≤ now) :
    coveredAfter cycleStart last ≤ coveredAfter cycleStart now :=
  min_le_min_right _ (by omega)

section Run

variable [TimezoneDatabase] {records : String → List DeltaRecord} {client : Client}
  {table : FirstDays} {cycleStart : ℤ} {cycle : String}

/-- Calls that follow a call at `last` measure the rest of the first day, window after window. -/
theorem tiles_next {last : ℤ} {nows : List ℤ} {row : FirstDayRow}
    (hcur : ∀ now ∈ nows, currentTrafficCycleFor client now = .ok (cycleStart, cycle))
    (hmid : isBeijingMidnight cycleStart = false) (hnows : (last :: nows).Pairwise (· < ·))
    (hzero : ∀ now ∈ last :: nows, now + 1 ≠ zeroTime)
    (hrow : table.find? (client.uuid, cycle) = some row) (hup : row.UpTo cycleStart last) :
    Tiles (coveredAfter cycleStart last) (measuredWindows records client table nows)
        (coveredAfter cycleStart (nows.getLastD last)) ∧
      ∃ row', (syncAll records client table nows).find? (client.uuid, cycle) = some row' ∧
        row'.UpTo cycleStart (nows.getLastD last) := by
  induction nows generalizing last table row with
  | nil => exact ⟨rfl, row, hrow, hup⟩
  | cons now nows ih =>
    obtain ⟨hlast, hnows⟩ := List.pairwise_cons.mp hnows
    have hlt := hlast now List.mem_cons_self
    obtain ⟨hwindow, row', hrow', hup', -⟩ := sync_next records
      (hcur now List.mem_cons_self) hmid hrow hup hlt (hzero last List.mem_cons_self)
    obtain ⟨htiles, hrest⟩ := ih (fun t ht => hcur t (List.mem_cons_of_mem _ ht)) hnows
      (fun t ht => hzero t (List.mem_cons_of_mem _ ht)) hrow' hup'
    rw [List.getLastD_cons]
    refine ⟨?_, hrest⟩
    rw [measuredWindows, hwindow]
    exact htiles.windowOf_append (coveredAfter_mono cycleStart hlt.le)

theorem syncAll_sealed {key : String × String} {row : FirstDayRow} {nows : List ℤ}
    (hrow : table.find? key = some row) (hsealed : row.sealed = true) :
    (syncAll records client table nows).find? key = some row := by
  induction nows generalizing table with
  | nil => exact hrow
  | cons now nows ih => exact ih (sync_sealed hrow hsealed)

end Run

/-! ### The usage of the windows -/

variable {records : List DeltaRecord}

theorem SettledAt.of_le
    (hsorted : records.Pairwise fun r s => r.time ≤ s.time) {lo hi hi' t : ℤ} (ht : t ≤ hi')
    (hhi : hi' ≤ hi) (h : SettledAt records lo hi t) : SettledAt records lo hi' t := by
  unfold SettledAt at h ⊢
  rw [recordsBetween_append hsorted ht hhi] at h
  exact settled_of_append h

theorem scan_append
    (hsorted : records.Pairwise fun r s => r.time ≤ s.time) {lo mid hi : ℤ} (hlo : lo ≤ mid)
    (hhi : mid ≤ hi) (h : SettledAt records lo hi mid) :
    scan records lo hi = scan records lo mid ++ scan records mid hi := by
  unfold scan
  rw [recordsBetween_append hsorted hlo hhi, deltaItems_append h, totalsBefore_of_le hsorted hlo]

theorem sumUsages_append (l m : List Usage) : sumUsages (l ++ m) = (sumUsages l).add (sumUsages m) := by
  simp only [sumUsages_eq, Usage.add, addInt64, sumInt64_eq, List.map_append, List.sum_append,
    int64_int64_add, int64_add_int64]

/-- The additions of `addWindow` do not reach the largest integer. -/
def Fits (records : List DeltaRecord) (usage : Usage) (start stop : ℤ) : Prop :=
  let extra := metricUsage records start (stop - 1)
  usage.up + extra.up ≤ maxInt64 ∧ usage.down + extra.down ≤ maxInt64

instance (records : List DeltaRecord) (usage : Usage) (start stop : ℤ) :
    Decidable (Fits records usage start stop) :=
  inferInstanceAs (Decidable (_ ∧ _))

theorem saturatingAdd_eq {left right : ℤ} (h : left + right ≤ maxInt64) :
    saturatingAdd left right = addInt64 left right := by
  rw [saturatingAdd, if_neg]
  omega

/-- A measurement that stops where no drop is still to be recovered can be continued. -/
theorem metricUsage_append
    (hsorted : records.Pairwise fun r s => r.time ≤ s.time) {lo mid hi : ℤ} (hlo : lo ≤ mid)
    (hhi : mid ≤ hi) (hset : SettledAt records lo hi mid)
    (hfits : Fits records (metricUsage records lo (mid - 1)) mid hi) :
    metricUsage records lo (hi - 1) =
      addWindow records (metricUsage records lo (mid - 1)) mid hi := by
  obtain ⟨hup, hdown⟩ := hfits
  rw [addWindow, saturatingAdd_eq hup, saturatingAdd_eq hdown]
  show _ = (metricUsage records lo (mid - 1)).add (metricUsage records mid (hi - 1))
  rw [metricUsage_eq, metricUsage_eq, metricUsage_eq, scan_append hsorted hlo hhi hset,
    List.map_append, sumUsages_append]

section Sealed

variable (records : String → List DeltaRecord) (client : Client) (cycleStart : ℤ) (cycle : String)

/-- A call after which the measurement can be continued: no counter drop is recovered between it and
the end of the first day, and no addition reaches the largest integer. -/
def CleanCall (table : FirstDays) (now : ℤ) : Prop :=
  now + 1 ≠ zeroTime ∧
    (now < dayEnd cycleStart →
      SettledAt (records client.uuid) cycleStart (dayEnd cycleStart) (now + 1)) ∧
    ∀ row ∈ table.find? (client.uuid, cycle),
      Fits (records client.uuid) (firstDayUsage row) row.coveredUntil (coveredAfter cycleStart now)

instance (table : FirstDays) (now : ℤ) :
    Decidable (CleanCall records client cycleStart cycle table now) :=
  inferInstanceAs (Decidable (_ ∧ _ ∧ _))

/-- Every call of the run is clean. -/
abbrev CleanRun [TimezoneDatabase] : FirstDays → List ℤ → Prop :=
  Run.Along (fun table now => (syncCycleFirstDay records client now table).table)
    (CleanCall records client cycleStart cycle)

variable {records client cycleStart cycle} {table : FirstDays}

/-- One clean call keeps the row at the usage of the covered part measured at once. -/
theorem usage_step {last now : ℤ} {row row' : FirstDayRow}
    (hsorted : (records client.uuid).Pairwise fun r s => r.time ≤ s.time)
    (hstart : cycleStart ≤ last) (hlt : last < now)
    (hrow : table.find? (client.uuid, cycle) = some row) (hup : row.UpTo cycleStart last)
    (hset : last < dayEnd cycleStart →
      SettledAt (records client.uuid) cycleStart (dayEnd cycleStart) (last + 1))
    (hclean : CleanCall records client cycleStart cycle table now)
    (husage : firstDayUsage row =
      metricUsage (records client.uuid) cycleStart (coveredAfter cycleStart last - 1))
    (hadd : firstDayUsage row' =
      if coveredAfter cycleStart last < coveredAfter cycleStart now then
        addWindow (records client.uuid) (firstDayUsage row) (coveredAfter cycleStart last)
          (coveredAfter cycleStart now)
      else firstDayUsage row) :
    firstDayUsage row' =
      metricUsage (records client.uuid) cycleStart (coveredAfter cycleStart now - 1) := by
  split_ifs at hadd with hmore
  · have hday : last + 1 < dayEnd cycleStart := by
      unfold coveredAfter at hmore
      omega
    have hcovered : coveredAfter cycleStart last = last + 1 := min_eq_left hday.le
    have hle : coveredAfter cycleStart now ≤ dayEnd cycleStart := min_le_right _ _
    have hfits := hclean.2.2 row hrow
    rw [hup.coveredUntil, husage] at hfits
    rw [hadd, husage]
    refine (metricUsage_append hsorted (by omega) hmore.le ?_ hfits).symm
    rw [hcovered]
    exact (hset (by omega)).of_le hsorted (hcovered ▸ hmore.le) hle
  · rw [hadd, husage, le_antisymm (coveredAfter_mono cycleStart hlt.le) (not_lt.mp hmore)]

/-- Clean calls that follow a call at `last` keep the row at the usage measured at once. -/
theorem usage_next [TimezoneDatabase] {last : ℤ} {nows : List ℤ} {row : FirstDayRow}
    (hsorted : (records client.uuid).Pairwise fun r s => r.time ≤ s.time)
    (hcur : ∀ now ∈ nows, currentTrafficCycleFor client now = .ok (cycleStart, cycle))
    (hmid : isBeijingMidnight cycleStart = false) (hnows : (last :: nows).Pairwise (· < ·))
    (hstart : cycleStart ≤ last) (hzero : last + 1 ≠ zeroTime)
    (hset : last < dayEnd cycleStart →
      SettledAt (records client.uuid) cycleStart (dayEnd cycleStart) (last + 1))
    (hclean : CleanRun records client cycleStart cycle table nows)
    (hrow : table.find? (client.uuid, cycle) = some row) (hup : row.UpTo cycleStart last)
    (husage : firstDayUsage row =
      metricUsage (records client.uuid) cycleStart (coveredAfter cycleStart last - 1)) :
    ∃ row', (syncAll records client table nows).find? (client.uuid, cycle) = some row' ∧
      firstDayUsage row' = metricUsage (records client.uuid) cycleStart
        (coveredAfter cycleStart (nows.getLastD last) - 1) := by
  induction nows generalizing last table row with
  | nil => exact ⟨row, hrow, husage⟩
  | cons now nows ih =>
    obtain ⟨hlast, hnows⟩ := List.pairwise_cons.mp hnows
    obtain ⟨hcall, hclean⟩ := hclean
    have hlt := hlast now List.mem_cons_self
    obtain ⟨-, row', hrow', hup', hadd⟩ := sync_next records
      (hcur now List.mem_cons_self) hmid hrow hup hlt hzero
    have husage' := usage_step hsorted hstart hlt hrow hup hset hcall husage hadd
    rw [List.getLastD_cons]
    exact ih (fun t ht => hcur t (List.mem_cons_of_mem _ ht)) hnows (by omega) hcall.1 hcall.2.1
      hclean hrow' hup' husage'

end Sealed

/-- **The stored first day is a one-shot measurement.**  Clean calls in a cycle, the first with the
history still retained and the last when the first day is over, leave a sealed row with the usage of
the day measured at once; their windows tile the day, and a sealed row never changes. -/
theorem firstDay_eq_metricUsage [TimezoneDatabase] (records : String → List DeltaRecord)
    (client : Client) (table : FirstDays) (cycleStart first : ℤ) (nows : List ℤ)
    (hsorted : (records client.uuid).Pairwise fun r s => r.time ≤ s.time)
    (hactive : (clientSchedule client).active = true)
    (hcycle : ∀ now ∈ first :: nows, (clientSchedule client).last now = cycleStart)
    (hmid : isBeijingMidnight cycleStart = false) (hnows : (first :: nows).Pairwise (· < ·))
    (hretained : firstDayHistoryStillRetained cycleStart first = true)
    (hnone : table.find? (client.uuid, (clientSchedule client).cycleKey first) = none)
    (hlast : dayEnd cycleStart ≤ nows.getLastD first)
    (hclean : CleanRun records client cycleStart ((clientSchedule client).cycleKey first) table
      (first :: nows)) :
    (∃ row, (syncAll records client table (first :: nows)).find?
        (client.uuid, (clientSchedule client).cycleKey first) = some row ∧ row.sealed = true ∧
        firstDayUsage row =
          metricUsage (records client.uuid) cycleStart (dayEnd cycleStart - 1)) ∧
      Tiles cycleStart (measuredWindows records client table (first :: nows))
        (dayEnd cycleStart) ∧
      ∀ before after row, first :: nows = before ++ after →
        (syncAll records client table before).find?
          (client.uuid, (clientSchedule client).cycleKey first) = some row → row.sealed = true →
        (syncAll records client table (first :: nows)).find?
          (client.uuid, (clientSchedule client).cycleKey first) = some row := by
  set cycle := (clientSchedule client).cycleKey first
  have hcur : ∀ now ∈ first :: nows,
      currentTrafficCycleFor client now = .ok (cycleStart, cycle) := by
    intro now hnow
    have hlasts := (hcycle now hnow).trans (hcycle first List.mem_cons_self).symm
    rw [currentTrafficCycleFor, if_neg (by simp [hactive]), cycleKey_congr hlasts,
      hcycle now hnow]
  have hzero : ∀ now ∈ first :: nows, now + 1 ≠ zeroTime := hclean.of_mem fun _ _ h => h.1
  have hcur' := fun now hnow => hcur now (List.mem_cons_of_mem first hnow)
  have hstart := le_of_firstDayHistoryStillRetained hretained
  have hday := lt_dayEnd cycleStart
  have hend : coveredAfter cycleStart (nows.getLastD first) = dayEnd cycleStart :=
    min_eq_right (by omega)
  obtain ⟨hwindow, row, hrow, hup, husage⟩ := sync_first records
    (hcur first List.mem_cons_self) hmid hnone hretained
  obtain ⟨htiles, row', hrow', hup'⟩ := tiles_next hcur' hmid hnows hzero hrow hup
  obtain ⟨hcall, hclean⟩ := hclean
  obtain ⟨row'', hrow'', husage'⟩ := usage_next hsorted hcur' hmid hnows hstart hcall.1 hcall.2.1
    hclean hrow hup husage
  obtain rfl : row'' = row' := Option.some.inj (hrow''.symm.trans hrow')
  rw [hend] at htiles husage'
  refine ⟨⟨row'', hrow', ?_, husage'⟩, ?_, ?_⟩
  · rw [hup'.sealed, decide_eq_true hlast]
  · rw [measuredWindows, hwindow]
    refine htiles.windowOf_append ?_
    unfold coveredAfter
    omega
  · intro before after row hcut hfound hsealed
    rw [hcut, syncAll, List.foldl_append]
    exact syncAll_sealed hfound hsealed

/-- The tables of the examples name no zones: their clients use the default one. -/
@[reducible] def noTimezones : TimezoneDatabase := ⟨fun _ => none⟩

/-- A client whose cycle starts at noon of day 20001, the fifth of its month. -/
def noonClient : Client :=
  { uuid := "node", trafficResetDay := some 5, trafficResetTime := "12:00",
    trafficResetTimezone := "", trafficLimitType := "max" }

/-- `seconds` after the start of day 20001. -/
def instantAt (seconds : ℤ) : ℤ := dayStart 20001 + seconds * 1000000000

theorem firstDay_eq_metricUsage_noon :
    ∃ row, (@syncAll noTimezones
        (fun _ => [sampleAt 46800 1000 0, sampleAt 47100 1100 5, sampleAt 80000 1250 6]) noonClient ∅
        [instantAt 47000, instantAt 50000, instantAt 86400]).find?
          ("node", "2024-10-05T04:00:00Z") = some row ∧ row.sealed = true ∧
      firstDayUsage row = ⟨250, 6⟩ := by
  have h := @firstDay_eq_metricUsage noTimezones
    (fun _ => [sampleAt 46800 1000 0, sampleAt 47100 1100 5, sampleAt 80000 1250 6]) noonClient ∅
    (instantAt 43200) (instantAt 47000) [instantAt 50000, instantAt 86400] (by decide +kernel)
    (by decide +kernel) (by decide +kernel) (by decide +kernel) (by decide +kernel)
    (by decide +kernel) (by decide +kernel) (by decide +kernel) (by decide +kernel)
  have hkey : @Schedule.cycleKey noTimezones (@clientSchedule noTimezones noonClient)
      (instantAt 47000) = "2024-10-05T04:00:00Z" := by decide +kernel
  have husage : metricUsage [sampleAt 46800 1000 0, sampleAt 47100 1100 5, sampleAt 80000 1250 6]
      (instantAt 43200) (dayEnd (instantAt 43200) - 1) = ⟨250, 6⟩ := by decide +kernel
  rw [hkey, husage] at h
  exact h.1

/-- A counter that reads 1000, then 10, then 1100 within a quarter of an hour, with a call between
the last two readings: the row is sealed with 1090 bytes, the day measured at once carries 100. -/
theorem firstDay_ne_metricUsage :
    let records := [sampleAt 46800 1000 0, sampleAt 47100 10 0, sampleAt 47700 1100 0]
    let nows := [instantAt 47400, instantAt 86400]
    (records.Pairwise fun r s => r.time ≤ s.time) ∧
      (@clientSchedule noTimezones noonClient).active = true ∧
      (∀ now ∈ nows, @Schedule.last noTimezones (@clientSchedule noTimezones noonClient) now =
        instantAt 43200) ∧
      isBeijingMidnight (instantAt 43200) = false ∧ nows.Pairwise (· < ·) ∧
      firstDayHistoryStillRetained (instantAt 43200) (instantAt 47400) = true ∧
      dayEnd (instantAt 43200) ≤ instantAt 86400 ∧
      (@syncAll noTimezones (fun _ => records) noonClient ∅ nows).find?
        ("node", "2024-10-05T04:00:00Z") =
        some { day := "2024-10-05", upBytes := 1090, downBytes := 0,
               coveredUntil := dayEnd (instantAt 43200), sealed := true, recovered := false } ∧
      metricUsage records (instantAt 43200) (dayEnd (instantAt 43200) - 1) = ⟨100, 0⟩ := by
  decide +kernel

end Traffic

end Komari
