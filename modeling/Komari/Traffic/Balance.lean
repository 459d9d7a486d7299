import Mathlib.Data.List.Dedup
import Komari.Traffic.Allocate

/-!
# Calibrations of a cycle, one after the other

What one calibration reads and writes, and what holds of the tables after any run of calibrations.
-/

namespace Komari

namespace Traffic

open TrafficReset Calendar

/-! ### Measured days -/

/-- Both directions lie between zero and a bound. -/
def Usage.Within (bound : ℤ) (u : Usage) : Prop :=
  (0 ≤ u.up ∧ u.up ≤ bound) ∧ 0 ≤ u.down ∧ u.down ≤ bound

/-- Every measured usage lies between zero and a bound. -/
def Readings.Within (bound : ℤ) (readings : Readings) : Prop :=
  (∀ day, ∀ u ∈ readings.ledger day, u.Within bound) ∧ (∀ u ∈ readings.firstDay, u.Within bound) ∧
    readings.current.Within bound

instance (bound : ℤ) (u : Usage) : Decidable (u.Within bound) :=
  inferInstanceAs (Decidable (_ ∧ _))

theorem Usage.Within.on {bound : ℤ} {u : Usage} (h : u.Within bound) (dir : Direction) :
    0 ≤ u.on dir ∧ u.on dir ≤ bound := by
  cases dir
  · exact h.1
  · exact h.2

theorem Usage.Within.mono {bound bound' : ℤ} {u : Usage} (h : u.Within bound)
    (hle : bound ≤ bound') : u.Within bound' :=
  ⟨⟨h.1.1, h.1.2.trans hle⟩, h.2.1, h.2.2.trans hle⟩

theorem Readings.Within.mono {bound bound' : ℤ} {readings : Readings} (h : readings.Within bound)
    (hle : bound ≤ bound') : readings.Within bound' :=
  ⟨fun day u hu => (h.1 day u hu).mono hle, fun u hu => (h.2.1 u hu).mono hle, h.2.2.mono hle⟩

variable {days : List CalibrationDay}

theorem map_day_applyCurrentDayUsage {today : ℤ}
    (h : today ∈ days.map CalibrationDay.day) (current : Usage) :
    (applyCurrentDayUsage days today current).map CalibrationDay.day =
      days.map CalibrationDay.day := by
  obtain ⟨d, hd, rfl⟩ := List.mem_map.mp h
  have hany : (days.any fun d' => d'.day = d.day) = true :=
    List.any_eq_true.mpr ⟨d, hd, decide_eq_true rfl⟩
  rw [applyCurrentDayUsage, if_pos hany, List.map_map]
  refine List.map_congr_left fun d' _ => ?_
  simp only [Function.comp_apply]
  split_ifs <;> rfl

theorem raw_applyCurrentDayUsage {p : Usage → Prop} {today : ℤ}
    {current : Usage} (hdays : ∀ d ∈ days, p d.raw) (hcurrent : p current) :
    ∀ d ∈ applyCurrentDayUsage days today current, p d.raw := by
  unfold applyCurrentDayUsage
  split_ifs
  · intro d hd
    obtain ⟨d', hd', rfl⟩ := List.mem_map.mp hd
    split_ifs
    · exact hcurrent
    · exact hdays d' hd'
  · intro d hd
    rcases List.mem_append.mp hd with hd | hd
    · exact hdays d hd
    · rw [List.mem_singleton.mp hd]
      exact hcurrent

theorem calibrationStartDay_le (cycleStart today : ℤ) :
    calibrationStartDay cycleStart today ≤ today := by
  unfold calibrationStartDay
  split_ifs <;> omega

/-- The days of a calibration go from the start of the cycle through today. -/
theorem map_day_measuredDays (cycleStart today : ℤ) (readings : Readings) :
    (measuredDays cycleStart today readings).map CalibrationDay.day =
      Int.range (calibrationStartDay cycleStart today) (today + 1) := by
  have hle := calibrationStartDay_le cycleStart today
  set days := (calibrationDaysByKey cycleStart today).map fun d : CalibrationDay =>
    if (if isBeijingMidnight cycleStart then calibrationStartDay cycleStart today
      else calibrationStartDay cycleStart today + 1) ≤ d.day ∧ d.day < today then
      { d with raw := (readings.ledger d.day).getD d.raw } else d with hdays
  have hrange : days.map CalibrationDay.day =
      Int.range (calibrationStartDay cycleStart today) (today + 1) := by
    rw [hdays, calibrationDaysByKey, List.map_map, List.map_map]
    conv_rhs => rw [← List.map_id (Int.range (calibrationStartDay cycleStart today) (today + 1))]
    refine List.map_congr_left fun day _ => ?_
    simp only [Function.comp_apply]
    split_ifs <;> rfl
  have hstart : calibrationStartDay cycleStart today ∈ days.map CalibrationDay.day := by
    rw [hrange, Int.mem_range_iff]
    omega
  have htoday : today ∈ days.map CalibrationDay.day := by
    rw [hrange, Int.mem_range_iff]
    omega
  unfold measuredDays
  dsimp only
  rw [← hdays]
  split
  · rw [map_day_applyCurrentDayUsage (by rwa [map_day_applyCurrentDayUsage hstart]),
      map_day_applyCurrentDayUsage hstart, hrange]
  · rw [map_day_applyCurrentDayUsage htoday, hrange]

theorem raw_measuredDays {bound : ℤ} (hbound : 0 ≤ bound) (cycleStart today : ℤ)
    {readings : Readings} (h : readings.Within bound) :
    ∀ d ∈ measuredDays cycleStart today readings, d.raw.Within bound := by
  obtain ⟨hledger, hfirst, hcurrent⟩ := h
  have hzero : (⟨0, 0⟩ : Usage).Within bound := ⟨⟨le_rfl, hbound⟩, le_rfl, hbound⟩
  have hdays : ∀ ledgerStart, ∀ d ∈ (calibrationDaysByKey cycleStart today).map
      fun d : CalibrationDay => if ledgerStart ≤ d.day ∧ d.day < today then
        { d with raw := (readings.ledger d.day).getD d.raw } else d, d.raw.Within bound := by
    intro ledgerStart d hd
    rw [calibrationDaysByKey, List.map_map] at hd
    obtain ⟨day, -, rfl⟩ := List.mem_map.mp hd
    simp only [Function.comp_apply]
    split_ifs
    · cases hfind : readings.ledger day with
      | none => exact hzero
      | some u => exact hledger day u hfind
    · exact hzero
  unfold measuredDays
  dsimp only
  split
  next first hstored hsome =>
    exact raw_applyCurrentDayUsage
      (raw_applyCurrentDayUsage (hdays _) (hfirst first hsome)) hcurrent
  next => exact raw_applyCurrentDayUsage (hdays _) hcurrent

/-! ### Sums of deltas -/

/-- The sums of the deltas of all days are 64-bit integers. -/
def Balanced (rows : List Adjustment) : Prop :=
  ∀ day dir, |(dayDeltas rows day).on dir| ≤ maxInt64

theorem on_dayDeltas (rows : List Adjustment) (day : ℤ) (dir : Direction) :
    (dayDeltas rows day).on dir =
      ((rows.filter fun row => row.day = day).map fun row => row.delta.on dir).sum := by
  cases dir <;> rfl

theorem on_dayDeltas_append (rows more : List Adjustment) (day : ℤ) (dir : Direction) :
    (dayDeltas (rows ++ more) day).on dir =
      (dayDeltas rows day).on dir + (dayDeltas more day).on dir := by
  rw [on_dayDeltas, on_dayDeltas, on_dayDeltas, List.filter_append, List.map_append,
    List.sum_append]

theorem sumsFit_of_balanced {rows : List Adjustment} (h : Balanced rows) :
    sumsFit rows = true := by
  have hfit : ∀ day dir, InInt64 ((dayDeltas rows day).on dir) := by
    intro day dir
    obtain ⟨hlow, hhigh⟩ := abs_le.mp (h day dir)
    refine ⟨le_trans ?_ hlow, hhigh⟩
    decide
  rw [sumsFit, List.all_eq_true]
  intro row _
  rw [Bool.and_eq_true, decide_eq_true_eq, decide_eq_true_eq]
  exact ⟨hfit row.day .up, hfit row.day .down⟩

/-- The parts of one direction. -/
def allocationOn (up down : List (ℤ × ℤ)) : Direction → List (ℤ × ℤ)
  | .up => up
  | .down => down

theorem on_dayDeltas_foldl (key : CalibrationKey) (client cycle : String) (up down : List (ℤ × ℤ))
    (days : List CalibrationDay) (rows : List Adjustment) (day : ℤ) (dir : Direction) :
    (dayDeltas (days.foldl (addRow key client cycle up down) rows) day).on dir =
      (dayDeltas rows day).on dir + (days.map fun d =>
        if d.day = day then allocatedOn (allocationOn up down dir) day else 0).sum := by
  induction days generalizing rows with
  | nil => simp
  | cons d days ih =>
    have hdelta : (⟨allocatedOn up d.day, allocatedOn down d.day⟩ : SignedUsage).on dir =
        allocatedOn (allocationOn up down dir) d.day := by
      cases dir <;> rfl
    rw [List.foldl_cons, ih, List.map_cons, List.sum_cons, ← add_assoc]
    congr 1
    unfold addRow
    dsimp only
    split_ifs with hskip hday hday
    · -- a day that is skipped has no delta
      have hzero : allocatedOn (allocationOn up down dir) d.day = 0 := by
        cases dir
        · exact hskip.1
        · exact hskip.2.1
      rw [← hday, hzero, add_zero]
    · rw [add_zero]
    · subst hday
      rw [on_dayDeltas_append, on_dayDeltas (_ :: _)]
      simpa using hdelta
    · rw [on_dayDeltas_append, on_dayDeltas (_ :: _)]
      simp [hday]

/-- The rows of a calibration give every day its delta. -/
theorem on_dayDeltas_calibrationRows (key : CalibrationKey) (client cycle : String)
    (up down : List (ℤ × ℤ))
    (hnodup : (days.map CalibrationDay.day).Nodup) {d : CalibrationDay} (hd : d ∈ days)
    (dir : Direction) :
    (dayDeltas (calibrationRows key client cycle days up down) d.day).on dir =
      allocatedOn (allocationOn up down dir) d.day := by
  rw [calibrationRows, on_dayDeltas_foldl, sum_map_ite_day hnodup hd]
  cases dir <;> simp [dayDeltas, sumDeltas, SignedUsage.on]

/-- The rows of a calibration are for its own days. -/
theorem on_dayDeltas_calibrationRows_of_notMem {key : CalibrationKey} {client cycle : String}
    {up down : List (ℤ × ℤ)} {day : ℤ}
    (hday : day ∉ days.map CalibrationDay.day) (dir : Direction) :
    (dayDeltas (calibrationRows key client cycle days up down) day).on dir = 0 := by
  have hzero : (days.map fun d =>
      if d.day = day then allocatedOn (allocationOn up down dir) day else 0) =
        days.map fun _ => 0 := by
    refine List.map_congr_left fun d hd => if_neg ?_
    rintro rfl
    exact hday (List.mem_map_of_mem hd)
  rw [calibrationRows, on_dayDeltas_foldl, hzero]
  cases dir <;> simp [dayDeltas, sumDeltas, SignedUsage.on]

theorem mem_calibrationRows {key : CalibrationKey} {uuid cycle : String}
    {up down : List (ℤ × ℤ)} {row : Adjustment}
    (h : row ∈ calibrationRows key uuid cycle days up down) :
    row.toCalibrationKey = key ∧ row.client = uuid ∧ row.cycle = cycle := by
  suffices hfold : ∀ rows : List Adjustment,
      (∀ row ∈ rows, row.toCalibrationKey = key ∧ row.client = uuid ∧ row.cycle = cycle) →
      ∀ row ∈ days.foldl (addRow key uuid cycle up down) rows,
        row.toCalibrationKey = key ∧ row.client = uuid ∧ row.cycle = cycle from
    hfold [] (by simp) row h
  clear h
  induction days with
  | nil => exact fun rows hrows => hrows
  | cons d days ih =>
    intro rows hrows
    refine ih _ ?_
    unfold addRow
    dsimp only
    split_ifs
    · exact hrows
    · intro row hrow
      rcases List.mem_append.mp hrow with hrow | hrow
      · exact hrows row hrow
      · rw [List.mem_singleton.mp hrow]
        exact ⟨rfl, rfl, rfl⟩

/-! ### What a calibration finds -/

/-- The sum of the due values of the days. -/
def dueTotal (days : List CalibrationDay) (rows : List Adjustment) (dir : Direction) : ℤ :=
  (days.map fun d => due (d.raw.on dir) ((dayDeltas rows d.day).on dir)).sum

theorem dueTotal_nonneg (days : List CalibrationDay) (rows : List Adjustment) (dir : Direction) :
    0 ≤ dueTotal days rows dir := by
  refine List.sum_nonneg fun x hx => ?_
  obtain ⟨d, -, rfl⟩ := List.mem_map.mp hx
  exact due_nonneg _ _

theorem on_effective_applyDeltas (rows : List Adjustment) (d : CalibrationDay) (dir : Direction) :
    (d.applyDeltas rows).effective.on dir =
      addSignedNonNegative (d.raw.on dir) ((dayDeltas rows d.day).on dir) := by
  cases dir <;> rfl

/-- The effective usage of a day is its due value, cut to 64 bits. -/
theorem effective_applyDeltas {rows : List Adjustment} (hrows : Balanced rows) {d : CalibrationDay}
    (hraw : d.raw.Within maxInt64) (dir : Direction) :
    (d.applyDeltas rows).effective.on dir =
      min maxInt64 (due (d.raw.on dir) ((dayDeltas rows d.day).on dir)) := by
  rw [on_effective_applyDeltas]
  exact addSignedNonNegative_eq (hraw.on dir) (hrows d.day dir)

theorem addDays_cons (d : CalibrationDay) (days : List CalibrationDay)
    (snapshot : CalibrationSnapshot) :
    snapshot.addDays (d :: days) =
      CalibrationSnapshot.addDays days
        { snapshot with raw := addUsage snapshot.raw d.raw,
                        adjustment := addSignedUsage snapshot.adjustment d.adjustment,
                        effective := addUsage snapshot.effective d.effective } := rfl

/-- The sums over the days leave the rest of a snapshot alone. -/
theorem addDays_eq (days : List CalibrationDay) (snapshot : CalibrationSnapshot) :
    snapshot.addDays days =
      { snapshot with raw := (snapshot.addDays days).raw,
                      adjustment := (snapshot.addDays days).adjustment,
                      effective := (snapshot.addDays days).effective } := by
  induction days generalizing snapshot with
  | nil => rfl
  | cons d days ih =>
    rw [addDays_cons]
    exact ih _

theorem on_addUsage (u v : Usage) (dir : Direction) :
    (addUsage u v).on dir = saturatingAdd (u.on dir) (v.on dir) := by
  cases dir <;> rfl

theorem on_effective_addDays (days : List CalibrationDay) (snapshot : CalibrationSnapshot)
    (dir : Direction) :
    (snapshot.addDays days).effective.on dir =
      (days.map fun d => d.effective.on dir).foldl saturatingAdd (snapshot.effective.on dir) := by
  induction days generalizing snapshot with
  | nil => rfl
  | cons d days ih => rw [addDays_cons, ih, List.map_cons, List.foldl_cons, on_addUsage]

theorem on_raw_addDays (days : List CalibrationDay) (snapshot : CalibrationSnapshot)
    (dir : Direction) :
    (snapshot.addDays days).raw.on dir =
      (days.map fun d => d.raw.on dir).foldl saturatingAdd (snapshot.raw.on dir) := by
  induction days generalizing snapshot with
  | nil => rfl
  | cons d days ih => rw [addDays_cons, ih, List.map_cons, List.foldl_cons, on_addUsage]

section Sums

variable {rows : List Adjustment} (hrows : Balanced rows) {days : List CalibrationDay}
  (hraw : ∀ d ∈ days, d.raw.Within maxInt64) (dir : Direction)

include hrows hraw

theorem effective_nonneg :
    ∀ d ∈ days.map (CalibrationDay.applyDeltas rows), 0 ≤ d.effective.on dir := by
  rintro _ hmem
  obtain ⟨d, hd, rfl⟩ := List.mem_map.mp hmem
  rw [effective_applyDeltas hrows (hraw d hd)]
  exact le_min maxInt64_nonneg (due_nonneg _ _)

/-- The sum of the effective usages, cut to 64 bits. -/
theorem min_sum_effective :
    min maxInt64 ((days.map (CalibrationDay.applyDeltas rows)).map
      fun d => d.effective.on dir).sum = min maxInt64 (dueTotal days rows dir) := by
  have hmap : (days.map (CalibrationDay.applyDeltas rows)).map (fun d => d.effective.on dir) =
      (days.map fun d => due (d.raw.on dir) ((dayDeltas rows d.day).on dir)).map
        (min maxInt64) := by
    rw [List.map_map, List.map_map]
    exact List.map_congr_left fun d hd => effective_applyDeltas hrows (hraw d hd) dir
  rw [hmap, min_sum_map_min]
  · rfl
  · intro y hy
    obtain ⟨d, -, rfl⟩ := List.mem_map.mp hy
    exact due_nonneg _ _

/-- The effective usage of a cycle is the sum of the due values, cut to 64 bits. -/
theorem effective_addDays {snapshot : CalibrationSnapshot} (hzero : snapshot.effective = ⟨0, 0⟩) :
    (snapshot.addDays (days.map (CalibrationDay.applyDeltas rows))).effective.on dir =
      min maxInt64 (dueTotal days rows dir) := by
  have hstart : snapshot.effective.on dir = min maxInt64 0 := by
    rw [hzero, min_eq_right maxInt64_nonneg]
    cases dir <;> rfl
  rw [on_effective_addDays, hstart, foldl_saturatingAdd le_rfl, zero_add,
    min_sum_effective hrows hraw]
  intro y hy
  obtain ⟨d, hd, rfl⟩ := List.mem_map.mp hy
  exact effective_nonneg hrows hraw dir d hd

end Sums

section Cycle

variable [TimezoneDatabase] {client : Client} {now : ℤ} {tables : CalibrationTables}

/-- The adjustments of the cycle that is current at `now`. -/
def currentAdjustments (client : Client) (now : ℤ) (tables : CalibrationTables) :
    List Adjustment :=
  cycleAdjustments tables client.uuid ((clientSchedule client).cycleKey now)

/-- The measured days of the cycle that is current at `now`. -/
def currentDays (client : Client) (now : ℤ) (readings : Readings) : List CalibrationDay :=
  measuredDays ((clientSchedule client).last now) (beijingDay now) readings

/-- Whether the first day of the current cycle is known. -/
def historyKnown (client : Client) (now : ℤ) (readings : Readings) : Bool :=
  !hasStoredFirstDay ((clientSchedule client).last now) (beijingDay now) ||
    readings.firstDay.isSome

/-- The snapshot of the current cycle before its days are added up. -/
def emptySnapshot (client : Client) (now : ℤ) (readings : Readings) : CalibrationSnapshot :=
  { client := client.uuid, cycle := (clientSchedule client).cycleKey now,
    cycleStart := (clientSchedule client).last now,
    cycleEnd := cycleEndDay client ((clientSchedule client).last now),
    historyComplete := historyKnown client now readings }

theorem currentTrafficCycleFor_of_active (hactive : (clientSchedule client).active = true) :
    currentTrafficCycleFor client now =
      .ok ((clientSchedule client).last now, (clientSchedule client).cycleKey now) := by
  rw [currentTrafficCycleFor, if_neg (by simp [hactive])]

theorem loadCalibrationDays_eq (hactive : (clientSchedule client).active = true)
    (hrows : Balanced (currentAdjustments client now tables)) (readings : Readings) :
    loadCalibrationDays tables client now (.ok readings) =
      .ok ((currentDays client now readings).map
          (CalibrationDay.applyDeltas (currentAdjustments client now tables)),
        emptySnapshot client now readings) := by
  have hfit := sumsFit_of_balanced hrows
  unfold currentAdjustments at hfit
  unfold loadCalibrationDays
  rw [currentTrafficCycleFor_of_active hactive]
  simp only [Except.bind, bind, pure, Except.pure, hfit, Bool.not_true, Bool.false_eq_true,
    if_false]
  rfl

variable {readings : Readings}

theorem effective_nonneg_of_load (hrows : Balanced (currentAdjustments client now tables))
    (hraw : readings.Within maxInt64) {days : List CalibrationDay} {sums : CalibrationSnapshot}
    (h : loadCalibrationDays tables client now (.ok readings) = .ok (days, sums)) :
    ∀ d ∈ days, 0 ≤ d.effective.up ∧ 0 ≤ d.effective.down := by
  cases hactive : (clientSchedule client).active with
  | false => simp [loadCalibrationDays, currentTrafficCycleFor, hactive, bind, Except.bind] at h
  | true =>
    rw [loadCalibrationDays_eq hactive hrows] at h
    obtain ⟨rfl, -⟩ := Prod.mk.inj (Except.ok.inj h)
    have hdays := raw_measuredDays maxInt64_nonneg ((clientSchedule client).last now)
      (beijingDay now) hraw
    exact fun d hd =>
      ⟨effective_nonneg hrows hdays .up d hd, effective_nonneg hrows hdays .down d hd⟩

theorem exists_latest (client : Client) (now : ℤ) (readings : Readings) :
    ∃ latest, (currentDays client now readings).getLast? = some latest ∧
      latest.day = beijingDay now := by
  have hle := calibrationStartDay_le ((clientSchedule client).last now) (beijingDay now)
  have hlast : ((currentDays client now readings).map CalibrationDay.day).getLast? =
      some (beijingDay now) := by
    obtain ⟨n, hn⟩ := Int.eq_ofNat_of_zero_le (sub_nonneg.mpr hle)
    rw [currentDays, map_day_measuredDays, Int.range, show beijingDay now + 1 -
      calibrationStartDay ((clientSchedule client).last now) (beijingDay now) = (n + 1 : ℕ) by omega,
      Int.toNat_natCast, List.getLast?_map, List.getLast?_range]
    simp
    omega
  rw [List.getLast?_map, Option.map_eq_some_iff] at hlast
  exact hlast

theorem nodup_currentDays (client : Client) (now : ℤ) (readings : Readings) :
    ((currentDays client now readings).map CalibrationDay.day).Nodup := by
  rw [currentDays, map_day_measuredDays, Int.range]
  refine List.Nodup.map (fun i j h => ?_) List.nodup_range
  simpa using h

theorem raw_currentDays {bound : ℤ} (hbound : 0 ≤ bound)
    (h : readings.Within bound) : ∀ d ∈ currentDays client now readings, d.raw.Within bound :=
  raw_measuredDays hbound _ _ h

/-- The allocations of a calibration: its delta in each direction is the target less the effective
usage. -/
structure Allocations (client : Client) (now : ℤ) (tables : CalibrationTables)
    (readings : Readings) (target : Usage) (up down : List (ℤ × ℤ)) : Prop where
  allocates : ∀ dir, ∃ latest ∈ currentDays client now readings, latest.day = beijingDay now ∧
    Allocates ((currentDays client now readings).map
        (CalibrationDay.applyDeltas (currentAdjustments client now tables)))
      (latest.applyDeltas (currentAdjustments client now tables))
      (target.on dir -
        min maxInt64 (dueTotal (currentDays client now readings)
          (currentAdjustments client now tables) dir))
      (fun d => d.effective.on dir) (allocationOn up down dir)

/-- One direction of a calibration can always be allocated. -/
theorem exists_allocates (hrows : Balanced (currentAdjustments client now tables))
    (hraw : readings.Within maxInt64) {target : Usage}
    (htarget : target.Within maxInt64) (dir : Direction) :
    ∃ allocated, allocateCalibration ((currentDays client now readings).map
        (CalibrationDay.applyDeltas (currentAdjustments client now tables)))
        (subInt64 (target.on dir) (min maxInt64 (dueTotal (currentDays client now readings)
          (currentAdjustments client now tables) dir)))
        (fun d => d.effective.on dir) = .ok allocated ∧
      ∃ latest ∈ currentDays client now readings, latest.day = beijingDay now ∧
        Allocates ((currentDays client now readings).map
            (CalibrationDay.applyDeltas (currentAdjustments client now tables)))
          (latest.applyDeltas (currentAdjustments client now tables))
          (target.on dir -
            min maxInt64 (dueTotal (currentDays client now readings)
              (currentAdjustments client now tables) dir))
          (fun d => d.effective.on dir) allocated := by
  set days := currentDays client now readings
  set rows := currentAdjustments client now tables
  have hdays : ∀ d ∈ days, d.raw.Within maxInt64 := raw_currentDays maxInt64_nonneg hraw
  obtain ⟨latest, hlatest, htoday⟩ := exists_latest client now readings
  have hnodup : ((days.map (CalibrationDay.applyDeltas rows)).map CalibrationDay.day).Nodup := by
    rw [List.map_map]
    exact nodup_currentDays client now readings
  have hsum := min_sum_effective hrows hdays dir
  have htotal := dueTotal_nonneg days rows dir
  obtain ⟨hlow, hhigh⟩ := htarget.on dir
  have hdelta : |target.on dir - min maxInt64 (dueTotal days rows dir)| ≤ maxInt64 := by
    have hmax := maxInt64_nonneg
    rw [abs_le]
    omega
  rw [subInt64, int64_of_abs_le hdelta]
  obtain ⟨allocated, halloc, hspec⟩ := allocateCalibration_spec (by rw [List.getLast?_map, hlatest]; rfl) hnodup
    (effective_nonneg hrows hdays dir) hdelta (by omega)
  exact ⟨allocated, halloc, latest, List.mem_of_getLast? hlatest, htoday, hspec⟩

/-- The snapshot of the current cycle with its days added up. -/
def summedSnapshot (client : Client) (now : ℤ) (tables : CalibrationTables) (readings : Readings) :
    CalibrationSnapshot :=
  (emptySnapshot client now readings).addDays ((currentDays client now readings).map
    (CalibrationDay.applyDeltas (currentAdjustments client now tables)))

theorem summedSnapshot_eq (client : Client) (now : ℤ) (tables : CalibrationTables)
    (readings : Readings) :
    summedSnapshot client now tables readings =
      { emptySnapshot client now readings with
        raw := (summedSnapshot client now tables readings).raw,
        adjustment := (summedSnapshot client now tables readings).adjustment,
        effective := (summedSnapshot client now tables readings).effective } :=
  addDays_eq _ _

theorem effective_summedSnapshot (hrows : Balanced (currentAdjustments client now tables))
    (hraw : readings.Within maxInt64) (dir : Direction) :
    (summedSnapshot client now tables readings).effective.on dir =
      min maxInt64 (dueTotal (currentDays client now readings)
        (currentAdjustments client now tables) dir) :=
  effective_addDays hrows (raw_currentDays maxInt64_nonneg hraw) dir rfl

end Cycle

/-- The differences of a target to a usage vanish when they agree. -/
theorem subInt64_eq_zero_iff {u v : Usage} (hu : u.Within maxInt64) (hv : v.Within maxInt64) :
    (subInt64 u.up v.up = 0 ∧ subInt64 u.down v.down = 0) ↔ u = v := by
  have hsub : ∀ dir, subInt64 (u.on dir) (v.on dir) = u.on dir - v.on dir := by
    intro dir
    have hu := hu.on dir
    have hv := hv.on dir
    refine int64_of_abs_le ?_
    rw [abs_le]
    omega
  have hup : subInt64 u.up v.up = u.up - v.up := hsub .up
  have hdown : subInt64 u.down v.down = u.down - v.down := hsub .down
  obtain ⟨up, down⟩ := u
  obtain ⟨up', down'⟩ := v
  rw [hup, hdown, Usage.mk.injEq]
  dsimp only
  omega

section Plan

variable [TimezoneDatabase] {client : Client} {now : ℤ} {tables : CalibrationTables}

theorem within_effective (hrows : Balanced (currentAdjustments client now tables))
    {readings : Readings} (hraw : readings.Within maxInt64) :
    (summedSnapshot client now tables readings).effective.Within maxInt64 := by
  have h : ∀ dir, 0 ≤ (summedSnapshot client now tables readings).effective.on dir ∧
      (summedSnapshot client now tables readings).effective.on dir ≤ maxInt64 := by
    intro dir
    rw [effective_summedSnapshot hrows hraw]
    exact ⟨le_min maxInt64_nonneg (dueTotal_nonneg _ _ _), min_le_left _ _⟩
  exact ⟨h .up, h .down⟩

variable {target : Usage}

/-- The rows of a calibration, and when it writes none. -/
theorem planCalibration_eq (hactive : (clientSchedule client).active = true)
    (hrows : Balanced (currentAdjustments client now tables)) {readings : Readings}
    (hraw : readings.Within maxInt64) (htarget : target.Within maxInt64)
    {answers : Answers} (hreads : answers.reads.days = .ok readings) (operator mode : String)
    (billableOffset targetTotal : Option ℤ) :
    ∃ up down, Allocations client now tables readings target up down ∧
      planCalibration client target operator now mode billableOffset targetTotal answers tables =
        (if target = (summedSnapshot client now tables readings).effective then
            answers.reads.history else .ok ()) >>= fun _ =>
          let history := loadCalibrationHistory tables client.uuid
            ((clientSchedule client).cycleKey now)
          if target = (summedSnapshot client now tables readings).effective ∧
              historyKnown client now readings ∧ billableOffset = none ∧
                !(history.head?.any fun entry => entry.isTotal) then
            .ok ({ summedSnapshot client now tables readings with history := history }, none)
          else
            answers.calibrationID.mapError ("generate traffic calibration id: " ++ ·) >>= fun id =>
              .ok (summedSnapshot client now tables readings,
                some (calibrationRows
                  ⟨id, mode, billableOffset, targetTotal, target, operator, now⟩ client.uuid
                  ((clientSchedule client).cycleKey now)
                  ((currentDays client now readings).map
                    (CalibrationDay.applyDeltas (currentAdjustments client now tables)))
                  up down)) := by
  obtain ⟨up, hup, hupSpec⟩ := exists_allocates hrows hraw htarget .up
  obtain ⟨down, hdown, hdownSpec⟩ := exists_allocates hrows hraw htarget .down
  refine ⟨up, down, ⟨fun dir => by cases dir <;> assumption⟩, ?_⟩
  have heff := effective_summedSnapshot hrows hraw
  have hzero := subInt64_eq_zero_iff htarget (within_effective hrows hraw)
  rw [← heff] at hup hdown
  have hcycle : (summedSnapshot client now tables readings).cycle =
      (clientSchedule client).cycleKey now := by rw [summedSnapshot_eq]; rfl
  have hcomplete : (summedSnapshot client now tables readings).historyComplete =
      historyKnown client now readings := by rw [summedSnapshot_eq]; rfl
  have hneg : ¬(target.up < 0 ∨ target.down < 0) := by
    have := htarget.1.1
    have := htarget.2.1
    omega
  set days := (currentDays client now readings).map
    (CalibrationDay.applyDeltas (currentAdjustments client now tables)) with hdays
  have hsum : (emptySnapshot client now readings).addDays days =
      summedSnapshot client now tables readings := rfl
  have hup : allocateCalibration days
      (subInt64 target.up (summedSnapshot client now tables readings).effective.up)
      (fun d => d.effective.up) = .ok up := hup
  have hdown : allocateCalibration days
      (subInt64 target.down (summedSnapshot client now tables readings).effective.down)
      (fun d => d.effective.down) = .ok down := hdown
  unfold planCalibration
  rw [hreads, loadCalibrationDays_eq hactive hrows, ← hdays]
  simp only [if_neg hneg, bind, Except.bind, pure, Except.pure, hsum, hcycle, hcomplete,
    ← and_assoc, hzero, hup, hdown]
  split_ifs <;> rfl

/-! ### What a calibration writes -/

variable (tables) in
/-- A transaction appends its rows, or fails without a trace. -/
theorem exists_saveCalibration (hactive : (clientSchedule client).active = true)
    (historyComplete : Bool) (rows : List Adjustment) (saved : Except String Unit) :
    ∃ firstDays, saveCalibration client now historyComplete rows saved tables =
      saved >>= fun _ => .ok ⟨tables.adjustments ++ rows, firstDays⟩ := by
  have hmark : ∃ firstDays, markCycleFirstDayRecovered client now tables.firstDays =
      .ok firstDays := by
    unfold markCycleFirstDayRecovered
    rw [currentTrafficCycleFor_of_active hactive]
    simp only [bind, Except.bind, pure, Except.pure]
    split
    · exact ⟨_, rfl⟩
    · exact ⟨_, rfl⟩
  obtain ⟨firstDays, hmark⟩ := hmark
  unfold saveCalibration
  cases historyComplete with
  | true => exact ⟨tables.firstDays, rfl⟩
  | false =>
    refine ⟨firstDays, ?_⟩
    rw [hmark]
    rfl

/-- The rows that a calibration writes. -/
def writtenRows (key : CalibrationKey) (client : Client) (now : ℤ) (tables : CalibrationTables)
    (readings : Readings) (up down : List (ℤ × ℤ)) : List Adjustment :=
  calibrationRows key client.uuid ((clientSchedule client).cycleKey now)
    ((currentDays client now readings).map
      (CalibrationDay.applyDeltas (currentAdjustments client now tables))) up down

variable (tables) in
/-- A calibration that fails before it has anything to write. -/
theorem exists_planCalibration_error {answers : Answers}
    (operator mode : String) (billableOffset targetTotal : Option ℤ)
    (h : ¬((clientSchedule client).active = true ∧ (0 ≤ target.up ∧ 0 ≤ target.down) ∧
      ∃ readings, answers.reads.days = .ok readings)) :
    ∃ e, planCalibration client target operator now mode billableOffset targetTotal answers tables =
      .error e := by
  unfold planCalibration
  by_cases hneg : target.up < 0 ∨ target.down < 0
  · exact ⟨"traffic calibration values cannot be negative", by rw [if_pos hneg]; rfl⟩
  · rw [if_neg hneg]
    cases hactive : (clientSchedule client).active with
    | false =>
      refine ⟨"traffic reset day must be configured before calibration", ?_⟩
      simp [loadCalibrationDays, currentTrafficCycleFor, hactive, bind, Except.bind]
    | true =>
      cases hreads : answers.reads.days with
      | error e =>
        refine ⟨e, ?_⟩
        simp [loadCalibrationDays, currentTrafficCycleFor, hactive, bind, Except.bind]
      | ok readings => exact absurd ⟨hactive, by omega, readings, hreads⟩ h

/-- A calibration fails without a trace, finds nothing to correct, or appends its rows. -/
theorem calibrateCycle_cases (hrows : Balanced (currentAdjustments client now tables))
    (htarget : target.up ≤ maxInt64 ∧ target.down ≤ maxInt64) {answers : Answers}
    (hreads : ∀ readings, answers.reads.days = .ok readings → readings.Within maxInt64)
    (operator mode : String) (billableOffset targetTotal : Option ℤ) :
    (∃ e, calibrateCycle client target operator now mode billableOffset targetTotal answers tables =
        (.error e, tables)) ∨
      (∃ snapshot, calibrateCycle client target operator now mode billableOffset targetTotal answers
        tables = (.ok snapshot, tables) ∧ billableOffset = none) ∨
      ∃ readings id up down, readings.Within maxInt64 ∧ target.Within maxInt64 ∧
        Allocations client now tables readings target up down ∧
        (calibrateCycle client target operator now mode billableOffset targetTotal answers
          tables).2.adjustments = tables.adjustments ++
            writtenRows ⟨id, mode, billableOffset, targetTotal, target, operator, now⟩ client now
              tables readings up down := by
  by_cases h : (clientSchedule client).active = true ∧ (0 ≤ target.up ∧ 0 ≤ target.down) ∧
      ∃ readings, answers.reads.days = .ok readings
  · obtain ⟨hactive, hnonneg, readings, hok⟩ := h
    have hraw := hreads readings hok
    have hwithin : target.Within maxInt64 := ⟨⟨hnonneg.1, htarget.1⟩, hnonneg.2, htarget.2⟩
    obtain ⟨up, down, halloc, hplan⟩ := planCalibration_eq hactive hrows hraw hwithin hok operator
      mode billableOffset targetTotal
    obtain ⟨e, he⟩ | ⟨snapshot, hnone, hoffset⟩ | ⟨id, hsome⟩ :
        (∃ e, planCalibration client target operator now mode billableOffset targetTotal answers
          tables = .error e) ∨
        (∃ snapshot, planCalibration client target operator now mode billableOffset targetTotal
          answers tables = .ok (snapshot, none) ∧ billableOffset = none) ∨
        ∃ id, planCalibration client target operator now mode billableOffset targetTotal answers
          tables = .ok (summedSnapshot client now tables readings,
            some (writtenRows ⟨id, mode, billableOffset, targetTotal, target, operator, now⟩ client
              now tables readings up down)) := by
      rw [hplan]
      cases (if target = (summedSnapshot client now tables readings).effective then
        answers.reads.history else .ok ()) with
      | error e => exact Or.inl ⟨e, rfl⟩
      | ok u =>
        simp only [bind, Except.bind]
        split_ifs with hnothing
        · exact Or.inr (Or.inl ⟨_, rfl, hnothing.2.2.1⟩)
        · cases answers.calibrationID with
          | error e => exact Or.inl ⟨_, rfl⟩
          | ok id => exact Or.inr (Or.inr ⟨id, rfl⟩)
    · exact Or.inl ⟨e, by rw [calibrateCycle, he]⟩
    · exact Or.inr (Or.inl ⟨snapshot, by rw [calibrateCycle, hnone], hoffset⟩)
    · obtain ⟨firstDays, hsave⟩ := exists_saveCalibration tables hactive
        (summedSnapshot client now tables readings).historyComplete
        (writtenRows ⟨id, mode, billableOffset, targetTotal, target, operator, now⟩ client
          now tables readings up down) answers.saved
      rw [calibrateCycle, hsome]
      dsimp only
      rw [hsave]
      cases answers.saved with
      | error e => exact Or.inl ⟨_, rfl⟩
      | ok u => exact Or.inr (Or.inr ⟨readings, id, up, down, hraw, hwithin, halloc, rfl⟩)
  · obtain ⟨e, he⟩ := exists_planCalibration_error tables operator mode billableOffset targetTotal h
    exact Or.inl ⟨e, by rw [calibrateCycle, he]⟩

/-- **The sums of deltas stay 64-bit integers.** -/
theorem balanced_append (hrows : Balanced (currentAdjustments client now tables))
    {readings : Readings} (hraw : readings.Within maxInt64)
    (htarget : target.Within maxInt64) {up down : List (ℤ × ℤ)}
    (halloc : Allocations client now tables readings target up down) (key : CalibrationKey) :
    Balanced (currentAdjustments client now tables ++
      writtenRows key client now tables readings up down) := by
  intro day dir
  set rows := currentAdjustments client now tables with hrowsdef
  set days := currentDays client now readings
  have hdays : ∀ d ∈ days, d.raw.Within maxInt64 := raw_currentDays maxInt64_nonneg hraw
  have hnodup : ((days.map (CalibrationDay.applyDeltas rows)).map CalibrationDay.day).Nodup := by
    rw [List.map_map]
    exact nodup_currentDays client now readings
  have hold := hrows day dir
  rw [on_dayDeltas_append, writtenRows, ← hrowsdef]
  by_cases hmem : day ∈ (days.map (CalibrationDay.applyDeltas rows)).map CalibrationDay.day
  · obtain ⟨d', hd', hday⟩ := List.mem_map.mp hmem
    obtain ⟨d, hd, rfl⟩ := List.mem_map.mp hd'
    obtain rfl : d.day = day := hday
    have hnew := on_dayDeltas_calibrationRows key client.uuid
      ((clientSchedule client).cycleKey now) up down hnodup hd' dir
    rw [show (d.applyDeltas rows).day = d.day from rfl] at hnew
    obtain ⟨latest, hlatest, htoday, hspec⟩ : ∃ latest ∈ days, latest.day = beijingDay now ∧
        Allocates (days.map (CalibrationDay.applyDeltas rows)) (latest.applyDeltas rows)
          (target.on dir - min maxInt64 (dueTotal days rows dir)) (fun d => d.effective.on dir)
          (allocationOn up down dir) := halloc.allocates dir
    have htarget := htarget.on dir
    obtain ⟨hlow, hhigh⟩ := abs_le.mp hold
    rw [hnew, abs_le]
    by_cases hpos : 0 < target.on dir - min maxInt64 (dueTotal days rows dir)
    · rw [hspec.gives hpos]
      split_ifs with hday
      · -- the sum of the due values is at least what the latest day has already
        have hdue : due (latest.raw.on dir) ((dayDeltas rows d.day).on dir) ≤
            dueTotal days rows dir := by
          rw [show d.day = latest.day from hday]
          exact List.single_le_sum (by
            intro x hx
            obtain ⟨d, -, rfl⟩ := List.mem_map.mp hx
            exact due_nonneg _ _) _ (List.mem_map_of_mem hlatest)
        have hlatest := (hdays latest hlatest).on dir
        unfold due at hdue
        omega
      · omega
    · have htakes := hspec.takes (by omega) _ hd'
      rw [effective_applyDeltas hrows (hdays d hd)] at htakes
      have hraw := (hdays d hd).on dir
      rw [show (d.applyDeltas rows).day = d.day from rfl] at htakes
      unfold due at htakes
      omega
  · rw [on_dayDeltas_calibrationRows_of_notMem hmem, add_zero]
    exact hold

variable (client now tables) in
theorem currentAdjustments_append (firstDays : FirstDays) (key : CalibrationKey)
    (readings : Readings) (up down : List (ℤ × ℤ)) :
    currentAdjustments client now
        ⟨tables.adjustments ++ writtenRows key client now tables readings up down, firstDays⟩ =
      currentAdjustments client now tables ++ writtenRows key client now tables readings up down := by
  unfold currentAdjustments cycleAdjustments
  rw [List.filter_append]
  congr 1
  rw [List.filter_eq_self]
  intro row hrow
  obtain ⟨-, hclient, hcycle⟩ := mem_calibrationRows hrow
  simp [hclient, hcycle]

variable (client now tables) in
/-- A calibration that writes has at least one row. -/
theorem writtenRows_ne_nil (key : CalibrationKey) (readings : Readings) (up down : List (ℤ × ℤ)) :
    writtenRows key client now tables readings up down ≠ [] := by
  obtain ⟨latest, hlatest, -⟩ := exists_latest client now readings
  have hfold : ∀ (days : List CalibrationDay) (rows : List Adjustment), rows ≠ [] →
      days.foldl (addRow key client.uuid ((clientSchedule client).cycleKey now) up down) rows ≠
        [] := by
    intro days
    induction days with
    | nil => exact fun rows hrows => hrows
    | cons d days ih =>
      intro rows hrows
      refine ih _ ?_
      unfold addRow
      dsimp only
      split_ifs
      · exact hrows
      · simp
  unfold writtenRows calibrationRows
  cases hdays : currentDays client now readings with
  | nil => simp [hdays] at hlatest
  | cons d days =>
    rw [List.map_cons, List.foldl_cons]
    refine hfold _ _ ?_
    simp [addRow]

theorem loadCalibrationSnapshot_eq (hactive : (clientSchedule client).active = true)
    (hrows : Balanced (currentAdjustments client now tables)) (readings : Readings)
    (history : Except String Unit) :
    loadCalibrationSnapshot tables client now ⟨.ok readings, history⟩ =
      history >>= fun _ => CalibrationSnapshot.applyTotal client
        { summedSnapshot client now tables readings with
          history := loadCalibrationHistory tables client.uuid
            ((clientSchedule client).cycleKey now) } := by
  have hcycle : (summedSnapshot client now tables readings).cycle =
      (clientSchedule client).cycleKey now := by rw [summedSnapshot_eq]; rfl
  unfold loadCalibrationSnapshot
  rw [loadCalibrationDays_eq hactive hrows]
  cases history with
  | error e => rfl
  | ok u =>
    simp only [bind, Except.bind]
    rw [← hcycle]
    rfl

variable (client now tables) in
theorem exists_loadCalibrationSnapshot_error (reads : Reads)
    (h : ¬∃ readings, reads.days = .ok readings) :
    ∃ e, loadCalibrationSnapshot tables client now reads = .error e := by
  unfold loadCalibrationSnapshot loadCalibrationDays
  cases currentTrafficCycleFor client now with
  | error e => exact ⟨e, rfl⟩
  | ok current =>
    cases hreads : reads.days with
    | error e => exact ⟨e, rfl⟩
    | ok readings => exact absurd ⟨readings, hreads⟩ h

end Plan

/-- The entries of the history come from stored rows. -/
theorem exists_row_of_mem_history {tables : CalibrationTables} {uuid cycle : String} {entry : CalibrationHistory}
    (h : entry ∈ loadCalibrationHistory tables uuid cycle) :
    ∃ row ∈ cycleAdjustments tables uuid cycle,
      row.toCalibrationKey = entry.toCalibrationKey := by
  unfold loadCalibrationHistory at h
  obtain ⟨key, hkey, rfl⟩ := List.mem_map.mp h
  have hmem := (List.mem_insertionSort _).mp (List.mem_of_mem_take hkey)
  rw [List.mem_reverse, List.mem_dedup] at hmem
  obtain ⟨row, hrow, rfl⟩ := List.mem_map.mp hmem
  exact ⟨row, hrow, rfl⟩

/-- Without a calibration of a total the snapshot stays as it is. -/
theorem applyTotal_of_not_isTotal {client : Client} {snapshot : CalibrationSnapshot}
    (h : ∀ entry ∈ snapshot.history, entry.isTotal = false) :
    snapshot.applyTotal client = .ok snapshot := by
  unfold CalibrationSnapshot.applyTotal
  split
  next heq =>
    have hmode := h _ (List.mem_of_mem_head? (by rw [heq]; rfl))
    rw [CalibrationKey.isTotal] at hmode
    rw [if_neg (by simp [hmode])]
  next => rfl

end Traffic

end Komari
