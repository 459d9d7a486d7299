import Komari.Traffic.Balance

/-!
# Directional calibration

`CalibrateCurrentCycle` brings both directions of the current cycle to a target.  The delta of a
direction is computed from the effective usage of the days, which is cut at zero, but stored as a sum
that is not: when something is added while the measured usage of the latest day plus its stored deltas
is below zero, the target is missed.

* `calibrateCurrentCycle_exact_iff` : **when directional calibration is exact.**
* `calibrateCurrentCycle_misses` : the measured usage of today shrinks between two calibrations.
-/

namespace Komari

namespace Traffic

open TrafficReset Calendar

/-! ### Calls -/

/-- A call of `CalibrateCurrentCycle`. -/
structure DirectionCall where
  client : Client
  target : Usage
  operator : String
  now : ℤ
  answers : Answers

namespace DirectionCall

/-- The target and all measured usages lie between zero and a bound. -/
structure InRange (bound : ℤ) (call : DirectionCall) : Prop where
  target : call.target.Within bound
  reads : ∀ readings, call.answers.reads.days = .ok readings → readings.Within bound
  reread : ∀ readings, call.answers.reread.days = .ok readings → readings.Within bound

variable [TimezoneDatabase] (call : DirectionCall) (tables : CalibrationTables)

/-- The call, on the tables. -/
def apply : Except String CalibrationSnapshot × CalibrationTables :=
  calibrateCurrentCycle call.client call.target call.operator call.now call.answers tables

/-- The key of the cycle that the call calibrates. -/
def cycle : String := (clientSchedule call.client).cycleKey call.now

/-- The snapshot that the call returns re-reads the measured usage that the call has read. -/
def SameRaw : Prop :=
  ∃ readings readings', call.answers.reads.days = .ok readings ∧
    call.answers.reread.days = .ok readings' ∧
    currentDays call.client call.now readings' = currentDays call.client call.now readings

/-- A call that succeeds and re-reads the same measured usage returns the target, with no day below
zero; a call that fails writes no row. -/
def Exact : Prop :=
  match call.apply tables with
  | (.error _, tables') => tables'.adjustments = tables.adjustments
  | (.ok snapshot, tables') =>
    call.SameRaw → snapshot.effective = call.target ∧
      ∀ days sums, loadCalibrationDays tables' call.client call.now call.answers.reread.days =
        .ok (days, sums) → ∀ d ∈ days, 0 ≤ d.effective.up ∧ 0 ≤ d.effective.down

/-! ### The condition -/

/-- The sum of the due values that the call finds. -/
def found (readings : Readings) (dir : Direction) : ℤ :=
  dueTotal (currentDays call.client call.now readings)
    (currentAdjustments call.client call.now tables) dir

/-- The call finds something to correct, and nothing fails up to the commit. -/
structure Commits (readings : Readings) : Prop where
  active : (clientSchedule call.client).active = true
  reads : call.answers.reads.days = .ok readings
  corrects : ¬((∀ dir, call.target.on dir = call.found tables readings dir) ∧
    historyKnown call.client call.now readings = true)
  history : (∀ dir, call.target.on dir = call.found tables readings dir) →
    call.answers.reads.history = .ok ()
  id : ∃ id, call.answers.calibrationID = .ok id
  saved : call.answers.saved = .ok ()

/-- The sum of the due values fits in 64 bits and, if something has to be added, the measured usage of
today plus its stored deltas is not below zero. -/
def Reaches (readings : Readings) : Prop :=
  ∀ dir, call.found tables readings dir ≤ maxInt64 ∧
    (call.target.on dir ≤ call.found tables readings dir ∨
      ∀ d ∈ currentDays call.client call.now readings, d.day = beijingDay call.now →
        0 ≤ d.raw.on dir +
          (dayDeltas (currentAdjustments call.client call.now tables) d.day).on dir)

/-- If the call commits, the snapshot can be read again, and if it reads the same measured usage, the
target is in reach. -/
def HoldsWhen : Prop :=
  ∀ readings, call.Commits tables readings →
    (∃ readings', call.answers.reread.days = .ok readings') ∧
      call.answers.reread.history = .ok () ∧
      (call.SameRaw → call.Reaches tables readings)

end DirectionCall

/-- Calls one after the other. -/
def calibrateAll [TimezoneDatabase] (tables : CalibrationTables) (calls : List DirectionCall) :
    CalibrationTables :=
  calls.foldl (fun tables call => (call.apply tables).2) tables

/-! ### What a call does -/

/-- What holds of the adjustments of a cycle that was calibrated by directions only. -/
structure Directional (rows : List Adjustment) : Prop where
  balanced : Balanced rows
  mode : ∀ row ∈ rows, row.mode = "directions"

theorem history_not_total {tables : CalibrationTables} {uuid cycle : String}
    (hrows : ∀ row ∈ cycleAdjustments tables uuid cycle, row.mode = "directions") :
    ∀ entry ∈ loadCalibrationHistory tables uuid cycle, entry.isTotal = false := by
  intro entry hentry
  obtain ⟨row, hrow, hkey⟩ := exists_row_of_mem_history hentry
  rw [CalibrationKey.isTotal, ← hkey, hrows row hrow]
  decide +kernel

theorem bound_lt : (2 ^ 60 - 1 : ℤ) < maxInt64 := by decide

namespace DirectionCall

variable [TimezoneDatabase] {call : DirectionCall} {tables : CalibrationTables}

variable {readings : Readings}

theorem target_eq_effective_iff (hrows : Balanced (currentAdjustments call.client call.now tables))
    (hraw : readings.Within maxInt64) (htarget : call.target.Within (2 ^ 60 - 1)) :
    call.target = (summedSnapshot call.client call.now tables readings).effective ↔
      ∀ dir, call.target.on dir = call.found tables readings dir := by
  have heff := effective_summedSnapshot hrows hraw
  have hbound := bound_lt
  constructor
  · intro h dir
    have hdir := heff dir
    have hon := htarget.on dir
    rw [← h] at hdir
    unfold found
    omega
  · intro h
    refine Usage.ext_on fun dir => ?_
    have hon := htarget.on dir
    rw [heff dir, ← found, ← h dir]
    omega

section Apply

variable (hrows : Directional (currentAdjustments call.client call.now tables))
  (hrange : call.InRange (2 ^ 60 - 1))

include hrows hrange

theorem apply_of_commits {readings : Readings} (hc : call.Commits tables readings) :
    ∃ key up down firstDays, key.mode = "directions" ∧
      Allocations call.client call.now tables readings call.target up down ∧
      call.apply tables =
        (loadCalibrationSnapshot ⟨tables.adjustments ++
            writtenRows key call.client call.now tables readings up down, firstDays⟩ call.client
            call.now call.answers.reread,
          ⟨tables.adjustments ++ writtenRows key call.client call.now tables readings up down,
            firstDays⟩) := by
  have hraw := (hrange.reads readings hc.reads).mono bound_lt.le
  obtain ⟨up, down, halloc, hplan⟩ := planCalibration_eq hc.active hrows.balanced hraw
    (hrange.target.mono bound_lt.le) hc.reads call.operator "directions" none none
  obtain ⟨id, hid⟩ := hc.id
  have hiff := target_eq_effective_iff hrows.balanced hraw hrange.target
  have hhistory : (if call.target = (summedSnapshot call.client call.now tables readings).effective
      then call.answers.reads.history else .ok ()) = .ok () := by
    split_ifs with heq
    · exact hc.history (hiff.mp heq)
    · rfl
  have hcorrects : ¬(call.target = (summedSnapshot call.client call.now tables readings).effective ∧
      historyKnown call.client call.now readings = true) := by
    rw [hiff]
    exact hc.corrects
  rw [hhistory, hid] at hplan
  simp only [bind, Except.bind, Except.mapError] at hplan
  rw [if_neg fun h => hcorrects ⟨h.1, h.2.1⟩] at hplan
  obtain ⟨firstDays, hsave⟩ := exists_saveCalibration tables hc.active
    (summedSnapshot call.client call.now tables readings).historyComplete
    (writtenRows ⟨id, "directions", none, none, call.target, call.operator, call.now⟩ call.client
      call.now tables readings up down) call.answers.saved
  refine ⟨⟨id, "directions", none, none, call.target, call.operator, call.now⟩, up, down, firstDays,
    rfl, halloc, ?_⟩
  rw [apply, calibrateCurrentCycle, calibrateCycle, hplan]
  dsimp only
  unfold writtenRows at hsave
  rw [hsave, hc.saved]
  rfl

/-- A call that does not commit writes nothing, and succeeds only if there is nothing to correct. -/
theorem apply_of_not_commits (hc : ¬∃ readings, call.Commits tables readings) :
    (∃ e, call.apply tables = (.error e, tables)) ∨
      ∃ snapshot, call.apply tables = (.ok snapshot, tables) ∧ snapshot.effective = call.target := by
  by_cases h : (clientSchedule call.client).active = true ∧
      (0 ≤ call.target.up ∧ 0 ≤ call.target.down) ∧
      ∃ readings, call.answers.reads.days = .ok readings
  · obtain ⟨hactive, -, readings, hreads⟩ := h
    have hraw := (hrange.reads readings hreads).mono bound_lt.le
    obtain ⟨up, down, -, hplan⟩ := planCalibration_eq hactive hrows.balanced hraw
      (hrange.target.mono bound_lt.le) hreads call.operator "directions" none none
    have hiff := target_eq_effective_iff hrows.balanced hraw hrange.target
    have hlatest : (!((loadCalibrationHistory tables call.client.uuid
        ((clientSchedule call.client).cycleKey call.now)).head?.any
          fun entry => entry.isTotal)) = true := by
      rw [Bool.not_eq_true', Option.any_eq_false]
      exact fun entry hentry =>
        by simpa using history_not_total hrows.mode entry (List.mem_of_mem_head? hentry)
    -- what is corrected fails before the commit
    have hfail : ¬(call.target = (summedSnapshot call.client call.now tables readings).effective ∧
          historyKnown call.client call.now readings = true) →
        (call.target = (summedSnapshot call.client call.now tables readings).effective →
          call.answers.reads.history = .ok ()) →
        (∃ e, call.answers.calibrationID = .error e) ∨ ∃ e, call.answers.saved = .error e := by
      intro hcorrects hhistory
      cases hid : call.answers.calibrationID with
      | error e => exact Or.inl ⟨e, rfl⟩
      | ok id =>
        cases hsaved : call.answers.saved with
        | error e => exact Or.inr ⟨e, rfl⟩
        | ok u =>
          rw [hiff] at hcorrects
          exact absurd ⟨readings, hactive, hreads, hcorrects, fun h => hhistory (hiff.mpr h),
            ⟨id, hid⟩, hsaved⟩ hc
    have hplan : (∃ e, planCalibration call.client call.target call.operator call.now "directions" none
          none call.answers tables = .error e) ∨
        (∃ snapshot, planCalibration call.client call.target call.operator call.now "directions" none
          none call.answers tables = .ok (snapshot, none) ∧ snapshot.effective = call.target) ∨
        ∃ snapshot rows, planCalibration call.client call.target call.operator call.now "directions"
          none none call.answers tables = .ok (snapshot, some rows) ∧
          ∃ e, call.answers.saved = .error e := by
      rw [hplan]
      cases hhistory : (if call.target =
          (summedSnapshot call.client call.now tables readings).effective then
            call.answers.reads.history else .ok ()) with
      | error e => exact Or.inl ⟨e, rfl⟩
      | ok u =>
        have hread : call.target =
            (summedSnapshot call.client call.now tables readings).effective →
              call.answers.reads.history = .ok () := by
          intro heq
          rwa [if_pos heq] at hhistory
        simp only [bind, Except.bind]
        split_ifs with hnothing
        · exact Or.inr (Or.inl ⟨_, rfl, hnothing.1.symm⟩)
        · have hcorrects : ¬(call.target =
              (summedSnapshot call.client call.now tables readings).effective ∧
                historyKnown call.client call.now readings = true) :=
            fun h => hnothing ⟨h.1, h.2, trivial, hlatest⟩
          cases hid : call.answers.calibrationID with
          | error e => exact Or.inl ⟨_, rfl⟩
          | ok id =>
            rcases hfail hcorrects hread with ⟨e, he⟩ | hsaved
            · rw [hid] at he
              cases he
            · exact Or.inr (Or.inr ⟨_, _, rfl, hsaved⟩)
    rw [apply, calibrateCurrentCycle, calibrateCycle]
    rcases hplan with ⟨e, he⟩ | ⟨snapshot, hnone, heff⟩ | ⟨snapshot, rows, hsome, e, he⟩
    · exact Or.inl ⟨e, by rw [he]⟩
    · exact Or.inr ⟨snapshot, by rw [hnone], heff⟩
    · obtain ⟨firstDays, hsave⟩ := exists_saveCalibration tables hactive
        snapshot.historyComplete rows call.answers.saved
      left
      refine ⟨"save traffic calibration: " ++ e, ?_⟩
      rw [hsome]
      dsimp only
      rw [hsave, he]
      rfl
  · obtain ⟨e, he⟩ := exists_planCalibration_error tables call.operator "directions"
      none none h
    left
    exact ⟨e, by rw [apply, calibrateCurrentCycle, calibrateCycle, he]⟩

end Apply

/-! ### When it is exact -/

/-- What the call finds, day by day, is what it corrects. -/
theorem found_written_iff (hrows : Balanced (currentAdjustments call.client call.now tables))
    (hraw : readings.Within maxInt64)
    (htarget : call.target.Within (2 ^ 60 - 1)) {up down : List (ℤ × ℤ)}
    (halloc : Allocations call.client call.now tables readings call.target up down)
    (key : CalibrationKey) (dir : Direction) :
    dueTotal (currentDays call.client call.now readings)
        (currentAdjustments call.client call.now tables ++
          writtenRows key call.client call.now tables readings up down) dir =
        call.target.on dir ↔
      call.found tables readings dir ≤ maxInt64 ∧
        (call.target.on dir ≤ call.found tables readings dir ∨
          ∀ d ∈ currentDays call.client call.now readings, d.day = beijingDay call.now →
            0 ≤ d.raw.on dir +
              (dayDeltas (currentAdjustments call.client call.now tables) d.day).on dir) := by
  set rows := currentAdjustments call.client call.now tables with hrowsdef
  set days := currentDays call.client call.now readings with hdaysdef
  have hdays : ∀ d ∈ days, d.raw.Within maxInt64 := raw_currentDays maxInt64_nonneg hraw
  have hnodup : (days.map CalibrationDay.day).Nodup :=
    nodup_currentDays call.client call.now readings
  have hnodup' : ((days.map (CalibrationDay.applyDeltas rows)).map CalibrationDay.day).Nodup := by
    rw [List.map_map]
    exact hnodup
  obtain ⟨latest, hlatest, htoday, hspec⟩ : ∃ latest ∈ days, latest.day = beijingDay call.now ∧
      Allocates (days.map (CalibrationDay.applyDeltas rows)) (latest.applyDeltas rows)
        (call.target.on dir - min maxInt64 (dueTotal days rows dir)) (fun d => d.effective.on dir)
        (allocationOn up down dir) := halloc.allocates dir
  have hfound : ((days.map (CalibrationDay.applyDeltas rows)).map fun d =>
      due (d.raw.on dir) (d.adjustment.on dir)).sum = dueTotal days rows dir := by
    rw [List.map_map]
    rfl
  have hwritten : ((days.map (CalibrationDay.applyDeltas rows)).map fun d => due (d.raw.on dir)
      (d.adjustment.on dir + allocatedOn (allocationOn up down dir) d.day)).sum =
        dueTotal days (rows ++ writtenRows key call.client call.now tables readings up down)
          dir := by
    rw [List.map_map]
    refine congrArg List.sum (List.map_congr_left fun d hd => ?_)
    have hnew := on_dayDeltas_calibrationRows key call.client.uuid
      ((clientSchedule call.client).cycleKey call.now) up down hnodup' (List.mem_map_of_mem hd) dir
    rw [on_dayDeltas_append, writtenRows, ← hrowsdef, ← hdaysdef]
    exact congrArg (fun x => due (d.raw.on dir) ((dayDeltas rows d.day).on dir + x)) hnew.symm
  have hzero : (∀ d ∈ days, d.day = beijingDay call.now →
      0 ≤ d.raw.on dir + (dayDeltas rows d.day).on dir) ↔
        0 ≤ latest.raw.on dir + (dayDeltas rows latest.day).on dir := by
    constructor
    · exact fun h => h latest hlatest htoday
    · intro h d hd hday
      rwa [List.inj_on_of_nodup_map hnodup hd hlatest (hday.trans htoday.symm)]
  have hbound := bound_lt
  have hle := (htarget.on dir).2
  rw [hzero, ← hwritten]
  rw [← hfound] at hspec
  have hiff := sum_due_allocated_iff (List.mem_map_of_mem hlatest) hnodup' (by omega) (by
    intro d' hd'
    obtain ⟨d, hd, rfl⟩ := List.mem_map.mp hd'
    rw [effective_applyDeltas hrows (hdays d hd)]
    exact min_le_right _ _) hspec
  rw [hfound] at hiff
  exact hiff

theorem directional_append (hrows : Directional (currentAdjustments call.client call.now tables))
    (hraw : readings.Within maxInt64) (htarget : call.target.Within maxInt64)
    {up down : List (ℤ × ℤ)}
    (halloc : Allocations call.client call.now tables readings call.target up down)
    (key : CalibrationKey) (hkey : key.mode = "directions") :
    Directional (currentAdjustments call.client call.now tables ++
      writtenRows key call.client call.now tables readings up down) := by
  refine ⟨balanced_append hrows.balanced hraw htarget halloc key, fun row hrow => ?_⟩
  rcases List.mem_append.mp hrow with hrow | hrow
  · exact hrows.mode row hrow
  · rw [(mem_calibrationRows hrow).1, hkey]

theorem holdsWhen_iff (hc : call.Commits tables readings) :
    call.HoldsWhen tables ↔ (∃ readings', call.answers.reread.days = .ok readings') ∧
      call.answers.reread.history = .ok () ∧ (call.SameRaw → call.Reaches tables readings) := by
  constructor
  · exact fun h => h readings hc
  · intro h readings' hc'
    obtain rfl : readings = readings' := Except.ok.inj (hc.reads.symm.trans hc'.reads)
    exact h

theorem exact_iff (hrows : Directional (currentAdjustments call.client call.now tables))
    (hrange : call.InRange (2 ^ 60 - 1)) : call.Exact tables ↔ call.HoldsWhen tables := by
  by_cases hc : ∃ readings, call.Commits tables readings
  · obtain ⟨readings, hc⟩ := hc
    obtain ⟨key, up, down, firstDays, hkey, halloc, happly⟩ := apply_of_commits hrows hrange hc
    have hraw := (hrange.reads readings hc.reads).mono bound_lt.le
    have htarget := hrange.target.mono bound_lt.le
    have happend := currentAdjustments_append call.client call.now tables firstDays key readings up down
    have hrows' : Directional (currentAdjustments call.client call.now
        ⟨tables.adjustments ++ writtenRows key call.client call.now tables readings up down,
          firstDays⟩) := by
      rw [happend]
      exact directional_append hrows hraw htarget halloc key hkey
    have hne : tables.adjustments ++
        writtenRows key call.client call.now tables readings up down ≠ tables.adjustments := by
      simpa using writtenRows_ne_nil call.client call.now tables key readings up down
    rw [holdsWhen_iff hc, Exact, happly]
    cases hreread : call.answers.reread with
    | mk reread history =>
      cases reread with
      | error e =>
        obtain ⟨e', he'⟩ := exists_loadCalibrationSnapshot_error call.client
          call.now ⟨tables.adjustments ++ writtenRows key call.client call.now tables readings up down,
            firstDays⟩ ⟨.error e, history⟩ (by simp)
        rw [he']
        simpa using hne
      | ok readings' =>
        rw [loadCalibrationSnapshot_eq hc.active hrows'.balanced]
        cases history with
        | error e => simpa [bind, Except.bind] using hne
        | ok u =>
          have hraw' := (hrange.reread readings' (by rw [hreread])).mono bound_lt.le
          have heff := effective_summedSnapshot hrows'.balanced hraw'
          simp only [bind, Except.bind]
          rw [applyTotal_of_not_isTotal (history_not_total hrows'.mode)]
          have hnonneg := fun days sums => @effective_nonneg_of_load _ call.client call.now _
            readings' hrows'.balanced hraw' days sums
          have hexact : call.SameRaw →
              ((summedSnapshot call.client call.now ⟨tables.adjustments ++
                writtenRows key call.client call.now tables readings up down, firstDays⟩
                  readings').effective = call.target ↔ call.Reaches tables readings) := by
            rintro ⟨r, r', hr, hr', hdays⟩
            obtain rfl : readings = r := Except.ok.inj (hc.reads.symm.trans hr)
            obtain rfl : readings' = r' := by
              rw [hreread] at hr'
              exact Except.ok.inj hr'
            rw [hdays, happend] at heff
            have hfound := found_written_iff hrows.balanced hraw hrange.target halloc key
            have hbound := bound_lt
            constructor
            · intro heq dir
              refine (hfound dir).mp ?_
              have hdir := heff dir
              have hon := hrange.target.on dir
              rw [heq] at hdir
              omega
            · intro hreaches
              refine Usage.ext_on fun dir => ?_
              have hon := hrange.target.on dir
              rw [heff dir, (hfound dir).mpr (hreaches dir), min_eq_right (by omega)]
          constructor
          · intro h
            exact ⟨⟨readings', rfl⟩, trivial, fun hsame => (hexact hsame).mp (h hsame).1⟩
          · intro h hsame
            exact ⟨(hexact hsame).mpr (h.2.2 hsame), hnonneg⟩
  · refine iff_of_true ?_ fun readings h => absurd ⟨readings, h⟩ hc
    unfold Exact
    rcases apply_of_not_commits hrows hrange hc with ⟨e, he⟩ | ⟨snapshot, hok, heff⟩
    · rw [he]
    · rw [hok]
      rintro ⟨readings, readings', hreads, hreread, hsame⟩
      refine ⟨heff, fun days sums hload => ?_⟩
      rw [hreread] at hload
      exact effective_nonneg_of_load hrows.balanced
        ((hrange.reread readings' hreread).mono bound_lt.le) hload

/-- One call keeps the adjustments of its cycle directional. -/
theorem directional_apply (hrows : Directional (currentAdjustments call.client call.now tables))
    (hrange : call.InRange (2 ^ 60 - 1)) :
    Directional (currentAdjustments call.client call.now (call.apply tables).2) := by
  have htarget := hrange.target.mono bound_lt.le
  have hreads := fun readings hreads => (hrange.reads readings hreads).mono bound_lt.le
  rcases calibrateCycle_cases hrows.balanced ⟨htarget.1.2, htarget.2.2⟩ hreads call.operator
    "directions" none none with ⟨e, he⟩ | ⟨snapshot, hnone, -⟩ |
      ⟨readings, id, up, down, hraw, -, halloc, happend⟩
  · rw [apply, calibrateCurrentCycle, he]
    exact hrows
  · rw [apply, calibrateCurrentCycle, hnone]
    exact hrows
  · have hcycle := directional_append hrows hraw htarget halloc
      ⟨id, "directions", none, none, call.target, call.operator, call.now⟩ rfl
    rw [← currentAdjustments_append _ _ _ tables.firstDays] at hcycle
    unfold currentAdjustments cycleAdjustments at hcycle ⊢
    rw [apply, calibrateCurrentCycle, happend]
    exact hcycle

theorem directional_calibrateAll {uuid cycle : String} {calls : List DirectionCall}
    (hrows : Directional (cycleAdjustments tables uuid cycle))
    (hcycle : ∀ c ∈ calls, c.client.uuid = uuid ∧ c.cycle = cycle)
    (hrange : ∀ c ∈ calls, c.InRange (2 ^ 60 - 1)) :
    Directional (cycleAdjustments (calibrateAll tables calls) uuid cycle) := by
  induction calls generalizing tables with
  | nil => exact hrows
  | cons c calls ih =>
    obtain ⟨⟨rfl, rfl⟩, hcycle⟩ := List.forall_mem_cons.mp hcycle
    obtain ⟨hc, hrange⟩ := List.forall_mem_cons.mp hrange
    exact ih (directional_apply hrows hc) hcycle hrange

end DirectionCall

/-- **When directional calibration is exact.**  After any calibrations of a cycle, whatever was
measured, a call returns the target with no day below zero, or fails without a row, exactly when its
condition holds. -/
theorem calibrateCurrentCycle_exact_iff [TimezoneDatabase] (tables : CalibrationTables)
    (calls : List DirectionCall) (call : DirectionCall)
    (hfresh : cycleAdjustments tables call.client.uuid call.cycle = [])
    (hcycle : ∀ c ∈ calls, c.client.uuid = call.client.uuid ∧ c.cycle = call.cycle)
    (hrange : ∀ c ∈ calls, c.InRange (2 ^ 60 - 1)) (hcall : call.InRange (2 ^ 60 - 1)) :
    call.Exact (calibrateAll tables calls) ↔ call.HoldsWhen (calibrateAll tables calls) := by
  have hrows : Directional (cycleAdjustments tables call.client.uuid call.cycle) := by
    rw [hfresh]
    refine ⟨fun day dir => ?_, by simp⟩
    rw [on_dayDeltas]
    exact maxInt64_nonneg
  exact DirectionCall.exact_iff (DirectionCall.directional_calibrateAll hrows hcycle hrange) hcall

/-- A call within the first day of the cycle of `noonClient`, with `current` as the measured usage. -/
def noonCall (seconds : ℤ) (target current : Usage) : DirectionCall :=
  let reads : Reads := ⟨.ok ⟨fun _ => none, none, current⟩, .ok ()⟩
  { client := noonClient, target := target, operator := "admin", now := instantAt seconds,
    answers := ⟨reads, .ok "0123456789abcdef", .ok (), reads⟩ }

theorem noonCall_inRange {seconds : ℤ} {target current : Usage}
    (htarget : target.Within (2 ^ 60 - 1)) (hcurrent : current.Within (2 ^ 60 - 1)) :
    (noonCall seconds target current).InRange (2 ^ 60 - 1) := by
  refine ⟨htarget, ?_, ?_⟩ <;> rintro readings ⟨⟩ <;> exact ⟨by simp, by simp, hcurrent⟩

theorem calibrateCurrentCycle_exact_noon :
    @DirectionCall.Exact noTimezones (noonCall 50000 ⟨30, 7⟩ ⟨120, 9⟩)
      (@calibrateAll noTimezones ⟨[], ∅⟩ [noonCall 46800 ⟨0, 0⟩ ⟨100, 0⟩]) := by
  refine (@calibrateCurrentCycle_exact_iff noTimezones ⟨[], ∅⟩ [noonCall 46800 ⟨0, 0⟩ ⟨100, 0⟩]
    (noonCall 50000 ⟨30, 7⟩ ⟨120, 9⟩) (by decide +kernel) (by decide +kernel)
    (by simpa using noonCall_inRange (by decide) (by decide))
    (noonCall_inRange (by decide) (by decide))).mpr ?_
  rintro readings ⟨-, hreads, -⟩
  refine ⟨⟨_, rfl⟩, rfl, fun _ dir => ?_⟩
  obtain rfl : (⟨fun _ => none, none, ⟨120, 9⟩⟩ : Readings) = readings := Except.ok.inj hreads
  cases dir <;> decide +kernel

/-- The measured usage of today shrinks from 100 to 50 after a calibration to zero; the next one aims at
30 and arrives at zero. -/
theorem calibrateCurrentCycle_misses :
    (((@DirectionCall.apply noTimezones (noonCall 50000 ⟨30, 0⟩ ⟨50, 0⟩)
      (@calibrateAll noTimezones ⟨[], ∅⟩ [noonCall 46800 ⟨0, 0⟩ ⟨100, 0⟩])).1.toOption.map
        fun snapshot => (snapshot.raw, snapshot.effective)) = some (⟨50, 0⟩, ⟨0, 0⟩)) ∧
      @DirectionCall.SameRaw noTimezones (noonCall 50000 ⟨30, 0⟩ ⟨50, 0⟩) ∧
      (noonCall 50000 ⟨30, 0⟩ ⟨50, 0⟩).target = ⟨30, 0⟩ :=
  ⟨by decide +kernel, ⟨_, _, rfl, rfl, rfl⟩, rfl⟩

end Traffic

end Komari
