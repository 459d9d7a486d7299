import Komari.Traffic.Directions

/-!
# Calibration of the billable total

`CalibrateBillableCycle` stores, besides the deltas of the days, the offset between the wanted total and
the measured one.  While it is the latest calibration of its cycle, the effective total is the measured
total plus that offset, whatever is measured later.

* `calibrateBillableCycle_offset` : **a billable calibration stays an offset.**
-/

namespace Komari

namespace Traffic

open TrafficReset Calendar

/-! ### The latest calibration -/

theorem getLast?_dedup {α : Type*} [DecidableEq α] (l : List α) : l.dedup.getLast? = l.getLast? := by
  induction l with
  | nil => rfl
  | cons a l ih =>
    by_cases ha : a ∈ l
    · rw [List.dedup_cons_of_mem ha, ih, List.getLast?_cons_of_ne_nil (List.ne_nil_of_mem ha)]
    · rw [List.dedup_cons_of_notMem ha, List.getLast?_cons, List.getLast?_cons, ih]

/-- The history starts with the calibration that wrote last, if none is dated later. -/
theorem head_loadCalibrationHistory {tables : CalibrationTables} {uuid cycle : String}
    {old new : List Adjustment} {key : CalibrationKey}
    (hrows : cycleAdjustments tables uuid cycle = old ++ new) (hne : new ≠ [])
    (hkey : ∀ row ∈ new, row.toCalibrationKey = key)
    (hold : ∀ row ∈ old, row.createdAt ≤ key.createdAt) :
    ∃ adjustment rest, loadCalibrationHistory tables uuid cycle = ⟨key, adjustment⟩ :: rest := by
  unfold loadCalibrationHistory
  rw [hrows]
  set keys := (old ++ new).map Adjustment.toCalibrationKey with hkeys
  have hhead : keys.dedup.reverse.head? = some key := by
    rw [List.head?_reverse, getLast?_dedup, hkeys, List.map_append, List.getLast?_append,
      List.getLast?_map, List.getLast?_eq_some_getLast hne]
    simp [hkey _ (List.getLast_mem hne)]
  have hle : ∀ key' ∈ keys, key'.createdAt ≤ key.createdAt := by
    intro key' hmem
    obtain ⟨row, hrow, rfl⟩ := List.mem_map.mp hmem
    rcases List.mem_append.mp hrow with hrow | hrow
    · exact hold row hrow
    · rw [hkey row hrow]
  cases hcases : keys.dedup.reverse with
  | nil => simp [hcases] at hhead
  | cons first others =>
    obtain rfl : first = key := by simpa [hcases] using hhead
    have hothers : ∀ key' ∈ others, key'.createdAt ≤ first.createdAt := by
      intro key' hmem
      refine hle key' (List.mem_dedup.mp (List.mem_reverse.mp ?_))
      rw [hcases]
      exact List.mem_cons_of_mem _ hmem
    dsimp only
    rw [← hkeys, hcases, List.insertionSort_cons_of_forall_rel
      (fun k k' : CalibrationKey => k'.createdAt ≤ k.createdAt) hothers]
    exact ⟨_, _, rfl⟩

/-! ### A governing offset -/

theorem within_billable {u : Usage} (h : u.Within maxInt64) (kind : String) :
    Countable64 (u.billable kind) := by
  obtain ⟨⟨hup, hupMax⟩, hdown, hdownMax⟩ := h
  have hmax := maxInt64_nonneg
  unfold Usage.billable billableUsage Countable64
  split
  · exact ⟨hup, hupMax⟩
  · exact ⟨hdown, hdownMax⟩
  · rw [saturatingAdd_eq_min hup hupMax hdown]
    omega
  · split_ifs <;> omega
  · split_ifs <;> omega

/-- Directions that are found for a total stay within 64 bits. -/
theorem within_calibrationTargetsForTotal {kind : String} {current result : Usage} {target : ℤ}
    (hcurrent : current.Within maxInt64) (htarget : target ≤ maxInt64)
    (h : calibrationTargetsForTotal kind current target = .ok result) :
    result.Within maxInt64 := by
  obtain ⟨⟨hup, hupMax⟩, hdown, hdownMax⟩ := hcurrent
  have hmax := maxInt64_nonneg
  unfold calibrationTargetsForTotal at h
  by_cases hneg : target < 0 ∨ current.up < 0 ∨ current.down < 0
  · rw [if_pos hneg] at h
    cases h
  rw [if_neg hneg] at h
  have hpos : 0 ≤ target := by omega
  split at h
  · dsimp only at h
    split_ifs at h with hsum
    · obtain rfl := Except.ok.inj h
      exact ⟨⟨hpos, htarget⟩, le_rfl, hmax⟩
    · obtain ⟨hlow, hhigh⟩ := proportion_bounds hup hdown hsum hpos
      obtain rfl := Except.ok.inj h
      exact ⟨⟨hlow, hhigh.trans htarget⟩, sub_nonneg.mpr hhigh, by dsimp only; omega⟩
  · obtain rfl := Except.ok.inj h
    exact ⟨⟨hpos, htarget⟩, hdown, hdownMax⟩
  · obtain rfl := Except.ok.inj h
    exact ⟨⟨hup, hupMax⟩, hpos, htarget⟩
  · split_ifs at h <;> obtain rfl := Except.ok.inj h <;> refine ⟨⟨?_, ?_⟩, ?_, ?_⟩ <;> dsimp only <;>
      omega
  · split_ifs at h <;> obtain rfl := Except.ok.inj h <;> refine ⟨⟨?_, ?_⟩, ?_, ?_⟩ <;> dsimp only <;>
      omega
  · cases h

theorem addSignedNonNegative_within {value delta : ℤ} (hvalue : Countable64 value)
    (hdelta : |delta| ≤ maxInt64) : Countable64 (addSignedNonNegative value delta) := by
  rw [addSignedNonNegative_eq hvalue hdelta]
  exact ⟨le_min maxInt64_nonneg (due_nonneg _ _), min_le_left _ _⟩

theorem drop_total {kind : String} (h : kind ∈ countingTypes) :
    String.ofList (("total:" ++ kind).toList.drop 6) = kind ∧
      "total:".isPrefixOf ("total:" ++ kind) = true := by
  revert kind
  decide +kernel

theorem applyTotal_head {client : Client} (snapshot : CalibrationSnapshot) {kind : String}
    {offset : ℤ} (key : CalibrationKey) {adjustment : SignedUsage} {rest : List CalibrationHistory}
    (hkind : kind = normalizedCountingType client.trafficLimitType)
    (hmode : key.mode = "total:" ++ kind) (hoffset : key.billableOffset = some offset)
    (hhistory : snapshot.history = ⟨key, adjustment⟩ :: rest)
    (hraw : snapshot.raw.Within maxInt64) (heff : snapshot.effective.Within maxInt64)
    (habs : |offset| ≤ maxInt64) :
    ∃ result, snapshot.applyTotal client = .ok result ∧ result.raw = snapshot.raw ∧
      result.effective.billable kind =
        min maxInt64 (max 0 (snapshot.raw.billable kind + offset)) := by
  obtain ⟨id, mode, billableOffset, targetTotal, target, operator, createdAt⟩ := key
  obtain rfl : mode = "total:" ++ kind := hmode
  obtain rfl : billableOffset = some offset := hoffset
  have hmem : kind ∈ countingTypes := hkind ▸ normalizedCountingType_mem _
  obtain ⟨hdrop, hpre⟩ := drop_total hmem
  have hbillable := within_billable hraw kind
  have hwithin := addSignedNonNegative_within hbillable habs
  obtain ⟨effective, htargets, -, -, htotal⟩ :=
    billableUsage_calibrationTargetsForTotal hmem heff.1.1 heff.2.1 hwithin.1 hwithin.2
  unfold CalibrationSnapshot.applyTotal
  rw [hhistory]
  simp only [hpre, if_true, hdrop, ← hkind, ne_eq, not_true_eq_false, if_false, htargets]
  refine ⟨_, rfl, rfl, ?_⟩
  rw [htotal, addSignedNonNegative_eq hbillable habs]
  rfl

theorem saturatingAdd_le (left right : ℤ) : saturatingAdd left right ≤ maxInt64 := by
  unfold saturatingAdd
  split_ifs
  · exact le_refl maxInt64
  · exact (inInt64_int64 (left + right)).2

theorem addSignedNonNegative_le (value delta : ℤ) :
    addSignedNonNegative value delta ≤ maxInt64 := by
  unfold addSignedNonNegative
  split_ifs
  · exact saturatingAdd_le value delta
  · exact maxInt64_nonneg
  · exact (inInt64_int64 (value + delta)).2

/-- The effective usage of a snapshot stays within 64 bits. -/
theorem within_applyTotal {client : Client} {snapshot result : CalibrationSnapshot}
    (hraw : snapshot.raw.Within maxInt64) (heff : snapshot.effective.Within maxInt64)
    (h : snapshot.applyTotal client = .ok result) :
    result.raw = snapshot.raw ∧ result.effective.Within maxInt64 := by
  unfold CalibrationSnapshot.applyTotal at h
  split at h
  next mode offset _ _ _ _ _ _ _ =>
    by_cases hpre : "total:".isPrefixOf mode = true
    · rw [if_pos hpre] at h
      by_cases hkind : String.ofList (mode.toList.drop 6) ≠
          normalizedCountingType client.trafficLimitType
      · rw [if_pos hkind] at h
        obtain rfl := Except.ok.inj h
        exact ⟨rfl, hraw⟩
      · rw [if_neg hkind] at h
        dsimp only at h
        split at h
        · cases h
        next effective heffective =>
          obtain rfl := Except.ok.inj h
          exact ⟨rfl, within_calibrationTargetsForTotal heff (addSignedNonNegative_le _ _)
            heffective⟩
    · rw [if_neg hpre] at h
      obtain rfl := Except.ok.inj h
      exact ⟨rfl, heff⟩
  next =>
    obtain rfl := Except.ok.inj h
    exact ⟨rfl, heff⟩

section Load

variable [TimezoneDatabase] {client : Client} {now : ℤ} {tables : CalibrationTables}

theorem within_raw {readings : Readings} (hraw : readings.Within maxInt64) :
    (summedSnapshot client now tables readings).raw.Within maxInt64 := by
  have hdays := raw_measuredDays maxInt64_nonneg ((clientSchedule client).last now)
    (beijingDay now) hraw
  have h : ∀ dir, 0 ≤ (summedSnapshot client now tables readings).raw.on dir ∧
      (summedSnapshot client now tables readings).raw.on dir ≤ maxInt64 := by
    intro dir
    have hnonneg : ∀ y ∈ ((currentDays client now readings).map
        (CalibrationDay.applyDeltas (currentAdjustments client now tables))).map
          fun d => d.raw.on dir, 0 ≤ y := by
      intro y hy
      obtain ⟨d', hd', rfl⟩ := List.mem_map.mp hy
      obtain ⟨d, hd, rfl⟩ := List.mem_map.mp hd'
      exact ((hdays d hd).on dir).1
    have hzero : (emptySnapshot client now readings).raw.on dir = min maxInt64 0 := by
      rw [min_eq_right maxInt64_nonneg]
      cases dir <;> rfl
    rw [summedSnapshot, on_raw_addDays, hzero, foldl_saturatingAdd le_rfl _ hnonneg, zero_add]
    exact ⟨le_min maxInt64_nonneg (List.sum_nonneg hnonneg), min_le_left _ _⟩
  exact ⟨h .up, h .down⟩

theorem within_loadCalibrationSnapshot (hrows : Balanced (currentAdjustments client now tables))
    {reads : Reads} (hreads : ∀ readings, reads.days = .ok readings → readings.Within maxInt64)
    {snapshot : CalibrationSnapshot}
    (h : loadCalibrationSnapshot tables client now reads = .ok snapshot) :
    snapshot.raw.Within maxInt64 ∧ snapshot.effective.Within maxInt64 := by
  obtain ⟨days, history⟩ := reads
  cases hactive : (clientSchedule client).active with
  | false =>
    simp [loadCalibrationSnapshot, loadCalibrationDays, currentTrafficCycleFor, hactive, bind,
      Except.bind] at h
  | true =>
    cases days with
    | error e =>
      obtain ⟨e', he'⟩ := exists_loadCalibrationSnapshot_error client now tables
        ⟨.error e, history⟩ (by simp)
      rw [he'] at h
      cases h
    | ok readings =>
      have hraw := hreads readings rfl
      rw [loadCalibrationSnapshot_eq hactive hrows] at h
      cases history with
      | error e => cases h
      | ok u =>
        simp only [bind, Except.bind] at h
        obtain ⟨heq, heff⟩ := within_applyTotal (by exact within_raw hraw)
          (by exact within_effective hrows hraw) h
        rw [heq]
        exact ⟨within_raw hraw, heff⟩

end Load

/-! ### Runs of calibrations -/

/-- A call of `CalibrateBillableCycle`. -/
structure TotalCall where
  client : Client
  target : ℤ
  operator : String
  now : ℤ
  first : Reads
  /-- What the database answers to the calibration. -/
  answers : Answers

/-- A calibration of either kind. -/
inductive CalibrationCall
  /-- `CalibrateCurrentCycle`. -/
  | directions (call : DirectionCall)
  /-- `CalibrateBillableCycle`. -/
  | total (call : TotalCall)

/-- The call, on the tables. -/
def TotalCall.apply [TimezoneDatabase] (call : TotalCall) (tables : CalibrationTables) :
    Except String CalibrationSnapshot × CalibrationTables :=
  calibrateBillableCycle call.client call.target call.operator call.now call.first call.answers
    tables

namespace CalibrationCall

/-- Whose it is. -/
def client : CalibrationCall → Client
  | directions call => call.client
  | total call => call.client

/-- When it was made. -/
def now : CalibrationCall → ℤ
  | directions call => call.now
  | total call => call.now

/-- The targets are 64-bit integers, and what is measured is not negative. -/
def Measured : CalibrationCall → Prop
  | directions call => (call.target.up ≤ maxInt64 ∧ call.target.down ≤ maxInt64) ∧
      ∀ readings, call.answers.reads.days = .ok readings → readings.Within maxInt64
  | total call => call.target ≤ maxInt64 ∧
      ∀ readings, call.first.days = .ok readings ∨ call.answers.reads.days = .ok readings →
        readings.Within maxInt64

variable [TimezoneDatabase]

/-- What a call leaves, also when it fails. -/
def step (tables : CalibrationTables) : CalibrationCall → CalibrationTables
  | directions call => (call.apply tables).2
  | total call => (call.apply tables).2

/-- The call is about this cycle. -/
def InCycle (uuid cycle : String) (call : CalibrationCall) : Prop :=
  call.client.uuid = uuid ∧ (clientSchedule call.client).cycleKey call.now = cycle

end CalibrationCall

section Steps

variable [TimezoneDatabase] {tables : CalibrationTables}

/-- The key of the rows of a billable calibration. -/
def TotalCall.key (call : TotalCall) (id : String) (before : CalibrationSnapshot) (values : Usage) :
    CalibrationKey :=
  let kind := normalizedCountingType call.client.trafficLimitType
  ⟨id, "total:" ++ kind, some (subInt64 call.target (before.raw.billable kind)), some call.target,
    values, call.operator, call.now⟩

/-- A billable calibration fails without a trace or writes its offset. -/
theorem TotalCall.apply_cases {call : TotalCall}
    (hrows : Balanced (currentAdjustments call.client call.now tables))
    (hmeasured : (CalibrationCall.total call).Measured) :
    (∃ e, call.apply tables = (.error e, tables)) ∨
      ∃ before values readings id up down,
        loadCalibrationSnapshot tables call.client call.now call.first = .ok before ∧
        before.raw.Within maxInt64 ∧ 0 ≤ call.target ∧ readings.Within maxInt64 ∧
        values.Within maxInt64 ∧
        Allocations call.client call.now tables readings values up down ∧
        (call.apply tables).2.adjustments = tables.adjustments ++
          writtenRows (call.key id before values) call.client call.now tables readings up down := by
  obtain ⟨htarget, hreads⟩ := hmeasured
  unfold TotalCall.apply calibrateBillableCycle
  cases hload : loadCalibrationSnapshot tables call.client call.now call.first with
  | error e => exact Or.inl ⟨e, rfl⟩
  | ok before =>
    obtain ⟨hraw, heff⟩ := within_loadCalibrationSnapshot hrows
      (fun readings h => hreads readings (Or.inl h)) hload
    dsimp only
    cases hvalues : calibrationTargetsForTotal
      (normalizedCountingType call.client.trafficLimitType) before.effective call.target with
    | error e => exact Or.inl ⟨e, rfl⟩
    | ok values =>
      have hwithin := within_calibrationTargetsForTotal heff htarget hvalues
      have hpos : 0 ≤ call.target := by
        by_contra hneg
        rw [calibrationTargetsForTotal, if_pos (by omega)] at hvalues
        cases hvalues
      dsimp only
      rcases calibrateCycle_cases hrows ⟨hwithin.1.2, hwithin.2.2⟩
        (fun readings h => hreads readings (Or.inr h)) call.operator
        ("total:" ++ normalizedCountingType call.client.trafficLimitType)
        (some (subInt64 call.target (before.raw.billable
          (normalizedCountingType call.client.trafficLimitType))))
        (some call.target) with ⟨e, he⟩ | ⟨snapshot, -, hnone⟩ |
          ⟨readings, id, up, down, hreadings, -, halloc, happend⟩
      · exact Or.inl ⟨e, he⟩
      · cases hnone
      · exact Or.inr ⟨before, values, readings, id, up, down, rfl, hraw, hpos, hreadings, hwithin,
          halloc, happend⟩

/-- What a calibration does to the rows of its cycle: it appends rows dated at its own instant. -/
structure Appends (old new : List Adjustment) (now : ℤ) : Prop where
  balanced : Balanced new
  rows : ∃ more : List Adjustment, new = old ++ more ∧ ∀ row ∈ more, row.createdAt = now

theorem appends_written {client : Client} {now : ℤ} {readings : Readings} {target : Usage}
    {up down : List (ℤ × ℤ)} {key : CalibrationKey} {tables' : CalibrationTables}
    (hrows : Balanced (currentAdjustments client now tables)) (hraw : readings.Within maxInt64)
    (htarget : target.Within maxInt64)
    (halloc : Allocations client now tables readings target up down) (hkey : key.createdAt = now)
    (happend : tables'.adjustments = tables.adjustments ++
      writtenRows key client now tables readings up down) :
    Appends (currentAdjustments client now tables) (currentAdjustments client now tables') now := by
  have heq : currentAdjustments client now tables' = currentAdjustments client now tables ++
      writtenRows key client now tables readings up down := by
    rw [← currentAdjustments_append _ _ _ tables.firstDays]
    unfold currentAdjustments cycleAdjustments
    rw [happend]
  refine ⟨?_, _, heq, fun row hrow => ?_⟩
  · rw [heq]
    exact balanced_append hrows hraw htarget halloc key
  · rw [(mem_calibrationRows hrow).1, hkey]

theorem CalibrationCall.appends_step {uuid cycle : String} {call : CalibrationCall}
    (hcycle : call.InCycle uuid cycle) (hmeasured : call.Measured)
    (hrows : Balanced (cycleAdjustments tables uuid cycle)) :
    Appends (cycleAdjustments tables uuid cycle)
      (cycleAdjustments (CalibrationCall.step tables call) uuid cycle) call.now := by
  obtain ⟨rfl, rfl⟩ := hcycle
  have hsame : Appends (cycleAdjustments tables call.client.uuid
        ((clientSchedule call.client).cycleKey call.now))
      (cycleAdjustments tables call.client.uuid
        ((clientSchedule call.client).cycleKey call.now)) call.now :=
    ⟨hrows, [], (List.append_nil _).symm, by simp⟩
  cases call with
  | directions call =>
    rcases calibrateCycle_cases hrows hmeasured.1 hmeasured.2 call.operator "directions" none none
      with ⟨e, he⟩ | ⟨snapshot, hnone, -⟩ | ⟨readings, id, up, down, hraw, htarget, halloc, happend⟩
    · have hstep : CalibrationCall.step tables (.directions call) = tables := congrArg Prod.snd he
      rw [hstep]
      exact hsame
    · have hstep : CalibrationCall.step tables (.directions call) = tables :=
        congrArg Prod.snd hnone
      rw [hstep]
      exact hsame
    · exact appends_written hrows hraw htarget halloc rfl happend
  | total call =>
    rcases TotalCall.apply_cases hrows hmeasured with ⟨e, he⟩ |
      ⟨before, values, readings, id, up, down, -, -, -, hraw, htarget, halloc, happend⟩
    · have hstep : CalibrationCall.step tables (.total call) = tables := congrArg Prod.snd he
      rw [hstep]
      exact hsame
    · exact appends_written hrows hraw htarget halloc rfl happend

/-- The rows of a cycle after a run of calibrations: their sums fit, and each is dated at one of the
calls. -/
theorem rows_of_run {uuid cycle : String} {calls : List CalibrationCall}
    (hcycle : ∀ c ∈ calls, c.InCycle uuid cycle) (hmeasured : ∀ c ∈ calls, c.Measured)
    (hrows : Balanced (cycleAdjustments tables uuid cycle)) :
    Balanced (cycleAdjustments (calls.foldl CalibrationCall.step tables) uuid cycle) ∧
      ∀ row ∈ cycleAdjustments (calls.foldl CalibrationCall.step tables) uuid cycle,
        row ∈ cycleAdjustments tables uuid cycle ∨ ∃ c ∈ calls, row.createdAt = c.now := by
  induction calls generalizing tables with
  | nil => exact ⟨hrows, fun row hrow => Or.inl hrow⟩
  | cons c calls ih =>
    obtain ⟨hc, hcycle⟩ := List.forall_mem_cons.mp hcycle
    obtain ⟨hm, hmeasured⟩ := List.forall_mem_cons.mp hmeasured
    obtain ⟨hbalanced, more, hmore, hdated⟩ := CalibrationCall.appends_step hc hm hrows
    obtain ⟨hlast, hrest⟩ := ih hcycle hmeasured hbalanced
    refine ⟨hlast, fun row hrow => ?_⟩
    rcases hrest row hrow with hold | ⟨c', hc', hnow⟩
    · rw [hmore] at hold
      rcases List.mem_append.mp hold with hold | hnew
      · exact Or.inl hold
      · exact Or.inr ⟨c, List.mem_cons_self, hdated row hnew⟩
    · exact Or.inr ⟨c', List.mem_cons_of_mem _ hc', hnow⟩

end Steps

/-- **Billable calibration is exact and stays an offset.**  Directions are found for every total.  After
any calibrations of a cycle and then a billable one that succeeds and is not dated before any of them, the
effective total of a later snapshot is the measured total plus the offset, cut to the non-negative 64-bit
integers; it is the target while the measured usage is unchanged. -/
theorem calibrateBillableCycle_offset [TimezoneDatabase] :
    (∀ kind ∈ countingTypes, ∀ (current : Usage) (target : ℤ), current.Within (2 ^ 62 - 1) →
      0 ≤ target → target < 2 ^ 62 →
      ∃ result, calibrationTargetsForTotal kind current target = .ok result ∧ 0 ≤ result.up ∧
        0 ≤ result.down ∧ result.billable kind = target) ∧
    ∀ (tables : CalibrationTables) (calls : List CalibrationCall) (call : TotalCall)
      (client : Client) (now : ℤ) (readings : Readings),
      let cycle := (clientSchedule call.client).cycleKey call.now
      let kind := normalizedCountingType call.client.trafficLimitType
      let before := calls.foldl CalibrationCall.step tables
      cycleAdjustments tables call.client.uuid cycle = [] →
      (∀ c ∈ calls, c.InCycle call.client.uuid cycle) → (∀ c ∈ calls, c.Measured) →
      (∀ c ∈ calls, c.now ≤ call.now) → (CalibrationCall.total call).Measured →
      (call.apply before).1.isOk = true →
      client.uuid = call.client.uuid → (clientSchedule client).active = true →
      (clientSchedule client).cycleKey now = cycle →
      normalizedCountingType client.trafficLimitType = kind → readings.Within maxInt64 →
      ∃ atCalibration later,
        loadCalibrationSnapshot before call.client call.now call.first = .ok atCalibration ∧
        loadCalibrationSnapshot (call.apply before).2 client now ⟨.ok readings, .ok ()⟩ =
          .ok later ∧
        later.effective.billable kind = min maxInt64 (max 0
          (later.raw.billable kind + call.target - atCalibration.raw.billable kind)) ∧
        (later.raw = atCalibration.raw → later.effective.billable kind = call.target) := by
  refine ⟨fun kind hkind current target hcurrent hpos hlt => ?_, ?_⟩
  · refine billableUsage_calibrationTargetsForTotal hkind hcurrent.1.1 hcurrent.2.1 hpos ?_
    unfold maxInt64
    omega
  · intro tables calls call client now readings cycle kind before hfresh hcycle hmeasured hordered
      hcall hok huuid hactive hkey hkind hraw
    have hstart : Balanced (cycleAdjustments tables call.client.uuid cycle) := by
      intro day dir
      rw [hfresh, on_dayDeltas]
      exact maxInt64_nonneg
    obtain ⟨hrows, hdated⟩ := rows_of_run hcycle hmeasured hstart
    rcases TotalCall.apply_cases hrows hcall with ⟨e, he⟩ |
      ⟨atCalibration, values, readings', id, up, down, hload, hbefore, hpos, hreadings, htarget,
        halloc, happend⟩
    · rw [he] at hok
      cases hok
    · set tables' := (call.apply before).2 with htables'
      set written := writtenRows (call.key id atCalibration values) call.client call.now before
        readings' up down with hwritten
      have hrows' : cycleAdjustments tables' client.uuid ((clientSchedule client).cycleKey now) =
          cycleAdjustments before call.client.uuid cycle ++ written := by
        rw [huuid, hkey]
        have h := currentAdjustments_append call.client call.now before before.firstDays
          (call.key id atCalibration values) readings' up down
        unfold currentAdjustments cycleAdjustments at h
        unfold cycleAdjustments
        rw [happend]
        exact h
      have hbalanced : Balanced (currentAdjustments client now tables') := by
        unfold currentAdjustments
        rw [hrows']
        exact balanced_append hrows hreadings htarget halloc _
      obtain ⟨adjustment, rest, hhistory⟩ := head_loadCalibrationHistory hrows'
        (writtenRows_ne_nil _ _ _ _ _ _ _) (fun row hrow => (mem_calibrationRows hrow).1) (by
          intro row hrow
          rcases hdated row hrow with hmem | ⟨c, hc, hnow⟩
          · rw [hfresh] at hmem
            cases hmem
          · rw [hnow]
            exact hordered c hc)
      have htotal := within_billable hbefore kind
      have hmax := hcall.1
      have hoffset : subInt64 call.target (atCalibration.raw.billable kind) =
          call.target - atCalibration.raw.billable kind := by
        obtain ⟨hlow, hhigh⟩ := htotal
        refine int64_of_abs_le ?_
        rw [abs_le]
        omega
      obtain ⟨later, hlater, hraw', heff⟩ := applyTotal_head
        { summedSnapshot client now tables' readings with
          history := loadCalibrationHistory tables' client.uuid
            ((clientSchedule client).cycleKey now) } (call.key id atCalibration values)
        hkind.symm rfl rfl hhistory (by exact within_raw hraw)
        (by exact within_effective hbalanced hraw) (by
          obtain ⟨hlow, hhigh⟩ := htotal
          rw [hoffset, abs_le]
          omega)
      rw [hoffset] at heff
      refine ⟨atCalibration, later, hload, ?_, ?_, ?_⟩
      · rw [loadCalibrationSnapshot_eq hactive hbalanced]
        exact hlater
      · rw [heff, hraw', add_sub_assoc]
      · intro hsame
        rw [heff, ← hraw', hsame]
        omega

/-- What a call reads within the first day of the cycle of `noonClient`. -/
def noonReads (current : Usage) : Reads := ⟨.ok ⟨fun _ => none, none, current⟩, .ok ()⟩

/-- A billable call of `noonClient`. -/
def noonTotal (seconds target : ℤ) (current : Usage) : TotalCall :=
  { client := noonClient, target := target, operator := "admin", now := instantAt seconds,
    first := noonReads current,
    answers := ⟨noonReads current, .ok "fedcba9876543210", .ok (), noonReads current⟩ }

theorem calibrateBillableCycle_offset_noon :
    ∃ later, @loadCalibrationSnapshot noTimezones
        (@TotalCall.apply noTimezones (noonTotal 50000 500 ⟨120, 30⟩)
          ([.directions (noonCall 46800 ⟨0, 0⟩ ⟨100, 0⟩)].foldl
            (@CalibrationCall.step noTimezones) ⟨[], ∅⟩)).2
        noonClient (instantAt 60000) (noonReads ⟨200, 40⟩) = .ok later ∧
      later.effective.billable "max" = 580 := by
  obtain ⟨atCalibration, later, hload, hlater, heff, -⟩ :=
    (@calibrateBillableCycle_offset noTimezones).2 ⟨[], ∅⟩
      [.directions (noonCall 46800 ⟨0, 0⟩ ⟨100, 0⟩)] (noonTotal 50000 500 ⟨120, 30⟩) noonClient
      (instantAt 60000) ⟨fun _ => none, none, ⟨200, 40⟩⟩ rfl
      (by rintro c hc; rw [List.mem_singleton.mp hc]; exact ⟨rfl, by decide +kernel⟩)
      (by
        rintro c hc
        rw [List.mem_singleton.mp hc]
        refine ⟨by decide, ?_⟩
        rintro readings ⟨⟩
        exact ⟨by simp, by simp, by decide⟩)
      (by rintro c hc; rw [List.mem_singleton.mp hc]; decide)
      (by
        refine ⟨by decide, ?_⟩
        rintro readings (⟨⟨⟩⟩ | ⟨⟨⟩⟩) <;> exact ⟨by simp, by simp, by decide⟩)
      (by decide +kernel) rfl (by decide +kernel) (by decide +kernel) rfl
      ⟨by simp, by simp, by decide⟩
  have hraw : (@loadCalibrationSnapshot noTimezones
      (@TotalCall.apply noTimezones (noonTotal 50000 500 ⟨120, 30⟩)
        ([.directions (noonCall 46800 ⟨0, 0⟩ ⟨100, 0⟩)].foldl
          (@CalibrationCall.step noTimezones) ⟨[], ∅⟩)).2
      noonClient (instantAt 60000) (noonReads ⟨200, 40⟩)).toOption.map CalibrationSnapshot.raw =
        some ⟨200, 40⟩ := by decide +kernel
  have hbefore : (@loadCalibrationSnapshot noTimezones
      ([.directions (noonCall 46800 ⟨0, 0⟩ ⟨100, 0⟩)].foldl
        (@CalibrationCall.step noTimezones) ⟨[], ∅⟩)
      noonClient (instantAt 50000) (noonReads ⟨120, 30⟩)).toOption.map CalibrationSnapshot.raw =
        some ⟨120, 30⟩ := by decide +kernel
  have hkind : normalizedCountingType (noonTotal 50000 500 ⟨120, 30⟩).client.trafficLimitType =
      "max" := by decide +kernel
  have hlater' : later.raw = ⟨200, 40⟩ := by
    have h := congrArg (fun r : Except String CalibrationSnapshot =>
      r.toOption.map CalibrationSnapshot.raw) hlater
    exact (Option.some.inj (hraw.symm.trans h)).symm
  have hload' : atCalibration.raw = ⟨120, 30⟩ := by
    have h := congrArg (fun r : Except String CalibrationSnapshot =>
      r.toOption.map CalibrationSnapshot.raw) hload
    exact (Option.some.inj (hbefore.symm.trans h)).symm
  refine ⟨later, hlater, ?_⟩
  rw [hkind, hlater', hload'] at heff
  rw [heff]
  decide +kernel

/-- The offset is cut at the largest 64-bit integer; and a calibration that is dated later governs,
though it was made before: the total is 710 instead of 300 + 500 - 100. -/
theorem billable_offset_limits :
    (((@loadCalibrationSnapshot noTimezones
        (@TotalCall.apply noTimezones (noonTotal 50000 (2 ^ 62 - 1) ⟨0, 0⟩) ⟨[], ∅⟩).2
        noonClient (instantAt 60000) (noonReads ⟨2 ^ 63 - 1, 0⟩)).toOption.map
          fun snapshot => snapshot.effective.billable "max") = some (2 ^ 63 - 1)) ∧
      (2 ^ 63 - 1 : ℤ) ≠ max 0 ((2 ^ 63 - 1) + (2 ^ 62 - 1) - 0) ∧
      ((@loadCalibrationSnapshot noTimezones
        (@TotalCall.apply noTimezones (noonTotal 46800 500 ⟨100, 90⟩)
          ([.directions (noonCall 50000 ⟨30, 0⟩ ⟨100, 0⟩)].foldl
            (@CalibrationCall.step noTimezones) ⟨[], ∅⟩)).2
        noonClient (instantAt 60000) (noonReads ⟨100, 300⟩)).toOption.map
          fun snapshot => snapshot.effective.billable "max") = some 710 ∧
      (710 : ℤ) ≠ max 0 (300 + 500 - 100) := by
  decide +kernel

end Traffic

end Komari
