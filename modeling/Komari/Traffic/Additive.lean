import Mathlib.Algebra.BigOperators.Group.List.Basic
import Mathlib.Data.List.Perm.Subperm
import Komari.Traffic.Ledger

/-!
# Settled days add up

Each settlement scans its own range, so a scan that starts or ends between a counter drop and its
recovery takes the dropped value for a new epoch, while a scan over both keeps the glitch out.
Apart from that the schedule of the settlements does not matter:

* `sumRange_run` : **rows add up**: the rows of a range sum to the traffic of the range, whatever
  the schedule was.
* `sumRange_run_ne` : a drop shortly before midnight that recovers shortly after it is counted
  differently when the days are settled one by one.
-/

namespace Komari

namespace Traffic

/-! ### Scans and their slices -/

/-- The records with `start ≤ time < stop`. -/
def recordsBetween (records : List DeltaRecord) (start stop : ℤ) : List DeltaRecord :=
  records.filter fun r => decide (start ≤ r.time ∧ r.time < stop)

/-- The totals that a scan starting at `start` has as its baseline. -/
def totalsBefore (records : List DeltaRecord) (start : ℤ) : Option (ℤ × ℤ) :=
  (getLatestTrafficBefore records start).map DeltaRecord.totals

/-- The deltas of a scan of `[start, stop)`. -/
def scan (records : List DeltaRecord) (start stop : ℤ) : List (DeltaRecord × Usage) :=
  deltaItems (totalsBefore records start) (recordsBetween records start stop)

/-- In a scan of `[lo, hi)`, no counter drop before `t` is recovered at or after `t`. -/
def SettledAt (records : List DeltaRecord) (lo hi t : ℤ) : Prop :=
  settled (totalsBefore records lo) (recordsBetween records lo t) (recordsBetween records t hi)
    = true

instance (records : List DeltaRecord) (lo hi t : ℤ) : Decidable (SettledAt records lo hi t) :=
  inferInstanceAs (Decidable (_ = true))

/-- What the items of a scan add up to on one day. -/
def dayUsage (items : List (DeltaRecord × Usage)) (day : ℤ) : Usage :=
  sumUsages ((items.filter fun item => decide (beijingDay item.1.time = day)).map Prod.snd)

theorem dayStart_le_iff (day t : ℤ) : dayStart day ≤ t ↔ day ≤ beijingDay t := by
  unfold dayStart beijingDay nanosPerDay beijingOffset
  omega

theorem lt_dayStart_iff (day t : ℤ) : t < dayStart day ↔ beijingDay t < day := by
  rw [← not_le, dayStart_le_iff, not_le]

theorem dayStart_mono {d d' : ℤ} (h : d ≤ d') : dayStart d ≤ dayStart d' := by
  unfold dayStart nanosPerDay
  omega

theorem beijingDay_dayStart (day : ℤ) : beijingDay (dayStart day) = day := by
  unfold dayStart beijingDay nanosPerDay beijingOffset
  omega

theorem trafficRecordsByTime_eq (records : List DeltaRecord) (start stop : ℤ) :
    trafficRecordsByTime records start (stop - 1) = recordsBetween records start stop := by
  refine List.filter_congr fun r _ => ?_
  rw [decide_eq_decide, Int.le_sub_one_iff]

theorem totalsBefore_eq (records : List DeltaRecord) (t : ℤ) :
    totalsBefore records t =
      ((records.filter fun r => decide (r.time < t)).getLast?).map DeltaRecord.totals := by
  rw [totalsBefore, getLatestTrafficBefore, Option.map_map]
  rfl

theorem lastTotals_eq (previous : Option (ℤ × ℤ)) (records : List DeltaRecord) :
    lastTotals previous records = (records.getLast?.map DeltaRecord.totals).or previous := by
  induction records generalizing previous with
  | nil => rfl
  | cons r rest ih =>
    rw [lastTotals_cons, ih, List.getLast?_cons]
    cases rest.getLast? <;> rfl

section Sorted

variable {records : List DeltaRecord} (hsorted : records.Pairwise fun r s => r.time ≤ s.time)

include hsorted

/-- In a sorted list, the records below a bound come before those from that bound on. -/
theorem filter_append_filter (p : ℤ → Bool) (q : ℤ → Bool) (mid : ℤ)
    (hp : ∀ t, p t = true → t < mid) (hq : ∀ t, q t = true → mid ≤ t) :
    (records.filter fun r => p r.time || q r.time) =
      (records.filter fun r => p r.time) ++ records.filter fun r => q r.time := by
  induction records with
  | nil => rfl
  | cons r rest ih =>
    obtain ⟨hr, hsorted⟩ := List.pairwise_cons.mp hsorted
    have ih := ih hsorted
    cases hpr : p r.time with
    | true =>
      have hqr : q r.time = false := by
        by_contra hne
        have h₁ := hp _ hpr
        have h₂ := hq _ (by simpa using hne)
        omega
      simp [hpr, hqr, ih]
    | false =>
      cases hqr : q r.time with
      | false => simp [hpr, hqr, ih]
      | true =>
        -- every later record is beyond `mid` as well, so the first part is empty
        have hnil : (rest.filter fun r => p r.time) = [] := by
          rw [List.filter_eq_nil_iff]
          intro s hs hps
          have h₁ := hp _ hps
          have h₂ := hq _ hqr
          have h₃ := hr s hs
          omega
        rw [hnil, List.nil_append] at ih
        simp [hpr, hqr, ih, hnil]

theorem recordsBetween_append {a b c : ℤ} (hab : a ≤ b) (hbc : b ≤ c) :
    recordsBetween records a c = recordsBetween records a b ++ recordsBetween records b c := by
  have h := filter_append_filter hsorted (fun t => decide (a ≤ t ∧ t < b))
    (fun t => decide (b ≤ t ∧ t < c)) b (by simp) (by simp; omega)
  unfold recordsBetween
  rw [← h]
  refine List.filter_congr fun r _ => ?_
  rw [← Bool.decide_or, decide_eq_decide]
  omega

theorem totalsBefore_of_le {a b : ℤ} (hab : a ≤ b) :
    lastTotals (totalsBefore records a) (recordsBetween records a b) = totalsBefore records b := by
  have h := filter_append_filter hsorted (fun t => decide (t < a))
    (fun t => decide (a ≤ t ∧ t < b)) a (by simp) (by simp; omega)
  have hb : (records.filter fun r => decide (r.time < b)) =
      (records.filter fun r => decide (r.time < a)) ++ recordsBetween records a b := by
    rw [recordsBetween, ← h]
    refine List.filter_congr fun r _ => ?_
    rw [← Bool.decide_or, decide_eq_decide]
    omega
  rw [totalsBefore_eq, totalsBefore_eq, hb, List.getLast?_append, lastTotals_eq]
  cases (recordsBetween records a b).getLast? <;> rfl

end Sorted

theorem mem_of_mem_deltaItems {previous : Option (ℤ × ℤ)} {records : List DeltaRecord}
    {item : DeltaRecord × Usage} (h : item ∈ deltaItems previous records) : item.1 ∈ records :=
  (List.of_mem_zip h).1

theorem deltaItems_append {previous : Option (ℤ × ℤ)} {pre post : List DeltaRecord}
    (hset : settled previous pre post = true) :
    deltaItems previous (pre ++ post) =
      deltaItems previous pre ++ deltaItems (lastTotals previous pre) post := by
  unfold deltaItems
  rw [trafficDeltasByRecord_append (Or.inl rfl) hset, trafficDeltasByRecord_append (Or.inr rfl) hset,
    List.zip_append (by simp [length_trafficDeltasByRecord]), List.map_append,
    List.zip_append (by simp [length_trafficDeltasByRecord])]

/-- **Slices of a scan.**  A scan of `[a, b)` gives its records the deltas that a longer scan
`[lo, hi)` gives them, if no drop is recovered across `a` or `b`. -/
theorem scan_slice {records : List DeltaRecord}
    (hsorted : records.Pairwise fun r s => r.time ≤ s.time) {lo a b hi : ℤ} (hlo : lo ≤ a)
    (hab : a ≤ b) (hhi : b ≤ hi) (ha : SettledAt records lo hi a) (hb : SettledAt records lo hi b) :
    ∃ post, scan records lo hi = scan records lo a ++ (scan records a b ++ post) ∧
      ∀ item ∈ post, b ≤ item.1.time := by
  have htail : settled (totalsBefore records a) (recordsBetween records a b)
      (recordsBetween records b hi) = true := by
    unfold SettledAt at hb
    rw [recordsBetween_append hsorted hlo hab] at hb
    have h := settled_drop hb
    rwa [totalsBefore_of_le hsorted hlo] at h
  refine ⟨deltaItems (totalsBefore records b) (recordsBetween records b hi), ?_, ?_⟩
  · unfold scan
    rw [recordsBetween_append hsorted hlo (hab.trans hhi), deltaItems_append ha,
      totalsBefore_of_le hsorted hlo, recordsBetween_append hsorted hab hhi,
      deltaItems_append htail, totalsBefore_of_le hsorted hab]
  · intro item hitem
    have h := List.of_mem_filter (mem_of_mem_deltaItems hitem)
    simp only [decide_eq_true_eq] at h
    exact h.1

/-! ### The usage of a day -/

theorem sumUsages_eq (l : List Usage) :
    sumUsages l = ⟨sumInt64 (l.map Usage.up), sumInt64 (l.map Usage.down)⟩ := by
  suffices h : ∀ u : Usage, l.foldl Usage.add u =
      ⟨(l.map Usage.up).foldl addInt64 u.up, (l.map Usage.down).foldl addInt64 u.down⟩ from h ⟨0, 0⟩
  induction l with
  | nil => intro u; rfl
  | cons v l ih => intro u; rw [List.foldl_cons, ih]; rfl

/-- Adding up items day by day, starting from `f`, leaves each day of the range with what the items
of that day add to it. -/
theorem foldl_addToDay (items : List (DeltaRecord × Usage)) (days : List ℤ) (f : ℤ → Usage) :
    items.foldl addToDay (days.map fun day => (day, f day)) =
      days.map fun day => (day, ((items.filter fun item =>
        decide (beijingDay item.1.time = day)).map Prod.snd).foldl Usage.add (f day)) := by
  induction items generalizing f with
  | nil => rfl
  | cons item items ih =>
    have hstep : addToDay (days.map fun day => (day, f day)) item =
        days.map fun day => (day, if day = beijingDay item.1.time then (f day).add item.2
          else f day) := by
      rw [addToDay, List.map_map]
      refine List.map_congr_left fun day _ => ?_
      simp only [Function.comp_apply]
      split_ifs <;> rfl
    rw [List.foldl_cons, hstep, ih]
    refine List.map_congr_left fun day _ => ?_
    by_cases hday : beijingDay item.1.time = day
    · simp [hday]
    · simp [hday, Ne.symm hday]

variable {day : ℤ}

theorem lookup_map_of_mem {β : Type*} {days : List ℤ} (g : ℤ → β) (h : day ∈ days) :
    (days.map fun d => (d, g d)).lookup day = some (g day) := by
  induction days with
  | nil => cases h
  | cons d days ih =>
    rw [List.map_cons, List.lookup_cons]
    by_cases hd : day = d
    · simp [hd]
    · have hmem : day ∈ days := by simpa [hd] using h
      rw [beq_false_of_ne hd]
      exact ih hmem

/-- `MetricUsagesByDay` gives every day of its range the sum of its items. -/
theorem lookup_metricUsagesByDay (records : List DeltaRecord) {start stop : ℤ}
    (hday : day ∈ Int.range start stop) :
    (metricUsagesByDay records start stop).lookup day =
      some (dayUsage (scan records (dayStart start) (dayStart stop)) day) := by
  rw [metricUsagesByDay, usagesByDayFromRecords, trafficRecordsByTime_eq, foldl_addToDay,
    lookup_map_of_mem _ hday]
  rfl

theorem beijingDay_of_mem_scan {records : List DeltaRecord} {start stop : ℤ}
    {item : DeltaRecord × Usage} (h : item ∈ scan records (dayStart start) (dayStart stop)) :
    start ≤ beijingDay item.1.time ∧ beijingDay item.1.time < stop := by
  have h := List.of_mem_filter (mem_of_mem_deltaItems h)
  simp only [decide_eq_true_eq] at h
  exact ⟨(dayStart_le_iff _ _).mp h.1, (lt_dayStart_iff _ _).mp h.2⟩

/-- A longer scan gives the days of `[a, b)` the same usages, if no drop is recovered across the
start of `a` or `b`. -/
theorem dayUsage_scan_eq {records : List DeltaRecord}
    (hsorted : records.Pairwise fun r s => r.time ≤ s.time) {lo a b hi : ℤ} (hlo : lo ≤ a)
    (hhi : b ≤ hi) (ha : SettledAt records (dayStart lo) (dayStart hi) (dayStart a))
    (hb : SettledAt records (dayStart lo) (dayStart hi) (dayStart b)) (hday : a ≤ day ∧ day < b) :
    dayUsage (scan records (dayStart lo) (dayStart hi)) day =
      dayUsage (scan records (dayStart a) (dayStart b)) day := by
  obtain ⟨post, hslice, hpost⟩ := scan_slice hsorted (dayStart_mono hlo)
    (dayStart_mono (hday.1.trans hday.2.le)) (dayStart_mono hhi) ha hb
  have hpre : ((scan records (dayStart lo) (dayStart a)).filter fun item =>
      decide (beijingDay item.1.time = day)) = [] := by
    rw [List.filter_eq_nil_iff]
    intro item hitem heq
    have h := beijingDay_of_mem_scan hitem
    simp only [decide_eq_true_eq] at heq
    omega
  have hpost : (post.filter fun item => decide (beijingDay item.1.time = day)) = [] := by
    rw [List.filter_eq_nil_iff]
    intro item hitem heq
    have h := (dayStart_le_iff _ _).mp (hpost item hitem)
    simp only [decide_eq_true_eq] at heq
    omega
  rw [dayUsage, hslice, List.filter_append, List.filter_append, hpre, hpost, List.nil_append,
    List.append_nil]
  rfl

/-! ### Runs of settlements -/

/-- The calls that settle days. -/
inductive LedgerOp
  /-- `EnsureRange(clientIDs, startDay, endDay)`. -/
  | ensure (clientIDs : List String) (startDay endDay : ℤ)
  /-- `Maintain(now)` with the clients and report targets it finds. -/
  | maintenance (allClients : List String) (reportTargets : List (String × ℕ)) (now : ℤ)
deriving DecidableEq

namespace LedgerOp

def apply (records : String → List DeltaRecord) (ledger : Ledger) : LedgerOp →
    Except LedgerError Ledger
  | ensure clientIDs startDay endDay => ensureRange records clientIDs startDay endDay ledger
  | maintenance allClients reportTargets now => maintain records allClients reportTargets now ledger

/-- The ledger after a settlement; one that fails leaves the ledger as it was. -/
def step (records : String → List DeltaRecord) (ledger : Ledger) (op : LedgerOp) : Ledger :=
  match op.apply records ledger with
  | .ok ledger => ledger
  | .error _ => ledger

/-- The clients that a settlement works on. -/
def clients : LedgerOp → List String
  | ensure clientIDs _ _ => settledClients clientIDs
  | maintenance allClients reportTargets _ =>
    settledClients (maintainedClients allClients reportTargets)

/-- The first day of the range that a settlement scans. -/
def firstDay : LedgerOp → ℤ
  | ensure _ startDay _ => beijingDay startDay
  | maintenance _ _ now => beijingDay now - (dashboardHistoryDays - 1)

/-- The day after the range that a settlement scans. -/
def stopDay : LedgerOp → ℤ
  | ensure _ _ endDay => beijingDay endDay
  | maintenance _ _ now => beijingDay now

/-- If the settlement has to write a row of `client` in the days `[start, stop)`, then no counter
drop is recovered across a boundary of its own range or of `[start, stop)`, in a scan of both
ranges. -/
def Uncut (records : String → List DeltaRecord) (client : String) (start stop : ℤ)
    (ledger : Ledger) (op : LedgerOp) : Prop :=
  client ∈ op.clients →
  (∃ day ∈ Int.range (max op.firstDay start) (min op.stopDay stop),
    ledger.find? (client, day) = none) →
  ∀ day ∈ [op.firstDay, op.stopDay, start, stop],
    SettledAt (records client) (dayStart (min op.firstDay start)) (dayStart (max op.stopDay stop))
      (dayStart day)

instance (records : String → List DeltaRecord) (client : String) (start stop : ℤ)
    (ledger : Ledger) (op : LedgerOp) : Decidable (op.Uncut records client start stop ledger) :=
  inferInstanceAs (Decidable (_ → _ → _))

end LedgerOp

/-- The ledger after a run of settlements. -/
def runLedger (records : String → List DeltaRecord) (ledger : Ledger) (ops : List LedgerOp) :
    Ledger :=
  ops.foldl (LedgerOp.step records) ledger

/-- Every settlement of the run is uncut in the ledger that it finds. -/
def UncutRun (records : String → List DeltaRecord) (client : String) (start stop : ℤ) :
    Ledger → List LedgerOp → Prop
  | _, [] => True
  | ledger, op :: ops =>
    op.Uncut records client start stop ledger ∧
      UncutRun records client start stop (op.step records ledger) ops

instance decidableUncutRun (records : String → List DeltaRecord) (client : String)
    (start stop : ℤ) : ∀ (ledger : Ledger) (ops : List LedgerOp),
      Decidable (UncutRun records client start stop ledger ops)
  | _, [] => isTrue trivial
  | ledger, op :: ops =>
    have := decidableUncutRun records client start stop (op.step records ledger) ops
    inferInstanceAs (Decidable (_ ∧ _))

theorem nodup_range (start stop : ℤ) : (Int.range start stop).Nodup := by
  refine List.Nodup.map_on (fun i _ j _ hij => ?_) List.nodup_range
  exact Int.ofNat.inj (add_left_cancel hij)

variable {records : String → List DeltaRecord} {ledger : Ledger} {client : String} {usage : Usage}

/-- What a settlement of the days `[start, stop)` leaves in a row: what was there, or the usage of
a day that had no row. -/
theorem find?_ensureClient {existing ledger' : Ledger} {start stop : ℤ} {clientID : String}
    (h : ensureClient records existing start stop ledger clientID = .ok ledger')
    (hrow : ledger'.find? (client, day) = some usage) :
    ledger.find? (client, day) = some usage ∨
      client = clientID ∧ start ≤ day ∧ day < stop ∧ existing.find? (client, day) = none ∧
        usage = dayUsage (scan (records client) (dayStart start) (dayStart stop)) day := by
  unfold ensureClient at h
  simp only at h
  split_ifs at h with hall
  · cases h
    exact Or.inl hrow
  · split at h
    · cases h
    · cases h
      set rows := ((Int.range start stop).filter fun day =>
        (existing.find? (clientID, day)).isNone).map fun day => ((clientID, day),
          ((metricUsagesByDay (records clientID) start stop).lookup day).getD ⟨0, 0⟩) with hrows
      have hnd : (rows.map Prod.fst).Nodup := by
        rw [hrows, List.map_map]
        refine List.Nodup.map_on (fun d _ e _ hde => ?_) ((nodup_range start stop).filter _)
        exact (Prod.mk.inj hde).2
      by_cases hmem : (client, day) ∈ rows.map Prod.fst
      · right
        obtain ⟨⟨key, value⟩, hrow', hkey⟩ := List.mem_map.mp hmem
        have hvalue : (ledger.upsertAll rows).find? key = some value :=
          Table.find?_upsertAll_of_mem hnd hrow'
        rw [show key = (client, day) from hkey, hrow] at hvalue
        rw [hrows] at hrow'
        obtain ⟨d, hd, heq⟩ := List.mem_map.mp hrow'
        obtain ⟨hd, hnone⟩ := List.mem_filter.mp hd
        obtain ⟨hk, hv⟩ := Prod.mk.inj heq
        obtain ⟨rfl, rfl⟩ := Prod.mk.inj (hk.trans hkey)
        obtain ⟨hstart, hstop⟩ := Int.mem_range_iff.mp hd
        refine ⟨rfl, hstart, hstop, by simpa using hnone, ?_⟩
        rw [Option.some.inj hvalue, ← hv, lookup_metricUsagesByDay _ hd, Option.getD_some]
      · left
        rwa [Table.find?_upsertAll_of_notMem hmem] at hrow

theorem find?_ensureClients {existing : Ledger}
    {start stop : ℤ} {clientIDs : List String} {ledger' : Ledger}
    (h : clientIDs.foldlM (ensureClient records existing start stop) ledger = .ok ledger')
        (hrow : ledger'.find? (client, day) = some usage) :
    ledger.find? (client, day) = some usage ∨
      client ∈ clientIDs ∧ start ≤ day ∧ day < stop ∧ existing.find? (client, day) = none ∧
        usage = dayUsage (scan (records client) (dayStart start) (dayStart stop)) day := by
  induction clientIDs generalizing ledger with
  | nil =>
    cases h
    exact Or.inl hrow
  | cons clientID clientIDs ih =>
    rw [List.foldlM_cons] at h
    cases hfirst : ensureClient records existing start stop ledger clientID with
    | error e =>
      rw [hfirst] at h
      cases h
    | ok mid =>
      rw [hfirst] at h
      rcases ih h with hmid | ⟨hmem, hrest⟩
      · rcases find?_ensureClient hfirst hmid with hold | ⟨rfl, hrest⟩
        · exact Or.inl hold
        · exact Or.inr ⟨List.mem_cons_self, hrest⟩
      · exact Or.inr ⟨List.mem_cons_of_mem _ hmem, hrest⟩

theorem find?_ensureRange {clientIDs : List String} {startDay endDay : ℤ} {ledger' : Ledger}
    (h : ensureRange records clientIDs startDay endDay ledger = .ok ledger')
    (hrow : ledger'.find? (client, day) = some usage) :
    ledger.find? (client, day) = some usage ∨
      client ∈ settledClients clientIDs ∧ beijingDay startDay ≤ day ∧ day < beijingDay endDay ∧
        ledger.find? (client, day) = none ∧
        usage = dayUsage (scan (records client) (dayStart (beijingDay startDay))
          (dayStart (beijingDay endDay))) day := by
  unfold ensureRange normalizeRange at h
  split_ifs at h
  · exact find?_ensureClients h hrow
  · cases h

/-- What a settlement leaves in a row: what was there, or the usage of a day that had no row. -/
theorem LedgerOp.find?_step {op : LedgerOp}
        (hrow : (op.step records ledger).find? (client, day) = some usage) :
    ledger.find? (client, day) = some usage ∨
      client ∈ op.clients ∧ op.firstDay ≤ day ∧ day < op.stopDay ∧
        ledger.find? (client, day) = none ∧
        usage = dayUsage (scan (records client) (dayStart op.firstDay) (dayStart op.stopDay))
          day := by
  unfold LedgerOp.step at hrow
  cases happly : op.apply records ledger with
  | error e =>
    rw [happly] at hrow
    exact Or.inl hrow
  | ok ledger' =>
    rw [happly] at hrow
    cases op with
    | ensure clientIDs startDay endDay => exact find?_ensureRange happly hrow
    | maintenance allClients reportTargets now =>
      simp only [LedgerOp.apply, maintain] at happly
      split_ifs at happly with hnil
      · cases happly
        rw [Table.find?_deleteWhere, Option.filter_eq_some_iff] at hrow
        exact Or.inl hrow.1
      · cases hens : ensureRange records (maintainedClients allClients reportTargets)
          (dayStart (beijingDay now - (dashboardHistoryDays - 1))) (dayStart (beijingDay now))
          ledger with
        | error e =>
          rw [hens] at happly
          cases happly
        | ok mid =>
          rw [hens] at happly
          cases happly
          rw [Table.find?_deleteWhere, Option.filter_eq_some_iff] at hrow
          have hmid := find?_ensureRange hens hrow.1
          rwa [beijingDay_dayStart, beijingDay_dayStart] at hmid

/-- One settlement keeps every row of `[start, stop)` at the usage that a scan of the whole range
gives it. -/
theorem LedgerOp.step_rows
    (hsorted : (records client).Pairwise fun r s => r.time ≤ s.time) {start stop : ℤ}
    {op : LedgerOp} (huncut : op.Uncut records client start stop ledger)
    (hrows : ∀ day usage, start ≤ day → day < stop → ledger.find? (client, day) = some usage →
      usage = dayUsage (scan (records client) (dayStart start) (dayStart stop)) day)
    (hstart : start ≤ day) (hstop : day < stop)
    (hrow : (op.step records ledger).find? (client, day) = some usage) :
    usage = dayUsage (scan (records client) (dayStart start) (dayStart stop)) day := by
  rcases LedgerOp.find?_step hrow with hold | ⟨hmem, hfirst, hlast, hnone, rfl⟩
  · exact hrows day usage hstart hstop hold
  · have hcut := huncut hmem
      ⟨day, Int.mem_range_iff.mpr ⟨max_le hfirst hstart, lt_min hlast hstop⟩, hnone⟩
    rw [← dayUsage_scan_eq hsorted (min_le_left _ _) (le_max_left _ _)
        (hcut _ (by simp)) (hcut _ (by simp)) ⟨hfirst, hlast⟩,
      ← dayUsage_scan_eq hsorted (min_le_right _ _) (le_max_right _ _)
        (hcut _ (by simp)) (hcut _ (by simp)) ⟨hstart, hstop⟩]

/-- A run of uncut settlements leaves every row of `[start, stop)` at the usage that a scan of the
whole range gives it. -/
theorem run_rows (hsorted : (records client).Pairwise fun r s => r.time ≤ s.time) {start stop : ℤ}
    {ops : List LedgerOp} (huncut : UncutRun records client start stop ledger ops)
    (hrows : ∀ day usage, start ≤ day → day < stop → ledger.find? (client, day) = some usage →
      usage = dayUsage (scan (records client) (dayStart start) (dayStart stop)) day)
    (hstart : start ≤ day) (hstop : day < stop)
    (hrow : (runLedger records ledger ops).find? (client, day) = some usage) :
    usage = dayUsage (scan (records client) (dayStart start) (dayStart stop)) day := by
  induction ops generalizing ledger with
  | nil => exact hrows day usage hstart hstop hrow
  | cons op ops ih =>
    refine ih huncut.2 (fun d u hd hd' hrow' => ?_) hrow
    exact LedgerOp.step_rows hsorted huncut.1 hrows hd hd' hrow'

/-! ### The sum of a range -/

theorem int64_sum_map_int64 (l : List ℤ) : int64 (l.map int64).sum = int64 l.sum := by
  induction l with
  | nil => rfl
  | cons x l ih =>
    rw [List.map_cons, List.sum_cons, List.sum_cons, int64_int64_add, ← int64_add_int64, ih,
      int64_add_int64]

/-- Items that are added up day by day add up to their sum, if every item has its day. -/
theorem sum_map_sum_filter (f : DeltaRecord × Usage → ℤ) {days : List ℤ} (hnd : days.Nodup)
    (items : List (DeltaRecord × Usage))
    (hdays : ∀ item ∈ items, beijingDay item.1.time ∈ days) :
    (days.map fun day => ((items.filter fun item =>
      decide (beijingDay item.1.time = day)).map f).sum).sum = (items.map f).sum := by
  induction items with
  | nil => simp
  | cons item items ih =>
    have hsplit : ∀ day, (((item :: items).filter fun item =>
        decide (beijingDay item.1.time = day)).map f).sum =
        (if day = beijingDay item.1.time then f item else 0) +
          ((items.filter fun item => decide (beijingDay item.1.time = day)).map f).sum := by
      intro day
      by_cases hday : beijingDay item.1.time = day
      · simp [hday]
      · simp [hday, Ne.symm hday]
    have hone : (days.map fun day => if day = beijingDay item.1.time then f item else 0).sum =
        f item := by
      have hmem := hdays item List.mem_cons_self
      rw [List.sum_map_ite_eq, List.count_eq_one_of_mem hnd hmem]
      simp
    simp only [hsplit]
    rw [List.sum_map_add, hone, ih fun i hi => hdays i (List.mem_cons_of_mem _ hi), List.map_cons,
      List.sum_cons]

/-- The usages of the days of a range add up to the sum of the items of its scan. -/
theorem sumUsages_dayUsage {items : List (DeltaRecord × Usage)} {days : List ℤ} (hnd : days.Nodup)
    (hdays : ∀ item ∈ items, beijingDay item.1.time ∈ days) :
    sumUsages (days.map (dayUsage items)) = sumUsages (items.map Prod.snd) := by
  have hside : ∀ side : Usage → ℤ, (∀ l : List Usage, side (sumUsages l) = sumInt64 (l.map side)) →
      sumInt64 ((days.map (dayUsage items)).map side) =
        sumInt64 ((items.map Prod.snd).map side) := by
    intro side hsum
    have hday : (days.map (dayUsage items)).map side =
        (days.map fun day => ((items.filter fun item =>
          decide (beijingDay item.1.time = day)).map fun item => side item.2).sum).map int64 := by
      rw [List.map_map, List.map_map]
      refine List.map_congr_left fun day _ => ?_
      simp only [Function.comp_apply, dayUsage, hsum, sumInt64_eq, List.map_map]
      rfl
    rw [sumInt64_eq, sumInt64_eq, hday, int64_sum_map_int64,
      sum_map_sum_filter (fun item => side item.2) hnd items hdays, List.map_map]
    rfl
  rw [sumUsages_eq, sumUsages_eq, hside Usage.up fun l => by rw [sumUsages_eq],
    hside Usage.down fun l => by rw [sumUsages_eq]]

/-- `MetricUsage` over whole days is the sum of the items of their scan. -/
theorem metricUsage_eq (records : List DeltaRecord) (start stop : ℤ) :
    metricUsage records start (stop - 1) = sumUsages ((scan records start stop).map Prod.snd) := by
  have hsnd : (scan records start stop).map Prod.snd =
      ((trafficDeltasByRecord upCounter (totalsBefore records start)
        (recordsBetween records start stop)).zip (trafficDeltasByRecord downCounter
          (totalsBefore records start) (recordsBetween records start stop))).map
            fun d => (⟨d.1, d.2⟩ : Usage) := by
    rw [scan, deltaItems, List.map_snd_zip]
    simp [length_trafficDeltasByRecord]
  rw [metricUsage, trafficRecordsByTime_eq, hsnd, sumUsages_eq, List.map_map, List.map_map]
  have hlen : (trafficDeltasByRecord upCounter (totalsBefore records start)
      (recordsBetween records start stop)).length = (trafficDeltasByRecord downCounter
        (totalsBefore records start) (recordsBetween records start stop)).length := by
    rw [length_trafficDeltasByRecord, length_trafficDeltasByRecord]
  congr 1
  · exact congrArg sumInt64 (List.map_fst_zip hlen.le).symm
  · exact congrArg sumInt64 (List.map_snd_zip hlen.ge).symm

/-- **Daily rows add up to the traffic of the range.**  Whatever settlements created the rows of a
range of complete days, their sum is the traffic of the range computed at once, if no settlement
that has to write one of these rows has a boundary (of its own range, or of the range that is
summed) between a counter drop and the recovery from it. -/
theorem sumRange_run (records : String → List DeltaRecord) (client : String)
    (startDay endDay : ℤ) (ledger : Ledger) (ops : List LedgerOp) (usage : Usage)
    (hsorted : (records client).Pairwise fun r s => r.time ≤ s.time)
    (hempty : ∀ day, beijingDay startDay ≤ day → day < beijingDay endDay →
      ledger.find? (client, day) = none)
    (huncut : UncutRun records client (beijingDay startDay) (beijingDay endDay) ledger ops)
    (hsum : sumRange (runLedger records ledger ops) client startDay endDay = .ok usage) :
    usage = metricUsage (records client) (dayStart (beijingDay startDay))
      (dayStart (beijingDay endDay) - 1) := by
  unfold sumRange normalizeRange at hsum
  split_ifs at hsum with hlt
  · set start := beijingDay startDay
    set stop := beijingDay endDay
    set items := scan (records client) (dayStart start) (dayStart stop)
    simp only [Except.bind, bind] at hsum
    set rows := (runLedger records ledger ops).rows.filter fun row =>
      decide (row.1.1 = client ∧ start ≤ row.1.2 ∧ row.1.2 < stop) with hrows
    split_ifs at hsum with hlen
    obtain rfl := Except.ok.inj hsum
    have hmem : ∀ row ∈ rows, row.1.1 = client ∧ (start ≤ row.1.2 ∧ row.1.2 < stop) ∧
        row.2 = dayUsage items row.1.2 := by
      rintro ⟨⟨c, day⟩, u⟩ hrow
      obtain ⟨hstored, hkey⟩ := List.mem_filter.mp hrow
      simp only [decide_eq_true_eq] at hkey
      obtain ⟨rfl, hday⟩ := hkey
      refine ⟨rfl, hday, run_rows hsorted huncut ?_ hday.1 hday.2 (Table.mem_rows.mp hstored)⟩
      intro d u hd hd' hfind
      rw [hempty d hd hd'] at hfind
      cases hfind
    -- the rows have distinct days of the range, and as many as the range has days
    have hnd : (rows.map fun row => row.1.2).Nodup := by
      refine List.Nodup.map_on (fun r hr r' hr' heq => ?_)
        ((runLedger records ledger ops).nodup_rows.filter _)
      have h := (hmem r hr).1.trans (hmem r' hr').1.symm
      obtain ⟨⟨c, d⟩, u⟩ := r
      obtain ⟨⟨c', d'⟩, u'⟩ := r'
      obtain rfl : d = d' := heq
      obtain rfl : c = c' := h
      have hu := Table.mem_rows.mp (List.mem_of_mem_filter hr)
      rw [Table.mem_rows.mp (List.mem_of_mem_filter hr')] at hu
      rw [Option.some.inj hu]
    have hperm : (rows.map fun row => row.1.2).Perm (Int.range start stop) := by
      refine (List.subperm_of_subset hnd fun day hday => ?_).perm_of_length_le ?_
      · obtain ⟨row, hrow, rfl⟩ := List.mem_map.mp hday
        exact Int.mem_range_iff.mpr (hmem row hrow).2.1
      · rw [List.length_map, hlen]
    have hsnd : rows.map Prod.snd = (rows.map fun row => row.1.2).map (dayUsage items) := by
      rw [List.map_map]
      exact List.map_congr_left fun row hrow => (hmem row hrow).2.2
    have hitems : ∀ item ∈ items, beijingDay item.1.time ∈ rows.map fun row => row.1.2 := by
      intro item hitem
      exact hperm.mem_iff.mpr (Int.mem_range_iff.mpr (beijingDay_of_mem_scan hitem))
    rw [hsnd, sumUsages_dayUsage hnd hitems, metricUsage_eq]
  · cases hsum

/-- A sample without stored deltas, `seconds` after the start of day 20001. -/
def sampleAt (seconds up down : ℤ) : DeltaRecord :=
  { time := dayStart 20001 + seconds * 1000000000, netTotalUp := up, netTotalDown := down,
    trafficUp := 0, trafficDown := 0, trafficUpSet := false, trafficDownSet := false }

theorem sumRange_run_glitch :
    ∃ usage, sumRange
        (runLedger (fun _ => [sampleAt (-900) 1000 0, sampleAt (-600) 10 0, sampleAt (-300) 1100 0,
          sampleAt 300 1150 7]) ∅
          [.ensure ["node"] (dayStart 20000) (dayStart 20001),
            .maintenance ["node"] [] (dayStart 20002)])
        "node" (dayStart 20000) (dayStart 20002) = .ok usage ∧
      usage = metricUsage [sampleAt (-900) 1000 0, sampleAt (-600) 10 0, sampleAt (-300) 1100 0,
        sampleAt 300 1150 7] (dayStart 20000) (dayStart 20002 - 1) := by
  refine ⟨⟨150, 7⟩, by decide +kernel, ?_⟩
  have h := sumRange_run (fun _ => [sampleAt (-900) 1000 0, sampleAt (-600) 10 0,
      sampleAt (-300) 1100 0, sampleAt 300 1150 7]) "node" (dayStart 20000) (dayStart 20002) ∅
    [.ensure ["node"] (dayStart 20000) (dayStart 20001), .maintenance ["node"] [] (dayStart 20002)]
    ⟨150, 7⟩ (by decide +kernel) (fun _ _ _ => rfl) (by decide +kernel) (by decide +kernel)
  rwa [beijingDay_dayStart, beijingDay_dayStart] at h

/-- A counter that reads 1000, then 10, then 1100 around midnight, each reading within the recovery
window of the one before: the two days settled at once carry 100 bytes, settled one after the other
they carry 1090. -/
theorem sumRange_run_ne :
    let records := [sampleAt (-600) 1000 0, sampleAt (-300) 10 0, sampleAt 300 1100 0]
    (records.Pairwise fun r s => r.time ≤ s.time) ∧
      sumRange (runLedger (fun _ => records) ∅
          [.ensure ["node"] (dayStart 20000) (dayStart 20001),
            .ensure ["node"] (dayStart 20001) (dayStart 20002)])
        "node" (dayStart 20000) (dayStart 20002) = .ok ⟨1090, 0⟩ ∧
      metricUsage records (dayStart 20000) (dayStart 20002 - 1) = ⟨100, 0⟩ := by
  decide +kernel

end Traffic

end Komari
