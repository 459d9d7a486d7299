import Komari.Billing.Committed
import Komari.Traffic.FirstDay

/-!
# Every committed cycle is counted once

* `walkCommittedCycles_counts` : **the walk counts every billable cycle once**, exactly when no
  billable cycle lies behind 240 others and the latest version of a cycle decides whether it is billable.
* `walkCommittedCycles_misses` : a contract for 75 years.
-/

namespace Komari

namespace Billing

open Calendar TrafficReset
open Traffic (dayStart noTimezones)

/-! ### What is to be counted -/

/-- A priced version is in force at some instant of a cycle. -/
def Overlaps (version : PriceVersion) (start stop : ℤ) : Prop :=
  version.priced = true ∧ ∃ t, start ≤ t ∧ t < stop ∧ InForce version t

/-- The version is in force at some instant. -/
def Lasts (version : PriceVersion) : Prop :=
  ∀ paid, paidUntil version = some paid → version.effectiveFrom < paid

/-- An instant at which a window of a schedule has the start of a cycle. -/
structure InWindow [TimezoneDatabase] (s : Schedule) (since stop start : ℤ) : Prop where
  reset : s.IsReset start
  before : start < stop
  after : since < s.next start

section Counts

variable [TimezoneDatabase] [CurrencyTable] (versions : List PriceVersion)
  (settings : Table String ClientBillingMeta) (currency : String) (snapshots : Snapshots)

/-- The monthly average of the version has a value in the display currency. -/
def Converts (version : PriceVersion) (amount : ℤ) : Prop :=
  ∃ average, cycleAverageMicros version = .ok average ∧
    convertLockedMicros average.monthly version currency snapshots = some amount

/-- Some version of the client is billable in the cycle that begins at `start`. -/
def HasBillable (client : String) (start : ℤ) : Prop :=
  ∃ version ∈ versions, version.client = client ∧
    Overlaps version start ((resetSchedule settings client).next start) ∧
      ∃ amount, Converts currency snapshots version amount

/-- The charged cycles are the billable ones, each once and with its latest version. -/
structure CountsOnce (since stop : ℤ) (cycles : List CommittedCycle) : Prop where
  once : (cycles.map fun cycle => (cycle.client, cycle.start)).Nodup
  counted : ∀ client start, (∃ cycle ∈ cycles, cycle.client = client ∧ cycle.start = start) ↔
    InWindow (resetSchedule settings client) since stop start ∧
      HasBillable versions settings currency snapshots client start
  carried : ∀ cycle ∈ cycles, cycle.version ∈ versions ∧ cycle.version.client = cycle.client ∧
    Overlaps cycle.version cycle.start ((resetSchedule settings cycle.client).next cycle.start) ∧
      Converts currency snapshots cycle.version cycle.amount ∧
        ∀ version ∈ versions, version.client = cycle.client →
          Overlaps version cycle.start ((resetSchedule settings cycle.client).next cycle.start) →
            version.rank ≤ cycle.version.rank

/-- The walk gets as far as the cycle that begins at `start`. -/
def Reached (client : String) (since stop start : ℤ) : Prop :=
  stop ≠ zeroTime ∧
    ((resetSchedule settings client).resetsBefore since start).ncard < maxCycleStarts

/-- The latest version of a cycle decides about it. -/
structure Decides (client : String) (start : ℤ) (version : PriceVersion) : Prop where
  averages : ∃ average, cycleAverageMicros version = .ok average
  lasts : (∃ amount, Converts currency snapshots version amount) → Lasts version
  alone : (¬∃ amount, Converts currency snapshots version amount) →
    ¬HasBillable versions settings currency snapshots client start

/-- The walk gets to every billable cycle, and the latest version of a cycle decides about it. -/
def Countable (since stop : ℤ) : Prop :=
  ∀ client start, InWindow (resetSchedule settings client) since stop start →
    (Reached settings client since stop start → ∀ version,
      (overlapping versions client start ((resetSchedule settings client).next start)).argmax
        PriceVersion.rank = some version →
          Decides versions settings currency snapshots client start version) ∧
    (¬Reached settings client since stop start →
      ¬HasBillable versions settings currency snapshots client start)

end Counts

/-! ### Overlaps -/

theorem overlaps_of_lasts {version : PriceVersion} {start stop : ℤ} (hlt : start < stop)
    (hlasts : Lasts version) (h : versionOverlapsCycle version start stop = true) :
    Overlaps version start stop := by
  obtain ⟨hpriced, hfrom, hto, hexpired⟩ := versionOverlapsCycle_iff.mp h
  obtain ⟨hto', hexpired'⟩ := lt_paidUntil_iff.mp hlasts
  -- the later of the two starts lies in both
  refine ⟨hpriced, max start version.effectiveFrom, le_max_left _ _, max_lt hlt hfrom,
    le_max_right _ _, fun effectiveTo hsome => ?_, fun expiredAt hsome => ?_⟩
  · exact max_lt (hto effectiveTo hsome) (hto' effectiveTo hsome)
  · exact max_lt (hexpired expiredAt hsome) (hexpired' expiredAt hsome)

theorem Overlaps.lasts {version : PriceVersion} {start stop : ℤ} (h : Overlaps version start stop) :
    Lasts version := by
  obtain ⟨-, t, -, -, hforce⟩ := h
  refine lt_paidUntil_iff.mpr ⟨fun effectiveTo hsome => ?_, fun expiredAt hsome => ?_⟩
  · exact hforce.effective.trans_lt (hforce.notSuperseded effectiveTo hsome)
  · exact hforce.effective.trans_lt (hforce.notExpired expiredAt hsome)

theorem Overlaps.versionOverlapsCycle {version : PriceVersion} {start stop : ℤ}
    (h : Overlaps version start stop) : versionOverlapsCycle version start stop = true := by
  obtain ⟨hpriced, t, hlow, hhigh, hforce⟩ := h
  refine versionOverlapsCycle_iff.mpr ⟨hpriced, hforce.effective.trans_lt hhigh,
    fun effectiveTo hsome => ?_, fun expiredAt hsome => ?_⟩
  · exact hlow.trans_lt (hforce.notSuperseded effectiveTo hsome)
  · exact hlow.trans_lt (hforce.notExpired expiredAt hsome)

/-! ### The starts that are visited -/

section Starts

variable [TimezoneDatabase] {s : Schedule} {since stop : ℤ}

theorem mem_cycleStarts {fuel : ℕ} {start t : ℤ} : t ∈ cycleStarts s stop fuel start ↔
    ∃ i < fuel, s.next^[i] start = t ∧ ∀ j ≤ i, s.next^[j] start < stop := by
  induction fuel generalizing start with
  | zero => simp [cycleStarts]
  | succ fuel ih =>
    unfold cycleStarts
    by_cases hlt : start < stop
    · rw [if_pos hlt, List.mem_cons, ih]
      constructor
      · rintro (rfl | ⟨i, hi, hit, hstop⟩)
        · refine ⟨0, by omega, rfl, fun j hj => ?_⟩
          rwa [Nat.le_zero.mp hj]
        · refine ⟨i + 1, by omega, hit, fun j hj => ?_⟩
          cases j with
          | zero => exact hlt
          | succ j => exact hstop j (by omega)
      · rintro ⟨i, hi, hit, hstop⟩
        cases i with
        | zero => exact Or.inl hit.symm
        | succ i => exact Or.inr ⟨i, by omega, hit, fun j hj => hstop (j + 1) (by omega)⟩
    · rw [if_neg hlt]
      refine iff_of_false List.not_mem_nil ?_
      rintro ⟨i, -, -, hstop⟩
      exact hlt (hstop 0 (Nat.zero_le i))

/-- The starts of a schedule in order go up. -/
theorem pairwise_cycleStarts (hs : s.active = true) (h : s.InOrder since stop) {fuel : ℕ} {start : ℤ}
    (hstart : s.IsReset start) (hlow : s.last since ≤ start) :
    (∀ t ∈ cycleStarts s stop fuel start, start ≤ t) ∧
      (cycleStarts s stop fuel start).Pairwise (· < ·) := by
  induction fuel generalizing start with
  | zero => simp [cycleStarts]
  | succ fuel ih =>
    unfold cycleStarts
    split_ifs with hlt
    · have hup := h.advances start hstart hlow hlt
      obtain ⟨hle, hpairs⟩ := ih (Schedule.isReset_next hs start) (hlow.trans hup.le)
      refine ⟨List.forall_mem_cons.mpr ⟨le_rfl, fun t ht => hup.le.trans (hle t ht)⟩,
        List.pairwise_cons.mpr ⟨fun t ht => hup.trans_le (hle t ht), hpairs⟩⟩
    · simp

/-- **The starts are the resets of the window that fewer than 240 precede.** -/
theorem mem_iterCycleStarts (hs : s.active = true) (h : s.InOrder since stop) (hlt : since < stop)
    {t : ℤ} : t ∈ iterCycleStarts s since stop ↔ InWindow s since stop t ∧
      stop ≠ zeroTime ∧ (s.resetsBefore since t).ncard < maxCycleStarts := by
  unfold iterCycleStarts
  by_cases hzero : stop = zeroTime
  · rw [if_pos (Or.inl hzero)]
    exact iff_of_false List.not_mem_nil fun hmem => hmem.2.1 hzero
  rw [if_neg (by rintro (h | h) <;> contradiction), mem_cycleStarts]
  constructor
  · rintro ⟨i, hi, rfl, hstop⟩
    have hclimb := h.climbs hs hstop
    have hreset := Schedule.isReset_iterate hs since i
    refine ⟨⟨hreset, hstop i le_rfl, ?_⟩, hzero, ?_⟩
    · -- each start of the walk ends no earlier than the first
      have hup := h.advances _ hreset (hclimb.le (Nat.zero_le i) le_rfl) (hstop i le_rfl)
      cases i with
      | zero => exact h.reached
      | succ i => exact h.reached.trans_le ((hclimb.le (by omega : 1 ≤ i + 1) le_rfl).trans hup.le)
    · rwa [h.ncard_resetsBefore hs hclimb (hstop i le_rfl)]
  · rintro ⟨hwindow, -, hcard⟩
    obtain ⟨i, hclimb, rfl⟩ := h.exists_climb hs hwindow.reset
      (h.first t hwindow.reset hwindow.after) hwindow.before
    rw [h.ncard_resetsBefore hs hclimb hwindow.before] at hcard
    exact ⟨i, hcard, rfl, fun j hj => (hclimb.le hj le_rfl).trans_lt hwindow.before⟩

theorem nodup_iterCycleStarts (hs : s.active = true) (h : s.InOrder since stop) :
    (iterCycleStarts s since stop).Nodup := by
  unfold iterCycleStarts
  split_ifs
  · exact List.nodup_nil
  · exact (pairwise_cycleStarts hs h (Schedule.isReset_last hs since) le_rfl).2.imp fun hlt => hlt.ne

end Starts

/-! ### The walk -/

theorem filterMap_sublist {α : Type*} {f : α → Option α} {l : List α}
    (h : ∀ x ∈ l, ∀ y, f x = some y → y = x) : (l.filterMap f).Sublist l := by
  induction l with
  | nil => exact List.Sublist.refl _
  | cons x l ih =>
    obtain ⟨hx, hl⟩ := List.forall_mem_cons.mp h
    cases hfx : f x with
    | none =>
      rw [List.filterMap_cons_none hfx]
      exact (ih hl).cons x
    | some y =>
      rw [List.filterMap_cons_some hfx, hx y hfx]
      exact (ih hl).cons_cons x

theorem mem_versionClients {versions : List PriceVersion} {client : String} :
    client ∈ versionClients versions ↔ ∃ version ∈ versions, version.client = client := by
  simp [versionClients]

section Visits

variable [TimezoneDatabase] {versions : List PriceVersion}
  {settings : Table String ClientBillingMeta} {since stop : ℤ}

/-- **The walk visits the cycles of the window that it gets to.** -/
theorem mem_visitedCycles
    (h : ∀ version ∈ versions, (resetSchedule settings version.client).InOrder since stop)
    (hlt : since < stop) {client : String} {start : ℤ} :
    (client, start) ∈ visitedCycles versions settings since stop ↔
      client ∈ versionClients versions ∧ InWindow (resetSchedule settings client) since stop start ∧
        Reached settings client since stop start := by
  have hstarts : ∀ c ∈ versionClients versions, ∀ t, t ∈ iterCycleStarts (resetSchedule settings c) since stop ↔
      InWindow (resetSchedule settings c) since stop t ∧ Reached settings c since stop t := by
    intro c hc t
    obtain ⟨version, hversion, rfl⟩ := mem_versionClients.mp hc
    exact mem_iterCycleStarts (active_resetSchedule settings _) (h version hversion) hlt
  simp only [visitedCycles, List.mem_flatMap, List.mem_map, Prod.mk.injEq]
  constructor
  · rintro ⟨c, hc, t, ht, rfl, rfl⟩
    exact ⟨hc, (hstarts c hc t).mp ht⟩
  · rintro ⟨hc, ht⟩
    exact ⟨client, hc, start, (hstarts client hc start).mpr ht, rfl, rfl⟩

theorem nodup_visitedCycles
    (h : ∀ version ∈ versions, (resetSchedule settings version.client).InOrder since stop) :
    (visitedCycles versions settings since stop).Nodup := by
  refine List.nodup_flatMap.mpr ⟨fun client hclient => ?_, ?_⟩
  · obtain ⟨version, hversion, rfl⟩ := mem_versionClients.mp hclient
    exact (nodup_iterCycleStarts (active_resetSchedule settings _) (h version hversion)).map
      fun _ _ heq => (Prod.mk.inj heq).2
  · refine (List.nodup_dedup _).imp fun hne => ?_
    rintro ⟨client, start⟩ hleft hright
    obtain ⟨_, _, h₁⟩ := List.mem_map.mp hleft
    obtain ⟨_, _, h₂⟩ := List.mem_map.mp hright
    exact hne ((Prod.mk.inj h₁).1.trans (Prod.mk.inj h₂).1.symm)

end Visits

section Charges

variable [CurrencyTable] {currency : String} {snapshots : Snapshots}

/-- A charge needs an average, and an amount in the display currency. -/
theorem chargeCycle_ok_iff {version : PriceVersion} {client : String} {start stop : ℤ} :
    (∃ found, chargeCycle currency snapshots version client start stop = .ok found) ↔
      ∃ average, cycleAverageMicros version = .ok average := by
  unfold chargeCycle
  cases cycleAverageMicros version with
  | error e => simp [bind, Except.bind]
  | ok average =>
    refine iff_of_true ?_ ⟨average, rfl⟩
    simp only [bind, Except.bind]
    cases convertLockedMicros average.monthly version currency snapshots with
    | none => exact ⟨none, rfl⟩
    | some amount => exact ⟨some _, rfl⟩

theorem chargeCycle_some_iff {version : PriceVersion} {client : String} {start stop : ℤ}
    {cycle : CommittedCycle} :
    chargeCycle currency snapshots version client start stop = .ok (some cycle) ↔
      ∃ average amount, cycleAverageMicros version = .ok average ∧
        convertLockedMicros average.monthly version currency snapshots = some amount ∧
          cycle = ⟨start, stop, client, version, amount, average.monthly⟩ := by
  unfold chargeCycle
  cases cycleAverageMicros version with
  | error e => simp [bind, Except.bind]
  | ok average =>
    simp only [bind, Except.bind, Except.ok.injEq]
    cases hconvert : convertLockedMicros average.monthly version currency snapshots with
    | none => simp [pure, Except.pure, hconvert]
    | some amount => simp [pure, Except.pure, hconvert, eq_comm]

end Charges

/-- The end of what is charged for a cycle. -/
def chargedUntil (version : PriceVersion) (next : ℤ) : ℤ :=
  match paidUntil version with
  | some paid => if paid < next then paid else next
  | none => next

section Walk

variable [TimezoneDatabase] [CurrencyTable] {versions : List PriceVersion}
  {settings : Table String ClientBillingMeta} {currency : String} {snapshots : Snapshots}
  {since stop : ℤ}

theorem committedCycleAt_eq (client : String) (start : ℤ) :
    committedCycleAt versions settings currency snapshots client start =
      match (overlapping versions client start ((resetSchedule settings client).next start)).argmax
        PriceVersion.rank with
      | none => .ok none
      | some version => chargeCycle currency snapshots version client start
          (chargedUntil version ((resetSchedule settings client).next start)) := by
  unfold committedCycleAt
  dsimp only
  rw [latestVersionForCycle_eq]
  cases hlatest : (overlapping versions client start
      ((resetSchedule settings client).next start)).argmax PriceVersion.rank with
  | none => rfl
  | some version =>
    -- a version that overlaps the cycle is paid beyond its start
    obtain ⟨-, -, hoverlap⟩ := mem_overlapping.mp (List.argmax_mem hlatest)
    obtain ⟨-, -, hto, hexpired⟩ := versionOverlapsCycle_iff.mp hoverlap
    have hpaid := lt_paidUntil_iff.mpr ⟨hto, hexpired⟩
    unfold chargedUntil
    dsimp only
    cases hsome : paidUntil version with
    | none => rfl
    | some paid =>
      dsimp only
      rw [if_neg (not_not.mpr (hpaid paid hsome))]

variable {cycle : CommittedCycle}

/-- The cycle that the walk finds at a visit. -/
theorem committedCycleAt_some_iff {client : String} {start : ℤ} :
    committedCycleAt versions settings currency snapshots client start = .ok (some cycle) ↔
      ∃ version, (overlapping versions client start
          ((resetSchedule settings client).next start)).argmax PriceVersion.rank = some version ∧
        ∃ average amount, cycleAverageMicros version = .ok average ∧
          convertLockedMicros average.monthly version currency snapshots = some amount ∧
            cycle = ⟨start, chargedUntil version ((resetSchedule settings client).next start), client,
              version, amount, average.monthly⟩ := by
  rw [committedCycleAt_eq]
  cases (overlapping versions client start
      ((resetSchedule settings client).next start)).argmax PriceVersion.rank with
  | none => simp
  | some version => simp [chargeCycle_some_iff]

variable {cycles : List CommittedCycle}

/-- **The walk succeeds when every visit does, and returns what the visits find.** -/
theorem walkCommittedCycles_eq_ok :
    walkCommittedCycles versions settings currency snapshots since stop = .ok cycles ↔
      (∀ visit ∈ visitedCycles versions settings since stop, ∃ found,
        committedCycleAt versions settings currency snapshots visit.1 visit.2 = .ok found) ∧
      cycles = (visitedCycles versions settings since stop).filterMap fun visit =>
        (committedCycleAt versions settings currency snapshots visit.1 visit.2).toOption.join := by
  exact mapM_reduceOption_eq_ok

section

variable (h : walkCommittedCycles versions settings currency snapshots since stop = .ok cycles)

include h

/-- A cycle of the result was found at its own client and start. -/
theorem committedCycleAt_of_mem
    (hmem : cycle ∈ cycles) :
    (cycle.client, cycle.start) ∈ visitedCycles versions settings since stop ∧
      committedCycleAt versions settings currency snapshots cycle.client cycle.start =
        .ok (some cycle) := by
  obtain ⟨hok, rfl⟩ := walkCommittedCycles_eq_ok.mp h
  obtain ⟨visit, hvisit, hfound⟩ := List.mem_filterMap.mp hmem
  obtain ⟨found, hat⟩ := hok visit hvisit
  rw [hat] at hfound
  obtain rfl : found = some cycle := hfound
  obtain ⟨version, -, average, amount, -, -, hcycle⟩ := committedCycleAt_some_iff.mp hat
  have hclient : cycle.client = visit.1 := by rw [hcycle]
  have hstart : cycle.start = visit.2 := by rw [hcycle]
  rw [hclient, hstart]
  exact ⟨hvisit, hat⟩

/-- What is found at a visit is in the result. -/
theorem mem_of_committedCycleAt {client : String} {start : ℤ}
    (hvisit : (client, start) ∈ visitedCycles versions settings since stop)
    (hat : committedCycleAt versions settings currency snapshots client start = .ok (some cycle)) :
    cycle ∈ cycles := by
  obtain ⟨-, rfl⟩ := walkCommittedCycles_eq_ok.mp h
  exact List.mem_filterMap.mpr ⟨(client, start), hvisit, by rw [hat]; rfl⟩

/-- The result lists clients and starts in the order of the visits. -/
theorem sublist_visitedCycles
    :
    (cycles.map fun cycle => (cycle.client, cycle.start)).Sublist
      (visitedCycles versions settings since stop) := by
  obtain ⟨hok, rfl⟩ := walkCommittedCycles_eq_ok.mp h
  rw [List.map_filterMap]
  refine filterMap_sublist fun visit hvisit key hkey => ?_
  obtain ⟨cycle, hcycle, rfl⟩ := Option.map_eq_some_iff.mp hkey
  obtain ⟨found, hat⟩ := hok visit hvisit
  rw [hat] at hcycle
  obtain rfl : found = some cycle := hcycle
  obtain ⟨version, -, average, amount, -, -, rfl⟩ := committedCycleAt_some_iff.mp hat
  rfl

end

/-- A billable version makes the cycle have a latest one. -/
theorem exists_latest_of_hasBillable {client : String} {start : ℤ}
    (h : HasBillable versions settings currency snapshots client start) :
    ∃ version, (overlapping versions client start
      ((resetSchedule settings client).next start)).argmax PriceVersion.rank = some version := by
  obtain ⟨version, hmem, hclient, hoverlap, -⟩ := h
  have hin := mem_overlapping.mpr ⟨hmem, hclient, hoverlap.versionOverlapsCycle⟩
  cases hlatest : (overlapping versions client start
      ((resetSchedule settings client).next start)).argmax PriceVersion.rank with
  | none => exact absurd (List.argmax_eq_none.mp hlatest) (List.ne_nil_of_mem hin)
  | some version => exact ⟨version, rfl⟩

section

variable (h : ∀ version ∈ versions, (resetSchedule settings version.client).InOrder since stop)

include h

theorem exists_walk_of_countable
    (hlt : since < stop)
    (hcount : Countable versions settings currency snapshots since stop) :
    ∃ cycles, walkCommittedCycles versions settings currency snapshots since stop = .ok cycles := by
  refine ⟨_, walkCommittedCycles_eq_ok.mpr ⟨?_, rfl⟩⟩
  rintro ⟨client, start⟩ hvisit
  obtain ⟨-, hwindow, hreached⟩ := (mem_visitedCycles h hlt).mp hvisit
  dsimp only
  rw [committedCycleAt_eq]
  cases hlatest : (overlapping versions client start
      ((resetSchedule settings client).next start)).argmax PriceVersion.rank with
  | none => exact ⟨none, rfl⟩
  | some version =>
    exact chargeCycle_ok_iff.mpr ((hcount client start hwindow).1 hreached version hlatest).averages

/-- Where the latest versions decide, a cycle of the result carries a billable version. -/
theorem carried_of_countable
    (hlt : since < stop) (hcount : Countable versions settings currency snapshots since stop)
    (hwalk : walkCommittedCycles versions settings currency snapshots since stop = .ok cycles)
    (hmem : cycle ∈ cycles) :
    InWindow (resetSchedule settings cycle.client) since stop cycle.start ∧
      cycle.version ∈ versions ∧ cycle.version.client = cycle.client ∧
        Overlaps cycle.version cycle.start
            ((resetSchedule settings cycle.client).next cycle.start) ∧
          Converts currency snapshots cycle.version cycle.amount ∧
            ∀ version ∈ versions, version.client = cycle.client →
              Overlaps version cycle.start
                  ((resetSchedule settings cycle.client).next cycle.start) →
                version.rank ≤ cycle.version.rank := by
  obtain ⟨hvisit, hat⟩ := committedCycleAt_of_mem hwalk hmem
  obtain ⟨-, hwindow, hreached⟩ := (mem_visitedCycles h hlt).mp hvisit
  obtain ⟨version, hlatest, average, amount, haverage, hconvert, hcycle⟩ :=
    committedCycleAt_some_iff.mp hat
  have hversion : cycle.version = version := by rw [hcycle]
  have hamount : cycle.amount = amount := by rw [hcycle]
  obtain ⟨hin, hclient, hoverlap⟩ := mem_overlapping.mp (List.argmax_mem hlatest)
  have hdecides := (hcount _ _ hwindow).1 hreached version hlatest
  have horder := h version hin
  rw [hclient] at horder
  have hnext := horder.advances _ hwindow.reset (horder.first _ hwindow.reset hwindow.after) hwindow.before
  have hconverts : Converts currency snapshots version amount := ⟨average, haverage, hconvert⟩
  rw [hversion, hamount]
  refine ⟨hwindow, hin, hclient, overlaps_of_lasts hnext (hdecides.lasts ⟨amount, hconverts⟩) hoverlap,
    hconverts, fun other hother hsame hoverlap' => ?_⟩
  exact List.le_of_mem_argmax
    (mem_overlapping.mpr ⟨hother, hsame, hoverlap'.versionOverlapsCycle⟩) hlatest

/-- **Where the latest versions decide, every billable cycle is counted once.** -/
theorem countsOnce_of_countable
    (hlt : since < stop) (hcount : Countable versions settings currency snapshots since stop)
    (hwalk : walkCommittedCycles versions settings currency snapshots since stop = .ok cycles) :
    CountsOnce versions settings currency snapshots since stop cycles := by
  refine ⟨(sublist_visitedCycles hwalk).nodup (nodup_visitedCycles h), fun client start => ?_,
    fun cycle hmem => (carried_of_countable h hlt hcount hwalk hmem).2⟩
  constructor
  · rintro ⟨cycle, hmem, rfl, rfl⟩
    obtain ⟨hwindow, hin, hclient, hoverlap, hconverts, -⟩ :=
      carried_of_countable h hlt hcount hwalk hmem
    exact ⟨hwindow, cycle.version, hin, hclient, hoverlap, cycle.amount, hconverts⟩
  · rintro ⟨hwindow, hbillable⟩
    have hreached : Reached settings client since stop start := by
      by_contra hnot
      exact (hcount client start hwindow).2 hnot hbillable
    obtain ⟨version, hlatest⟩ := exists_latest_of_hasBillable hbillable
    have hdecides := (hcount client start hwindow).1 hreached version hlatest
    obtain ⟨amount, average, haverage, hconvert⟩ :
        ∃ amount, Converts currency snapshots version amount := by
      by_contra hnot
      exact hdecides.alone hnot hbillable
    obtain ⟨hin, hclient, -⟩ := mem_overlapping.mp (List.argmax_mem hlatest)
    refine ⟨_, mem_of_committedCycleAt hwalk ((mem_visitedCycles h hlt).mpr
      ⟨mem_versionClients.mpr ⟨version, hin, hclient⟩, hwindow, hreached⟩)
        (committedCycleAt_some_iff.mpr ⟨version, hlatest, average, amount, haverage, hconvert, rfl⟩),
      rfl, rfl⟩

/-- **Where every billable cycle is counted once, the latest versions decide.** -/
theorem countable_of_countsOnce
    (hlt : since < stop)
    (hwalk : walkCommittedCycles versions settings currency snapshots since stop = .ok cycles)
    (honce : CountsOnce versions settings currency snapshots since stop cycles) :
    Countable versions settings currency snapshots since stop := by
  intro client start hwindow
  constructor
  · intro hreached version hlatest
    obtain ⟨hin, hclient, -⟩ := mem_overlapping.mp (List.argmax_mem hlatest)
    have hvisit : (client, start) ∈ visitedCycles versions settings since stop :=
      (mem_visitedCycles h hlt).mpr
        ⟨mem_versionClients.mpr ⟨version, hin, hclient⟩, hwindow, hreached⟩
    obtain ⟨found, hat⟩ := (walkCommittedCycles_eq_ok.mp hwalk).1 _ hvisit
    dsimp only at hat
    refine ⟨?_, ?_, ?_⟩
    · rw [committedCycleAt_eq, hlatest] at hat
      exact chargeCycle_ok_iff.mp ⟨found, hat⟩
    · -- the cycle that is found carries the version
      rintro ⟨amount, average, haverage, hconvert⟩
      have hsome := committedCycleAt_some_iff.mpr
        ⟨version, hlatest, average, amount, haverage, hconvert, rfl⟩
      exact (honce.carried _ (mem_of_committedCycleAt hwalk hvisit hsome)).2.2.1.lasts
    · -- a cycle that is counted carries a version that converts
      rintro hnot hbillable
      obtain ⟨cycle, hmem, rfl, rfl⟩ := (honce.counted client start).mpr ⟨hwindow, hbillable⟩
      obtain ⟨-, hat'⟩ := committedCycleAt_of_mem hwalk hmem
      obtain ⟨version', hlatest', average, amount, haverage, hconvert, -⟩ :=
        committedCycleAt_some_iff.mp hat'
      rw [hlatest] at hlatest'
      obtain rfl : version = version' := Option.some.inj hlatest'
      exact hnot ⟨amount, average, haverage, hconvert⟩
  · intro hnot hbillable
    obtain ⟨cycle, hmem, rfl, rfl⟩ := (honce.counted client start).mpr ⟨hwindow, hbillable⟩
    obtain ⟨hvisit, -⟩ := committedCycleAt_of_mem hwalk hmem
    exact hnot ((mem_visitedCycles h hlt).mp hvisit).2.2

end

end Walk

/-- **The walk counts every billable cycle once, exactly when each is within reach and the latest
version of a cycle decides about it.** -/
theorem walkCommittedCycles_counts [TimezoneDatabase] [CurrencyTable] (versions : List PriceVersion)
    (settings : Table String ClientBillingMeta) (currency : String) (snapshots : Snapshots)
    (since stop : ℤ) (hlt : since < stop)
    (horder : ∀ version ∈ versions, (resetSchedule settings version.client).InOrder since stop) :
    (∀ now years, ∀ version ∈ versions, ∀ paid, paidUntil version = some paid →
        paid ≤ committedHorizon now years versions) ∧
      ((∃ cycles, walkCommittedCycles versions settings currency snapshots since stop = .ok cycles ∧
          CountsOnce versions settings currency snapshots since stop cycles) ↔
        Countable versions settings currency snapshots since stop) := by
  refine ⟨fun now years version hmem paid hpaid => le_committedHorizon now years hmem hpaid, ?_⟩
  constructor
  · rintro ⟨cycles, hwalk, honce⟩
    exact countable_of_countsOnce horder hlt hwalk honce
  · intro hcount
    obtain ⟨cycles, hwalk⟩ := exists_walk_of_countable horder hlt hcount
    exact ⟨cycles, hwalk, countsOnce_of_countable horder hlt hcount hwalk⟩

/-! ### A contract for 75 years -/

/-- A monthly price of 30 yuan from 2024 on; the contract expires in 2099. -/
def longContract : PriceVersion where
  id := 1
  client := "a"
  clientName := "a"
  region := ""
  group := ""
  priceMicros := 30000000
  currency := "CNY"
  currencyValid := true
  fxSnapshotID := none
  usdPriceMicros := none
  billingCycleDays := 30
  expiredAt := some (dayStart (monthStart (12 * 2099)))
  effectiveFrom := dayStart (monthStart (12 * 2024))
  effectiveTo := none
  source := "client_edit"

theorem inOrder_default (client : String) (since stop : ℤ) :
    @Schedule.InOrder noTimezones (@resetSchedule noTimezones ∅ client) since stop := by
  have hactive := @active_resetSchedule noTimezones ∅ client
  have hfixed := (@Schedule.loc_of_usesLegacyCycleKey noTimezones (@resetSchedule noTimezones ∅ client)
    (by show @Schedule.usesLegacyCycleKey (@fromFields noTimezones (some 1) "" "") = true
        rfl)).1
  exact @Schedule.inOrder_of_partitions noTimezones _ hactive
    ((@Schedule.partitions_iff noTimezones _ hactive).mpr
      (@Schedule.monthsInOrder_of_fixed noTimezones _ hactive _ _ hfixed)) since stop

theorem walkCommittedCycles_counts_long :
    (∃ cycles, @walkCommittedCycles noTimezones plainCurrencies [longContract] ∅ "CNY" ∅
        longContract.effectiveFrom (dayStart (monthStart (12 * 2025))) = .ok cycles ∧
      @CountsOnce noTimezones plainCurrencies [longContract] ∅ "CNY" ∅
        longContract.effectiveFrom (dayStart (monthStart (12 * 2025))) cycles) ↔
      @Countable noTimezones plainCurrencies [longContract] ∅ "CNY" ∅
        longContract.effectiveFrom (dayStart (monthStart (12 * 2025))) :=
  (@walkCommittedCycles_counts noTimezones plainCurrencies [longContract] ∅ "CNY" ∅ _ _
    (by decide) fun version _ => inOrder_default version.client _ _).2

/-- No cycle of the contract from 2044 on is counted. -/
theorem walkCommittedCycles_misses :
    ¬∃ cycles, @walkCommittedCycles noTimezones plainCurrencies [longContract] ∅ "CNY" ∅
        longContract.effectiveFrom
          (committedHorizon longContract.effectiveFrom [] [longContract]) = .ok cycles ∧
      @CountsOnce noTimezones plainCurrencies [longContract] ∅ "CNY" ∅
        longContract.effectiveFrom
          (committedHorizon longContract.effectiveFrom [] [longContract]) cycles := by
  rintro ⟨cycles, hwalk, -, hcounted, -⟩
  have hwindow : @InWindow noTimezones (@resetSchedule noTimezones ∅ "a") longContract.effectiveFrom
      (committedHorizon longContract.effectiveFrom [] [longContract])
        (dayStart (monthStart (12 * 2044))) := by
    refine @InWindow.mk noTimezones _ _ _ _ ⟨12 * 2044, ?_⟩ ?_ ?_
    · decide +kernel
    · decide +kernel
    · decide +kernel
  have hbillable : @HasBillable noTimezones plainCurrencies [longContract] ∅ "CNY" ∅ "a"
      (dayStart (monthStart (12 * 2044))) := by
    refine ⟨longContract, List.mem_singleton_self _, rfl, ⟨by decide,
      dayStart (monthStart (12 * 2044)), le_rfl, by decide +kernel, by decide +kernel, ?_, ?_⟩,
      30000000, ⟨1000000, 30000000, 360000000⟩, by decide +kernel, by decide +kernel⟩
    · rintro effectiveTo ⟨⟩
    · rintro expiredAt ⟨⟩
      decide +kernel
  obtain ⟨cycle, hmem, hclient, hstart⟩ := (hcounted _ _).mpr ⟨hwindow, hbillable⟩
  obtain ⟨hvisit, -⟩ := @committedCycleAt_of_mem noTimezones plainCurrencies _ _ _ _ _ _ _ _ hwalk hmem
  rw [hclient, hstart] at hvisit
  revert hvisit
  decide +kernel

end Billing

end Komari
