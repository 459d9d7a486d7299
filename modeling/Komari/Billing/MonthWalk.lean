import Komari.Billing.Once
import Komari.Billing.Views

/-!
# The committed cycles of a month

The views walk over committed cycles from different starts, with exchange rates that they loaded in
different ways.
-/

namespace Komari

namespace Billing

open Calendar TrafficReset
open Traffic (beijingDay dayStart)

/-! ### Exchange rates -/

theorem convertLockedMicros_congr [CurrencyTable] {version : PriceVersion} {snapshots snapshots' : Snapshots}
    (h : ∀ id, version.fxSnapshotID = some id → snapshots.find? id = snapshots'.find? id)
    (amount : ℤ) (currency : String) : convertLockedMicros amount version currency snapshots =
      convertLockedMicros amount version currency snapshots' := by
  have hbind : version.fxSnapshotID.bind snapshots.find? = version.fxSnapshotID.bind snapshots'.find? :=
    Option.bind_congr h
  unfold convertLockedMicros
  rw [hbind]

section Walks

variable [TimezoneDatabase] [CurrencyTable]

/-- **Only the rates of the versions matter.** -/
theorem walkCommittedCycles_congr {versions : List PriceVersion}
    {settings : Table String ClientBillingMeta} {snapshots snapshots' : Snapshots} {since stop : ℤ}
    (h : ∀ version ∈ versions, ∀ id, version.fxSnapshotID = some id →
      snapshots.find? id = snapshots'.find? id) (currency : String) :
    walkCommittedCycles versions settings currency snapshots since stop =
      walkCommittedCycles versions settings currency snapshots' since stop := by
  have hcharge : ∀ version ∈ versions, ∀ client start stop,
      chargeCycle currency snapshots version client start stop =
        chargeCycle currency snapshots' version client start stop := by
    intro version hmem client start stop
    unfold chargeCycle
    simp only [convertLockedMicros_congr (h version hmem)]
  have hat : ∀ client start, committedCycleAt versions settings currency snapshots client start =
      committedCycleAt versions settings currency snapshots' client start := by
    intro client start
    rw [committedCycleAt_eq, committedCycleAt_eq]
    cases hlatest : (overlapping versions client start
        ((resetSchedule settings client).next start)).argmax PriceVersion.rank with
    | none => rfl
    | some version => exact hcharge version (mem_overlapping.mp (List.argmax_mem hlatest)).1 _ _ _
  unfold walkCommittedCycles
  simp only [hat]

/-! ### Starts of walks -/

/-- The walk goes in order, and fewer than 240 resets lie before those of the month. -/
structure WalksThrough (settings : Table String ClientBillingMeta) (since stop month : ℤ) : Prop where
  inOrder : ∀ client, (resetSchedule settings client).InOrder since stop
  reached : ∀ client start, InWindow (resetSchedule settings client) since stop start →
    monthOfDay (beijingDay start) = month → Reached settings client since stop start

variable {versions : List PriceVersion} {settings : Table String ClientBillingMeta}
  {currency : String} {snapshots : Snapshots} {since since' stop month : ℤ}
  {cycles cycles' : List CommittedCycle}

theorem nodup_of_walk (hin : ∀ client, (resetSchedule settings client).InOrder since stop)
    (h : walkCommittedCycles versions settings currency snapshots since stop = .ok cycles) :
    cycles.Nodup :=
  ((nodup_visitedCycles fun version _ => hin version.client).sublist (sublist_visitedCycles h)).of_map _

/-- The cycles of a month that a walk finds are those of the window. -/
theorem mem_month_cycles (hwalk : WalksThrough settings since stop month) (hlt : since < stop)
    (h : walkCommittedCycles versions settings currency snapshots since stop = .ok cycles)
    {cycle : CommittedCycle} (hmonth : monthOfDay (beijingDay cycle.start) = month) :
    cycle ∈ cycles ↔ cycle.client ∈ versionClients versions ∧
      InWindow (resetSchedule settings cycle.client) since stop cycle.start ∧
        committedCycleAt versions settings currency snapshots cycle.client cycle.start =
          .ok (some cycle) := by
  constructor
  · intro hmem
    obtain ⟨hvisit, hat⟩ := committedCycleAt_of_mem h hmem
    obtain ⟨hclient, hwindow, -⟩ := (mem_visitedCycles (fun version _ => hwalk.inOrder version.client) hlt).mp hvisit
    exact ⟨hclient, hwindow, hat⟩
  · rintro ⟨hclient, hwindow, hat⟩
    exact mem_of_committedCycleAt h ((mem_visitedCycles (fun version _ => hwalk.inOrder version.client) hlt).mpr
      ⟨hclient, hwindow, hwalk.reached _ _ hwindow hmonth⟩) hat

/-- **Walks from different starts find the same cycles of a month.** -/
theorem perm_month_cycles (hle : since ≤ since') (hlt : since' < stop)
    (hfrom : ∀ version ∈ versions, since' ≤ version.effectiveFrom)
    (hwalk : WalksThrough settings since stop month) (hwalk' : WalksThrough settings since' stop month)
    (h : walkCommittedCycles versions settings currency snapshots since stop = .ok cycles)
    (h' : walkCommittedCycles versions settings currency snapshots since' stop = .ok cycles') :
    (cycles.filter fun cycle => monthOfDay (beijingDay cycle.start) = month).Perm
      (cycles'.filter fun cycle => monthOfDay (beijingDay cycle.start) = month) := by
  refine (List.perm_ext_iff_of_nodup ((nodup_of_walk hwalk.inOrder h).filter _)
    ((nodup_of_walk hwalk'.inOrder h').filter _)).mpr fun cycle => ?_
  rw [List.mem_filter, List.mem_filter]
  refine and_congr_left fun hmonth => ?_
  have hmonth : monthOfDay (beijingDay cycle.start) = month := by simpa using hmonth
  rw [mem_month_cycles hwalk (hle.trans_lt hlt) h hmonth, mem_month_cycles hwalk' hlt h' hmonth]
  refine and_congr_right fun _ => and_congr_left fun hat => ?_
  constructor
  · rintro ⟨hreset, hbefore, -⟩
    refine ⟨hreset, hbefore, ?_⟩
    -- the version of the cycle takes effect before the cycle ends
    obtain ⟨version, hlatest, -⟩ := committedCycleAt_some_iff.mp hat
    obtain ⟨hmem, -, hoverlap⟩ := mem_overlapping.mp (List.argmax_mem hlatest)
    obtain ⟨-, heffective, -⟩ := versionOverlapsCycle_iff.mp hoverlap
    exact (hfrom version hmem).trans_lt heffective
  · rintro ⟨hreset, hbefore, hafter⟩
    exact ⟨hreset, hbefore, hle.trans_lt hafter⟩

end Walks

end Billing

end Komari
