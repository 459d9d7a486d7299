import Komari.Reports.Worker
import Komari.Run.Along

/-!
# Every report is written once

* `written_once` : orderly runs write every report once.
* `overwritten_report` : a batch fails behind a dropped report, and a report is written twice.
-/

namespace Komari

namespace Reports

open Run (kept overwritten Trailing)

variable {F : Type} [MetricValue F]

/-! ### Properties -/

/-- A flush that fails leaves what was pending, apart from the batches that are done; no report is in two
rows, or dropped and in a row; after a flush that succeeds, the reports that were accepted before are
written or were dropped; the reports of a client are written in the order in which they were accepted,
with increasing times; and its rows depend on nothing but its reports. -/
structure ExactlyOnce (history : History F) (base : ReportTrafficStates) (b : Batcher F) : Prop where
  failures : ∀ f ∈ b.failures, f.before = f.consumed ++ f.after
  once : ((b.rows.map Row.source ++ b.dropped).map Accepted.number).Nodup
  known : ∀ row ∈ b.rows, b.accepted[row.source.number]? = some row.source.report
  complete : ∀ seen ∈ b.successes, ∀ (n : ℕ) (report : Report F), n < seen → b.accepted[n]? = some report →
    ⟨n, report⟩ ∈ b.rows.map Row.source ∨ ⟨n, report⟩ ∈ b.dropped
  ordered : ∀ uuid, ((rowsOf uuid b.rows).map fun row => row.source.number).Pairwise (· < ·)
  times : ∀ uuid, ((rowsOf uuid b.rows).map fun row => row.report.updatedAt).Pairwise (· < ·)
  deltas : ∀ uuid, (clientRows history (valuesOf base uuid) ((rowsOf uuid b.rows).map Row.source)).2 =
    rowsOf uuid b.rows

/-- Only reports at the end of the batch were dropped, if it fails now. -/
def FailsOrderly : WorkerPhase F → Prop
  | .filtering _ size first => size ≤ first.length → kept first ≠ [] → Trailing first
  | .writing _ _ first second => (kept first).length ≤ second.length → kept second ≠ [] →
    Trailing first ∧ Trailing second
  | _ => True

instance : (phase : WorkerPhase F) → Decidable (FailsOrderly phase)
  | .filtering _ _ _ => inferInstanceAs (Decidable (_ → _ → _))
  | .writing _ _ _ _ => inferInstanceAs (Decidable (_ → _ → _ ∧ _))
  | .idle | .draining _ _ | .batching _ _ | .stopped => inferInstanceAs (Decidable True)

/-- A batch fails only when the reports that were dropped stand at its end; and the batcher is not
flushed when a worker has ended with reports that are not written. -/
def Orderly (b : Batcher F) : BatcherOp F → Prop
  | .work ok => ok = false → FailsOrderly b.phase
  | .absent => b.gone = true → b.pending = [] ∧ b.queue = []
  | _ => True

instance (b : Batcher F) : (op : BatcherOp F) → Decidable (Orderly b op)
  | .work _ => inferInstanceAs (Decidable (_ → _))
  | .absent => inferInstanceAs (Decidable (_ → _ ∧ _))
  | .writeReport _ _ | .enqueue _ | .block _ | .unblock _ | .beginStop | .request _ | .endStop | .tick
  | .take => inferInstanceAs (Decidable True)

/-! ### The invariant -/

/-- The pending reports, and what is found in the slice while a batch is filtered. -/
def Slice (pending slice : List (Accepted F)) : WorkerPhase F → Prop
  | .filtering _ size first => first.length ≤ size ∧ size ≤ pending.length ∧
    ∃ rest, pending = first.map Prod.fst ++ rest ∧ slice = overwritten first rest
  | .writing _ size first second => first.length = size ∧
    ∃ rest left, pending = first.map Prod.fst ++ rest ∧ kept first = second.map Prod.fst ++ left ∧
      slice = overwritten second left ++ ((first.map Prod.fst).drop (kept first).length ++ rest)
  | _ => slice = pending

/-- The reports that were accepted before a flush are among those that it writes. -/
def Covered (accepted held : ℕ) : WorkerPhase F → Prop
  | .draining flush count =>
    flush.seen ≤ accepted ∧ flush.seen ≤ held + (reportBatchQueueSize - count)
  | .batching flush _ | .filtering flush _ _ | .writing flush _ _ _ => flush.seen ≤ held
  | _ => True

/-- The batches of a flush are written. -/
def Writes : WorkerPhase F → Prop
  | .batching _ _ | .filtering _ _ _ | .writing _ _ _ _ => True
  | _ => False

/-- The worker has these reports, and no others. -/
structure Held (b : Batcher F) (pending : List (Accepted F)) : Prop where
  conserved : b.accepted.mapIdx Accepted.mk = b.consumed ++ pending ++ b.queue
  slice : Slice pending b.pending b.phase
  covered : Covered b.accepted.length (b.consumed.length + pending.length) b.phase
  flushed : Writes b.phase → b.flushed = b.consumed.drop b.done ++ pending ∧ b.done ≤ b.consumed.length

/-- What was done with the reports up to now. -/
structure Fates (history : History F) (base states : ReportTrafficStates) (rows : List (Row F))
    (dropped consumed : List (Accepted F)) : Prop where
  fates : (rows.map Row.source ++ dropped).Perm consumed
  sources : (rows.map Row.source).Sublist consumed
  settled : Settled history base rows states
  same : SameClients rows

/-- Holds in every reachable state. -/
structure Sane (history : History F) (base : ReportTrafficStates) (b : Batcher F) : Prop where
  held : ∃ pending, Held b pending
  written : Fates history base b.states b.rows b.dropped b.consumed
  received : ∀ report ∈ b.accepted, report.updatedAt ≠ 0
  calls : ∀ call report, b.calls.find? call = some report → report.updatedAt ≠ 0
  queue : b.queue.length ≤ reportBatchQueueSize
  requests : ∀ flush ∈ b.requests, flush.seen ≤ b.accepted.length
  ended : b.gone = true → b.phase = .stopped
  successes : ∀ seen ∈ b.successes, seen ≤ b.consumed.length
  failures : ∀ f ∈ b.failures, f.before = f.consumed ++ f.after

/-! ### The slice of a batch -/

variable {b : Batcher F} {pending : List (Accepted F)}

omit [MetricValue F] in
theorem length_of_conserved (h : Held b pending) :
    b.accepted.length = b.consumed.length + pending.length + b.queue.length := by
  simpa [Nat.add_assoc] using congrArg List.length h.conserved

variable {flush : Flush} {size : ℕ} {first : Examined F}

variable {slice : List (Accepted F)}

omit [MetricValue F] in
theorem Slice.examine_first (h : Slice pending slice (.filtering flush size first))
    (hlt : first.length < size) : ∃ a, slice[first.length]? = some a ∧
      Slice pending slice (.filtering flush size (first ++ [(a, false)])) ∧
        Slice pending (slice.set (kept first).length a) (.filtering flush size (first ++ [(a, true)])) := by
  obtain ⟨-, hsize, rest, rfl, rfl⟩ := h
  have hlength : first.length < (first.map Prod.fst ++ rest).length := by omega
  cases rest with
  | nil => simp at hlength
  | cons a rest =>
    refine ⟨a, by rw [Run.getElem?_overwritten]; rfl, ⟨by simpa using Nat.succ_le_of_lt hlt, hsize, rest, by simp, ?_⟩,
      ⟨by simpa using Nat.succ_le_of_lt hlt, hsize, rest, by simp, ?_⟩⟩
    · rw [Run.overwritten_append_dropped]
    · rw [Run.overwritten_append_kept]

variable {second : Examined F}

omit [MetricValue F] in
/-- The second filter examines the next of the reports that the first has kept. -/
theorem Slice.examine_second (h : Slice pending slice (.writing flush size first second))
    (hlt : second.length < (kept first).length) : ∃ a, slice[second.length]? = some a ∧
      Slice pending slice (.writing flush size first (second ++ [(a, false)])) ∧
        Slice pending (slice.set (kept second).length a)
          (.writing flush size first (second ++ [(a, true)])) := by
  obtain ⟨hsize, rest, left, hpending, hkept, rfl⟩ := h
  cases left with
  | nil =>
    rw [hkept] at hlt
    simp at hlt
  | cons a left =>
    have hlength := Run.length_overwritten second (a :: left)
    have hle := Run.length_kept_le second
    rw [List.length_cons] at hlength
    refine ⟨a, ?_, ⟨hsize, rest, left, hpending, by simpa using hkept, ?_⟩,
      ⟨hsize, rest, left, hpending, by simpa using hkept, ?_⟩⟩
    · rw [List.getElem?_append_left (by omega), Run.getElem?_overwritten]
      rfl
    · rw [Run.overwritten_append_dropped]
    · rw [Run.overwritten_append_kept, List.set_append_left _ _ (by omega)]

omit [MetricValue F] in
/-- What stands behind a batch that was filtered once. -/
theorem Slice.drop_first (h : Slice pending slice (.filtering flush size first))
    (hle : size ≤ first.length) : pending = first.map Prod.fst ++ slice.drop size := by
  obtain ⟨hge, -, rest, rfl, rfl⟩ := h
  rw [Nat.le_antisymm hle hge, Run.drop_overwritten]

omit [MetricValue F] in
/-- What stands behind a batch that was filtered twice, and what was kept of it. -/
theorem Slice.drop_second (h : Slice pending slice (.writing flush size first second))
    (hle : (kept first).length ≤ second.length) : pending = first.map Prod.fst ++ slice.drop size ∧
      kept first = second.map Prod.fst ∧ slice.take (kept second).length = kept second := by
  obtain ⟨rfl, rest, left, rfl, hkept, rfl⟩ := h
  have hlength := congrArg List.length hkept
  rw [List.length_append, List.length_map] at hlength
  obtain rfl : left = [] := List.eq_nil_of_length_eq_zero (by omega)
  rw [List.append_nil] at hkept
  have hsecond := Run.length_overwritten second ([] : List (Accepted F))
  have hfirst := Run.length_kept_le first
  refine ⟨?_, hkept, ?_⟩
  · rw [← List.append_assoc, List.drop_left']
    rw [List.length_append, List.length_drop, List.length_map, hsecond, List.length_nil]
    omega
  · rw [List.take_append_of_le_length, Run.take_overwritten]
    rw [hsecond]
    exact (Run.length_kept_le second).trans (Nat.le_add_right _ _)

omit [MetricValue F] in
/-- **A batch that fails in order leaves the slice as it was.** -/
theorem Slice.restored_first
    (h : Slice pending slice (.filtering flush size first)) (hfirst : Trailing first) :
    slice = pending := by
  obtain ⟨-, -, rest, rfl, rfl⟩ := h
  exact hfirst.overwritten_eq rest

omit [MetricValue F] in
theorem Slice.restored_second (h : Slice pending slice (.writing flush size first second))
    (hfirst : Trailing first) (hsecond : Trailing second) : slice = pending := by
  obtain ⟨-, rest, left, rfl, hkept, rfl⟩ := h
  rw [hsecond.overwritten_eq, ← hkept, ← List.append_assoc]
  congr 1
  have heq := hfirst.overwritten_eq ([] : List (Accepted F))
  simpa [overwritten] using heq

/-! ### The worker -/

variable {history : History F} {base : ReportTrafficStates}

omit [MetricValue F] in
theorem slice_finish (b : Batcher F) (flush : Flush) (pending slice : List (Accepted F)) :
    Slice pending slice (b.finish flush).phase ↔ slice = pending := by
  unfold Batcher.finish
  dsimp only
  split_ifs <;> rfl

omit [MetricValue F] in
theorem covered_finish (b : Batcher F) (flush : Flush) (accepted held : ℕ) :
    Covered accepted held (b.finish flush).phase := by
  unfold Batcher.finish
  dsimp only
  split_ifs <;> trivial

omit [MetricValue F] in
theorem not_writes_finish (b : Batcher F) (flush : Flush) : ¬Writes (b.finish flush).phase := by
  unfold Batcher.finish
  dsimp only
  split_ifs <;> exact not_false

section

variable (h : Sane history base b)

include h

theorem Sane.not_gone (hphase : b.phase ≠ .stopped) :
    b.gone = true → False := fun hgone => hphase (h.ended hgone)

/-- The queue is empty, or as much was drained as it holds. -/
theorem Sane.beginBatches {count : ℕ}
    (hphase : b.phase = .draining flush count) (hend : b.queue = [] ∨ reportBatchQueueSize ≤ count) :
    Sane history base (b.beginBatches flush) := by
  obtain ⟨pending, hheld⟩ := h.held
  have hslice := hheld.slice
  obtain ⟨hseen, hroom⟩ : flush.seen ≤ b.accepted.length ∧
      flush.seen ≤ b.consumed.length + pending.length + (reportBatchQueueSize - count) := by
    have hcovered := hheld.covered
    rwa [hphase] at hcovered
  rw [hphase] at hslice
  refine { h with
    held := ⟨pending, hheld.conserved, hslice, ?_, fun _ => ?_⟩
    ended := fun hgone => (h.not_gone (by simp [hphase]) hgone).elim }
  · show flush.seen ≤ b.consumed.length + pending.length
    have hlength := length_of_conserved hheld
    rcases hend with hempty | hfull
    · rw [hempty, List.length_nil] at hlength
      omega
    · omega
  · show b.pending = b.consumed.drop b.consumed.length ++ pending ∧ b.consumed.length ≤ b.consumed.length
    rw [List.drop_length]
    exact ⟨hslice, le_rfl⟩

theorem Sane.succeed (hphase : b.phase = .batching flush size) (hempty : b.pending = []) :
    Sane history base (b.succeed flush) := by
  obtain ⟨pending, hheld⟩ := h.held
  have hslice := hheld.slice
  have hcovered := hheld.covered
  rw [hphase] at hslice hcovered
  have hpending : pending = [] := hslice.symm.trans hempty
  refine { h with
    held := ⟨pending, hheld.conserved, (slice_finish b flush _ _).mpr hslice, covered_finish b flush _ _,
      fun hwrites => absurd hwrites (not_writes_finish b flush)⟩
    ended := fun hgone => (h.not_gone (by simp [hphase]) hgone).elim
    successes := ?_ }
  refine List.forall_mem_append.mpr ⟨h.successes, List.forall_mem_singleton.mpr ?_⟩
  subst hpending
  exact hcovered

theorem Sane.fail (hwrites : Writes b.phase)
    (hrestored : ∀ pending, Held b pending → b.pending = pending) : Sane history base (b.fail flush) := by
  obtain ⟨pending, hheld⟩ := h.held
  have hslice := hrestored pending hheld
  have hphase : b.phase ≠ .stopped := fun hstopped => by
    rw [hstopped] at hwrites
    exact hwrites
  refine { h with
    held := ⟨pending, hheld.conserved, (slice_finish b flush _ _).mpr hslice, covered_finish b flush _ _,
      fun hwrites => absurd hwrites (not_writes_finish b flush)⟩
    ended := fun hgone => (h.not_gone hphase hgone).elim
    failures := ?_ }
  refine List.forall_mem_append.mpr ⟨h.failures, List.forall_mem_singleton.mpr ?_⟩
  show b.flushed = b.consumed.drop b.done ++ b.pending
  rw [hslice]
  exact (hheld.flushed hwrites).1

theorem Sane.examine {examined : Examined F}
    {phase : Examined F → WorkerPhase F} (hphase : b.phase = phase examined)
    (hwrites : ∀ examined, Writes (phase examined))
    (hcovered : ∀ accepted held examined',
      Covered accepted held (phase examined) → Covered accepted held (phase examined'))
    (hslice : ∀ pending, Slice pending b.pending (phase examined) → ∃ a,
      b.pending[examined.length]? = some a ∧ Slice pending b.pending (phase (examined ++ [(a, false)])) ∧
        Slice pending (b.pending.set (kept examined).length a) (phase (examined ++ [(a, true)]))) :
    Sane history base (b.examine examined phase) := by
  obtain ⟨pending, hheld⟩ := h.held
  have hwritesb : Writes b.phase := hphase ▸ hwrites examined
  have hcoveredb := hheld.covered
  rw [hphase] at hcoveredb
  have hnot : b.phase ≠ .stopped := fun hstopped => by
    rw [hstopped] at hwritesb
    exact hwritesb
  obtain ⟨a, ha, hdropped, hkept⟩ := hslice pending (hphase ▸ hheld.slice)
  unfold Batcher.examine
  rw [ha]
  dsimp only
  split_ifs
  · exact { h with
      held := ⟨pending, hheld.conserved, hdropped, hcovered _ _ _ hcoveredb,
        fun _ => hheld.flushed hwritesb⟩
      ended := fun hgone => (h.not_gone hnot hgone).elim }
  · exact { h with
      held := ⟨pending, hheld.conserved, hkept, hcovered _ _ _ hcoveredb,
        fun _ => hheld.flushed hwritesb⟩
      ended := fun hgone => (h.not_gone hnot hgone).elim }

end

omit [MetricValue F] in
theorem kept_append_droppedOf (examined : Examined F) :
    (kept examined ++ Batcher.droppedOf examined).Perm (examined.map Prod.fst) := by
  rw [kept, Batcher.droppedOf, ← List.map_append]
  exact (List.filter_append_perm Prod.snd examined).map Prod.fst

omit [MetricValue F] in
/-- What the second filter has examined is what the first has kept. -/
theorem fates_of_kept (h : kept first = second.map Prod.fst)
    {written : List (Row F)} (hwritten : written.map Row.source = kept second) :
    (written.map Row.source ++ (Batcher.droppedOf first ++ Batcher.droppedOf second)).Perm
      (first.map Prod.fst) := by
  have hsecond := kept_append_droppedOf second
  rw [← h, ← hwritten] at hsecond
  refine List.Perm.trans ?_ (kept_append_droppedOf first)
  refine List.Perm.trans ?_ (hsecond.append_right _)
  rw [List.append_assoc]
  exact List.Perm.append_left _ List.perm_append_comm

/-- **A batch is done**: its reports are written or were dropped. -/
theorem Sane.consume (h : Sane history base b)
    {written : List (Row F)} {states : ReportTrafficStates} (hwrites : Writes b.phase)
    (hdone : ∀ pending, Held b pending → flush.seen ≤ b.consumed.length + pending.length ∧
      pending = first.map Prod.fst ++ b.pending.drop size)
    (hfates : (written.map Row.source ++ (Batcher.droppedOf first ++ Batcher.droppedOf second)).Perm
      (first.map Prod.fst))
    (hsources : (written.map Row.source).Sublist (first.map Prod.fst))
    (hsettled : Settled history base (b.rows ++ written) states) (hsame : SameClients written) :
    Sane history base
      { b.consume flush size first second with states := states, rows := b.rows ++ written } := by
  obtain ⟨pending, hheld⟩ := h.held
  obtain ⟨hseen, hpending⟩ := hdone pending hheld
  obtain ⟨hflushed, hle⟩ := hheld.flushed hwrites
  have hnot : b.phase ≠ .stopped := fun hstopped => by
    rw [hstopped] at hwrites
    exact hwrites
  have hlength := congrArg List.length hpending
  rw [List.length_append] at hlength
  refine { h with
    held := ⟨b.pending.drop size, ?_, rfl, ?_, fun _ => ⟨?_, ?_⟩⟩
    written := ⟨?_, ?_, hsettled, ?_⟩
    ended := fun hgone => (h.not_gone hnot hgone).elim
    successes := fun seen hmem => ?_ }
  · show b.accepted.mapIdx Accepted.mk = b.consumed ++ first.map Prod.fst ++ b.pending.drop size ++ b.queue
    rw [hheld.conserved, List.append_assoc b.consumed (first.map Prod.fst), ← hpending]
  · show flush.seen ≤ (b.consumed ++ first.map Prod.fst).length + (b.pending.drop size).length
    rw [List.length_append]
    omega
  · show b.flushed = (b.consumed ++ first.map Prod.fst).drop b.done ++ b.pending.drop size
    rw [List.drop_append_of_le_length hle, List.append_assoc, ← hpending, hflushed]
  · show b.done ≤ (b.consumed ++ first.map Prod.fst).length
    rw [List.length_append]
    omega
  · show ((b.rows ++ written).map Row.source ++ (b.dropped ++ Batcher.droppedOf first ++
      Batcher.droppedOf second)).Perm (b.consumed ++ first.map Prod.fst)
    refine List.Perm.trans ?_ (h.written.fates.append hfates)
    -- what is written and what was dropped before change places
    simp only [List.map_append, List.append_assoc]
    exact List.Perm.append_left _ (List.perm_append_comm_assoc _ _ _)
  · show ((b.rows ++ written).map Row.source).Sublist (b.consumed ++ first.map Prod.fst)
    rw [List.map_append]
    exact h.written.sources.append hsources
  · exact List.forall_mem_append.mpr ⟨h.written.same, hsame⟩
  · show seen ≤ (b.consumed ++ first.map Prod.fst).length
    rw [List.length_append]
    exact (h.successes seen hmem).trans (Nat.le_add_right _ _)

omit [MetricValue F] in
/-- The reports of a batch that is examined stay covered. -/
theorem covered_of_held (hheld : Held b pending)
    (hphase : (∃ size first, b.phase = .filtering flush size first) ∨
      ∃ size first second, b.phase = .writing flush size first second) :
    flush.seen ≤ b.consumed.length + pending.length := by
  have hcovered := hheld.covered
  rcases hphase with ⟨size, first, hphase⟩ | ⟨size, first, second, hphase⟩
  · rwa [hphase] at hcovered
  · rwa [hphase] at hcovered

section

variable (h : Sane history base b)

include h

/-- A batch is done of which no report was kept. -/
theorem Sane.skip (hwrites : Writes b.phase)
    (hdone : ∀ pending, Held b pending → flush.seen ≤ b.consumed.length + pending.length ∧
      pending = first.map Prod.fst ++ b.pending.drop size)
    (hfates : (Batcher.droppedOf first ++ Batcher.droppedOf second).Perm (first.map Prod.fst)) :
    Sane history base (b.consume flush size first second) := by
  have hconsumed : Sane history base
      { b.consume flush size first second with states := b.states, rows := b.rows ++ [] } :=
    h.consume hwrites hdone hfates (List.nil_sublist _) (by rw [List.append_nil]; exact h.written.settled)
      (fun row hrow => by cases hrow)
  rwa [List.append_nil] at hconsumed

/-- A report is taken from the queue. -/
theorem Sane.drain {count : ℕ} {a : Accepted F}
    {queue : List (Accepted F)} (hphase : b.phase = .draining flush count) (hqueue : b.queue = a :: queue) :
    Sane history base
      { b with queue := queue, pending := b.pending ++ [a], phase := .draining flush (count + 1) } := by
  obtain ⟨pending, hheld⟩ := h.held
  have hslice := hheld.slice
  obtain ⟨hseen, hroom⟩ : flush.seen ≤ b.accepted.length ∧
      flush.seen ≤ b.consumed.length + pending.length + (reportBatchQueueSize - count) := by
    have hcovered := hheld.covered
    rwa [hphase] at hcovered
  have hbound := h.queue
  rw [hqueue, List.length_cons] at hbound
  rw [hphase] at hslice
  refine { h with
    held := ⟨pending ++ [a], ?_, ?_, ⟨hseen, ?_⟩, fun hwrites => hwrites.elim⟩
    queue := Nat.le_of_succ_le hbound
    ended := fun hgone => (h.not_gone (by simp [hphase]) hgone).elim }
  · show b.accepted.mapIdx Accepted.mk = b.consumed ++ (pending ++ [a]) ++ queue
    rw [hheld.conserved, hqueue]
    simp
  · exact congrArg (· ++ [a]) hslice
  · show flush.seen ≤ b.consumed.length + (pending ++ [a]).length + (reportBatchQueueSize - (count + 1))
    rw [List.length_append, List.length_singleton]
    omega

/-- The first filter begins. -/
theorem Sane.beginFilter (hphase : b.phase = .batching flush size) :
    Sane history base { b with phase := .filtering flush (min size b.pending.length) [] } := by
  obtain ⟨pending, hheld⟩ := h.held
  have hslice := hheld.slice
  have hcovered := hheld.covered
  have hflushed := hheld.flushed (by rw [hphase]; trivial)
  rw [hphase] at hslice hcovered
  exact { h with
    held := ⟨pending, hheld.conserved, ⟨Nat.zero_le _, hslice ▸ min_le_right _ _, pending, rfl, hslice⟩,
      hcovered, fun _ => hflushed⟩
    ended := fun hgone => (h.not_gone (by simp [hphase]) hgone).elim }

/-- The second filter begins. -/
theorem Sane.beginWrite
    (hphase : b.phase = .filtering flush size first) (hexamined : size ≤ first.length) :
    Sane history base { b with phase := .writing flush size first [] } := by
  obtain ⟨pending, hheld⟩ := h.held
  have hslice := hheld.slice
  have hcovered := hheld.covered
  have hflushed := hheld.flushed (by rw [hphase]; trivial)
  rw [hphase] at hslice hcovered
  obtain ⟨hle, hsize, rest, hpending, hoverwritten⟩ := hslice
  exact { h with
    held := ⟨pending, hheld.conserved, ⟨Nat.le_antisymm hle hexamined, rest, kept first,
      hpending, rfl, hoverwritten.trans (List.append_assoc _ _ _)⟩, hcovered, fun _ => hflushed⟩
    ended := fun hgone => (h.not_gone (by simp [hphase]) hgone).elim }

/-- The batch is written. -/
theorem Sane.write
    (hphase : b.phase = .writing flush size first second) (hexamined : (kept first).length ≤ second.length) :
    Sane history base
      { b.consume flush size first second with
        states := (prepareBatch history b.rows b.states (b.pending.take (kept second).length)).1,
        rows := b.rows ++ (prepareBatch history b.rows b.states (b.pending.take (kept second).length)).2 } := by
  obtain ⟨pending, hheld⟩ := h.held
  obtain ⟨-, hkept, htake⟩ := Slice.drop_second (hphase ▸ hheld.slice) hexamined
  have hsources := prepareBatch_source history b.rows b.states (kept second)
  have hbefore : Settled history base (b.rows ++ []) b.states := by
    rw [List.append_nil]
    exact h.written.settled
  have hsettled := hbefore.prepareBatch h.written.same (kept second)
  rw [List.append_nil] at hsettled
  rw [htake]
  refine h.consume (by rw [hphase]; trivial)
    (fun pending hheld => ⟨covered_of_held hheld (Or.inr ⟨size, first, second, hphase⟩),
      (Slice.drop_second (hphase ▸ hheld.slice) hexamined).1⟩)
    (fates_of_kept hkept hsources) ?_ hsettled (prepareBatch_sameClients history b.rows b.states _)
  rw [hsources]
  exact (Run.kept_sublist second).trans (hkept ▸ Run.kept_sublist first)

/-- **The worker goes on.** -/
theorem Sane.work {ok : Bool}
    (horderly : ok = false → FailsOrderly b.phase) : Sane history base (b.work history ok) := by
  unfold Batcher.work
  cases hphase : b.phase with
  | idle => exact h
  | stopped => exact h
  | draining flush count =>
    dsimp only
    cases hqueue : b.queue with
    | nil => exact h.beginBatches hphase (Or.inl hqueue)
    | cons a queue =>
      dsimp only
      split_ifs with hfull
      · exact h.beginBatches hphase (Or.inr hfull)
      · exact h.drain hphase hqueue
  | batching flush size =>
    dsimp only
    split_ifs with hempty
    · exact h.succeed hphase hempty
    · exact h.beginFilter hphase
  | filtering flush size first =>
    dsimp only
    have hwrites : Writes b.phase := by rw [hphase]; trivial
    split_ifs with hlt hnone hok
    · exact h.examine hphase (fun _ => trivial) (fun _ _ _ hcovered => hcovered)
        fun pending hslice => hslice.examine_first hlt
    · exact h.skip hwrites
        (fun pending hheld => ⟨covered_of_held hheld (Or.inl ⟨size, first, hphase⟩),
          Slice.drop_first (hphase ▸ hheld.slice) (Nat.le_of_not_lt hlt)⟩)
        (by simpa [hnone, Batcher.droppedOf] using kept_append_droppedOf first)
    · exact h.beginWrite hphase (Nat.le_of_not_lt hlt)
    · refine h.fail hwrites fun pending hheld => ?_
      have hfirst := horderly (Bool.not_eq_true ok ▸ hok)
      rw [hphase] at hfirst
      exact Slice.restored_first (hphase ▸ hheld.slice) (hfirst (Nat.le_of_not_lt hlt) hnone)
  | writing flush size first second =>
    dsimp only
    have hwrites : Writes b.phase := by rw [hphase]; trivial
    split_ifs with hlt hnone hok
    · exact h.examine hphase (fun _ => trivial) (fun _ _ _ hcovered => hcovered)
        fun pending hslice => hslice.examine_second hlt
    · -- no report of the batch was kept by the second filter
      obtain ⟨pending, hheld⟩ := h.held
      have hkept := (Slice.drop_second (hphase ▸ hheld.slice) (Nat.le_of_not_lt hlt)).2.1
      exact h.skip hwrites
        (fun pending hheld => ⟨covered_of_held hheld (Or.inr ⟨size, first, second, hphase⟩),
          (Slice.drop_second (hphase ▸ hheld.slice) (Nat.le_of_not_lt hlt)).1⟩)
        (@fates_of_kept F first second hkept [] (by rw [hnone]; rfl))
    · exact h.write hphase (Nat.le_of_not_lt hlt)
    · refine h.fail hwrites fun pending hheld => ?_
      have hordered := horderly (Bool.not_eq_true ok ▸ hok)
      rw [hphase] at hordered
      obtain ⟨hfirst, hsecond⟩ := hordered (Nat.le_of_not_lt hlt) hnone
      exact Slice.restored_second (hphase ▸ hheld.slice) hfirst hsecond

end

omit [MetricValue F] in
theorem covered_append {accepted held : ℕ} {phase : WorkerPhase F} (h : Covered accepted held phase) :
    Covered (accepted + 1) held phase := by
  cases phase with
  | draining flush count => exact ⟨h.1.trans (Nat.le_succ _), h.2⟩
  | _ => exact h

section

variable (h : Sane history base b)

include h

/-- A report comes into the queue, unless it is refused. -/
theorem Sane.enqueue (call : ℕ) : Sane history base (BatcherOp.step history b (.enqueue call)) := by
  obtain ⟨pending, hheld⟩ := h.held
  unfold BatcherOp.step
  dsimp only
  cases hcall : b.calls.find? call with
  | none => exact h
  | some report =>
    dsimp only
    have hcalls : ∀ call' report', (b.calls.deleteWhere fun call' _ => call' = call).find? call' =
        some report' → report'.updatedAt ≠ 0 := by
      intro call' report' hcall'
      rw [Table.find?_deleteWhere, Option.filter_eq_some_iff] at hcall'
      exact h.calls call' report' hcall'.1
    split_ifs with hrefused
    · exact { h with
        held := ⟨pending, hheld.conserved, hheld.slice, hheld.covered, hheld.flushed⟩
        calls := hcalls }
    · refine { h with
        held := ⟨pending, ?_, hheld.slice, ?_, hheld.flushed⟩
        calls := hcalls
        received := List.forall_mem_append.mpr ⟨h.received, List.forall_mem_singleton.mpr
          (h.calls call report hcall)⟩
        queue := ?_
        requests := fun flush hflush => ?_ }
      · show (b.accepted ++ [report]).mapIdx Accepted.mk =
          b.consumed ++ pending ++ (b.queue ++ [⟨b.accepted.length, report⟩])
        rw [List.mapIdx_concat, hheld.conserved, List.append_assoc]
      · show Covered (b.accepted ++ [report]).length (b.consumed.length + pending.length) b.phase
        rw [List.length_append, List.length_singleton]
        exact covered_append hheld.covered
      · show (b.queue ++ [_]).length ≤ _
        rw [List.length_append, List.length_singleton]
        exact Nat.lt_of_not_le (not_or.mp hrefused).2
      · show flush.seen ≤ (b.accepted ++ [report]).length
        rw [List.length_append]
        exact (h.requests flush hflush).trans (Nat.le_add_right _ _)

/-- There is no worker: it has left nothing behind. -/
theorem Sane.absent (horderly : Orderly b .absent) :
    Sane history base (BatcherOp.step history b (.absent)) := by
  obtain ⟨pending, hheld⟩ := h.held
  unfold BatcherOp.step
  dsimp only
  split_ifs with hgone
  · refine { h with
      held := ⟨pending, hheld.conserved, hheld.slice, hheld.covered, hheld.flushed⟩
      successes := List.forall_mem_append.mpr ⟨h.successes, List.forall_mem_singleton.mpr ?_⟩ }
    -- the worker has left nothing behind
    obtain ⟨hpending, hqueue⟩ := horderly hgone
    have hslice := hheld.slice
    rw [h.ended hgone] at hslice
    have hlength := length_of_conserved hheld
    rw [← show b.pending = pending from hslice, hpending, hqueue] at hlength
    exact hlength.le
  · exact h

/-- A flush begins at a tick. -/
theorem Sane.tick : Sane history base (BatcherOp.step history b (.tick)) := by
  obtain ⟨pending, hheld⟩ := h.held
  unfold BatcherOp.step
  dsimp only
  have hslice := hheld.slice
  have hlength := length_of_conserved hheld
  have hbound := h.queue
  cases hphase : b.phase with
  | idle =>
    rw [hphase] at hslice
    refine { h with
      held := ⟨pending, hheld.conserved, hslice, ⟨le_rfl, ?_⟩, fun hwrites => hwrites.elim⟩
      ended := fun hgone => (h.not_gone (by simp [hphase]) hgone).elim }
    show b.accepted.length ≤ b.consumed.length + pending.length + (reportBatchQueueSize - 0)
    omega
  | _ => exact h

/-- A flush begins at a request. -/
theorem Sane.take : Sane history base (BatcherOp.step history b (.take)) := by
  obtain ⟨pending, hheld⟩ := h.held
  unfold BatcherOp.step
  dsimp only
  have hslice := hheld.slice
  have hlength := length_of_conserved hheld
  have hbound := h.queue
  cases hphase : b.phase with
  | idle =>
    cases hrequests : b.requests with
    | nil => exact h
    | cons flush requests =>
      obtain ⟨hflush, hothers⟩ := List.forall_mem_cons.mp (hrequests ▸ h.requests)
      rw [hphase] at hslice
      refine { h with
        held := ⟨pending, hheld.conserved, hslice, ⟨hflush, ?_⟩, fun hwrites => hwrites.elim⟩
        requests := hothers
        ended := fun hgone => (h.not_gone (by simp [hphase]) hgone).elim }
      show flush.seen ≤ b.consumed.length + pending.length + (reportBatchQueueSize - 0)
      omega
  | _ => exact h

/-- **Every step keeps the run sane.** -/
theorem Sane.step {op : BatcherOp F} (horderly : Orderly b op) :
    Sane history base (op.step history b) := by
  obtain ⟨pending, hheld⟩ := h.held
  unfold BatcherOp.step
  cases op with
  | writeReport call report =>
    dsimp only
    split_ifs with hrefused
    · exact h
    · refine { h with
        held := ⟨pending, hheld.conserved, hheld.slice, hheld.covered, hheld.flushed⟩
        calls := fun call' report' hcall => ?_ }
      dsimp only at hcall
      rw [Table.find?_upsert] at hcall
      split_ifs at hcall
      · obtain rfl := Option.some.inj hcall
        exact fun hzero => hrefused (Or.inr (Or.inl hzero))
      · exact h.calls call' report' hcall
  | enqueue call => exact h.enqueue call
  | block uuid =>
    dsimp only
    split_ifs
    · exact h
    · exact { h with held := ⟨pending, hheld.conserved, hheld.slice, hheld.covered, hheld.flushed⟩ }
  | unblock uuid =>
    exact { h with held := ⟨pending, hheld.conserved, hheld.slice, hheld.covered, hheld.flushed⟩ }
  | beginStop =>
    dsimp only
    split_ifs
    · exact h
    · exact { h with held := ⟨pending, hheld.conserved, hheld.slice, hheld.covered, hheld.flushed⟩ }
  | request stop =>
    dsimp only
    split_ifs
    · exact h
    · exact { h with
        held := ⟨pending, hheld.conserved, hheld.slice, hheld.covered, hheld.flushed⟩
        requests := List.forall_mem_singleton.mpr le_rfl }
  | endStop =>
    dsimp only
    have hslice := hheld.slice
    cases hphase : b.phase with
    | stopped =>
      rw [hphase] at hslice
      exact { h with
        held := ⟨pending, hheld.conserved, hslice, trivial, fun hwrites => hwrites.elim⟩
        ended := fun _ => rfl }
    | _ => exact h
  | absent => exact h.absent horderly
  | tick => exact h.tick
  | take => exact h.take
  | work ok => exact h.work horderly

end

/-! ### Runs -/

omit [MetricValue F] in
theorem numbers_mapIdx (accepted : List (Report F)) :
    (accepted.mapIdx Accepted.mk).map Accepted.number = List.range accepted.length := by
  apply List.ext_getElem
  · simp
  · intro i hi hi'
    simp

/-- **The writes of a sane run.** -/
theorem Sane.exactlyOnce (h : Sane history base b) : ExactlyOnce history base b := by
  obtain ⟨pending, hheld⟩ := h.held
  have hbegins : b.consumed <+: b.accepted.mapIdx Accepted.mk := by
    rw [hheld.conserved, List.append_assoc]
    exact List.prefix_append _ _
  have hnumbers : (b.consumed.map Accepted.number).Pairwise (· < ·) := by
    have hrange := List.pairwise_lt_range (n := b.accepted.length)
    rw [← numbers_mapIdx] at hrange
    exact hrange.sublist (hbegins.sublist.map _)
  have hknown : ∀ row ∈ b.rows, b.accepted[row.source.number]? = some row.source.report := by
    intro row hrow
    have hmem := hbegins.subset (h.written.sources.subset (List.mem_map_of_mem hrow))
    obtain ⟨i, hi, heq⟩ := List.getElem_of_mem hmem
    rw [List.getElem_mapIdx] at heq
    rw [← heq]
    exact List.getElem?_eq_getElem _
  refine ⟨h.failures, ?_, hknown, fun seen hseen n report hlt hreport => ?_, fun uuid => ?_, fun uuid => ?_,
    fun uuid => congrArg Prod.snd (h.written.settled uuid)⟩
  · rw [(h.written.fates.map Accepted.number).nodup_iff]
    exact hnumbers.imp fun hlt => hlt.ne
  · -- the report is among those of the batches that are done
    have hdone : n < b.consumed.length := hlt.trans_le (h.successes seen hseen)
    have hget : (b.accepted.mapIdx Accepted.mk)[n]? = some ⟨n, report⟩ := by
      rw [List.getElem?_mapIdx, hreport]
      rfl
    rw [hheld.conserved, List.append_assoc, List.getElem?_append_left hdone] at hget
    exact List.mem_append.mp (h.written.fates.mem_iff.mpr (List.mem_of_getElem? hget))
  · have hsublist : ((rowsOf uuid b.rows).map Row.source).Sublist b.consumed :=
      (List.filter_sublist.map Row.source).trans h.written.sources
    simpa [Function.comp_def] using hnumbers.sublist (hsublist.map Accepted.number)
  · have hreceived : ∀ a ∈ (rowsOf uuid b.rows).map Row.source, a.report.updatedAt ≠ 0 := by
      intro a ha
      obtain ⟨row, hrow, rfl⟩ := List.mem_map.mp ha
      exact h.received _ (List.mem_of_getElem? (hknown row (List.mem_of_mem_filter hrow)))
    have htimes := (@clientRows_spec F _ history (valuesOf base uuid) _ hreceived).1
    rwa [h.written.settled uuid] at htimes

theorem sane_start (history : History F) (base : ReportTrafficStates) :
    Sane history base (Batcher.start base) := by
  refine ⟨⟨[], rfl, rfl, trivial, fun hwrites => hwrites.elim⟩, ⟨List.Perm.refl _, List.Sublist.refl _,
    fun uuid => rfl, ?_⟩, ?_, ?_, Nat.zero_le _, ?_, ?_, ?_, ?_⟩
  · exact fun row hrow => by cases hrow
  · exact fun report hreport => by cases hreport
  · exact fun call report hcall => by cases hcall
  · exact fun flush hflush => by cases hflush
  · exact fun hgone => by cases hgone
  · exact fun seen hseen => by cases hseen
  · exact fun f hf => by cases hf

/-- **Every report is written exactly once**, in every order of the steps, when batches fail in order and
no worker has ended with reports that are not written. -/
theorem written_once (history : History F) (base : ReportTrafficStates) {ops : List (BatcherOp F)}
    (horderly : Run.Along (BatcherOp.step history) Orderly (Batcher.start base) ops) :
    ExactlyOnce history base (ops.foldl (BatcherOp.step history) (Batcher.start base)) := by
  have hsane : Sane history base (ops.foldl (BatcherOp.step history) (Batcher.start base)) :=
    horderly.invariant (fun _ _ h hgood => h.step hgood) (sane_start history base)
  exact hsane.exactlyOnce

/-! ### Runs of two clients -/

@[reducible] instance : MetricValue ℤ := ⟨id, id⟩

/-- A report of a counter. -/
def counterReport (uuid : String) (updatedAt : ℕ) (total : ℤ) : Report ℤ :=
  ⟨uuid, updatedAt, 0, 0, 0, 0, 0, ⟨0, 0, total, total⟩, 0, 0, 0, none⟩

/-- The worker takes what there is, and one batch of three reports is filtered. -/
def batchOps : List (BatcherOp ℤ) :=
  [.writeReport 0 (counterReport "b" 1 10), .enqueue 0, .writeReport 0 (counterReport "a" 2 20), .enqueue 0,
    .writeReport 0 (counterReport "a" 3 25), .enqueue 0, .request false, .take] ++
    List.replicate 5 (.work true)

/-- The first write fails, and a second flush writes all. -/
def retriedOps : List (BatcherOp ℤ) :=
  batchOps ++ List.replicate 7 (.work true) ++ [.work false, .tick] ++ List.replicate 20 (.work true)

def noHistory : History ℤ := fun _ _ _ => none

theorem written_once_retried :
    ((retriedOps.foldl (BatcherOp.step noHistory) (.start ∅)).rows.map fun row =>
      (row.source.number, row.trafficUp)) = [(0, 0), (1, 0), (2, 5)] ∧
    ExactlyOnce noHistory ∅ (retriedOps.foldl (BatcherOp.step noHistory) (.start ∅)) :=
  ⟨by decide +kernel, written_once noHistory ∅ (by decide +kernel)⟩

/-- A client is blocked while its report is first in the batch, and the write fails. -/
def overwrittenOps : List (BatcherOp ℤ) :=
  batchOps ++ [.block "b"] ++ List.replicate 6 (.work true) ++ [.work false, .unblock "b", .tick] ++
    List.replicate 20 (.work true)

/-- **The report of the client that was blocked is gone, and another one is written twice.** -/
theorem overwritten_report :
    ((overwrittenOps.foldl (BatcherOp.step noHistory) (.start ∅)).rows.map fun row =>
      row.source.number) = [1, 2, 2] ∧
    (overwrittenOps.foldl (BatcherOp.step noHistory) (.start ∅)).failures.map
      (fun f => (f.before.map Accepted.number, f.after.map Accepted.number)) = [([0, 1, 2], [1, 2, 2])] ∧
    ¬ExactlyOnce noHistory ∅ (overwrittenOps.foldl (BatcherOp.step noHistory) (.start ∅)) := by
  have hnumbers : ((overwrittenOps.foldl (BatcherOp.step noHistory) (.start ∅)).rows.map fun row =>
      row.source.number) = [1, 2, 2] := by decide +kernel
  refine ⟨hnumbers, by decide +kernel, fun honce => ?_⟩
  have hnodup := honce.once
  rw [List.map_append] at hnodup
  have hrows := hnodup.of_append_left
  rw [List.map_map] at hrows
  simp only [Function.comp_def, hnumbers] at hrows
  exact absurd hrows (by decide)

end Reports

end Komari
