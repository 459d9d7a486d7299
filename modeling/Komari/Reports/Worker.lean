import Komari.Reports.Prepare
import Komari.Run.InPlace

/-!
# The report writer

`WriteReport` puts reports into a queue.  One worker takes them from there, at a tick or at a request,
and writes them in batches; a batch is filtered in place, twice, and what a write leaves stays pending.

Every report of a batch is a step of its own, since entities are blocked and unblocked at any time.
-/

namespace Komari

namespace Reports

open Run (kept overwritten Trailing)

def reportBatchQueueSize : ℕ := 4096

def reportBatchMaxReports : ℕ := 64

/-- A request, or a tick of the worker itself. -/
structure Flush where
  stop : Bool
  seen : ℕ
deriving DecidableEq

/-- The reports of a batch that were examined, with the answers. -/
abbrev Examined (F : Type) := List (Accepted F × Bool)

/-- Where the worker is. -/
inductive WorkerPhase (F : Type)
  | idle
  /-- `drainReportQueue`, with so many reports taken -/
  | draining (flush : Flush) (count : ℕ)
  /-- The loop of `writePendingReports`. -/
  | batching (flush : Flush) (size : ℕ)
  /-- The first filter of `writeReportBatch`, and the wait for the store behind it. -/
  | filtering (flush : Flush) (size : ℕ) (first : Examined F)
  /-- The second filter, and the write behind it. -/
  | writing (flush : Flush) (size : ℕ) (first second : Examined F)
  | stopped
deriving DecidableEq

/-- A batch that was not written. -/
structure Failure (F : Type) where
  /-- What was pending when the first batch began. -/
  before : List (Accepted F)
  consumed : List (Accepted F)
  after : List (Accepted F)
deriving DecidableEq

/-- The report writer and its callers. -/
structure Batcher (F : Type) where
  /-- `deletionGuards` -/
  blocked : List String
  /-- `reportTrafficStates` -/
  states : ReportTrafficStates
  /-- `WriteReport` calls that passed the guard. -/
  calls : Table ℕ (Report F)
  queue : List (Accepted F)
  stopping : Bool
  requests : List Flush
  pending : List (Accepted F)
  phase : WorkerPhase F
  /-- `reportBatcher` is nil again. -/
  gone : Bool
  accepted : List (Report F)
  /-- The rows of the store, in the order in which they were written. -/
  rows : List (Row F)
  /-- The reports of the batches that are done. -/
  consumed : List (Accepted F)
  /-- Those of them whose entity was blocked. -/
  dropped : List (Accepted F)
  /-- What was pending when the flush began to write. -/
  flushed : List (Accepted F)
  /-- What was done when the flush began to write. -/
  done : ℕ
  failures : List (Failure F)
  /-- Flushes that have succeeded: so many reports had been accepted before. -/
  successes : List ℕ

/-- A section of a call, or a step of the worker. -/
inductive BatcherOp (F : Type)
  /-- `WriteReport` passes its checks. -/
  | writeReport (call : ℕ) (report : Report F)
  | enqueue (call : ℕ)
  /-- `BlockEntityWrites` -/
  | block (uuid : String)
  /-- `UnblockEntityWrites` -/
  | unblock (uuid : String)
  /-- `StopReportBatcher` begins. -/
  | beginStop
  /-- `FlushReportBatch` or `StopReportBatcher` sends its request. -/
  | request (stop : Bool)
  /-- `StopReportBatcher` has its answer. -/
  | endStop
  /-- `FlushReportBatch` or `StopReportBatcher`, when there is no worker. -/
  | absent
  | tick
  /-- The worker takes a request. -/
  | take
  /-- The worker goes on; the store is there, or the write succeeds, as `ok` says. -/
  | work (ok : Bool)
deriving DecidableEq

namespace Batcher

variable {F : Type}

/-- No report was accepted. -/
def start (states : ReportTrafficStates) : Batcher F :=
  { blocked := [], states := states, calls := ∅, queue := [], stopping := false, requests := [],
    pending := [], phase := .idle, gone := false, accepted := [], rows := [], consumed := [],
    dropped := [], flushed := [], done := 0, failures := [], successes := [] }

/-- A flush is over. -/
def finish (b : Batcher F) (flush : Flush) : Batcher F :=
  { b with phase := if flush.stop then .stopped else .idle }

/-- All batches of a flush are written. -/
def succeed (b : Batcher F) (flush : Flush) : Batcher F :=
  { b.finish flush with successes := b.successes ++ [flush.seen] }

/-- A batch of a flush is not written. -/
def fail (b : Batcher F) (flush : Flush) : Batcher F :=
  { b.finish flush with
    failures := b.failures ++ [⟨b.flushed, b.consumed.drop b.done, b.pending⟩] }

/-- The queue is drained; the reports are written in batches. -/
def beginBatches (b : Batcher F) (flush : Flush) : Batcher F :=
  { b with
    phase := .batching flush (min b.pending.length reportBatchMaxReports),
    flushed := b.pending,
    done := b.consumed.length }

/-- A report of a batch is examined: it stays in the batch unless its entity is blocked.  The others
behind it are examined later. -/
def examine (b : Batcher F) (examined : Examined F) (phase : Examined F → WorkerPhase F) : Batcher F :=
  match b.pending[examined.length]? with
  | none => b
  | some a =>
    if a.report.uuid ∈ b.blocked then { b with phase := phase (examined ++ [(a, false)]) }
    else
      { b with
        pending := b.pending.set (kept examined).length a,
        phase := phase (examined ++ [(a, true)]) }

/-- The reports of a filter whose entities were blocked. -/
def droppedOf (examined : Examined F) : List (Accepted F) :=
  (examined.filter fun x => !x.2).map Prod.fst

/-- The batch leaves the pending reports. -/
def consume (b : Batcher F) (flush : Flush) (size : ℕ) (first second : Examined F) : Batcher F :=
  { b with
    pending := b.pending.drop size,
    phase := .batching flush size,
    consumed := b.consumed ++ first.map Prod.fst,
    dropped := b.dropped ++ droppedOf first ++ droppedOf second }

/-- One step of the worker. -/
def work [MetricValue F] (history : History F) (b : Batcher F) (ok : Bool) : Batcher F :=
  match b.phase with
  | .idle | .stopped => b
  | .draining flush count =>
    match b.queue with
    | [] => b.beginBatches flush
    | a :: queue =>
      if reportBatchQueueSize ≤ count then b.beginBatches flush
      else
        { b with queue := queue, pending := b.pending ++ [a], phase := .draining flush (count + 1) }
  | .batching flush size =>
    if b.pending = [] then b.succeed flush
    else { b with phase := .filtering flush (min size b.pending.length) [] }
  | .filtering flush size first =>
    if first.length < size then b.examine first (.filtering flush size)
    else if kept first = [] then b.consume flush size first []
    else if ok then { b with phase := .writing flush size first [] }
    else b.fail flush
  | .writing flush size first second =>
    if second.length < (kept first).length then b.examine second (.writing flush size first)
    else if kept second = [] then b.consume flush size first second
    else if ok then
      let (states, prepared) :=
        prepareBatch history b.rows b.states (b.pending.take (kept second).length)
      { b.consume flush size first second with states := states, rows := b.rows ++ prepared }
    else b.fail flush

end Batcher

/-- The steps of the callers and of the worker, in any order. -/
def BatcherOp.step {F : Type} [MetricValue F] (history : History F) (b : Batcher F) :
    BatcherOp F → Batcher F
  | .writeReport call report =>
    if report.uuid = "" ∨ report.updatedAt = 0 ∨ report.uuid ∈ b.blocked ∨ b.gone = true then b
    else { b with calls := b.calls.upsert call report }
  | .enqueue call =>
    match b.calls.find? call with
    | none => b
    | some report =>
      let b := { b with calls := b.calls.deleteWhere fun call' _ => call' = call }
      if b.stopping = true ∨ reportBatchQueueSize ≤ b.queue.length then b
      else
        { b with
          queue := b.queue ++ [⟨b.accepted.length, report⟩],
          accepted := b.accepted ++ [report] }
  | .block uuid => if uuid = "" then b else { b with blocked := uuid :: b.blocked }
  | .unblock uuid => { b with blocked := b.blocked.filter fun uuid' => decide (uuid' ≠ uuid) }
  | .beginStop => if b.gone then b else { b with stopping := true }
  | .request stop =>
    if b.gone = true ∨ b.requests ≠ [] ∨ (stop = true ∧ b.stopping = false) then b
    else { b with requests := [⟨stop, b.accepted.length⟩] }
  | .endStop =>
    match b.phase with
    | .stopped => { b with gone := true }
    | _ => b
  | .absent => if b.gone then { b with successes := b.successes ++ [b.accepted.length] } else b
  | .tick =>
    match b.phase with
    | .idle => { b with phase := .draining ⟨false, b.accepted.length⟩ 0 }
    | _ => b
  | .take =>
    match b.phase, b.requests with
    | .idle, flush :: requests => { b with phase := .draining flush 0, requests := requests }
    | _, _ => b
  | .work ok => b.work history ok

end Reports

end Komari
