import Komari.Block.Point
import Komari.Codec.Result
import Komari.Table.Keys
import Mathlib.Data.Multiset.AddSub

/-!
# Removing expired points

Points before a cutoff are removed in batches.  A batch is a budget that all series of a metric share:
the blocks that end before the cutoff, the block that contains the cutoff, which is written again with
the points that are kept, and the hot rows each take from it.
-/

namespace Komari

namespace Block

/-! ### Stored points -/

/-- A row of the hot points, but for its key `ts_nano`. -/
structure HotPoint where
  valueBits : UInt64
  labels : List UInt8
  createdAt : Int64
deriving DecidableEq

/-- The point in a hot row of its own. -/
def BlockPoint.row (p : BlockPoint) : ℤ × HotPoint :=
  (p.timestamp.toInt, ⟨p.valueBits, p.labels, p.createdAt⟩)

/-- The stored points of a series. -/
structure PointSeries where
  /-- The blocks by `start_nano`, each with the axis that it refers to. -/
  blocks : Table ℤ EncodedBlock
  /-- The hot rows by `ts_nano`. -/
  hot : Table ℤ HotPoint

/-- `sqliteV4BlockPointLimit`. -/
def sqliteV4BlockPointLimit : ℕ := 512

section Batch

variable (flate : Flate) (crc32 : List UInt8 → UInt32)

/-- A block, checked and decoded. -/
def decodeSQLitePointBlockFromStorage (block : EncodedBlock) : Except String (List BlockPoint) :=
  decodeSQLiteStoredPointBlock flate crc32 block.codec block.count block.checksum block.payload
    block.axisCodec block.axisChecksum block.axisPayload

/-- One block of `writeSQLiteV4BlocksTx`: it is encoded, decoded again and inserted under a new key. -/
def insertPointBlock (blocks : Table ℤ EncodedBlock) (points : List BlockPoint) :
    Except String (Table ℤ EncodedBlock) := do
  let encoded ← encodeSQLiteV6SharedPointBlock flate crc32 points
  match decodeSQLitePointBlockFromStorage flate crc32 encoded with
  | .error e => .error ("metric: validate SQLite V4 point block: " ++ e)
  | .ok decoded =>
    if points ≠ decoded then
      .error "metric: validate SQLite V4 point block: round-trip validation changed data"
    else if (blocks.find? encoded.startNano.toInt).isSome then .error "UNIQUE constraint failed"
    else .ok (blocks.upsert encoded.startNano.toInt encoded)

/-- `writeSQLiteV4BlocksTx`. -/
def writeSQLiteV4BlocksTx (blocks : Table ℤ EncodedBlock) (points : List BlockPoint) :
    Except String (Table ℤ EncodedBlock) :=
  (chunks sqliteV4BlockPointLimit (sortPoints points)).foldlM (insertPointBlock flate crc32) blocks

variable (beforeNano limit : ℤ)

/-- The blocks that end before the cutoff. -/
def completeBlocks (s : PointSeries) : List (ℤ × EncodedBlock) :=
  s.blocks.select fun _ block => decide (block.endNano.toInt < beforeNano)

/-- The block that the cutoff is in. -/
def boundaryBlock (s : PointSeries) : Option (ℤ × EncodedBlock) :=
  (s.blocks.select fun start block =>
    decide (start < beforeNano ∧ beforeNano ≤ block.endNano.toInt)).head?

/-- The hot points before the cutoff. -/
def expiredRows (s : PointSeries) : List (ℤ × HotPoint) :=
  s.hot.select fun ts _ => decide (ts < beforeNano)

/-- `LIMIT remaining`, if there is a positive limit. -/
def limited {α : Type} (remaining : ℤ) (rows : List α) : List α :=
  if 0 < limit then rows.take remaining.toNat else rows

/-- What a batch has deleted, and what remains of its budget. -/
structure Budget where
  deleted : ℤ
  remaining : ℤ

/-- The complete blocks of a series are deleted without decoding them. -/
def deleteCompleteBlocks (budget : Budget) (s : PointSeries) : Budget × PointSeries :=
  let blocks := limited limit budget.remaining (completeBlocks beforeNano s)
  (⟨budget.deleted + (blocks.map fun r => r.2.count).sum, budget.remaining - blocks.length⟩,
    { s with blocks := s.blocks.deleteKeys (blocks.map Prod.fst) })

/-- The boundary block of a series is written again without its expired points. -/
def rewriteBoundaryBlock (budget : Budget) (s : PointSeries) : Except String (Budget × PointSeries) :=
  match boundaryBlock beforeNano s with
  | none => .ok (budget, s)
  | some (start, block) => do
    let points ← decodeSQLitePointBlockFromStorage flate crc32 block
    let expired := points.filter fun p => decide (p.timestamp.toInt < beforeNano)
    let kept := points.filter fun p => !decide (p.timestamp.toInt < beforeNano)
    let blocks ← writeSQLiteV4BlocksTx flate crc32 (s.blocks.erase start) kept
    let remaining := if 0 < limit then budget.remaining - 1 else budget.remaining
    return (⟨budget.deleted + expired.length, remaining⟩, { s with blocks := blocks })

/-- The expired hot rows of a series are deleted. -/
def deleteExpiredRows (budget : Budget) (s : PointSeries) : Budget × PointSeries :=
  let rows := limited limit budget.remaining (expiredRows beforeNano s)
  let remaining := if 0 < limit then budget.remaining - rows.length else budget.remaining
  (⟨budget.deleted + rows.length, remaining⟩, { s with hot := s.hot.deleteKeys (rows.map Prod.fst) })

/-- The loop of `deleteSQLiteV4PointsBatchTx` over the series. -/
def deleteFromSeries (budget : Budget) : List PointSeries → Except String (ℤ × List PointSeries)
  | [] => .ok (budget.deleted, [])
  | s :: rest =>
    if limit ≠ 0 ∧ budget.remaining ≤ 0 then .ok (budget.deleted, s :: rest)
    else
      let (budget, s) := if limit ≠ 0 then deleteCompleteBlocks beforeNano limit budget s else (budget, s)
      if limit ≠ 0 ∧ budget.remaining ≤ 0 then .ok (budget.deleted, s :: rest)
      else do
        let (budget, s) ← rewriteBoundaryBlock flate crc32 beforeNano limit budget s
        let (budget, s) := deleteExpiredRows beforeNano limit budget s
        let (deleted, rest) ← deleteFromSeries budget rest
        return (deleted, s :: rest)

/-- `sqliteV4SeriesHasPointsForDelete`. -/
def sqliteV4SeriesHasPointsForDelete (s : PointSeries) : Bool :=
  (s.blocks.rows.any fun r => decide (r.2.endNano.toInt < beforeNano)) ||
    s.hot.rows.any fun r => decide (r.1 < beforeNano)

/-- `deleteSQLiteV4PointsBatchTx` on the series that the filter matches: the deleted points, whether the
batch is complete, and the series after it. -/
def deleteSQLiteV4PointsBatchTx (series : List PointSeries) :
    Except String (ℤ × Bool × List PointSeries) := do
  let (deleted, series) ← deleteFromSeries flate crc32 beforeNano limit ⟨0, limit⟩ series
  let pending := series.any (sqliteV4SeriesHasPointsForDelete beforeNano)
  return (deleted, !pending, series)

/-! ### Clean batches -/

/-- The points that a block decodes to. -/
def blockRows (block : EncodedBlock) : List (ℤ × HotPoint) :=
  match decodeSQLitePointBlockFromStorage flate crc32 block with
  | .ok points => points.map BlockPoint.row
  | .error _ => []

/-- The stored points of a series, those of the blocks first. -/
def PointSeries.stored (s : PointSeries) : List (ℤ × HotPoint) :=
  (s.blocks.rows.flatMap fun r => blockRows flate crc32 r.2) ++ s.hot.rows

/-- A batch removes only expired points, returns their number, and is complete only if no expired point
is left. -/
structure Cleans (series after : List PointSeries) (deleted : ℤ) (complete : Bool) : Prop where
  complete : complete = true →
    ∀ s ∈ after, ∀ r ∈ s.stored flate crc32, beforeNano ≤ r.1
  removed : List.Forall₂ (fun s s' =>
    (s'.stored flate crc32 : Multiset (ℤ × HotPoint)) ≤ s.stored flate crc32 ∧
      ∀ r ∈ (s.stored flate crc32 : Multiset (ℤ × HotPoint)) - s'.stored flate crc32,
        r.1 < beforeNano) series after
  count : deleted = (series.map fun s => ((s.stored flate crc32).length : ℤ)).sum -
    (after.map fun s => ((s.stored flate crc32).length : ℤ)).sum

/-- What takes from the budget of a batch. -/
inductive WorkItem
  /-- A block that ends before the cutoff. -/
  | complete
  /-- The block that contains the cutoff. -/
  | boundary
  /-- A hot row before the cutoff. -/
  | row
deriving DecidableEq

/-- The items of a series, in the order in which a batch takes them. -/
def workItems (s : PointSeries) : List WorkItem :=
  (completeBlocks beforeNano s).map (fun _ => .complete) ++
    (boundaryBlock beforeNano s).toList.map (fun _ => .boundary) ++
      (expiredRows beforeNano s).map fun _ => .row

/-- Behind the items that the budget covers there are blocks that contain the cutoff, and nothing else. -/
def OnlyBoundaries (series : List PointSeries) : Prop :=
  (series.flatMap (workItems beforeNano)).drop limit.toNat ≠ [] ∧
    ∀ item ∈ (series.flatMap (workItems beforeNano)).drop limit.toNat, item = .boundary

/-- The block decodes to what its row says. -/
structure StoredAs (start : ℤ) (block : EncodedBlock) (points : List BlockPoint) : Prop where
  decode : decodeSQLitePointBlockFromStorage flate crc32 block = .ok points
  ascending : Ascending (points.map BlockPoint.row)
  span : KeysSpan start block.endNano.toInt (points.map BlockPoint.row)
  count : block.count = points.length

/-- Every block decodes to what its row says, and the blocks are pairwise disjoint. -/
structure WellStored (blocks : Table ℤ EncodedBlock) : Prop where
  block : ∀ start block, blocks.find? start = some block →
    ∃ points, StoredAs flate crc32 start block points
  disjoint : ∀ start start' block block', blocks.find? start = some block →
    blocks.find? start' = some block' → start ≠ start' →
      Disjoint (Set.Icc start block.endNano.toInt) (Set.Icc start' block'.endNano.toInt)

end Batch

end Block

end Komari
