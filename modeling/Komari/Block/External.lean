import Komari.Block.Carry
import Komari.Block.Expiry
import Komari.TrafficReset.Schedule

/-!
# Point blocks of an external database

MySQL and PostgreSQL keep recent points as hot rows of all series in one table.  Rows that have become
old are moved into blocks of the first format, a series at a time, and points before a cutoff are
deleted from blocks and rows.
-/

namespace Komari

namespace Block

open TrafficReset

/-! ### The store -/

/-- The unique key of a series. -/
structure SeriesName where
  metricName : String
  entityID : String
  tagsHash : String
deriving DecidableEq

/-- The points of an external database. -/
structure ExternalStore where
  /-- The series, in the order of their ids. -/
  series : List SeriesName
  /-- A series has one id. -/
  nodup : series.Nodup
  /-- The blocks of each series by `start_nano`. -/
  blocks : SeriesName → Table ℤ EncodedBlock
  /-- The hot rows by series and `ts_nano`. -/
  points : Table (SeriesName × Int64) HotPoint

namespace ExternalStore

/-- The store with other blocks of a series. -/
def setBlocks (s : ExternalStore) (name : SeriesName) (blocks : Table ℤ EncodedBlock) : ExternalStore :=
  { s with blocks := Function.update s.blocks name blocks }

/-- `SELECT ... ORDER BY ts_nano` on the hot rows. -/
def hotRows (s : ExternalStore) (p : SeriesName → Int64 → Bool) :
    List ((SeriesName × Int64) × HotPoint) :=
  sortOn (fun r => r.1.2.toInt) (s.points.rows.filter fun r => p r.1.1 r.1.2)

/-- `matchingExternalPointSeries` for a metric; a blank name matches every series. -/
def matchingExternalPointSeries (s : ExternalStore) (metricName : String) : List SeriesName :=
  if trimSpace metricName = "" then s.series
  else s.series.filter fun name => decide (name.metricName = metricName)

/-- `externalSeriesID`: a series gets the next id when it is new. -/
def externalSeriesID (s : ExternalStore) (name : SeriesName) : ExternalStore :=
  if h : name ∈ s.series then s
  else { s with
    series := s.series ++ [name]
    nodup := s.nodup.append (List.nodup_singleton name) (List.disjoint_singleton.mpr h) }

end ExternalStore

/-- A row as a point of a block. -/
def HotPoint.point (row : HotPoint) (timestamp : Int64) : BlockPoint :=
  ⟨timestamp, row.valueBits, row.labels, row.createdAt⟩

/-- One call seals so many points. -/
def externalSealPointLimit : ℕ := sqliteV4BlockPointLimit * 16

section External

variable (flate : Flate) (crc32 : List UInt8 → UInt32)

/-- The block in a row, decoded by `decodeSQLiteV4Block`. -/
def decodeExternalBlock (block : EncodedBlock) : Except String (List BlockPoint) :=
  decodeSQLiteV4Block flate crc32 block.codec block.count block.checksum block.payload

/-! ### Writing blocks -/

/-- One block of `writeExternalBlocks`: it is encoded, decoded again and upserted. -/
def insertExternalBlock (blocks : Table ℤ EncodedBlock) (points : List BlockPoint) :
    Except String (Table ℤ EncodedBlock) := do
  let encoded ← encodeSQLiteV4Block flate crc32 points
  let decoded ← decodeExternalBlock flate crc32 encoded
  if points ≠ decoded then .error "point block round-trip validation changed data"
  else .ok (blocks.upsert encoded.startNano.toInt encoded)

/-- The blocks of a series that meet an interval. -/
def overlappingBlocks (blocks : Table ℤ EncodedBlock) (first last : Int64) : List (ℤ × EncodedBlock) :=
  blocks.rows.filter fun r => decide (first.toInt ≤ r.2.endNano.toInt ∧ r.1 ≤ last.toInt)

/-- Points by their timestamps, each overriding an earlier one. -/
def byTimestamp (points : List BlockPoint) : Table Int64 BlockPoint :=
  (∅ : Table Int64 BlockPoint).upsertAll (points.map fun p => (p.timestamp, p))

/-- `writeExternalBlocks`: the points are merged into the blocks that they overlap, which are deleted and
written again in pieces. -/
def writeExternalBlocks (blocks : Table ℤ EncodedBlock) (points : List BlockPoint) :
    Except String (Table ℤ EncodedBlock) :=
  match (sortPoints points).head?, (sortPoints points).getLast? with
  | some first, some last => do
    let overlapping := overlappingBlocks blocks first.timestamp last.timestamp
    let decoded ← overlapping.mapM fun r => decodeExternalBlock flate crc32 r.2
    let merged := sortPoints ((byTimestamp (decoded.flatten ++ sortPoints points)).rows.map Prod.snd)
    (chunks sqliteV4BlockPointLimit merged).foldlM (insertExternalBlock flate crc32)
      (blocks.deleteKeys (overlapping.map Prod.fst))
  | _, _ => .ok blocks

/-! ### Sealing -/

/-- `sealExternalPointBlocks`: the oldest hot rows of the series with the oldest one become blocks. -/
def sealExternalPointBlocks (metricName : String) (beforeNano : ℤ) (s : ExternalStore) :
    Except String (ℤ × ExternalStore) :=
  match (s.hotRows fun name ts => decide (name.metricName = metricName ∧ ts.toInt < beforeNano)).head? with
  | none => .ok (0, s)
  | some ((item, _), _) =>
    let s := s.externalSeriesID item
    let rows := (s.hotRows fun name ts => decide (name = item ∧ ts.toInt < beforeNano)).take
      externalSealPointLimit
    let points := rows.map fun r => r.2.point r.1.2
    match points.head?, points.getLast? with
    | some first, some last => do
      let sealed := fun (key : SeriesName × Int64) => decide (key.1 = item ∧
        first.timestamp.toInt ≤ key.2.toInt ∧ key.2.toInt ≤ last.timestamp.toInt)
      let blocks ← writeExternalBlocks flate crc32 (s.blocks item) points
      let deleted := (s.points.rows.filter fun r => sealed r.1).length
      if deleted ≠ points.length then
        .error ("metric: external seal selected " ++ toString points.length ++ " points but deleted " ++
          toString deleted)
      else
        .ok (deleted, { s.setBlocks item blocks with
          points := s.points.deleteWhere fun key _ => sealed key })
    | _, _ => .ok (0, s)

/-! ### Deleting -/

section Delete

variable (metricName : String) (beforeNano limit : ℤ)

/-- The blocks of a series that begin before the cutoff are written again without their expired points. -/
def deleteExternalBlocksBefore (blocks : Table ℤ EncodedBlock) :
    Except String (ℤ × Table ℤ EncodedBlock) := do
  let old := blocks.rows.filter fun r => decide (r.1 < beforeNano)
  let decoded ← old.mapM fun r => decodeExternalBlock flate crc32 r.2
  let expired := decoded.flatten.filter fun p => decide (p.timestamp.toInt < beforeNano)
  let kept := decoded.flatten.filter fun p => !decide (p.timestamp.toInt < beforeNano)
  let blocks ← writeExternalBlocks flate crc32 (blocks.deleteKeys (old.map Prod.fst)) kept
  return (expired.length, blocks)

/-- The loop of `deleteExternalPointsBeforeTx` over the series. -/
def deleteEachBefore (deleted : ℤ) (s : ExternalStore) :
    List SeriesName → Except String (ℤ × ExternalStore)
  | [] => .ok (deleted, s)
  | name :: rest => do
    let (count, blocks) ← deleteExternalBlocksBefore flate crc32 beforeNano (s.blocks name)
    deleteEachBefore (deleted + count) (s.setBlocks name blocks) rest

/-- A hot row of the metric before the cutoff. -/
def expiredRow (key : SeriesName × Int64) : Bool :=
  decide (key.1.metricName = metricName ∧ key.2.toInt < beforeNano)

/-- All expired points are deleted. -/
def deleteExternalPointsBeforeTx (s : ExternalStore) : Except String (ℤ × ExternalStore) := do
  let (deleted, s) ← deleteEachBefore flate crc32 beforeNano 0 s (s.matchingExternalPointSeries metricName)
  let rows := s.points.rows.filter fun r => expiredRow metricName beforeNano r.1
  return (deleted + rows.length,
    { s with points := s.points.deleteWhere fun key _ => expiredRow metricName beforeNano key })

/-! ### Deleting in batches -/

/-- One item less, if there is a positive limit. -/
def Budget.spend (budget : Budget) (deleted items : ℤ) : Budget :=
  ⟨budget.deleted + deleted, if 0 < limit then budget.remaining - items else budget.remaining⟩

/-- The complete blocks of a series are deleted without decoding them. -/
def deleteCompleteExternalBlocks (budget : Budget) (blocks : Table ℤ EncodedBlock) :
    Budget × Table ℤ EncodedBlock :=
  let complete := limited limit budget.remaining
    (blocks.select fun _ block => decide (block.endNano.toInt < beforeNano))
  (budget.spend limit (complete.map fun r => r.2.count).sum complete.length,
    blocks.deleteKeys (complete.map Prod.fst))

/-- The boundary block of a series is written again without its expired points. -/
def rewriteExternalBoundary (budget : Budget) (blocks : Table ℤ EncodedBlock) :
    Except String (Budget × Table ℤ EncodedBlock) :=
  match (blocks.select fun start block =>
      decide (start < beforeNano ∧ beforeNano ≤ block.endNano.toInt)).head? with
  | none => .ok (budget, blocks)
  | some (start, block) => do
    let points ← decodeExternalBlock flate crc32 block
    let expired := points.filter fun p => decide (p.timestamp.toInt < beforeNano)
    let kept := points.filter fun p => !decide (p.timestamp.toInt < beforeNano)
    let blocks ← writeExternalBlocks flate crc32 (blocks.erase start) kept
    return (budget.spend limit expired.length 1, blocks)

/-- The expired hot rows of the metric, the oldest first. -/
def expiredExternalRows (s : ExternalStore) : List ((SeriesName × Int64) × HotPoint) :=
  s.hotRows fun name ts => expiredRow metricName beforeNano (name, ts)

/-- The expired hot rows of the metric are deleted, whatever their series. -/
def deleteExternalRows (budget : Budget) (s : ExternalStore) : Budget × ExternalStore :=
  let hotLimit := if budget.remaining ≤ 0 then 2 ^ 31 - 1 else budget.remaining
  let rows := (expiredExternalRows metricName beforeNano s).take hotLimit.toNat
  (budget.spend limit rows.length rows.length,
    { s with points := s.points.deleteKeys (rows.map Prod.fst) })

/-- The loop of `deleteExternalPointsBeforeBatchTx` over the series. -/
def deleteFromExternalSeries (budget : Budget) (s : ExternalStore) :
    List SeriesName → Except String (ℤ × ExternalStore)
  | [] => .ok (budget.deleted, s)
  | name :: rest =>
    if 0 < limit ∧ budget.remaining ≤ 0 then .ok (budget.deleted, s)
    else
      let (budget, blocks) := deleteCompleteExternalBlocks beforeNano limit budget (s.blocks name)
      let s := s.setBlocks name blocks
      if 0 < limit ∧ budget.remaining ≤ 0 then .ok (budget.deleted, s)
      else do
        let (budget, blocks) ← rewriteExternalBoundary flate crc32 beforeNano limit budget (s.blocks name)
        let s := s.setBlocks name blocks
        if 0 < limit ∧ budget.remaining ≤ 0 then .ok (budget.deleted, s)
        else
          let (budget, s) := deleteExternalRows metricName beforeNano limit budget s
          deleteFromExternalSeries budget s rest

/-- Whether a block of the metric ends before the cutoff. -/
def blockPending (s : ExternalStore) : Bool :=
  s.series.any fun name => decide (name.metricName = metricName) &&
    (s.blocks name).rows.any fun r => decide (r.2.endNano.toInt < beforeNano)

/-- Whether a hot row of the metric lies before the cutoff. -/
def rowPending (s : ExternalStore) : Bool :=
  s.points.rows.any fun r => expiredRow metricName beforeNano r.1

/-- `deleteExternalPointsBeforeBatchTx`: the deleted points, whether the cleanup is complete, and the
store after the batch. -/
def deleteExternalPointsBeforeBatchTx (s : ExternalStore) : Except String (ℤ × Bool × ExternalStore) := do
  let (deleted, s) ← deleteFromExternalSeries flate crc32 metricName beforeNano limit ⟨0, limit⟩ s
    (s.matchingExternalPointSeries metricName)
  if blockPending metricName beforeNano s then return (deleted, false, s)
  else return (deleted, !rowPending metricName beforeNano s, s)

end Delete

/-! ### Reading -/

/-- The data of a point, but for its timestamp. -/
def BlockPoint.data (p : BlockPoint) : HotPoint := ⟨p.valueBits, p.labels, p.createdAt⟩

/-- The points of some blocks of a series that lie in a window are collected. -/
def collectBlocks (lo hi : ℤ) (name : SeriesName) (stored : Table (SeriesName × Int64) HotPoint) :
    List (ℤ × EncodedBlock) → Except String (Table (SeriesName × Int64) HotPoint)
  | [] => .ok stored
  | (start, block) :: rest =>
    match decodeExternalBlock flate crc32 block with
    | .error e => .error ("metric: decode external point block: " ++ e)
    | .ok points =>
      if (points.head?.map fun p => p.timestamp.toInt) ≠ some start ∨
          (points.getLast?.map fun p => p.timestamp.toInt) ≠ some block.endNano.toInt then
        .error "metric: external point block boundary mismatch"
      else
        let inWindow := points.filter fun p => decide (lo ≤ p.timestamp.toInt ∧ p.timestamp.toInt ≤ hi)
        collectBlocks lo hi name (stored.upsertAll (inWindow.map fun p => ((name, p.timestamp), p.data)))
          rest

/-- The points of the blocks of some series. -/
def collectSeries (lo hi : ℤ) (s : ExternalStore) (stored : Table (SeriesName × Int64) HotPoint) :
    List SeriesName → Except String (Table (SeriesName × Int64) HotPoint)
  | [] => .ok stored
  | name :: rest => do
    let blocks := (s.blocks name).rows.filter fun r => decide (lo ≤ r.2.endNano.toInt ∧ r.1 ≤ hi)
    let stored ← collectBlocks flate crc32 lo hi name stored blocks
    collectSeries lo hi s stored rest

/-- The points of a metric in a window that `queryExternalPointBlocks` collects before it sorts them: those
of the blocks, overridden by the hot rows. -/
def storedExternalPoints (metricName : String) (lo hi : ℤ) (s : ExternalStore) :
    Except String (Table (SeriesName × Int64) HotPoint) := do
  let stored ← collectSeries flate crc32 lo hi s ∅ (s.matchingExternalPointSeries metricName)
  return stored.upsertAll (s.points.rows.filter fun r =>
    decide (r.1.1.metricName = metricName ∧ lo ≤ r.1.2.toInt ∧ r.1.2.toInt ≤ hi))

/-! ### Logical points -/

/-- The point of the blocks of a series at an instant. -/
def blockPoint (blocks : Table ℤ EncodedBlock) (ts : Int64) : Option HotPoint :=
  ((blocks.rows.flatMap fun r => blockRows flate crc32 r.2).find? fun r => r.1 = ts.toInt).map Prod.snd

/-- The point of a series at an instant: that of a hot row, or else that of the blocks. -/
def logicalPoint (s : ExternalStore) (name : SeriesName) (ts : Int64) : Option HotPoint :=
  (s.points.find? (name, ts)).or (blockPoint flate crc32 (s.blocks name) ts)

/-- Every block decodes to what its row says, the blocks of a series are pairwise disjoint, and only series
with an id have blocks. -/
structure ExternalStore.Consistent (s : ExternalStore) : Prop where
  wellStored : ∀ name, WellStored flate crc32 (s.blocks name)
  codec : ∀ name start block, (s.blocks name).find? start = some block →
    block.codec = sqliteV4BlockCodec
  listed : ∀ name, name ∉ s.series → s.blocks name = ∅

/-- No block has more points than a piece. -/
def ExternalStore.Small (s : ExternalStore) : Prop :=
  ∀ name start block, (s.blocks name).find? start = some block → block.count ≤ sqliteV4BlockPointLimit

/-- A series of the metric has a point before the cutoff, in a block or in a hot row. -/
def ExternalStore.HasExpired (metricName : String) (beforeNano : ℤ) (s : ExternalStore) : Prop :=
  ∃ name ts, name.metricName = metricName ∧ ts.toInt < beforeNano ∧
    (logicalPoint flate crc32 s name ts).isSome

/-- The number of points of the metric in blocks and in hot rows. -/
def storedCount (metricName : String) (s : ExternalStore) : ℤ :=
  ((s.matchingExternalPointSeries metricName).map fun name =>
      (((s.blocks name).rows.flatMap fun r => blockRows flate crc32 r.2).length : ℤ)).sum +
    (s.points.rows.filter fun r => decide (r.1.1.metricName = metricName)).length

/-- Some batches, none of which is complete, lead from one store to another. -/
def Incomplete (metricName : String) (beforeNano limit : ℤ) : ℕ → ExternalStore → ExternalStore → Prop
  | 0, s, s' => s = s'
  | k + 1, s, s' => ∃ deleted mid,
    deleteExternalPointsBeforeBatchTx flate crc32 metricName beforeNano limit s = .ok (deleted, false, mid) ∧
      Incomplete metricName beforeNano limit k mid s'

/-- Sealing keeps the points, deletion removes those before the cutoff, and batches clean up: they keep the
other points, say that they are complete only when nothing is left, delete a point when there is one, and
come to an end. -/
structure KeepsAndCleans (metricName : String) (beforeNano limit : ℤ) (s : ExternalStore) : Prop where
  sealed : ∀ sealBefore count s',
    sealExternalPointBlocks flate crc32 metricName sealBefore s = .ok (count, s') →
      (∀ name ts, logicalPoint flate crc32 s' name ts = logicalPoint flate crc32 s name ts) ∧
        s'.Consistent flate crc32 ∧ (s.Small → s'.Small)
  deletedBefore : ∀ count s',
    deleteExternalPointsBeforeTx flate crc32 metricName beforeNano s = .ok (count, s') →
      ∀ name ts, logicalPoint flate crc32 s' name ts =
        if name.metricName = metricName ∧ ts.toInt < beforeNano then none
        else logicalPoint flate crc32 s name ts
  keeps : ∀ deleted complete s',
    deleteExternalPointsBeforeBatchTx flate crc32 metricName beforeNano limit s =
        .ok (deleted, complete, s') →
      ∀ name ts, beforeNano ≤ ts.toInt ∨ name.metricName ≠ metricName →
        logicalPoint flate crc32 s' name ts = logicalPoint flate crc32 s name ts
  complete : ∀ deleted s',
    deleteExternalPointsBeforeBatchTx flate crc32 metricName beforeNano limit s = .ok (deleted, true, s') →
      ¬s'.HasExpired flate crc32 metricName beforeNano
  progress : ∀ deleted complete s',
    deleteExternalPointsBeforeBatchTx flate crc32 metricName beforeNano limit s =
        .ok (deleted, complete, s') →
      s.HasExpired flate crc32 metricName beforeNano →
        1 ≤ deleted ∧ deleted = storedCount flate crc32 metricName s - storedCount flate crc32 metricName s'
  terminates : ∃ bound, ∀ k s', Incomplete flate crc32 metricName beforeNano limit k s s' → k ≤ bound

end External

/-! ### Where a batch goes wrong -/

/-- The items of the blocks of a series. -/
def blockItems (beforeNano : ℤ) (blocks : Table ℤ EncodedBlock) : List WorkItem :=
  workItems beforeNano ⟨blocks, ∅⟩

/-- The items of a metric, in the order in which a batch takes them: the hot rows of all its series come
after the blocks of the first one. -/
def externalItems (metricName : String) (beforeNano : ℤ) (s : ExternalStore) :
    List SeriesName → List WorkItem
  | [] => []
  | name :: rest => blockItems beforeNano (s.blocks name) ++
      ((expiredExternalRows metricName beforeNano s).map fun _ => .row) ++
        rest.flatMap fun name => blockItems beforeNano (s.blocks name)

/-- The metric has no series with an id, but it has expired hot rows. -/
def NeverSealed (metricName : String) (beforeNano : ℤ) (s : ExternalStore) : Prop :=
  s.matchingExternalPointSeries metricName = [] ∧ expiredExternalRows metricName beforeNano s ≠ []

/-- Behind the items that the limit covers there are blocks that contain the cutoff, and nothing else. -/
def OnlyExternalBoundaries (metricName : String) (beforeNano limit : ℤ) (s : ExternalStore) : Prop :=
  let rest := (externalItems metricName beforeNano s
    (s.matchingExternalPointSeries metricName)).drop limit.toNat
  rest ≠ [] ∧ ∀ item ∈ rest, item = .boundary

end Block
end Komari
