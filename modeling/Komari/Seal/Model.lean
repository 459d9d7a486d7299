import Komari.Seal.Block
import Komari.Word.Int64

/-!
# Sealing hot rollup rows into blocks

The rollups of one series and resolution are a table of hot rows, one row for each bucket, and the
compressed blocks.  Sealing moves hot rows into blocks: a late row into the block that already holds
its bucket, or into a rewrite of the whole group; the others behind the last block.
-/

namespace Komari

namespace Seal

/-! ### State -/

/-- The rollups of one series and one resolution. -/
structure GroupKey where
  seriesID : ℤ
  resolution : ℤ
deriving DecidableEq

/-- Hot rows by bucket, and compressed blocks by `start_nano`. -/
structure Group (δ β : Type*) where
  hot : Table ℤ (RollupRow δ)
  blocks : RollupBlocks β

/-- The rollups of all series and resolutions. -/
abbrev RollupStore (δ β : Type*) := Table GroupKey (Group δ β)

variable {δ β : Type}

/-- The group of a key; no rows at all is an empty group. -/
def group (st : RollupStore δ β) (key : GroupKey) : Group δ β := (st.find? key).getD ⟨∅, ∅⟩

/-- The records of all blocks that decode. -/
def blockRecords (codec : RollupCodec δ β) (blocks : RollupBlocks β) : List (RollupRecord δ) :=
  blocks.rows.flatMap fun r =>
    match decodeBlock codec "rollup block" "" r.1 r.2 with
    | .ok records => records
    | .error _ => []

/-- The logical rollup map: the hot row of a bucket, or else its record in the blocks. -/
def logicalRollup (codec : RollupCodec δ β) (g : Group δ β) (b : ℤ) : Option δ :=
  match g.hot.find? b with
  | some row => some row.data
  | none => ((blockRecords codec g.blocks).find? fun r => r.1 == b).map fun r => r.2.data

/-- A block, in the texts of errors. -/
def place (key : GroupKey) (start : ℤ) : String :=
  s!"series={key.seriesID} resolution={key.resolution} start={start}"

/-! ### Appending to the last block -/

/-- What `appendSQLiteV4RollupTailTx` reads about the last block. -/
structure Tail (δ : Type*) where
  /-- The records of a last block that is to be replaced. -/
  records : List (RollupRecord δ)
  /-- Hot rows are taken from above this bucket. -/
  lower : ℤ
  /-- At most this many hot rows are taken. -/
  limit : ℕ
  replace : Option ℤ

/-- The block with the greatest `start_nano`: a partial one is to be replaced. -/
def loadTail (codec : RollupCodec δ β) (key : GroupKey) (blocks : RollupBlocks β) :
    Except String (Tail δ) :=
  match (blocks.select fun _ _ => true).getLast? with
  | none => .ok ⟨[], minInt64, rollupBlockLimit, none⟩
  | some (start, block) => do
    let records ← decodeBlock codec "rollup tail" (place key start) start block
    if records.length < rollupBlockLimit then
      .ok ⟨records, block.endNano, rollupBlockLimit - records.length, some start⟩
    else .ok ⟨[], block.endNano, rollupBlockLimit, none⟩

variable [DecidableEq δ]

/-- One iteration of `appendSQLiteV4RollupTailTx`: the number of rows that it seals, or nothing when
no row is left. -/
def appendTailStep (codec : RollupCodec δ β) (key : GroupKey) (beforeNano : ℤ) (g : Group δ β) :
    Except String (Option (ℕ × Group δ β)) := do
  let tail ← loadTail codec key g.blocks
  let hot := (g.hot.select fun b _ => tail.lower < b && b < beforeNano).take tail.limit
  match hot.head?, hot.getLast? with
  | some first, some last =>
    let kept := match tail.replace with
      | some start => deleteBlock g.blocks start
      | none => g.blocks
    let blocks ← writeSQLiteV4RollupBlocksTx codec kept (tail.records ++ hot)
    .ok (some (hot.length, ⟨g.hot.deleteWhere fun b _ => first.1 ≤ b && b ≤ last.1, blocks⟩))
  | _, _ => .ok none

/-- The loop of `appendSQLiteV4RollupTailTx`, with the number of rows sealed so far; `fuel` bounds
the number of iterations. -/
def appendTailLoop (codec : RollupCodec δ β) (key : GroupKey) (beforeNano : ℤ) :
    ℕ → ℕ → Group δ β → Except String (ℕ × Group δ β)
  | 0, done, g => .ok (done, g)
  | fuel + 1, done, g => do
    match ← appendTailStep codec key beforeNano g with
    | none => .ok (done, g)
    | some (count, g') => appendTailLoop codec key beforeNano fuel (done + count) g'

/-- `appendSQLiteV4RollupTailTx`.  Every iteration but the last one moves a hot row, so their number
bounds the iterations. -/
def appendSQLiteV4RollupTailTx (codec : RollupCodec δ β) (key : GroupKey) (beforeNano : ℤ)
    (g : Group δ β) : Except String (ℕ × Group δ β) :=
  appendTailLoop codec key beforeNano (g.hot.rows.length + 1) 0 g

/-! ### Late rows -/

/-- The hot row that replaces a record, or else the record. -/
def newest (hot : List (RollupRecord δ)) (r : RollupRecord δ) : RollupRecord δ :=
  (hot.find? fun h => h.1 == r.1).getD r

/-- A loaded block holds the bucket of a hot row. -/
def holdsBucket (records : List (RollupRecord δ)) (b : ℤ) : Bool :=
  records.any fun r => r.1 == b

/-- `rewriteSQLiteV4LateRollupBlocksTx`: late rows replace their records in the blocks.  When a late
bucket is in no block, nothing is done and `false` is returned. -/
def rewriteSQLiteV4LateRollupBlocksTx (codec : RollupCodec δ β) (key : GroupKey)
    (maxEnd throughNano : ℤ) (g : Group δ β) : Except String (Bool × Group δ β) :=
  let hot := g.hot.select fun b _ => b ≤ maxEnd && b ≤ throughNano
  match hot.head?, hot.getLast? with
  | some first, some last => do
    let overlapping := g.blocks.select fun start block =>
      first.1 ≤ block.endNano && start ≤ last.1
    let loaded ← overlapping.mapM fun r => do
      let records ← decodeBlock codec "late rollup block" (place key r.1) r.1 r.2
      pure (r.1, records)
    if hot.all fun r => loaded.any fun block => holdsBucket block.2 r.1 then
      -- the source visits the touched blocks in no particular order; their intervals are disjoint
      let touched := loaded.filter fun block => hot.any fun r => holdsBucket block.2 r.1
      let blocks ← touched.foldlM (fun blocks block =>
        writeSQLiteV4RollupBlocksTx codec (deleteBlock blocks block.1)
          (block.2.map (newest hot))) g.blocks
      .ok (true, ⟨g.hot.deleteWhere fun b _ => b ≤ maxEnd && b ≤ throughNano, blocks⟩)
    else .ok (false, g)
  | _, _ => .ok (true, g)

/-- `loadAllSQLiteV4RollupBlockRecords`: the records of all blocks, in the order of the blocks. -/
def loadAllSQLiteV4RollupBlockRecords (codec : RollupCodec δ β) (key : GroupKey)
    (blocks : RollupBlocks β) : Except String (List (RollupRecord δ)) := do
  let loaded ← (blocks.select fun _ _ => true).mapM fun r =>
    decodeBlock codec "rollup block" (place key r.1) r.1 r.2
  .ok loaded.flatten

/-- `rewriteSQLiteV4RollupGroupTx`: all blocks are written again, overridden by the late rows. -/
def rewriteSQLiteV4RollupGroupTx (codec : RollupCodec δ β) (key : GroupKey) (throughNano : ℤ)
    (g : Group δ β) : Except String (Group δ β) := do
  let records ← loadAllSQLiteV4RollupBlockRecords codec key g.blocks
  let hot := g.hot.select fun b _ => b ≤ throughNano
  let byBucket : Table ℤ (RollupRow δ) := (Table.upsertAll ∅ records).upsertAll hot
  let blocks ← writeSQLiteV4RollupBlocksTx codec (g.blocks.deleteWhere fun _ _ => true)
    (sortByKey byBucket.rows)
  .ok ⟨g.hot.deleteWhere fun b _ => b ≤ throughNano, blocks⟩

/-! ### Sealing -/

/-- `sqliteV4NoRollupFrontier`: no completeness clamp. -/
def noRollupFrontier : ℤ := maxInt64

/-- `sqliteV4RollupFlushWindow - sqliteV4HotWindow`, in nanoseconds. -/
def eligibleWindow : ℤ := (30 - 5) * 60 * 1000000000

/-- `sqliteV4RollupHotBacklogLimit`. -/
def rollupHotBacklogLimit : ℕ := 32

/-- `sqliteV4RollupFlushMinimum`. -/
def rollupFlushMinimum (resolution : ℤ) : ℕ :=
  if resolution ≤ 0 then 1
  else
    let minimum := (eligibleWindow.tdiv resolution).toNat
    if minimum < 1 then 1
    else if rollupBlockLimit < minimum then rollupBlockLimit
    else minimum

/-- `rollupSealCutoff`: buckets before the cutoff may be sealed. -/
def rollupSealCutoff (beforeNano frontierNano resolution : ℤ) : Option ℤ :=
  if frontierNano ≠ noRollupFrontier ∧ 0 < resolution then
    if frontierNano < addInt64 minInt64 resolution then none
    else
      let closed := addInt64 (subInt64 frontierNano resolution) 1
      let cutoff := if closed < beforeNano then closed else beforeNano
      if cutoff = minInt64 then none else some cutoff
  else if beforeNano = minInt64 then none
  else some beforeNano

/-- `SELECT MAX(end_nano)`. -/
def maxEndNano (blocks : RollupBlocks β) : Option ℤ := (blocks.rows.map fun r => r.2.endNano).max?

/-- Rows at or before this bucket that lie within the sealed range are late. -/
def lateBeforeNano (sealBefore resolution : ℤ) : ℤ :=
  subInt64 (subInt64 sealBefore eligibleWindow) resolution

/-- The late rows of a group are folded into its blocks. -/
def sealLate (codec : RollupCodec δ β) (key : GroupKey) (sealBefore : ℤ) (g : Group δ β) :
    Except String (Group δ β) :=
  match maxEndNano g.blocks with
  | none => .ok g
  | some maxEnd =>
    let late := lateBeforeNano sealBefore key.resolution
    if 0 < g.hot.rows.countP fun r => r.1 ≤ maxEnd && r.1 ≤ late then do
      let (rewritten, g) ← rewriteSQLiteV4LateRollupBlocksTx codec key maxEnd late g
      if rewritten then .ok g else rewriteSQLiteV4RollupGroupTx codec key late g
    else .ok g

/-- The body of `sealSQLiteV4RollupSeriesTx` for one resolution of one series. -/
def sealGroup (codec : RollupCodec δ β) (key : GroupKey) (beforeNano frontierNano : ℤ)
    (g : Group δ β) : Except String (Group δ β) :=
  match rollupSealCutoff beforeNano frontierNano key.resolution with
  | none => .ok g
  | some sealBefore => do
    let g ← sealLate codec key sealBefore g
    let lower := (maxEndNano g.blocks).getD minInt64
    let count := g.hot.rows.countP fun r => lower < r.1 && r.1 < sealBefore
    if count < rollupFlushMinimum key.resolution ∧ count < rollupHotBacklogLimit then .ok g
    else do
      let (_, g) ← appendSQLiteV4RollupTailTx codec key sealBefore g
      .ok g

omit [DecidableEq δ] in
/-- `SELECT DISTINCT resolution_nano FROM values WHERE series_id = ? AND bucket_nano < ?`. -/
def hotResolutions (st : RollupStore δ β) (seriesID beforeNano : ℤ) : List ℤ :=
  (st.rows.filter fun r =>
    r.1.seriesID == seriesID && r.2.hot.rows.any fun h => h.1 < beforeNano).map
      fun r => r.1.resolution

/-- One series is sealed. -/
def sealKey (codec : RollupCodec δ β) (beforeNano frontierNano : ℤ) (st : RollupStore δ β)
    (key : GroupKey) : Except String (RollupStore δ β) := do
  let g ← sealGroup codec key beforeNano frontierNano (group st key)
  .ok (st.upsert key g)

/-- `sealSQLiteV4RollupSeriesTx`. -/
def sealSQLiteV4RollupSeriesTx (codec : RollupCodec δ β) (series : List ℤ)
    (beforeNano frontierNano : ℤ) (st : RollupStore δ β) : Except String (RollupStore δ β) :=
  series.foldlM (fun st seriesID =>
    (hotResolutions st seriesID beforeNano).foldlM (fun st resolution =>
      sealKey codec beforeNano frontierNano st ⟨seriesID, resolution⟩) st) st

omit [DecidableEq δ] in
/-- The state after a transaction: an error rolls it back. -/
def commit (run : RollupStore δ β → Except String (RollupStore δ β)) (st : RollupStore δ β) :
    RollupStore δ β :=
  match run st with
  | .ok st' => st'
  | .error _ => st

end Seal

end Komari
