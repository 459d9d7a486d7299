import Mathlib.Data.Int.Log
import Mathlib.Data.Rat.Floor
import Komari.Metric.Conserve
import Komari.Table.Group

/-!
# The migration to handed-off tiers

Tiers used to overlap: recent samples were in every one.  The migration leaves each bucket to one tier.
-/

namespace Komari

namespace Metric

variable {D : Type} [TDigest D]

/-! ### Summaries that are equal -/

/-- The bits of a positive 64-bit floating-point number. -/
def floatBits (x : ℚ) : ℤ :=
  let e := max (Int.log 2 x) (-1022)
  (e + 1022) * 2 ^ 52 + ⌊x / (2 : ℚ) ^ (e - 52)⌋

/-- `ordered`: the place of a number among the 64-bit floating-point numbers. -/
def ordered (value : ℚ) : ℤ :=
  if value = 0 then 0 else if value < 0 then -1 - floatBits (-value) else floatBits value

/-- `sqliteV4RollupSummaryMaxULP`. -/
def sqliteV4RollupSummaryMaxULP : ℤ := 2

/-- `sqliteV4RollupAccumulationsEqual`. -/
def sqliteV4RollupAccumulationsEqual (left right : ℚ) : Bool :=
  left = right ∨ |ordered left - ordered right| ≤ sqliteV4RollupSummaryMaxULP

/-- `sqliteV4RollupSummariesEqual`. -/
def sqliteV4RollupSummariesEqual (left right : RollupBucket D) : Bool :=
  left.count = right.count ∧ left.lossCount = right.lossCount ∧
    sqliteV4RollupAccumulationsEqual left.sum right.sum ∧
    sqliteV4RollupAccumulationsEqual left.sumSq right.sumSq ∧
    left.min = right.min ∧ left.max = right.max ∧ left.firstVal = right.firstVal ∧
    left.firstTS = right.firstTS ∧ left.lastVal = right.lastVal ∧ left.lastTS = right.lastTS

omit [TDigest D] in
theorem sqliteV4RollupSummariesEqual_self (b : RollupBucket D) : sqliteV4RollupSummariesEqual b b = true := by
  simp [sqliteV4RollupSummariesEqual, sqliteV4RollupAccumulationsEqual]

omit [TDigest D] in
theorem sqliteV4RollupSummariesEqual_dropDigest (left right : RollupBucket D) :
    sqliteV4RollupSummariesEqual left.dropDigest right.dropDigest = sqliteV4RollupSummariesEqual left right := rfl

omit [TDigest D] in
theorem sqliteV4RollupSummariesEqual_congr {left left' right right' : RollupBucket D}
    (hleft : left.dropDigest = left'.dropDigest) (hright : right.dropDigest = right'.dropDigest) :
    sqliteV4RollupSummariesEqual left right = sqliteV4RollupSummariesEqual left' right' := by
  rw [← sqliteV4RollupSummariesEqual_dropDigest, hleft, hright, sqliteV4RollupSummariesEqual_dropDigest]

/-! ### The migration -/

/-- Why the migration of a metric is rolled back. -/
inductive MigrateError
  /-- `cannot create coarse bucket %d from a finer source with a missing digest`. -/
  | missingDigest (bucket : ℤ)
  /-- `tier summary mismatch at resolution=%s bucket=%d`. -/
  | mismatch (interval bucket : ℤ)
  /-- A bucket cannot be stored. -/
  | store (e : CompactError)
deriving DecidableEq

/-- `coarsenSQLiteV7MigrationRows`: the coarse buckets, and which of them miss a digest. -/
def coarsenSQLiteV7MigrationRows (metricName : String) (interval : ℤ) (rows : List (RollupKey × RollupBucket D)) :
    Table RollupKey (RollupBucket D) × (RollupKey → Bool) :=
  (coarsenStoredRollups (RollupBucket.ops D metricName) interval rows, fun key =>
    rows.any fun r => r.1.coarsen interval = key && r.2.digest.isNone && !r.2.rollupDigestOptional metricName)

namespace Store

/-- `rewriteSQLiteV4RollupRangeTx`; without a bound all on that side is kept. -/
def rewriteRollupRange (resolution : ℤ) (keepLower keepUpper : Option ℤ) (s : Store (RollupBucket D)) :
    Store (RollupBucket D) :=
  { s with rollups := s.rollups.deleteWhere fun key _ => key.1 == resolution &&
      !((keepLower.all fun lo => decide (lo ≤ key.2.bucket)) && keepUpper.all fun hi => decide (key.2.bucket ≤ hi)) }

/-- One coarse bucket of the migration: it is created, or found to be the same, and then written again if the
finer buckets have its digest. -/
def migrateGroup (interval : ℤ) (existing : Table RollupKey (RollupBucket D)) (missingDigest : RollupKey → Bool)
    (toWrite : Table RollupKey (RollupBucket D)) (r : RollupKey × RollupBucket D) :
    Except MigrateError (Table RollupKey (RollupBucket D)) :=
  match existing.find? r.1 with
  | none => if missingDigest r.1 then .error (.missingDigest r.1.bucket) else .ok (toWrite.upsert r.1 r.2)
  | some stored =>
    if sqliteV4RollupSummariesEqual r.2 stored = false then .error (.mismatch interval r.1.bucket)
    else if stored.digest = none ∧ missingDigest r.1 = false ∧ r.2.digest ≠ none then
      .ok (toWrite.upsert r.1 { stored with digest := r.2.digest })
    else .ok toWrite

/-- Where a tier hands over to the next. -/
def handoffBoundary (now : ℤ) (fine coarse : RollupTier) : ℤ :=
  alignRollupRetentionCutoff (now - fine.retention) coarse.interval

/-- `math.MinInt64`. -/
def minInt64 : ℤ := -2 ^ 63

/-- One pair of tiers of `migrateSQLiteV7MetricTiersTx`. -/
def migrateTier (metricName : String) (now : ℤ) (fine coarse : RollupTier) (s : Store (RollupBucket D)) :
    Except MigrateError (Store (RollupBucket D) × ℕ) :=
  let upper := handoffBoundary now fine coarse
  if upper = minInt64 then .ok (s, 0)
  else do
    let fineRows := s.scanRollupRows fine.interval (some upper)
    let coarseRows := s.scanRollupRows coarse.interval (some upper)
    let existing := Table.upsertAll ∅ coarseRows
    let groups := coarsenSQLiteV7MigrationRows metricName coarse.interval fineRows
    let toWrite ← groups.1.rows.foldlM (migrateGroup coarse.interval existing groups.2) ∅
    let s ← (s.writeRollupBucketsTx (RollupBucket.ops D metricName) coarse.interval toWrite).mapError .store
    let s := s.rewriteRollupRange fine.interval (some upper) none
    let s := s.rewriteRollupRange coarse.interval none (some (upper - 1))
    return (s, toWrite.rows.length + fineRows.length)

/-- `migrateSQLiteV7MetricTiersTx`: the state after the migration, and how many rows it changed. -/
def migrateSQLiteV7MetricTiersTx (metricName : String) (now : ℤ) :
    List RollupTier → Store (RollupBucket D) → Except MigrateError (Store (RollupBucket D) × ℕ)
  | fine :: coarse :: rest, s => do
    let (s, changed) ← s.migrateTier metricName now fine coarse
    let (s, more) ← migrateSQLiteV7MetricTiersTx metricName now (coarse :: rest) s
    return (s, changed + more)
  | _, s => .ok (s, 0)

/-! ### Fine buckets in a coarse one -/

/-- The fine buckets in a coarse one. -/
def fineRows (fine coarse : RollupTier) (key : RollupKey) (s : Store (RollupBucket D)) :
    List (RollupKey × RollupBucket D) :=
  (s.scanRollupRows fine.interval none).filter fun r => r.1.coarsen coarse.interval = key

/-- The summary of some buckets. -/
def mergeRows (rows : List (RollupKey × RollupBucket D)) : RollupBucket D :=
  rows.foldl (fun b r => b.mergeStored r.2) (RollupBucket.new false)

omit [TDigest D] in
theorem mem_fineRows {fine coarse : RollupTier} {key : RollupKey} {s : Store (RollupBucket D)}
    {r : RollupKey × RollupBucket D} : r ∈ s.fineRows fine coarse key ↔
      s.rollups.find? (fine.interval, r.1) = some r.2 ∧ r.1.coarsen coarse.interval = key := by
  rw [fineRows, List.mem_filter, decide_eq_true_iff, mem_scanRollupRows]
  simp

theorem coarsen_bucket_lt {interval upper : ℤ} (hpos : 0 < interval) (hdvd : interval ∣ upper) (key : RollupKey) :
    (key.coarsen interval).bucket < upper ↔ key.bucket < upper := floorDivNano_lt_iff hpos hdvd

omit [TDigest D] in
/-- The fine buckets in a coarse one before the boundary are all before it. -/
theorem fineRows_eq {fine coarse : RollupTier} {key : RollupKey} {upper : ℤ} (hpos : 0 < coarse.interval)
    (hdvd : coarse.interval ∣ upper) (hkey : key.bucket < upper) (s : Store (RollupBucket D)) :
    s.fineRows fine coarse key =
      (s.scanRollupRows fine.interval (some upper)).filter fun r => r.1.coarsen coarse.interval = key := by
  rw [fineRows, scanRollupRows, scanRollupRows, filter_sortOn, filter_sortOn, List.filter_map, List.filter_map,
    List.filter_filter, List.filter_filter]
  congr 2
  refine List.filter_congr fun r _ => ?_
  by_cases hcoarsen : r.1.2.coarsen coarse.interval = key
  · have hlt : r.1.2.bucket < upper := by
      rw [← coarsen_bucket_lt hpos hdvd, hcoarsen]
      exact hkey
    simp [hcoarsen, hlt]
  · simp [hcoarsen]

/-- The coarse buckets of the migration are the summaries of the fine ones. -/
theorem find?_coarsenSQLiteV7MigrationRows (metricName : String) (interval : ℤ)
    (rows : List (RollupKey × RollupBucket D)) (key : RollupKey) :
    (rows.filter fun r => r.1.coarsen interval = key) = [] ∧
        (coarsenSQLiteV7MigrationRows metricName interval rows).1.find? key = none ∨
      (rows.filter fun r => r.1.coarsen interval = key) ≠ [] ∧ ∃ b,
        (coarsenSQLiteV7MigrationRows metricName interval rows).1.find? key = some b ∧
          b.dropDigest = (mergeRows (rows.filter fun r => r.1.coarsen interval = key)).dropDigest := by
  have hgroups : (coarsenSQLiteV7MigrationRows metricName interval rows).1.find? key =
      ((coarsenRows (RollupBucket.ops D metricName) false interval rows).find? key).map fun b =>
        if b.rollupDigestOptional metricName then b.dropDigest else b :=
    find?_coarsenStoredRollups _ interval rows key
  have hcollect : (Table.collect (fun r : RollupKey × RollupBucket D => r.1.coarsen interval)
      (fun _ => RollupBucket.new false) (fun b r => b.mergeStored r.2) ∅ rows).find? key =
      ((rows.filter fun r => r.1.coarsen interval = key).head?).map fun _ =>
        mergeRows (rows.filter fun r => r.1.coarsen interval = key) := Table.find?_collect key rows
  have hrows : coarsenRows (RollupBucket.ops D metricName) false interval rows =
      Table.collect (fun r : RollupKey × RollupBucket D => r.1.coarsen interval)
        (fun _ => RollupBucket.new false) (fun b r => b.mergeStored r.2) ∅ rows := rfl
  rw [hgroups, hrows, hcollect]
  cases hfilter : rows.filter fun r => r.1.coarsen interval = key with
  | nil => exact .inl ⟨rfl, rfl⟩
  | cons r rest =>
    refine .inr ⟨by simp, _, rfl, ?_⟩
    dsimp only
    split_ifs <;> rfl

/-! ### One step -/

omit [TDigest D] in
theorem find?_existing {interval upper : ℤ} {key : RollupKey} (hkey : key.bucket < upper)
    (s : Store (RollupBucket D)) :
    (Table.upsertAll ∅ (s.scanRollupRows interval (some upper))).find? key = s.rollups.find? (interval, key) := by
  by_cases hmem : key ∈ (s.scanRollupRows interval (some upper)).map Prod.fst
  · obtain ⟨b, hb, hfind⟩ := Table.exists_find?_upsertAll (t := (∅ : Table RollupKey (RollupBucket D))) hmem
    rw [hfind, (mem_scanRollupRows.mp hb).1]
  · rw [Table.find?_upsertAll_of_notMem hmem, Table.find?_empty]
    cases hb : s.rollups.find? (interval, key) with
    | none => rfl
    | some b =>
      refine absurd (List.mem_map.mpr ⟨(key, b), mem_scanRollupRows.mpr ⟨hb, ?_⟩, rfl⟩) hmem
      intro hi hhi
      cases hhi
      exact hkey

/-- What is written for a coarse bucket. -/
def Decided (existing : Table RollupKey (RollupBucket D)) (r : RollupKey × RollupBucket D)
    (written : Option (RollupBucket D)) : Prop :=
  match existing.find? r.1 with
  | none => written = some r.2
  | some stored => sqliteV4RollupSummariesEqual r.2 stored = true ∧
      (written = none ∨ ∃ d, written = some { stored with digest := d })

section MigrateGroup

variable {interval : ℤ} {existing toWrite toWrite' : Table RollupKey (RollupBucket D)}
  {missingDigest : RollupKey → Bool}

omit [TDigest D] in
theorem migrateGroup_eq_ok {r : RollupKey × RollupBucket D} (hnone : toWrite.find? r.1 = none)
    (h : migrateGroup interval existing missingDigest toWrite r = .ok toWrite') :
    Decided existing r (toWrite'.find? r.1) ∧ ∀ key, key ≠ r.1 → toWrite'.find? key = toWrite.find? key := by
  rw [migrateGroup] at h
  rw [Decided]
  cases hfind : existing.find? r.1 with
  | none =>
    simp only [hfind] at h
    split_ifs at h
    cases h
    exact ⟨Table.find?_upsert_self _ _ _, fun key hkey => Table.find?_upsert_ne hkey⟩
  | some stored =>
    simp only [hfind] at h
    split_ifs at h with hequal hdigest
    · cases h
      rw [Bool.not_eq_false] at hequal
      exact ⟨⟨hequal, .inr ⟨_, Table.find?_upsert_self _ _ _⟩⟩, fun key hkey => Table.find?_upsert_ne hkey⟩
    · cases h
      rw [Bool.not_eq_false] at hequal
      exact ⟨⟨hequal, .inl hnone⟩, fun _ _ => rfl⟩

omit [TDigest D] in
/-- **What is written for the coarse buckets.** -/
theorem migrateGroups_eq_ok {rows : List (RollupKey × RollupBucket D)} (hnodup : (rows.map Prod.fst).Nodup)
    (hnone : ∀ r ∈ rows, toWrite.find? r.1 = none)
    (h : rows.foldlM (migrateGroup interval existing missingDigest) toWrite = .ok toWrite') :
    (∀ r ∈ rows, Decided existing r (toWrite'.find? r.1)) ∧
      ∀ key, key ∉ rows.map Prod.fst → toWrite'.find? key = toWrite.find? key := by
  induction rows generalizing toWrite with
  | nil =>
    cases h
    exact ⟨by simp, fun _ _ => rfl⟩
  | cons r rows ih =>
    obtain ⟨hfirst, hnodup⟩ := List.nodup_cons.mp hnodup
    rw [List.foldlM_cons] at h
    obtain ⟨next, hnext, h⟩ := bind_eq_ok.mp h
    obtain ⟨hdecided, hother⟩ := migrateGroup_eq_ok (hnone r List.mem_cons_self) hnext
    obtain ⟨hrest, hkeep⟩ := ih hnodup (fun q hq => by
      have hne : q.1 ≠ r.1 := fun heq => hfirst (heq ▸ List.mem_map_of_mem hq)
      rw [hother q.1 hne]
      exact hnone q (List.mem_cons_of_mem _ hq)) h
    refine ⟨fun q hq => ?_, fun key hkey => ?_⟩
    · rcases List.mem_cons.mp hq with rfl | hq
      · rw [hkeep q.1 hfirst]
        exact hdecided
      · exact hrest q hq
    · rw [List.map_cons, List.mem_cons, not_or] at hkey
      rw [hkeep key hkey.2, hother key hkey.1]

end MigrateGroup

omit [TDigest D] in
theorem find?_rewriteRollupRange (resolution : ℤ) (keepLower keepUpper : Option ℤ) (s : Store (RollupBucket D))
    (key : ℤ × RollupKey) : (s.rewriteRollupRange resolution keepLower keepUpper).rollups.find? key =
      (s.rollups.find? key).filter fun _ => !(key.1 == resolution &&
        !((keepLower.all fun lo => decide (lo ≤ key.2.bucket)) && keepUpper.all fun hi => decide (key.2.bucket ≤ hi))) :=
  Table.find?_deleteWhere _ _ key

/-- What one step of the migration does to the rows. -/
structure Migrates (fine coarse : RollupTier) (upper : ℤ) (s s' : Store (RollupBucket D)) : Prop where
  /-- Other tiers stay the same. -/
  other : ∀ key, key.1 ≠ fine.interval → key.1 ≠ coarse.interval → s'.rollups.find? key = s.rollups.find? key
  /-- The fine tier keeps what starts at the boundary or later. -/
  handed : ∀ key, upper ≤ key.bucket → s'.rollups.find? (fine.interval, key) = s.rollups.find? (fine.interval, key)
  /-- The coarse tier keeps what starts before it. -/
  removed : ∀ key, upper ≤ key.bucket → s'.rollups.find? (coarse.interval, key) = none
  /-- A coarse bucket without fine ones stays the same. -/
  same : ∀ key, key.bucket < upper → s.fineRows fine coarse key = [] →
    s'.rollups.find? (coarse.interval, key) = s.rollups.find? (coarse.interval, key)
  /-- A coarse bucket with fine ones is their summary, and was it if it was there. -/
  merged : ∀ key, key.bucket < upper → s.fineRows fine coarse key ≠ [] →
    ∃ b, s'.rollups.find? (coarse.interval, key) = some b ∧
      sqliteV4RollupSummariesEqual (mergeRows (s.fineRows fine coarse key)) b = true ∧
      ∀ stored, s.rollups.find? (coarse.interval, key) = some stored → b.dropDigest = stored.dropDigest

theorem dvd_handoffBoundary {coarse : RollupTier} (hpos : 0 < coarse.interval) (now : ℤ) (fine : RollupTier) :
    coarse.interval ∣ handoffBoundary now fine coarse := by
  rw [handoffBoundary, alignRollupRetentionCutoff, if_neg (not_le.mpr hpos)]
  exact dvd_floorDivNano hpos _

/-- A stored row has the summary of the bucket. -/
theorem dropDigest_storedRow {metricName : String} {b row : RollupBucket D}
    (h : (RollupBucket.ops D metricName).storedRow b = .ok row) : row.dropDigest = b.dropDigest := by
  have hrow : RollupBucket.storedRow b = .ok row := h
  rw [RollupBucket.storedRow] at hrow
  split_ifs at hrow
  cases hrow
  rfl

/-- **One step of the migration.** -/
theorem migrates_of_migrateTier {metricName : String} {now : ℤ} {fine coarse : RollupTier}
    (hpos : 0 < coarse.interval) (hne : fine.interval ≠ coarse.interval) {s s' : Store (RollupBucket D)} {n : ℕ}
    (hbound : handoffBoundary now fine coarse ≠ minInt64) (h : s.migrateTier metricName now fine coarse = .ok (s', n)) :
    Migrates fine coarse (handoffBoundary now fine coarse) s s' := by
  have hdvd := dvd_handoffBoundary hpos now fine
  rw [migrateTier, if_neg hbound] at h
  generalize handoffBoundary now fine coarse = upper at h hdvd
  obtain ⟨toWrite, hgroups, h⟩ := bind_eq_ok.mp h
  obtain ⟨s₁, hwrite, h⟩ := bind_eq_ok.mp h
  cases h
  rw [mapError_eq_ok] at hwrite
  have hstores := storeRows_eq_ok hwrite
  have hspec := migrateGroups_eq_ok (Table.nodup_map_fst_rows _) (fun _ _ => rfl) hgroups
  -- the rewrites select by resolution and start
  have hfinal : ∀ key : ℤ × RollupKey,
      ((s₁.rewriteRollupRange fine.interval (some upper) none).rewriteRollupRange coarse.interval none
        (some (upper - 1))).rollups.find? key =
      ((s₁.rollups.find? key).filter fun _ => !(key.1 == fine.interval && !decide (upper ≤ key.2.bucket))).filter
        fun _ => !(key.1 == coarse.interval && !decide (key.2.bucket ≤ upper - 1)) := by
    intro key
    rw [find?_rewriteRollupRange, find?_rewriteRollupRange]
    simp
  have hcoarse : ∀ key : RollupKey, key.bucket < upper →
      ((s₁.rewriteRollupRange fine.interval (some upper) none).rewriteRollupRange coarse.interval none
        (some (upper - 1))).rollups.find? (coarse.interval, key) = s₁.rollups.find? (coarse.interval, key) := by
    intro key hkey
    have hle : key.bucket ≤ upper - 1 := by omega
    rw [hfinal, beq_eq_false_iff_ne.mpr hne.symm]
    simp [hle]
  refine ⟨fun key hfine hcoarse => ?_, fun key hkey => ?_, fun key hkey => ?_, fun key hkey hnil => ?_,
    fun key hkey hrows => ?_⟩
  · rw [hfinal, hstores.other key fun heq => absurd heq hcoarse, beq_eq_false_iff_ne.mpr hfine,
      beq_eq_false_iff_ne.mpr hcoarse]
    simp
  · rw [hfinal, hstores.other (fine.interval, key) fun heq => absurd heq hne, beq_eq_false_iff_ne.mpr hne]
    simp [hkey]
  · have hlt : ¬key.bucket ≤ upper - 1 := by omega
    rw [hfinal]
    simp [hlt]
  · rw [fineRows_eq hpos hdvd hkey] at hnil
    have hnone := (find?_coarsenSQLiteV7MigrationRows metricName coarse.interval
      (s.scanRollupRows fine.interval (some upper)) key).resolve_right fun hor => hor.1 hnil
    have hunwritten : toWrite.find? key = none := by
      refine (hspec.2 key fun hmem => ?_).trans (Table.find?_empty key)
      obtain ⟨r, hr, rfl⟩ := List.mem_map.mp hmem
      rw [Table.mem_rows.mp hr] at hnone
      cases hnone.2
    rw [hcoarse key hkey, hstores.other (coarse.interval, key) fun _ => by rw [hunwritten]; rfl]
  · rw [fineRows_eq hpos hdvd hkey] at hrows ⊢
    obtain ⟨-, b, hb, hmerge⟩ := (find?_coarsenSQLiteV7MigrationRows metricName coarse.interval
      (s.scanRollupRows fine.interval (some upper)) key).resolve_left fun hor => hrows hor.1
    have hdecided := hspec.1 (key, b) (Table.mem_rows.mpr hb)
    rw [Decided, find?_existing hkey] at hdecided
    rw [hcoarse key hkey]
    cases hstored : s.rollups.find? (coarse.interval, key) with
    | none =>
      simp only [hstored] at hdecided
      obtain ⟨row, hrow, hfind⟩ := hstores.stored key b hdecided
      have hsame := dropDigest_storedRow hrow
      refine ⟨row, hfind, ?_, fun _ heq => by cases heq⟩
      rw [sqliteV4RollupSummariesEqual_congr (hmerge.symm.trans hsame.symm) rfl]
      exact sqliteV4RollupSummariesEqual_self row
    | some stored =>
      simp only [hstored] at hdecided
      have hequal : sqliteV4RollupSummariesEqual
          (mergeRows ((s.scanRollupRows fine.interval (some upper)).filter fun r => r.1.coarsen coarse.interval = key))
          stored = true := by
        rw [← sqliteV4RollupSummariesEqual_congr hmerge rfl]
        exact hdecided.1
      rcases hdecided.2 with hunwritten | ⟨d, hwritten⟩
      · have hfind : s₁.rollups.find? (coarse.interval, key) = some stored := by
          rw [hstores.other (coarse.interval, key) fun _ => by rw [hunwritten]; rfl, hstored]
        exact ⟨stored, hfind, hequal, fun _ heq => by cases heq; rfl⟩
      · obtain ⟨row, hrow, hfind⟩ := hstores.stored key _ hwritten
        have hsame : row.dropDigest = stored.dropDigest := (dropDigest_storedRow hrow).trans rfl
        refine ⟨row, hfind, ?_, fun _ heq => by cases heq; exact hsame⟩
        rw [sqliteV4RollupSummariesEqual_congr rfl hsame]
        exact hequal

end Store

end Metric

end Komari
