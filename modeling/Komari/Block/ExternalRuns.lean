import Komari.Block.ExternalCleanup

/-!
# Runs of an external database

Points are written as hot rows, moved into blocks, cleaned up, and deleted with their series.  A
transaction that fails leaves the store as it was.

* `reads_run` : after any run a query reads what the plain table has, for every point that no cutoff of the
  run has passed.
-/

namespace Komari

namespace Block

open TrafficReset

/-! ### Transactions -/

/-- `deleteExternalSeriesTx`: the series of a filter lose their blocks and their ids. -/
def deleteExternalSeriesTx (p : SeriesName → Bool) (s : ExternalStore) : ℤ × ExternalStore :=
  (((s.series.filter p).map fun name => ((s.blocks name).rows.map fun r => r.2.count).sum).sum,
    { s with
      series := s.series.filter fun name => !p name
      nodup := s.nodup.filter _
      blocks := fun name => if name ∈ s.series ∧ p name = true then ∅ else s.blocks name })

/-- The series of a filter are deleted, and so are their hot rows. -/
def deleteSeries (p : SeriesName → Bool) (s : ExternalStore) : ExternalStore :=
  let s := (deleteExternalSeriesTx p s).2
  { s with points := s.points.deleteWhere fun key _ => p key.1 }

/-- The transactions. -/
inductive ExternalOp
  /-- `writeBatch`. -/
  | write (points : List ((SeriesName × Int64) × HotPoint))
  | sealBlocks (metricName : String) (beforeNano : ℤ)
  | deleteBefore (metricName : String) (beforeNano : ℤ)
  /-- A batch of a cleanup. -/
  | deleteBatch (metricName : String) (beforeNano limit : ℤ)
  | deleteMetric (name : String)
  | deleteEntity (entityID : String)

namespace ExternalOp

/-- The caller names a metric, and a batch has a limit. -/
def Valid : ExternalOp → Prop
  | .deleteBefore metricName _ => trimSpace metricName ≠ ""
  | .deleteBatch metricName _ limit => trimSpace metricName ≠ "" ∧ 0 < limit
  | _ => True

/-- The cutoff of a deletion has not passed a point. -/
def Spares (name : SeriesName) (ts : Int64) : ExternalOp → Prop
  | .deleteBefore metricName beforeNano | .deleteBatch metricName beforeNano _ =>
    beforeNano ≤ ts.toInt ∨ name.metricName ≠ metricName
  | _ => True

/-- What a transaction does to a plain table. -/
def plain (t : Table (SeriesName × Int64) HotPoint) : ExternalOp → Table (SeriesName × Int64) HotPoint
  | .write points => t.upsertAll points
  | .deleteMetric name =>
    if trimSpace name = "" then t else t.deleteWhere fun key _ => key.1.metricName == name
  | .deleteEntity entityID =>
    if trimSpace entityID = "" then t else t.deleteWhere fun key _ => key.1.entityID == entityID
  | _ => t

variable (flate : Flate) (crc32 : List UInt8 → UInt32)

/-- What a transaction does to the store. -/
def exec (s : ExternalStore) : ExternalOp → Except String ExternalStore
  | .write points => .ok { s with points := s.points.upsertAll points }
  | .sealBlocks metricName beforeNano =>
    (sealExternalPointBlocks flate crc32 metricName beforeNano s).map Prod.snd
  | .deleteBefore metricName beforeNano =>
    (deleteExternalPointsBeforeTx flate crc32 metricName beforeNano s).map Prod.snd
  | .deleteBatch metricName beforeNano limit =>
    (deleteExternalPointsBeforeBatchTx flate crc32 metricName beforeNano limit s).map fun r => r.2.2
  | .deleteMetric name =>
    if trimSpace name = "" then .error "metric: invalid argument: metric name is required"
    else .ok (deleteSeries (fun series => series.metricName == name) s)
  | .deleteEntity entityID =>
    if trimSpace entityID = "" then .error "metric: invalid argument: entity id is required"
    else .ok (deleteSeries (fun series => series.entityID == entityID) s)

/-- A transaction that fails is rolled back. -/
def step (s : ExternalStore) (op : ExternalOp) : ExternalStore :=
  match exec flate crc32 s op with
  | .ok s' => s'
  | .error _ => s

end ExternalOp

/-- Nothing is stored. -/
def ExternalStore.empty : ExternalStore := ⟨[], List.nodup_nil, fun _ => ∅, ∅⟩

/-! ### A transaction -/

variable {flate : Flate} {crc32 : List UInt8 → UInt32} {s s' : ExternalStore}
variable {t : Table (SeriesName × Int64) HotPoint}

/-- A table of new rows overrides what was there. -/
theorem Table.find?_upsertAll_or {κ α : Type} [DecidableEq κ] (t : Table κ α) (new : List (κ × α)) (k : κ) :
    (t.upsertAll new).find? k = (((∅ : Table κ α).upsertAll new).find? k).or (t.find? k) := by
  induction new generalizing t with
  | nil => rfl
  | cons r new ih =>
    rw [Table.upsertAll_cons, Table.upsertAll_cons, ih (t.upsert r.1 r.2), ih ((∅ : Table κ α).upsert r.1 r.2),
      Option.or_assoc, Table.find?_upsert, Table.find?_upsert]
    split_ifs <;> rfl

/-- The store has the point that the plain table has. -/
structure Refines (flate : Flate) (crc32 : List UInt8 → UInt32) (s : ExternalStore)
    (t : Table (SeriesName × Int64) HotPoint) (spared : SeriesName → Int64 → Prop) : Prop where
  consistent : s.Consistent flate crc32
  points : ∀ name ts, spared name ts → logicalPoint flate crc32 s name ts = t.find? (name, ts)

variable {spared : SeriesName → Int64 → Prop}

theorem Refines.mono {spared' : SeriesName → Int64 → Prop} (h : Refines flate crc32 s t spared)
    (hle : ∀ name ts, spared' name ts → spared name ts) : Refines flate crc32 s t spared' :=
  ⟨h.consistent, fun name ts hspared => h.points name ts (hle name ts hspared)⟩

theorem Refines.write (h : Refines flate crc32 s t spared)
    (new : List ((SeriesName × Int64) × HotPoint)) :
    Refines flate crc32 { s with points := s.points.upsertAll new } (t.upsertAll new) spared := by
  refine ⟨h.consistent.withPoints _, fun name ts hspared => ?_⟩
  rw [Table.find?_upsertAll_or t, ← h.points name ts hspared, logicalPoint, logicalPoint,
    Table.find?_upsertAll_or s.points, Option.or_assoc]

theorem Refines.deleteSeries (h : Refines flate crc32 s t spared) (p : SeriesName → Bool) :
    Refines flate crc32 (deleteSeries p s) (t.deleteWhere fun key _ => p key.1) spared := by
  have hblocks : ∀ name, (Block.deleteSeries p s).blocks name = if p name = true then ∅ else s.blocks name := by
    intro name
    change (if name ∈ s.series ∧ p name = true then _ else _) = _
    by_cases hname : name ∈ s.series
    · simp only [hname, true_and]
    · -- a series without an id has no blocks
      rw [if_neg fun hin => hname hin.1, h.consistent.listed name hname, ite_self]
  have hempty : WellStored flate crc32 ∅ := ⟨by simp, by simp⟩
  refine ⟨⟨fun name => ?_, fun name start block hfind => ?_, fun name hname => ?_⟩, fun name ts hspared => ?_⟩
  · rw [hblocks]
    split_ifs
    · exact hempty
    · exact h.consistent.wellStored name
  · rw [hblocks] at hfind
    split_ifs at hfind
    · simp at hfind
    · exact h.consistent.codec name start block hfind
  · rw [hblocks]
    split_ifs with hp
    · rfl
    · refine h.consistent.listed name fun hmem => hname ?_
      exact List.mem_filter.mpr ⟨hmem, by simpa using hp⟩
  · have hrows : (Block.deleteSeries p s).points = s.points.deleteWhere fun key _ => p key.1 := rfl
    rw [logicalPoint, hblocks, hrows, Table.find?_deleteWhere, Table.find?_deleteWhere,
      ← h.points name ts hspared, logicalPoint]
    have hall : ∀ x : Option HotPoint, x.filter (fun _ => true) = x := fun x => by cases x <;> rfl
    cases p name with
    | true => simp [blockPoint_empty]
    | false => simp [hall]

theorem consistent_deleteExternalPointsBeforeTx {metricName : String} {beforeNano count : ℤ}
    (hs : s.Consistent flate crc32)
    (h : deleteExternalPointsBeforeTx flate crc32 metricName beforeNano s = .ok (count, s')) :
    s'.Consistent flate crc32 := by
  obtain ⟨⟨n, mid⟩, hloop, h⟩ := bind_eq_ok.mp h
  cases h
  exact (deleteEachBefore_eq_ok hs (nodup_matchingExternalPointSeries metricName)
    (listed_matchingExternalPointSeries metricName) hloop).1.withPoints _

theorem map_eq_ok {α β : Type} {f : α → β} {x : Except String α} {b : β} (h : x.map f = .ok b) :
    ∃ a, x = .ok a ∧ f a = b := by
  cases x with
  | error e => cases h
  | ok a => exact ⟨a, rfl, Except.ok.inj h⟩

/-- **A transaction does to the store what it does to the plain table**, but for the points that its cutoff
has passed. -/
theorem Refines.step (h : Refines flate crc32 s t spared)
    {op : ExternalOp} (hvalid : op.Valid) (hspares : ∀ name ts, spared name ts → op.Spares name ts) :
    Refines flate crc32 (op.step flate crc32 s) (op.plain t) spared := by
  rw [ExternalOp.step]
  cases op with
  | write new => exact h.write new
  | sealBlocks metricName beforeNano =>
    split
    · rename_i s' hexec
      obtain ⟨⟨count, s''⟩, hseal, rfl⟩ := map_eq_ok hexec
      obtain ⟨hpoints, hconsistent, -⟩ := sealed_sealExternalPointBlocks h.consistent hseal
      exact ⟨hconsistent, fun name ts hspared => (hpoints name ts).trans (h.points name ts hspared)⟩
    · exact h
  | deleteBefore metricName beforeNano =>
    split
    · rename_i s' hexec
      obtain ⟨⟨count, s''⟩, hdelete, rfl⟩ := map_eq_ok hexec
      refine ⟨consistent_deleteExternalPointsBeforeTx h.consistent hdelete, fun name ts hspared => ?_⟩
      have hkept : ¬(name.metricName = metricName ∧ ts.toInt < beforeNano) := fun hexpired =>
        (hspares name ts hspared).elim (not_le.mpr hexpired.2) fun hne => hne hexpired.1
      rw [deletedBefore_deleteExternalPointsBeforeTx hvalid h.consistent hdelete, if_neg hkept]
      exact h.points name ts hspared
    · exact h
  | deleteBatch metricName beforeNano limit =>
    split
    · rename_i s' hexec
      obtain ⟨⟨deleted, complete, s''⟩, hbatch, rfl⟩ := map_eq_ok hexec
      obtain ⟨⟨budget, -, hworks⟩, -⟩ := works_batch hvalid.2 hvalid.1 h.consistent hbatch
      refine ⟨hworks.consistent, fun name ts hspared => ?_⟩
      exact (hworks.logicalPoint_eq (hspares name ts hspared)).trans (h.points name ts hspared)
    · exact h
  | deleteMetric name =>
    rw [ExternalOp.exec, ExternalOp.plain]
    split_ifs
    · exact h
    · exact h.deleteSeries _
  | deleteEntity entityID =>
    rw [ExternalOp.exec, ExternalOp.plain]
    split_ifs
    · exact h
    · exact h.deleteSeries _

/-! ### Runs -/

theorem Refines.run (h : Refines flate crc32 s t spared)
    {ops : List ExternalOp} (hvalid : ∀ op ∈ ops, op.Valid)
    (hspares : ∀ name ts, spared name ts → ∀ op ∈ ops, op.Spares name ts) :
    Refines flate crc32 (ops.foldl (ExternalOp.step flate crc32) s) (ops.foldl ExternalOp.plain t) spared := by
  induction ops generalizing s t with
  | nil => exact h
  | cons op ops ih =>
    refine ih (h.step (hvalid op List.mem_cons_self) fun name ts hspared =>
      hspares name ts hspared op List.mem_cons_self)
      (fun op' hop' => hvalid op' (List.mem_cons_of_mem _ hop'))
      fun name ts hspared op' hop' => hspares name ts hspared op' (List.mem_cons_of_mem _ hop')

theorem refines_empty : Refines flate crc32 .empty ∅ fun _ _ => True where
  consistent := ⟨fun _ => ⟨by simp [ExternalStore.empty], by simp [ExternalStore.empty]⟩,
    by simp [ExternalStore.empty], fun _ _ => rfl⟩
  points name ts _ := by simp [logicalPoint, ExternalStore.empty, blockPoint_empty]

/-- **After any run a query reads the points of the plain table.** -/
theorem reads_run {ops : List ExternalOp} (hvalid : ∀ op ∈ ops, op.Valid) {metricName : String}
    (hmetric : trimSpace metricName ≠ "") (lo hi : ℤ) :
    ∃ out, storedExternalPoints flate crc32 metricName lo hi
        (ops.foldl (ExternalOp.step flate crc32) .empty) = .ok out ∧
      ∀ name ts, (∀ op ∈ ops, op.Spares name ts) → out.find? (name, ts) =
        if name.metricName = metricName ∧ lo ≤ ts.toInt ∧ ts.toInt ≤ hi then
          (ops.foldl ExternalOp.plain ∅).find? (name, ts)
        else none := by
  have hrefines : Refines flate crc32 _ _ fun name ts => ∀ op ∈ ops, op.Spares name ts :=
    (refines_empty.mono fun _ _ _ => trivial).run hvalid fun _ _ => id
  obtain ⟨out, hout, hfind⟩ :=
    @find?_storedExternalPoints flate crc32 _ metricName lo hi hmetric hrefines.consistent
  refine ⟨out, hout, fun name ts hspared => ?_⟩
  rw [hfind, hrefines.points name ts hspared]

/-- A point that was written, sealed and kept is read after its metric was cleaned up. -/
theorem reads_run_cpu : ∃ out, storedExternalPoints storedFlate checksumIEEE "cpu" 0 20
    ([.write [((sampleName "a", 5), (samplePoint 5).data)], .sealBlocks "cpu" 10,
      .deleteBatch "cpu" 3 1].foldl (ExternalOp.step storedFlate checksumIEEE) .empty) = .ok out ∧
    out.find? (sampleName "a", 5) = some (samplePoint 5).data := by
  obtain ⟨out, hout, hfind⟩ := @reads_run storedFlate checksumIEEE
    [.write [((sampleName "a", 5), (samplePoint 5).data)], .sealBlocks "cpu" 10, .deleteBatch "cpu" 3 1]
    (by simp only [List.forall_mem_cons, ExternalOp.Valid, List.not_mem_nil, IsEmpty.forall_iff, implies_true]; decide)
    "cpu" (by decide) 0 20
  refine ⟨out, hout, ?_⟩
  rw [hfind (sampleName "a") 5 (by
    simp only [List.forall_mem_cons, ExternalOp.Spares, List.not_mem_nil, IsEmpty.forall_iff, implies_true]
    decide)]
  decide

end Block

end Komari
