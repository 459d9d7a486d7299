import Komari.Seal.Read

/-!
# Runs of the rollup store

Rows are written and sealed in any order, and a reader may be overtaken by sealing transactions.

* `fold_run` : what `foldSQLiteV4Rollups` merges after any run are the rows that were written last.
-/

namespace Komari

namespace Seal

variable {δ β : Type} [DecidableEq δ] {codec : RollupCodec δ β}

/-- A row is written, or a list of series is sealed. -/
inductive RollupOp (δ : Type)
  | write (key : GroupKey) (bucket : ℤ) (row : RollupRow δ)
  /-- `sealSQLiteV4RollupSeriesTx`. -/
  | sealSeries (series : List ℤ) (beforeNano frontierNano : ℤ)

/-- What a transaction does to the store. -/
def RollupOp.step (codec : RollupCodec δ β) (st : RollupStore δ β) : RollupOp δ → RollupStore δ β
  | .write key b row => st.upsert key ⟨(group st key).hot.upsert b row, (group st key).blocks⟩
  | .sealSeries series beforeNano frontierNano =>
    commit (sealSQLiteV4RollupSeriesTx codec series beforeNano frontierNano) st

/-- The rows that were written last. -/
def plainRows (ops : List (RollupOp δ)) : Table (GroupKey × ℤ) δ :=
  ops.foldl (fun t op =>
    match op with
    | .write key b row => t.upsert (key, b) row.data
    | .sealSeries _ _ _ => t) ∅

/-- The store after a run. -/
def runRollups (codec : RollupCodec δ β) (ops : List (RollupOp δ)) : RollupStore δ β :=
  ops.foldl (RollupOp.step codec) ∅

theorem reachable_run (codec : RollupCodec δ β) (ops : List (RollupOp δ)) :
    Reachable codec (runRollups codec ops) := by
  induction ops using List.reverseRecOn with
  | nil => exact .empty
  | append_singleton ops op ih =>
    rw [runRollups, List.foldl_append]
    cases op with
    | write key b row => exact .write key b row ih
    | sealSeries series beforeNano frontierNano =>
      exact .sealed ih (Relation.ReflTransGen.single ⟨series, beforeNano, frontierNano, rfl⟩)

/-- **The logical map of a store is what was written**, whatever was sealed in between. -/
theorem logicalRollup_run (ops : List (RollupOp δ)) (key : GroupKey) (b : ℤ) :
    logicalRollup codec (group (runRollups codec ops) key) b = (plainRows ops).find? (key, b) := by
  induction ops using List.reverseRecOn with
  | nil => rfl
  | append_singleton ops op ih =>
    rw [runRollups, plainRows, List.foldl_append, List.foldl_append]
    cases op with
    | write key' b' row =>
      change logicalRollup codec (group (Table.upsert _ _ _) key) b = Table.find? (Table.upsert _ _ _) _
      rw [group_upsert, Table.find?_upsert]
      by_cases hkey : key = key'
      · subst hkey
        rw [if_pos rfl, logicalRollup, Table.find?_upsert]
        by_cases hb : b = b'
        · simp [hb]
        · rw [if_neg hb, if_neg fun heq => hb (congrArg Prod.snd heq)]
          exact ih
      · rw [if_neg hkey, if_neg fun heq => hkey (congrArg Prod.fst heq)]
        exact ih
    | sealSeries series beforeNano frontierNano =>
      have hconsistent := (reachable_run codec ops).consistent
      have hseals := seals_commit codec series beforeNano frontierNano (fun key => (hconsistent key).1) key
      exact (hseals.logical b).trans ih

/-- **Every reader merges each row that was written once, with its last value**, also when sealing overtakes
it between its statements. -/
theorem fold_run (ops : List (RollupOp δ)) {snapshots : ℕ → RollupStore δ β}
    (hstart : snapshots 0 = runRollups codec ops)
    (hruns : ∀ k, SealRun codec (snapshots k) (snapshots (k + 1))) {series : List ℤ} (hnd : series.Nodup)
    (resolution lower upper : ℤ) :
    ∃ out : List (ℤ × RollupRecord δ), (out.map fun r => (r.1, r.2.1)).Nodup ∧
      (∀ seriesID b d, (∃ row, (seriesID, b, row) ∈ out ∧ row.data = d) ↔
        seriesID ∈ series ∧ b ∈ Set.Icc lower upper ∧
          (plainRows ops).find? (⟨seriesID, resolution⟩, b) = some d) ∧
      ∀ (γ : Type) (merge : γ → ℤ × RollupRecord δ → γ) (groups : γ),
        foldSQLiteV4Rollups codec snapshots resolution lower upper merge groups series =
          .ok (out.foldl merge groups) := by
  have hconsistent := (reachable_run codec ops).consistent
  have hread : FoldIsExact codec snapshots resolution lower upper series :=
    fold_exact (hstart ▸ hconsistent) hruns hnd
  obtain ⟨out, hexact, hfold⟩ := hread
  refine ⟨out, hexact.once, fun seriesID b d => ?_, hfold⟩
  rw [hexact.logical, hstart, logicalRollup_run]

def writtenTwice : List (RollupOp ℤ) := [.write ⟨1, hour⟩ 0 ⟨3, 0⟩, .write ⟨1, hour⟩ 0 ⟨7, 1⟩]

/-- The row is sealed after the first statement. -/
def sealedMeanwhile (k : ℕ) : RollupStore ℤ (List (RollupRecord ℤ)) :=
  if k = 0 then runRollups plainCodec writtenTwice
  else commit (sealSQLiteV4RollupSeriesTx plainCodec [1] (6 * hour) (5 * hour)) (runRollups plainCodec writtenTwice)

/-- A row that was written twice, and is sealed meanwhile, is counted once. -/
theorem fold_sealedMeanwhile :
    (group (sealedMeanwhile 0) hourly).hot.find? 0 ≠ (group (sealedMeanwhile 1) hourly).hot.find? 0 ∧
      ∃ out : List (ℤ × RollupRecord ℤ), (∃ row, (1, 0, row) ∈ out ∧ row.data = 7) ∧
        foldSQLiteV4Rollups plainCodec sealedMeanwhile hour 0 hour (fun n _ => n + 1) 0 [1] =
          .ok (out.foldl (fun n _ => n + 1) 0) := by
  have hrun : ∀ k, SealRun plainCodec (sealedMeanwhile k) (sealedMeanwhile (k + 1)) := by
    intro k
    cases k with
    | zero => exact Relation.ReflTransGen.single ⟨[1], 6 * hour, 5 * hour, rfl⟩
    | succ k => exact Relation.ReflTransGen.refl
  obtain ⟨out, -, hmem, hfold⟩ := @fold_run _ _ _ plainCodec writtenTwice sealedMeanwhile rfl hrun [1]
    (List.nodup_singleton 1) hour 0 hour
  exact ⟨by decide +kernel, out, (hmem 1 0 7).mpr ⟨by decide, by decide, by decide +kernel⟩, hfold ℕ _ 0⟩

end Seal

end Komari
