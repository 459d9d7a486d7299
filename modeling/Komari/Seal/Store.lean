import Komari.Seal.Invisible

/-!
# Sealing transactions of the store

A transaction seals all resolutions of a list of series; when a step fails it is rolled back.

* `seal_invisible` : what a transaction leaves unchanged, for every cutoff and frontier;
  `seal_open_at_sentinel` : at the sentinel frontier there is no clamp.
-/

namespace Komari

namespace Seal

variable {δ β : Type}

theorem group_upsert (st : RollupStore δ β) (key key' : GroupKey) (g : Group δ β) :
    group (st.upsert key g) key' = if key' = key then g else group st key' := by
  rw [group, Table.find?_upsert]
  split_ifs <;> rfl

variable [DecidableEq δ]

theorem seals_commit (codec : RollupCodec δ β) (series : List ℤ) (beforeNano frontierNano : ℤ)
    {st : RollupStore δ β} (hwf : ∀ key, DisjointBlocks (group st key).blocks) (key : GroupKey) :
    Seals codec (Sealable beforeNano frontierNano key.resolution) (group st key)
      (group (commit (sealSQLiteV4RollupSeriesTx codec series beforeNano frontierNano) st) key) := by
  let p : RollupStore δ β → Prop := fun st => ∀ key, DisjointBlocks (group st key).blocks
  let r : RollupStore δ β → RollupStore δ β → Prop := fun st st' => ∀ key,
    Seals codec (Sealable beforeNano frontierNano key.resolution) (group st key) (group st' key)
  have hrefl : ∀ st, p st → r st st := fun st hst key => Seals.refl (hst key) _
  have htrans : ∀ st st' st'', r st st' → r st' st'' → r st st'' :=
    fun _ _ _ h h' key => (h key).trans (h' key)
  have hkey : ∀ st key st', p st → sealKey codec beforeNano frontierNano st key = .ok st' →
      p st' ∧ r st st' := by
    intro st key st' hst h
    obtain ⟨g', hg, h⟩ := bind_eq_ok.mp h
    cases h
    have hr : r st (st.upsert key g') := by
      intro key'
      rw [group_upsert]
      split_ifs with heq
      · exact heq ▸ seals_sealGroup (hst key) hg
      · exact Seals.refl (hst key') _
    exact ⟨fun key' => (hr key').disjoint, hr⟩
  unfold commit
  cases hrun : sealSQLiteV4RollupSeriesTx codec series beforeNano frontierNano st with
  | error e => exact Seals.refl (hwf key) _
  | ok st' =>
    have hseries := foldlM_eq_ok hrefl htrans (fun st seriesID st' hst h =>
      foldlM_eq_ok hrefl htrans (fun st resolution st' => hkey st ⟨seriesID, resolution⟩ st') hst h)
      (a := st) (b := st') hwf hrun
    exact hseries.2 key

/-- The cutoff keeps every bucket whose window is still open at the frontier. -/
theorem not_sealable_of_open {beforeNano frontierNano resolution b : ℤ} (hres : 0 < resolution)
    (hle : frontierNano ≤ beforeNano + resolution - 1) (hclamp : frontierNano < noRollupFrontier)
    (hrange : minInt64 + eligibleWindow + 2 * resolution ≤ frontierNano + 1)
    (hopen : frontierNano < b + resolution) :
    ¬ Sealable beforeNano frontierNano resolution b := by
  have hwindow : 0 < eligibleWindow := by decide
  unfold noRollupFrontier maxInt64 at hclamp
  unfold minInt64 at hrange
  have hword : ∀ x : ℤ, -2 ^ 63 ≤ x → x < 2 ^ 63 - 1 → int64 x = x := by
    intro x h₁ h₂
    exact int64_eq_self ⟨by unfold minInt64; omega, by unfold maxInt64; omega⟩
  have hlow : addInt64 minInt64 resolution = -2 ^ 63 + resolution := by
    unfold addInt64 minInt64
    exact hword _ (by omega) (by omega)
  have hclosed : addInt64 (subInt64 frontierNano resolution) 1 = frontierNano - resolution + 1 := by
    unfold addInt64 subInt64
    rw [hword (frontierNano - resolution) (by omega) (by omega)]
    exact hword _ (by omega) (by omega)
  rintro ⟨cutoff, hcutoff, hb⟩
  have hcut : cutoff = frontierNano - resolution + 1 := by
    unfold rollupSealCutoff noRollupFrontier maxInt64 at hcutoff
    rw [if_pos ⟨by omega, hres⟩, hlow, if_neg (by omega), hclosed] at hcutoff
    dsimp only at hcutoff
    split_ifs at hcutoff <;> have := Option.some.inj hcutoff <;> omega
  have hlate : lateBeforeNano cutoff resolution = cutoff - eligibleWindow - resolution := by
    unfold lateBeforeNano subInt64
    rw [hword (cutoff - eligibleWindow) (by omega) (by omega), hword _ (by omega) (by omega)]
  omega

/-- Sealing is invisible: a transaction changes no bucket of the logical map, keeps the blocks
disjoint and small, and moves no bucket that is open at a frontier below the sentinel. -/
theorem seal_invisible (codec : RollupCodec δ β) (series : List ℤ) (beforeNano frontierNano : ℤ)
    (st : RollupStore δ β) (hwf : ∀ key, DisjointBlocks (group st key).blocks) (key : GroupKey) :
    let g := group st key
    let g' := group (commit (sealSQLiteV4RollupSeriesTx codec series beforeNano frontierNano) st) key
    (∀ b, logicalRollup codec g' b = logicalRollup codec g b) ∧
      DisjointBlocks g'.blocks ∧ (Small codec g.blocks → Small codec g'.blocks) ∧
      (0 < key.resolution → frontierNano ≤ beforeNano + key.resolution - 1 →
        frontierNano < noRollupFrontier →
        minInt64 + eligibleWindow + 2 * key.resolution ≤ frontierNano + 1 →
        ∀ b row, g.hot.find? b = some row → frontierNano < b + key.resolution →
          g'.hot.find? b = some row) := by
  have h := seals_commit codec series beforeNano frontierNano hwf key
  refine ⟨h.logical, h.disjoint, h.small, ?_⟩
  intro hres hle hclamp hrange b row hrow hopen
  exact h.kept b row hrow (not_sealable_of_open hres hle hclamp hrange hopen)

/-! ### Samples -/

/-- The codec that stores records as they are. -/
def plainCodec : RollupCodec ℤ (List (RollupRecord ℤ)) where
  encode records := .ok records
  decode payload := if Ascending payload then .ok payload
    else .error "metric: invalid SQLite V4 rollup bucket delta"
  ascending payload records h := by
    split_ifs at h with hasc
    · cases h
      exact hasc

def hour : ℤ := 3600 * 1000000000

def hourly : GroupKey := ⟨1, hour⟩

def sampleStore (hot : List (RollupRecord ℤ)) (blocks : List (ℤ × StoredBlock (List (RollupRecord ℤ)))) :
    RollupStore ℤ (List (RollupRecord ℤ)) :=
  Table.upsert ∅ hourly ⟨Table.upsertAll ∅ hot, Table.upsertAll ∅ blocks⟩

/-- A block of two hours, a late row in it, a closed row behind it and an open one. -/
def lateStore : RollupStore ℤ (List (RollupRecord ℤ)) :=
  sampleStore [(hour, ⟨7, 1⟩), (2 * hour, ⟨8, 1⟩), (5 * hour, ⟨9, 1⟩)]
    [(0, ⟨hour, [(0, ⟨3, 0⟩), (hour, ⟨4, 0⟩)]⟩)]

theorem disjointBlocks_lateStore (key : GroupKey) : DisjointBlocks (group lateStore key).blocks := by
  rw [lateStore, sampleStore, group_upsert]
  split_ifs
  · have hone : ∀ s b, (Table.upsertAll ∅ [((0 : ℤ), (⟨hour, [(0, ⟨3, 0⟩), (hour, ⟨4, 0⟩)]⟩ :
        StoredBlock (List (RollupRecord ℤ))))]).find? s = some b → s = 0 := by
      intro s b h
      by_contra hne
      rw [Table.find?_upsertAll_of_notMem (by simpa using hne)] at h
      cases h
    intro s₁ s₂ b₁ b₂ h₁ h₂ hne
    exact absurd ((hone s₁ b₁ h₁).trans (hone s₂ b₂ h₂).symm) hne
  · exact fun _ _ _ _ h => by cases h

theorem seal_invisible_lateStore :
    let after := commit (sealSQLiteV4RollupSeriesTx plainCodec [1] (6 * hour) (5 * hour)) lateStore
    (∀ b, logicalRollup plainCodec (group after hourly) b =
        logicalRollup plainCodec (group lateStore hourly) b) ∧
      DisjointBlocks (group after hourly).blocks ∧
      (group after hourly).hot.find? hour = none ∧
      (group after hourly).hot.find? (2 * hour) = none ∧
      (group after hourly).hot.find? (5 * hour) = some ⟨9, 1⟩ := by
  have h := seal_invisible plainCodec [1] (6 * hour) (5 * hour) lateStore disjointBlocks_lateStore
    hourly
  refine ⟨h.1, h.2.1, by decide +kernel, by decide +kernel, ?_⟩
  exact h.2.2.2 (by decide) (by decide) (by decide) (by decide) (5 * hour) ⟨9, 1⟩
    (by decide +kernel) (by decide)

/-- One hot row before the end of the 64-bit range. -/
def endOfTime : RollupStore ℤ (List (RollupRecord ℤ)) :=
  sampleStore [(maxInt64 - 1, ⟨5, 0⟩)] []

/-- At the sentinel frontier nothing is clamped: a bucket that is open there is moved. -/
theorem seal_open_at_sentinel :
    let before := maxInt64
    let frontier := maxInt64
    let after := commit (sealSQLiteV4RollupSeriesTx plainCodec [1] before frontier) endOfTime
    (∀ key, DisjointBlocks (group endOfTime key).blocks) ∧
      frontier ≤ before + hourly.resolution - 1 ∧
      (group endOfTime hourly).hot.find? (maxInt64 - 1) = some ⟨5, 0⟩ ∧
      frontier < maxInt64 - 1 + hourly.resolution ∧
      (group after hourly).hot.find? (maxInt64 - 1) = none := by
  refine ⟨?_, by decide, by decide +kernel, by decide, by decide +kernel⟩
  intro key
  rw [endOfTime, sampleStore, group_upsert]
  split_ifs
  · exact fun _ _ _ _ h => by cases h
  · exact fun _ _ _ _ h => by cases h

end Seal

end Komari
