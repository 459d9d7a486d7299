import Komari.Seal.Store

/-!
# Reading rollups while they are sealed

A reader that holds no transaction sees, in each of its statements, the state that some commit left.
`visitSQLiteV4Rollups` reads the blocks of a series and then its hot rows; `foldSQLiteV4Rollups`
reads the hot rows of a batch of series and then their blocks.
-/

namespace Komari

namespace Seal

variable {δ β : Type}

/-! ### The readers -/

/-- How the readers name a block in an error. -/
def readPlace (seriesID start : ℤ) : String := s!"series={seriesID} start={start}"

/-- The bucket lies in the range of the query. -/
def inRange (lower upper b : ℤ) : Bool := lower ≤ b && b ≤ upper

/-- The records of the blocks of a series that lie in the range, in the order of the blocks. -/
def readBlocks (codec : RollupCodec δ β) (lower upper seriesID : ℤ) (blocks : RollupBlocks β) :
    Except String (List (RollupRecord δ)) := do
  let loaded ← (blocks.select fun start block => lower ≤ block.endNano && start ≤ upper).mapM
    fun r => decodeBlock codec "rollup block" (readPlace seriesID r.1) r.1 r.2
  .ok (loaded.flatten.filter fun r => inRange lower upper r.1)

/-- The buckets that are not sealed. -/
def readHot (lower upper : ℤ) (hot : Table ℤ (RollupRow δ)) : List (RollupRecord δ) :=
  hot.select fun b _ => inRange lower upper b

/-- One series in `visitSQLiteV4Rollups`: hot rows override the records of the blocks, and the
buckets are visited in ascending order. -/
def visitSeries (codec : RollupCodec δ β) (lower upper seriesID : ℤ) (blocks : RollupBlocks β)
    (hot : Table ℤ (RollupRow δ)) : Except String (List (RollupRecord δ)) := do
  let records ← readBlocks codec lower upper seriesID blocks
  let byBucket := (Table.upsertAll ∅ records).upsertAll (readHot lower upper hot)
  .ok (sortByKey byBucket.rows)

/-- `visitSQLiteV4Rollups`: the visited records with their series.  Statement `k` sees
`snapshots k`. -/
def visitSQLiteV4Rollups (codec : RollupCodec δ β) (snapshots : ℕ → RollupStore δ β)
    (resolution lower upper : ℤ) : ℕ → List ℤ → Except String (List (ℤ × RollupRecord δ))
  | _, [] => .ok []
  | k, seriesID :: series => do
    let key : GroupKey := ⟨seriesID, resolution⟩
    let records ← visitSeries codec lower upper seriesID (group (snapshots k) key).blocks
      (group (snapshots (k + 1)) key).hot
    let rest ← visitSQLiteV4Rollups codec snapshots resolution lower upper (k + 2) series
    .ok (records.map (fun r => (seriesID, r)) ++ rest)

/-- One series in `foldSQLiteV4Rollups`: the records of its blocks that no hot row overrides. -/
def foldSeries (codec : RollupCodec δ β) (lower upper seriesID : ℤ) (hot : Table ℤ (RollupRow δ))
    (blocks : RollupBlocks β) : Except String (List (RollupRecord δ)) := do
  let records ← readBlocks codec lower upper seriesID blocks
  .ok (records.filter fun r => !holdsBucket (readHot lower upper hot) r.1)

/-- A batch of series in `foldSQLiteV4Rollups`: the records in the order in which they are merged,
those of the blocks before the hot rows, each in the order of the series identifiers. -/
def foldBatch (codec : RollupCodec δ β) (resolution lower upper : ℤ)
    (hotStore blockStore : RollupStore δ β) (batch : List ℤ) :
    Except String (List (ℤ × RollupRecord δ)) := do
  let ids := batch.insertionSort (· ≤ ·)
  let hotRecords := ids.flatMap fun seriesID =>
    (readHot lower upper (group hotStore ⟨seriesID, resolution⟩).hot).map fun r => (seriesID, r)
  let blockRecords ← ids.mapM fun seriesID => do
    let records ← foldSeries codec lower upper seriesID (group hotStore ⟨seriesID, resolution⟩).hot
      (group blockStore ⟨seriesID, resolution⟩).blocks
    .ok (records.map fun r => (seriesID, r))
  .ok (blockRecords.flatten ++ hotRecords)

/-- Series are read in groups of this size. -/
def seriesBatchSize : ℕ := 64

/-- The records that the batches of `foldSQLiteV4Rollups` merge. -/
def foldBatches (codec : RollupCodec δ β) (snapshots : ℕ → RollupStore δ β)
    (resolution lower upper : ℤ) : ℕ → List (List ℤ) → Except String (List (ℤ × RollupRecord δ))
  | _, [] => .ok []
  | k, batch :: batches => do
    let records ← foldBatch codec resolution lower upper (snapshots k) (snapshots (k + 1)) batch
    let rest ← foldBatches codec snapshots resolution lower upper (k + 2) batches
    .ok (records ++ rest)

/-- `foldSQLiteV4Rollups`: every record is merged into the groups.  Statement `k` sees
`snapshots k`. -/
def foldSQLiteV4Rollups {γ : Type} (codec : RollupCodec δ β) (snapshots : ℕ → RollupStore δ β)
    (resolution lower upper : ℤ) (merge : γ → ℤ × RollupRecord δ → γ) (groups : γ)
    (series : List ℤ) : Except String γ := do
  let records ← foldBatches codec snapshots resolution lower upper 0 (chunks seriesBatchSize series)
  .ok (records.foldl merge groups)

/-! ### States and runs -/

/-- The invariant of the store: blocks are disjoint and decode. -/
def Consistent (codec : RollupCodec δ β) (st : RollupStore δ β) : Prop :=
  ∀ key, DisjointBlocks (group st key).blocks ∧ Sound codec (group st key).blocks

/-- Sealing transactions between two statements. -/
def SealRun [DecidableEq δ] (codec : RollupCodec δ β) :
    RollupStore δ β → RollupStore δ β → Prop :=
  Relation.ReflTransGen fun st st' => ∃ series beforeNano frontierNano,
    st' = commit (sealSQLiteV4RollupSeriesTx codec series beforeNano frontierNano) st

theorem consistent_empty (codec : RollupCodec δ β) : Consistent codec ∅ := by
  intro key
  constructor
  · intro _ _ _ _ h
    cases h
  · intro _ _ h
    cases h

theorem Consistent.upsert_hot {codec : RollupCodec δ β} {st : RollupStore δ β}
    (h : Consistent codec st) (key : GroupKey) (b : ℤ) (row : RollupRow δ) :
    Consistent codec (st.upsert key ⟨(group st key).hot.upsert b row, (group st key).blocks⟩) := by
  intro key'
  rw [group_upsert]
  split_ifs with heq
  · exact h key
  · exact h key'

/-- The records, each with its series, are the logical rollup map of the series in the range, and
no bucket of a series occurs twice. -/
structure Exact (codec : RollupCodec δ β) (st : RollupStore δ β) (series : List ℤ)
    (resolution lower upper : ℤ) (out : List (ℤ × RollupRecord δ)) : Prop where
  once : (out.map fun r => (r.1, r.2.1)).Nodup
  logical : ∀ seriesID b d, (∃ row, (seriesID, b, row) ∈ out ∧ row.data = d) ↔
    seriesID ∈ series ∧ b ∈ Set.Icc lower upper ∧
      logicalRollup codec (group st ⟨seriesID, resolution⟩) b = some d

variable {codec : RollupCodec δ β}

theorem SealRun.seals [DecidableEq δ] {st st' : RollupStore δ β} (hst : Consistent codec st)
    (h : SealRun codec st st') (key : GroupKey) :
    Seals codec (fun _ => True) (group st key) (group st' key) := by
  have hall : ∀ key, Seals codec (fun _ => True) (group st key) (group st' key) := by
    induction h with
    | refl => exact fun key => Seals.refl (hst key).1 _
    | tail _ hstep ih =>
      obtain ⟨series, beforeNano, frontierNano, rfl⟩ := hstep
      intro key
      have hnext := seals_commit codec series beforeNano frontierNano (fun key => (ih key).disjoint) key
      exact (ih key).trans (hnext.mono fun _ _ => trivial)
  exact hall key

theorem SealRun.consistent [DecidableEq δ] {st st' : RollupStore δ β} (hst : Consistent codec st)
    (h : SealRun codec st st') : Consistent codec st' := fun key =>
  ⟨(h.seals hst key).disjoint, (h.seals hst key).sound (hst key).2⟩

/-- The states that writes of hot rows and sealing transactions reach. -/
inductive Reachable [DecidableEq δ] (codec : RollupCodec δ β) : RollupStore δ β → Prop
  | empty : Reachable codec ∅
  /-- A hot row is written. -/
  | write {st : RollupStore δ β} (key : GroupKey) (b : ℤ) (row : RollupRow δ) :
      Reachable codec st →
        Reachable codec (st.upsert key ⟨(group st key).hot.upsert b row, (group st key).blocks⟩)
  | sealed {st st' : RollupStore δ β} : Reachable codec st → SealRun codec st st' →
      Reachable codec st'

theorem Reachable.consistent [DecidableEq δ] {st : RollupStore δ β} (h : Reachable codec st) :
    Consistent codec st := by
  induction h with
  | empty => exact consistent_empty codec
  | write key b row _ ih => exact ih.upsert_hot key b row
  | sealed _ hrun ih => exact hrun.consistent ih

/-! ### Reading one series -/

/-- Blocks in ascending order decode to records in ascending order. -/
theorem ascending_flatten_blocks {blocks : RollupBlocks β} (hwf : DisjointBlocks blocks)
    {what : String} {place : ℤ → String} {l : List (ℤ × StoredBlock β)} (hasc : Ascending l)
    (hl : ∀ r ∈ l, blocks.find? r.1 = some r.2) {loaded : List (List (RollupRecord δ))}
    (h : l.mapM (fun r => decodeBlock codec what (place r.1) r.1 r.2) = .ok loaded) :
    Ascending loaded.flatten := by
  induction l generalizing loaded with
  | nil =>
    cases h
    exact List.Pairwise.nil
  | cons r l ih =>
    rw [List.mapM_cons] at h
    obtain ⟨records, hr, h⟩ := bind_eq_ok.mp h
    obtain ⟨rest, hrest, h⟩ := bind_eq_ok.mp h
    cases h
    obtain ⟨hlt, hasc⟩ := List.pairwise_cons.mp hasc
    have hholds := decodeBlock_eq_ok.mp hr
    have htail := ih hasc (fun q hq => hl q (List.mem_cons_of_mem _ hq)) hrest
    refine List.pairwise_append.mpr ⟨hholds.ascending, htail, fun x hx y hy => ?_⟩
    -- `y` belongs to a later block, which starts behind the end of this one
    obtain ⟨recs, hrecs, hy⟩ := List.mem_flatten.mp hy
    obtain ⟨q, hq, hdec⟩ := (mem_of_mapM_eq_ok hrest recs).mp hrecs
    have hx' := hholds.ascending.mem_Icc hholds.2 hx
    have hqholds := decodeBlock_eq_ok.mp hdec
    have hy' := hqholds.ascending.mem_Icc hqholds.2 hy
    have hdisj := hwf r.1 q.1 r.2 q.2 (hl r List.mem_cons_self) (hl q (List.mem_cons_of_mem _ hq))
      (hlt q hq).ne
    by_contra hge
    have hle := not_lt.mp hge
    have := hlt q hq
    exact Set.disjoint_left.mp hdisj ⟨this.le, hy'.1.trans (hle.trans hx'.2)⟩
      ⟨le_rfl, hy'.1.trans hy'.2⟩

/-- The blocks of a consistent store are read, and what is read is what they contain in the range. -/
theorem exists_readBlocks {blocks : RollupBlocks β} (hwf : DisjointBlocks blocks)
    (hsound : Sound codec blocks) (lower upper seriesID : ℤ) :
    ∃ records, readBlocks codec lower upper seriesID blocks = .ok records ∧ Ascending records ∧
      ∀ b d, (b, d) ∈ records.map recordData ↔
        Contains codec blocks b d ∧ b ∈ Set.Icc lower upper := by
  have hdecodes : ∀ r : ℤ × StoredBlock β, ∃ records, blocks.find? r.1 = some r.2 →
      decodeBlock codec "rollup block" (readPlace seriesID r.1) r.1 r.2 = .ok records := by
    intro r
    by_cases hfind : blocks.find? r.1 = some r.2
    · obtain ⟨records, hholds⟩ := hsound r.1 r.2 hfind
      exact ⟨records, fun _ => decodeBlock_eq_ok.mpr hholds⟩
    · exact ⟨[], fun h => absurd h hfind⟩
  choose decoded hdecoded using hdecodes
  unfold readBlocks
  generalize hover : (blocks.select fun start block => lower ≤ block.endNano && start ≤ upper) = l
  have hl : ∀ r ∈ l, blocks.find? r.1 = some r.2 := by
    intro r hr
    rw [← hover] at hr
    exact (Table.mem_select.mp hr).1
  have hload := mapM_eq_ok (l := l) fun r hr => hdecoded r (hl r hr)
  have hasc : Ascending l := hover ▸ blocks.ascending_select _
  refine ⟨_, by rw [hload]; rfl, ?_, ?_⟩
  · exact (ascending_flatten_blocks hwf hasc hl hload).sublist List.filter_sublist
  · intro b d
    rw [mem_map_recordData]
    constructor
    · rintro ⟨row, hrow, rfl⟩
      obtain ⟨hmem, hb⟩ := List.mem_filter.mp hrow
      obtain ⟨records, hrecords, hr⟩ := List.mem_flatten.mp hmem
      obtain ⟨⟨start, block⟩, hblock, rfl⟩ := List.mem_map.mp hrecords
      refine ⟨⟨start, block, _, hl _ hblock, decodeBlock_eq_ok.mp (hdecoded _ (hl _ hblock)),
        mem_map_recordData.mpr ⟨row, hr, rfl⟩⟩, ?_⟩
      simpa [inRange] using hb
    · rintro ⟨⟨start, block, records, hfind, hholds, hmem⟩, hb⟩
      obtain ⟨row, hrow, hd⟩ := mem_map_recordData.mp hmem
      have hin := hholds.mem_Icc hmem
      have hblock : (start, block) ∈ l := by
        rw [← hover, Table.mem_select]
        refine ⟨hfind, ?_⟩
        simp only [Bool.and_eq_true, decide_eq_true_eq]
        exact ⟨hb.1.trans hin.2, hin.1.trans hb.2⟩
      refine ⟨row, List.mem_filter.mpr ⟨List.mem_flatten.mpr ⟨_, List.mem_map_of_mem hblock, ?_⟩, ?_⟩,
        hd⟩
      · rw [(decodeBlock_eq_ok.mp (hdecoded _ hfind)).unique hholds]
        exact hrow
      · simpa [inRange] using hb

theorem mem_readHot {hot : Table ℤ (RollupRow δ)} {lower upper b : ℤ} {row : RollupRow δ} :
    (b, row) ∈ readHot lower upper hot ↔ hot.find? b = some row ∧ b ∈ Set.Icc lower upper := by
  rw [readHot, Table.mem_select]
  simp [inRange]

theorem mem_keys_readHot {hot : Table ℤ (RollupRow δ)} {lower upper b : ℤ} :
    b ∈ (readHot lower upper hot).map Prod.fst ↔
      hot.find? b ≠ none ∧ b ∈ Set.Icc lower upper := by
  rw [List.mem_map]
  constructor
  · rintro ⟨⟨_, row⟩, hmem, rfl⟩
    obtain ⟨hfind, hb⟩ := mem_readHot.mp hmem
    exact ⟨by rw [hfind]; exact Option.some_ne_none row, hb⟩
  · rintro ⟨hne, hb⟩
    obtain ⟨row, hrow⟩ := Option.ne_none_iff_exists'.mp hne
    exact ⟨(b, row), mem_readHot.mpr ⟨hrow, hb⟩, rfl⟩

/-- The records are the logical map of a group in the range, every bucket once. -/
structure ExactSeries (codec : RollupCodec δ β) (g : Group δ β) (lower upper : ℤ)
    (records : List (RollupRecord δ)) : Prop where
  once : (records.map Prod.fst).Nodup
  logical : ∀ b d, (b, d) ∈ records.map recordData ↔
    b ∈ Set.Icc lower upper ∧ logicalRollup codec g b = some d

/-- Hot rows first: what is sealed between the statements is found in the blocks, and overridden. -/
theorem exists_foldSeries {g g' : Group δ β} {moves : ℤ → Prop} (hseals : Seals codec moves g g')
    (hsound : Sound codec g.blocks) (lower upper seriesID : ℤ) :
    ∃ records, foldSeries codec lower upper seriesID g.hot g'.blocks = .ok records ∧
      ExactSeries codec g lower upper (records ++ readHot lower upper g.hot) := by
  obtain ⟨records, hread, hasc, hmem⟩ :=
    exists_readBlocks hseals.disjoint (hseals.sound hsound) lower upper seriesID
  have hhot : Ascending (readHot lower upper g.hot) := g.hot.ascending_select _
  have hkept : ∀ r, r ∈ records.filter (fun r => !holdsBucket (readHot lower upper g.hot) r.1) ↔
      r ∈ records ∧ r.1 ∉ (readHot lower upper g.hot).map Prod.fst := by
    intro r
    rw [List.mem_filter, Bool.not_eq_true', ← Bool.not_eq_true, holdsBucket_iff]
  refine ⟨_, by rw [foldSeries, hread]; rfl, ?_, ?_⟩
  · rw [List.map_append, List.nodup_append]
    refine ⟨hasc.nodup_keys.sublist (List.filter_sublist.map _), hhot.nodup_keys, ?_⟩
    rintro b hb _ hb' rfl
    obtain ⟨r, hr, rfl⟩ := List.mem_map.mp hb
    exact ((hkept r).mp hr).2 hb'
  · intro b d
    rw [List.map_append, List.mem_append, mem_map_recordData, mem_map_recordData]
    cases hrow : g.hot.find? b with
    | some row =>
      -- a hot row overrides whatever the blocks hold
      rw [logicalRollup_of_hot hrow]
      constructor
      · rintro (⟨row', hrow', -⟩ | ⟨row', hrow', rfl⟩)
        · have hb := (hmem b row'.data).mp (mem_map_recordData.mpr ⟨row', ((hkept _).mp hrow').1, rfl⟩)
          have hkey := mem_keys_readHot.mpr ⟨by rw [hrow]; exact Option.some_ne_none row, hb.2⟩
          exact absurd hkey ((hkept _).mp hrow').2
        · obtain ⟨hfind, hb⟩ := mem_readHot.mp hrow'
          exact ⟨hb, by rw [Option.some.inj (hrow.symm.trans hfind)]⟩
      · rintro ⟨hb, heq⟩
        exact Or.inr ⟨row, mem_readHot.mpr ⟨hrow, hb⟩, Option.some.inj heq⟩
    | none =>
      have hcold : g'.hot.find? b = none := by
        by_contra hne
        obtain ⟨row, hrow'⟩ := Option.ne_none_iff_exists'.mp hne
        cases hrow.symm.trans (hseals.hot_subset b row hrow')
      have hnot : b ∉ (readHot lower upper g.hot).map Prod.fst :=
        fun hkey => (mem_keys_readHot.mp hkey).1 hrow
      rw [← hseals.logical b, logicalRollup_of_cold hseals.disjoint hcold, and_comm, ← hmem,
        mem_map_recordData]
      constructor
      · rintro (⟨row, hrow', hd⟩ | ⟨row, hrow', -⟩)
        · exact ⟨row, ((hkept _).mp hrow').1, hd⟩
        · exact absurd (List.mem_map_of_mem hrow') hnot
      · rintro ⟨row, hrow', hd⟩
        exact Or.inl ⟨row, (hkept _).mpr ⟨hrow', hnot⟩, hd⟩

/-- Every row of the range that left the hot rows between two states was already in the blocks of
the first one, with the same data. -/
def Copied (codec : RollupCodec δ β) (lower upper : ℤ) (g g' : Group δ β) : Prop :=
  ∀ b row, b ∈ Set.Icc lower upper → g.hot.find? b = some row → g'.hot.find? b = none →
    Contains codec g.blocks b row.data

/-- Blocks first: a row sealed between the statements is in neither half, but for its copy. -/
theorem exists_visitSeries {g g' : Group δ β} {moves : ℤ → Prop} (hwf : DisjointBlocks g.blocks)
    (hseals : Seals codec moves g g') (hsound : Sound codec g.blocks) (lower upper seriesID : ℤ) :
    ∃ records, visitSeries codec lower upper seriesID g.blocks g'.hot = .ok records ∧
      (ExactSeries codec g lower upper records ↔ Copied codec lower upper g g') := by
  obtain ⟨records, hread, hasc, hmem⟩ := exists_readBlocks hwf hsound lower upper seriesID
  have hhot : Ascending (readHot lower upper g'.hot) := g'.hot.ascending_select _
  have hunique : ∀ b d d', (b, d) ∈ records.map recordData → (b, d') ∈ records.map recordData →
      d = d' := by
    intro b d d' h h'
    exact hwf.contains_unique ((hmem b d).mp h).1 ((hmem b d').mp h').1
  have hout : ∀ b d, b ∈ Set.Icc lower upper →
      ((b, d) ∈ (sortByKey ((Table.upsertAll ∅ records).upsertAll
        (readHot lower upper g'.hot)).rows).map recordData ↔
        (∃ row, g'.hot.find? b = some row ∧ row.data = d) ∨
          (g'.hot.find? b = none ∧ Contains codec g.blocks b d)) := by
    intro b d hb
    rw [mem_overridden hhot hunique, hmem, mem_keys_readHot, mem_map_recordData]
    simp only [mem_readHot, hb, and_true, not_not, ne_eq]
  refine ⟨_, by rw [visitSeries, hread]; rfl, ?_, ?_⟩
  · intro hexact b row hb hrow hcold
    have hlog := (hexact.logical b row.data).mpr ⟨hb, logicalRollup_of_hot hrow⟩
    rcases (hout b row.data hb).mp hlog with ⟨row', hrow', -⟩ | ⟨-, hcontains⟩
    · cases hcold.symm.trans hrow'
    · exact hcontains
  · intro hcopied
    refine ⟨(ascending_sortByKey (Table.nodup_map_fst_rows _)).nodup_keys, fun b d => ?_⟩
    by_cases hb : b ∈ Set.Icc lower upper
    · rw [hout b d hb]
      simp only [hb, true_and]
      cases hrow' : g'.hot.find? b with
      | some row' =>
        rw [logicalRollup_of_hot (hseals.hot_subset b row' hrow')]
        simp
      | none =>
        cases hrow : g.hot.find? b with
        | none =>
          rw [logicalRollup_of_cold hwf hrow]
          simp
        | some row =>
          -- the row was sealed in between
          have hcopy := hcopied b row hb hrow hrow'
          rw [logicalRollup_of_hot hrow]
          simp only [reduceCtorEq, false_and, exists_false, true_and, false_or, Option.some.injEq]
          constructor
          · exact fun h => hwf.contains_unique hcopy h
          · rintro rfl
            exact hcopy
    · simp only [hb, false_and, iff_false]
      rw [mem_overridden hhot hunique, hmem]
      rintro (h | ⟨-, -, h⟩)
      · obtain ⟨row, hrow, -⟩ := mem_map_recordData.mp h
        exact hb (mem_readHot.mp hrow).2
      · exact hb h

/-! ### Putting series together -/

section Series

variable {st : RollupStore δ β} {resolution lower upper : ℤ}

theorem Exact.congr {series series' : List ℤ} {out out' : List (ℤ × RollupRecord δ)}
    (h : Exact codec st series resolution lower upper out)
    (hseries : ∀ seriesID, seriesID ∈ series ↔ seriesID ∈ series') (hout : out.Perm out') :
    Exact codec st series' resolution lower upper out' where
  once := ((hout.map _).nodup_iff).mp h.once
  logical seriesID b d := by
    rw [← hseries, ← h.logical]
    simp only [hout.mem_iff]

theorem exact_nil : Exact codec st [] resolution lower upper [] where
  once := List.nodup_nil
  logical seriesID b d := by simp

/-- One more series: its records and those of the others are exact together when both are. -/
theorem exact_cons {seriesID : ℤ} {series : List ℤ} {records : List (RollupRecord δ)}
    {rest : List (ℤ × RollupRecord δ)} (hnot : seriesID ∉ series) (hrest : ∀ r ∈ rest, r.1 ∈ series) :
    Exact codec st (seriesID :: series) resolution lower upper
        (records.map (fun r => (seriesID, r)) ++ rest) ↔
      ExactSeries codec (group st ⟨seriesID, resolution⟩) lower upper records ∧
        Exact codec st series resolution lower upper rest := by
  have hmine : ∀ b row, (seriesID, b, row) ∈ records.map (fun r => (seriesID, r)) ++ rest ↔
      (b, row) ∈ records := by
    intro b row
    rw [List.mem_append, or_iff_left fun h => hnot (hrest _ h)]
    simp
  have hothers : ∀ id b row, id ≠ seriesID →
      ((id, b, row) ∈ records.map (fun r => (seriesID, r)) ++ rest ↔ (id, b, row) ∈ rest) := by
    intro id b row hne
    rw [List.mem_append, or_iff_right]
    intro h
    obtain ⟨r, -, heq⟩ := List.mem_map.mp h
    exact hne (congrArg Prod.fst heq).symm
  have hkeys : (records.map fun r => (seriesID, r)).map (fun r => (r.1, r.2.1)) =
      (records.map Prod.fst).map fun b => (seriesID, b) := by
    rw [List.map_map, List.map_map]
    rfl
  have hinj : Function.Injective fun b : ℤ => (seriesID, b) := fun _ _ h => congrArg Prod.snd h
  constructor
  · rintro ⟨honce, hlogical⟩
    rw [List.map_append, List.nodup_append, hkeys] at honce
    refine ⟨⟨honce.1.of_map _, fun b d => ?_⟩, honce.2.1, fun id b d => ?_⟩
    · have h := hlogical seriesID b d
      simp only [hmine, List.mem_cons, true_or, true_and] at h
      rw [mem_map_recordData, h]
    · by_cases hid : id = seriesID
      · subst hid
        simp only [hnot, false_and, iff_false]
        rintro ⟨row, hrow, -⟩
        exact hnot (hrest _ hrow)
      · have h := hlogical id b d
        simp only [hothers id _ _ hid, List.mem_cons, hid, false_or] at h
        exact h
  · rintro ⟨⟨honce, hlogical⟩, honce', hlogical'⟩
    refine ⟨?_, fun id b d => ?_⟩
    · rw [List.map_append, List.nodup_append, hkeys]
      refine ⟨honce.map hinj, honce', ?_⟩
      rintro x hx y hy rfl
      obtain ⟨b, -, rfl⟩ := List.mem_map.mp hx
      obtain ⟨r, hr, heq⟩ := List.mem_map.mp hy
      have hid : r.1 = seriesID := (Prod.mk.inj heq).1
      exact hnot (hid ▸ hrest r hr)
    · by_cases hid : id = seriesID
      · subst hid
        simp only [hmine, List.mem_cons, true_or, true_and]
        rw [← hlogical, mem_map_recordData]
      · simp only [hothers id _ _ hid, List.mem_cons, hid, false_or]
        exact hlogical' id b d

theorem exact_flatMap {series : List ℤ} (hnd : series.Nodup) {records : ℤ → List (RollupRecord δ)}
    (h : ∀ id, ExactSeries codec (group st ⟨id, resolution⟩) lower upper (records id)) :
    Exact codec st series resolution lower upper
      (series.flatMap fun id => (records id).map fun r => (id, r)) := by
  induction series with
  | nil => exact exact_nil
  | cons id series ih =>
    obtain ⟨hnot, hnd⟩ := List.nodup_cons.mp hnd
    rw [List.flatMap_cons]
    refine (exact_cons hnot fun r hr => ?_).mpr ⟨h id, ih hnd⟩
    obtain ⟨id', hid', hr⟩ := List.mem_flatMap.mp hr
    obtain ⟨_, -, rfl⟩ := List.mem_map.mp hr
    exact hid'

theorem Exact.append {series series' : List ℤ} {out out' : List (ℤ × RollupRecord δ)}
    (h : Exact codec st series resolution lower upper out)
    (h' : Exact codec st series' resolution lower upper out')
    (hdisj : ∀ id ∈ series, id ∉ series') :
    Exact codec st (series ++ series') resolution lower upper (out ++ out') where
  once := by
    have hmem : ∀ {s : List ℤ} {l : List (ℤ × RollupRecord δ)},
        Exact codec st s resolution lower upper l → ∀ r ∈ l, r.1 ∈ s := by
      rintro s l hl ⟨id, b, row⟩ hr
      exact ((hl.logical id b row.data).mp ⟨row, hr, rfl⟩).1
    rw [List.map_append, List.nodup_append]
    refine ⟨h.once, h'.once, ?_⟩
    rintro x hx y hy rfl
    obtain ⟨r, hr, rfl⟩ := List.mem_map.mp hx
    obtain ⟨r', hr', heq⟩ := List.mem_map.mp hy
    have hid : r'.1 = r.1 := (Prod.mk.inj heq).1
    exact hdisj r.1 (hmem h r hr) (hid ▸ hmem h' r' hr')
  logical id b d := by
    simp only [List.mem_append, or_and_right, exists_or, h.logical, h'.logical]

end Series

/-! ### Reading the store -/

section Store

variable [DecidableEq δ] {snapshots : ℕ → RollupStore δ β} {resolution lower upper : ℤ}

/-- `foldSQLiteV4Rollups` merges exactly the logical map of the first snapshot. -/
def FoldIsExact (codec : RollupCodec δ β) (snapshots : ℕ → RollupStore δ β)
    (resolution lower upper : ℤ) (series : List ℤ) : Prop :=
  ∃ out, Exact codec (snapshots 0) series resolution lower upper out ∧
    ∀ (γ : Type) (merge : γ → ℤ × RollupRecord δ → γ) (groups : γ),
      foldSQLiteV4Rollups codec snapshots resolution lower upper merge groups series =
        .ok (out.foldl merge groups)

/-- `visitSQLiteV4Rollups` visits exactly the logical map of the first snapshot. -/
def VisitIsExact (codec : RollupCodec δ β) (snapshots : ℕ → RollupStore δ β)
    (resolution lower upper : ℤ) (series : List ℤ) : Prop :=
  ∃ out, Exact codec (snapshots 0) series resolution lower upper out ∧
    visitSQLiteV4Rollups codec snapshots resolution lower upper 0 series = .ok out

theorem sealRun_snapshots (hruns : ∀ k, SealRun codec (snapshots k) (snapshots (k + 1))) (k : ℕ) :
    SealRun codec (snapshots 0) (snapshots k) := by
  induction k with
  | zero => exact Relation.ReflTransGen.refl
  | succ k ih => exact ih.trans (hruns k)

/-- The logical map of every snapshot is that of the first one. -/
theorem exactSeries_snapshot (hst : Consistent codec (snapshots 0))
    (hruns : ∀ k, SealRun codec (snapshots k) (snapshots (k + 1))) (k : ℕ) (key : GroupKey)
    {records : List (RollupRecord δ)} :
    ExactSeries codec (group (snapshots k) key) lower upper records ↔
      ExactSeries codec (group (snapshots 0) key) lower upper records := by
  have hlog := ((sealRun_snapshots hruns k).seals hst key).logical
  constructor
  · rintro ⟨honce, hlogical⟩
    exact ⟨honce, fun b d => by rw [hlogical, hlog]⟩
  · rintro ⟨honce, hlogical⟩
    exact ⟨honce, fun b d => by rw [hlogical, hlog]⟩

theorem exists_foldBatch (hst : Consistent codec (snapshots 0))
    (hruns : ∀ k, SealRun codec (snapshots k) (snapshots (k + 1))) (k : ℕ) {batch : List ℤ}
    (hnd : batch.Nodup) :
    ∃ out, foldBatch codec resolution lower upper (snapshots k) (snapshots (k + 1)) batch = .ok out ∧
      Exact codec (snapshots 0) batch resolution lower upper out := by
  have hk := (sealRun_snapshots hruns k).consistent hst
  have hone : ∀ id, ∃ records, foldSeries codec lower upper id
      (group (snapshots k) ⟨id, resolution⟩).hot (group (snapshots (k + 1)) ⟨id, resolution⟩).blocks =
        .ok records ∧ ExactSeries codec (group (snapshots k) ⟨id, resolution⟩) lower upper
          (records ++ readHot lower upper (group (snapshots k) ⟨id, resolution⟩).hot) := fun id =>
    exists_foldSeries ((hruns k).seals hk ⟨id, resolution⟩) (hk ⟨id, resolution⟩).2 lower upper id
  choose records hrecords hexact using hone
  have hperm : (batch.insertionSort (· ≤ ·)).Perm batch := List.perm_insertionSort _ batch
  have hblocks := mapM_eq_ok (l := batch.insertionSort (· ≤ ·))
    (f := fun id => do
      let records ← foldSeries codec lower upper id (group (snapshots k) ⟨id, resolution⟩).hot
        (group (snapshots (k + 1)) ⟨id, resolution⟩).blocks
      .ok (records.map fun r => (id, r)))
    (g := fun id => (records id).map fun r => (id, r)) (fun id _ => by rw [hrecords]; rfl)
  refine ⟨_, by rw [foldBatch, hblocks]; rfl, ?_⟩
  have hall : Exact codec (snapshots 0) (batch.insertionSort (· ≤ ·)) resolution lower upper _ :=
    exact_flatMap (hperm.nodup_iff.mpr hnd)
      fun id => (exactSeries_snapshot hst hruns k ⟨id, resolution⟩).mp (hexact id)
  refine hall.congr (fun id => hperm.mem_iff) ?_
  simp only [List.map_append]
  rw [← List.flatMap_def]
  exact (List.flatMap_append_perm _ _ _).symm

theorem exists_foldBatches (resolution lower upper : ℤ) (hst : Consistent codec (snapshots 0))
    (hruns : ∀ k, SealRun codec (snapshots k) (snapshots (k + 1))) (k : ℕ) {batches : List (List ℤ)}
    (hnd : batches.flatten.Nodup) :
    ∃ out, foldBatches codec snapshots resolution lower upper k batches = .ok out ∧
      Exact codec (snapshots 0) batches.flatten resolution lower upper out := by
  induction batches generalizing k with
  | nil => exact ⟨[], rfl, exact_nil⟩
  | cons batch batches ih =>
    rw [List.flatten_cons, List.nodup_append] at hnd
    obtain ⟨records, hrecords, hexact⟩ := exists_foldBatch hst hruns k hnd.1
    obtain ⟨rest, hrest, hexact'⟩ := ih (k + 2) hnd.2.1
    refine ⟨records ++ rest, by rw [foldBatches, hrecords, hrest]; rfl, ?_⟩
    exact hexact.append hexact' fun id hid hid' => hnd.2.2 id hid id hid' rfl

/-- Hot rows first is exact, whatever is sealed between the statements. -/
theorem fold_exact (hst : Consistent codec (snapshots 0))
    (hruns : ∀ k, SealRun codec (snapshots k) (snapshots (k + 1))) {series : List ℤ}
    (hnd : series.Nodup) : FoldIsExact codec snapshots resolution lower upper series := by
  have hflat : (chunks seriesBatchSize series).flatten = series := flatten_chunks (by decide) series
  obtain ⟨out, hout, hexact⟩ := exists_foldBatches resolution lower upper hst hruns 0
    (hflat.symm ▸ hnd)
  rw [hflat] at hexact
  refine ⟨out, hexact, fun γ merge groups => ?_⟩
  rw [foldSQLiteV4Rollups, hout]
  rfl

theorem exists_visit (resolution lower upper : ℤ) (hst : Consistent codec (snapshots 0))
    (hruns : ∀ k, SealRun codec (snapshots k) (snapshots (k + 1))) (k : ℕ) {series : List ℤ}
    (hnd : series.Nodup) :
    ∃ out, visitSQLiteV4Rollups codec snapshots resolution lower upper k series = .ok out ∧
      (∀ r ∈ out, r.1 ∈ series) ∧
      (Exact codec (snapshots 0) series resolution lower upper out ↔
        ∀ i id, series[i]? = some id → Copied codec lower upper
          (group (snapshots (k + 2 * i)) ⟨id, resolution⟩)
          (group (snapshots (k + 2 * i + 1)) ⟨id, resolution⟩)) := by
  induction series generalizing k with
  | nil => exact ⟨[], rfl, by simp, by simp [exact_nil]⟩
  | cons id series ih =>
    obtain ⟨hnot, hnd⟩ := List.nodup_cons.mp hnd
    have hk := (sealRun_snapshots hruns k).consistent hst
    obtain ⟨records, hrecords, hiff⟩ := exists_visitSeries (hk ⟨id, resolution⟩).1
      ((hruns k).seals hk ⟨id, resolution⟩) (hk ⟨id, resolution⟩).2 lower upper id
    obtain ⟨rest, hrest, hids, hiff'⟩ := ih (k + 2) hnd
    refine ⟨_, by rw [visitSQLiteV4Rollups, hrecords, hrest]; rfl, ?_, ?_⟩
    · intro r hr
      rcases List.mem_append.mp hr with hr | hr
      · obtain ⟨_, -, rfl⟩ := List.mem_map.mp hr
        exact List.mem_cons_self
      · exact List.mem_cons_of_mem id (hids r hr)
    · rw [exact_cons hnot hids, ← exactSeries_snapshot hst hruns k, hiff, hiff']
      constructor
      · rintro ⟨hfirst, hothers⟩ i id' hi
        cases i with
        | zero =>
          cases hi
          exact hfirst
        | succ i =>
          have h := hothers i id' hi
          rwa [show k + 2 + 2 * i = k + 2 * (i + 1) by omega] at h
      · intro h
        refine ⟨h 0 id rfl, fun i id' hi => ?_⟩
        have h' := h (i + 1) id' hi
        rwa [show k + 2 * (i + 1) = k + 2 + 2 * i by omega] at h'

/-- Blocks first is exact when every row of the range that is sealed between the two statements of
its series had a copy with the same data in the blocks. -/
theorem visit_exact_iff (hst : Consistent codec (snapshots 0))
    (hruns : ∀ k, SealRun codec (snapshots k) (snapshots (k + 1))) {series : List ℤ}
    (hnd : series.Nodup) :
    VisitIsExact codec snapshots resolution lower upper series ↔
      ∀ i id, series[i]? = some id → Copied codec lower upper
        (group (snapshots (2 * i)) ⟨id, resolution⟩)
        (group (snapshots (2 * i + 1)) ⟨id, resolution⟩) := by
  obtain ⟨out, hout, -, hiff⟩ := exists_visit resolution lower upper hst hruns 0 hnd
  simp only [Nat.zero_add] at hiff
  rw [← hiff]
  constructor
  · rintro ⟨out', hexact, hvisit⟩
    rwa [Except.ok.inj (hvisit.symm.trans hout)] at hexact
  · exact fun hexact => ⟨out, hexact, hout⟩

/-- Both readers return the logical map exactly when every row of the range that is sealed between
the two statements of a series of `visitSQLiteV4Rollups` had a copy with the same data in the
blocks. -/
theorem readers_exact_iff (codec : RollupCodec δ β) (snapshots : ℕ → RollupStore δ β)
    (resolution lower upper : ℤ) (series : List ℤ) (hst : Consistent codec (snapshots 0))
    (hruns : ∀ k, SealRun codec (snapshots k) (snapshots (k + 1))) (hnd : series.Nodup) :
    (FoldIsExact codec snapshots resolution lower upper series ∧
        VisitIsExact codec snapshots resolution lower upper series) ↔
      ∀ i id, series[i]? = some id → Copied codec lower upper
        (group (snapshots (2 * i)) ⟨id, resolution⟩)
        (group (snapshots (2 * i + 1)) ⟨id, resolution⟩) := by
  rw [← visit_exact_iff hst hruns hnd]
  exact and_iff_right (fold_exact hst hruns hnd)

end Store

/-! ### Samples -/

/-- The late and the closed row of `lateStore` are sealed after the first statement. -/
def sealedBetween (k : ℕ) : RollupStore ℤ (List (RollupRecord ℤ)) :=
  if k = 0 then lateStore
  else commit (sealSQLiteV4RollupSeriesTx plainCodec [1] (6 * hour) (5 * hour)) lateStore

theorem consistent_lateStore : Consistent plainCodec lateStore := by
  refine fun key => ⟨disjointBlocks_lateStore key, ?_⟩
  rw [lateStore, sampleStore, group_upsert]
  split_ifs
  · intro s b h
    by_cases hs : s = 0
    · subst hs
      cases h
      exact ⟨_, rfl, rfl, rfl⟩
    · rw [Table.find?_upsertAll_of_notMem (by simpa using hs)] at h
      cases h
  · intro s b h
    cases h

theorem sealRun_sealedBetween (k : ℕ) :
    SealRun plainCodec (sealedBetween k) (sealedBetween (k + 1)) := by
  cases k with
  | zero => exact Relation.ReflTransGen.single ⟨[1], 6 * hour, 5 * hour, rfl⟩
  | succ k => exact Relation.ReflTransGen.refl

/-- The rows that are still hot are read by both readers. -/
theorem readers_exact_openRow :
    FoldIsExact plainCodec sealedBetween hour (4 * hour) (6 * hour) [1] ∧
      VisitIsExact plainCodec sealedBetween hour (4 * hour) (6 * hour) [1] := by
  refine (readers_exact_iff plainCodec sealedBetween hour (4 * hour) (6 * hour) [1]
    consistent_lateStore sealRun_sealedBetween (List.nodup_singleton 1)).mpr ?_
  intro i id hi b row hb hrow hcold
  match i, hi with
  | 0, hi =>
    cases hi
    have hkey : b ∈ [hour, 2 * hour, 5 * hour] := by
      by_contra hnot
      have hnone : (group lateStore hourly).hot.find? b = none :=
        Table.find?_upsertAll_of_notMem hnot
      cases hnone.symm.trans hrow
    have hopen : (group (sealedBetween 1) hourly).hot.find? (5 * hour) = some ⟨9, 1⟩ := by
      decide +kernel
    obtain rfl : b = 5 * hour := by
      have hlow := hb.1
      unfold hour at hkey hlow ⊢
      simp only [List.mem_cons, List.not_mem_nil, or_false] at hkey
      omega
    cases hopen.symm.trans hcold

/-- A row that is sealed between the two statements is missing. -/
theorem visit_misses_sealed :
    Consistent plainCodec (sealedBetween 0) ∧
      (∀ k, SealRun plainCodec (sealedBetween k) (sealedBetween (k + 1))) ∧
      logicalRollup plainCodec (group (sealedBetween 0) hourly) (2 * hour) = some 8 ∧
      ¬ VisitIsExact plainCodec sealedBetween hour 0 (6 * hour) [1] := by
  refine ⟨consistent_lateStore, sealRun_sealedBetween, by decide +kernel, ?_⟩
  rintro ⟨out, hexact, hvisit⟩
  have hrun : visitSQLiteV4Rollups plainCodec sealedBetween hour 0 (6 * hour) 0 [1] =
      .ok [(1, 0, ⟨3, 0⟩), (1, hour, ⟨4, 0⟩), (1, 5 * hour, ⟨9, 1⟩)] := by decide +kernel
  obtain rfl := Except.ok.inj (hrun.symm.trans hvisit)
  obtain ⟨row, hrow, -⟩ := (hexact.logical 1 (2 * hour) 8).mpr
    ⟨List.mem_singleton_self 1, by decide, by decide +kernel⟩
  simp [hour] at hrow

end Seal

end Komari
