import Komari.Block.ExternalWrite

/-!
# Sealing and deleting in an external database
-/

namespace Komari

namespace Block

open TrafficReset

section Laws

variable {flate : Flate} {crc32 : List UInt8 → UInt32} {s s' : ExternalStore}
variable {blocks blocks' : Table ℤ EncodedBlock} {points : List BlockPoint}

/-! ### Points after a merge -/

theorem point_row (d : HotPoint) (ts : Int64) : (d.point ts).row = (ts.toInt, d) := rfl

theorem Merges.blockPoint_of_mem (h : Merges flate crc32 blocks blocks' points) {p : BlockPoint}
    (hp : p ∈ points) : blockPoint flate crc32 blocks' p.timestamp = some p.data :=
  (blockPoint_eq_some_iff h.wellStored).mpr ((h.points p).mpr (.inl hp))

theorem Merges.blockPoint_of_notMem (h : Merges flate crc32 blocks blocks' points)
    (hwell : WellStored flate crc32 blocks) {ts : Int64} (hts : ts ∉ points.map BlockPoint.timestamp) :
    blockPoint flate crc32 blocks' ts = blockPoint flate crc32 blocks ts := by
  ext d
  rw [blockPoint_eq_some_iff h.wellStored, blockPoint_eq_some_iff hwell, ← point_row, h.points]
  constructor
  · rintro (hp | ⟨-, hold⟩)
    · exact absurd (List.mem_map_of_mem hp) hts
    · exact hold
  · exact fun hold => .inr ⟨hts, hold⟩

/-! ### Stores -/

namespace ExternalStore

@[simp] theorem setBlocks_series (name : SeriesName) (blocks : Table ℤ EncodedBlock) :
    (s.setBlocks name blocks).series = s.series := rfl

@[simp] theorem setBlocks_points (name : SeriesName) (blocks : Table ℤ EncodedBlock) :
    (s.setBlocks name blocks).points = s.points := rfl

@[simp] theorem setBlocks_blocks_self (name : SeriesName) (blocks : Table ℤ EncodedBlock) :
    (s.setBlocks name blocks).blocks name = blocks := by
  simp [setBlocks]

theorem setBlocks_blocks_ne {name name' : SeriesName} (h : name' ≠ name) (blocks : Table ℤ EncodedBlock) :
    (s.setBlocks name blocks).blocks name' = s.blocks name' := by
  simp [setBlocks, h]

theorem mem_hotRows {p : SeriesName → Int64 → Bool} {r : (SeriesName × Int64) × HotPoint} :
    r ∈ s.hotRows p ↔ s.points.find? r.1 = some r.2 ∧ p r.1.1 r.1.2 = true := by
  rw [hotRows, mem_sortOn, List.mem_filter, Table.mem_rows]

theorem mem_externalSeriesID (name : SeriesName) : name ∈ (s.externalSeriesID name).series := by
  unfold externalSeriesID
  split_ifs with h <;> simp [h]

@[simp] theorem externalSeriesID_points (name : SeriesName) :
    (s.externalSeriesID name).points = s.points := by
  unfold externalSeriesID
  split_ifs <;> rfl

@[simp] theorem externalSeriesID_blocks (name : SeriesName) :
    (s.externalSeriesID name).blocks = s.blocks := by
  unfold externalSeriesID
  split_ifs <;> rfl

theorem subset_externalSeriesID (name : SeriesName) : s.series ⊆ (s.externalSeriesID name).series := by
  unfold externalSeriesID
  split_ifs
  · exact List.Subset.refl _
  · exact List.subset_append_left _ _

section

variable (hs : s.Consistent flate crc32)

include hs

theorem Consistent.format (name : SeriesName) :
    FirstFormat (s.blocks name) := hs.codec name

theorem Consistent.externalSeriesID (name : SeriesName) :
    (s.externalSeriesID name).Consistent flate crc32 := by
  refine ⟨?_, ?_, fun name' hname => ?_⟩
  · simpa using hs.wellStored
  · simpa using hs.codec
  · rw [externalSeriesID_blocks]
    exact hs.listed name' fun hmem => hname (subset_externalSeriesID name hmem)

/-- Other blocks of a series, each of which is an old one or was written as a piece. -/
theorem Consistent.setBlocks {name : SeriesName} (hname : name ∈ s.series)
    (hwell : WellStored flate crc32 blocks')
    (horigin : ∀ start block, blocks'.find? start = some block →
      (s.blocks name).find? start = some block ∨
        block.codec = sqliteV4BlockCodec ∧ block.count ≤ sqliteV4BlockPointLimit) :
    (s.setBlocks name blocks').Consistent flate crc32 ∧ (s.Small → (s.setBlocks name blocks').Small) := by
  refine ⟨⟨fun name' => ?_, fun name' start block hfind => ?_, fun name' hname' => ?_⟩,
    fun hsmall name' start block hfind => ?_⟩
  all_goals by_cases hne : name' = name
  · rwa [hne, setBlocks_blocks_self]
  · rw [setBlocks_blocks_ne hne]
    exact hs.wellStored name'
  · rw [hne, setBlocks_blocks_self] at hfind
    exact (horigin start block hfind).elim (hs.codec name start block) And.left
  · rw [setBlocks_blocks_ne hne] at hfind
    exact hs.codec name' start block hfind
  · exact absurd (hne ▸ hname) hname'
  · rw [setBlocks_blocks_ne hne]
    exact hs.listed name' hname'
  · rw [hne, setBlocks_blocks_self] at hfind
    exact (horigin start block hfind).elim (hsmall name start block) And.right
  · rw [setBlocks_blocks_ne hne] at hfind
    exact hsmall name' start block hfind

theorem Consistent.withPoints (points : Table (SeriesName × Int64) HotPoint) :
    ({ s with points := points } : ExternalStore).Consistent flate crc32 :=
  ⟨hs.wellStored, hs.codec, hs.listed⟩

end

end ExternalStore

/-! ### Sealing -/

/-- The hot rows of one series, by their timestamps. -/
theorem ascending_hotRows {item : SeriesName} {p : SeriesName → Int64 → Bool}
    (hp : ∀ name ts, p name ts = true → name = item) :
    Ascending ((s.hotRows p).map fun r => (r.1.2.toInt, r.2)) := by
  have hle : (s.hotRows p).Pairwise fun r r' => r.1.2.toInt ≤ r'.1.2.toInt :=
    List.pairwise_insertionSort _ _
  have hne : (s.hotRows p).Pairwise fun r r' => r.1 ≠ r'.1 := by
    have hnodup : ((s.hotRows p).map Prod.fst).Nodup :=
      ((sortOn_perm _ _).map Prod.fst).nodup_iff.mpr
        (s.points.nodup_map_fst_rows.sublist (List.filter_sublist.map _))
    exact List.pairwise_map.mp hnodup
  rw [Ascending, List.pairwise_map]
  refine (hle.and hne).imp_of_mem fun {r r'} hr hr' h => lt_of_le_of_ne h.1 fun heq => h.2 ?_
  have hname := hp _ _ (ExternalStore.mem_hotRows.mp hr).2
  have hname' := hp _ _ (ExternalStore.mem_hotRows.mp hr').2
  exact Prod.ext (hname.trans hname'.symm) (Int64.toInt_inj.mp heq)

/-- The rows of a series that are sealed: all its rows between the first and the last of them. -/
structure Selects (s : ExternalStore) (item : SeriesName) (points : List BlockPoint)
    (first last : BlockPoint) : Prop where
  nodup : (points.map BlockPoint.timestamp).Nodup
  range : ∀ p ∈ points, p.timestamp.toInt ∈ Set.Icc first.timestamp.toInt last.timestamp.toInt
  row : ∀ p ∈ points, s.points.find? (item, p.timestamp) = some p.data
  all : ∀ ts d, s.points.find? (item, ts) = some d →
    ts.toInt ∈ Set.Icc first.timestamp.toInt last.timestamp.toInt → d.point ts ∈ points

theorem selects_take {item : SeriesName} {beforeNano : ℤ} {n : ℕ} {first last : BlockPoint}
    (hpoints : points = ((s.hotRows fun name ts => decide (name = item ∧ ts.toInt < beforeNano)).take
      n).map fun r => r.2.point r.1.2)
    (hfirst : points.head? = some first) (hlast : points.getLast? = some last) :
    Selects s item points first last := by
  set rows := s.hotRows fun name ts => decide (name = item ∧ ts.toInt < beforeNano) with hrows
  have hmem : ∀ r, r ∈ rows ↔ s.points.find? r.1 = some r.2 ∧ r.1.1 = item ∧ r.1.2.toInt < beforeNano := by
    intro r
    rw [hrows, ExternalStore.mem_hotRows, decide_eq_true_eq]
  have hasc : Ascending (rows.map fun r => (r.1.2.toInt, r.2)) :=
    ascending_hotRows fun name ts h => (of_decide_eq_true h).1
  have hrow : points.map BlockPoint.row = (rows.map fun r => (r.1.2.toInt, r.2)).take n := by
    rw [hpoints, List.map_map, ← List.map_take]
    rfl
  have hspan : KeysSpan first.timestamp.toInt last.timestamp.toInt
      ((rows.map fun r => (r.1.2.toInt, r.2)).take n) := by
    rw [← hrow, KeysSpan, List.head?_map, List.getLast?_map, hfirst, hlast]
    exact ⟨rfl, rfl⟩
  have htake : Ascending (points.map BlockPoint.row) := hrow ▸ hasc.sublist (List.take_sublist _ _)
  refine ⟨?_, fun p hp => ?_, fun p hp => ?_, fun ts d hfind hts => ?_⟩
  · exact nodup_timestamps htake
  · exact htake.mem_Icc (hrow ▸ hspan) (List.mem_map_of_mem hp)
  · rw [hpoints] at hp
    obtain ⟨r, hr, rfl⟩ := List.mem_map.mp hp
    obtain ⟨hfind, hitem, -⟩ := (hmem r).mp (List.mem_of_mem_take hr)
    rw [← hitem]
    exact hfind
  · -- the last point lies before the cutoff, so that the row was selected
    have hbefore : ts.toInt < beforeNano := by
      obtain ⟨q, hq, hkey⟩ := hspan.exists_last
      obtain ⟨r, hr, rfl⟩ := List.mem_map.mp (List.mem_of_mem_take hq)
      exact hts.2.trans_lt (hkey ▸ ((hmem r).mp hr).2.2)
    have hin : (ts.toInt, d) ∈ points.map BlockPoint.row := by
      rw [hrow, hasc.mem_take hspan]
      exact ⟨List.mem_map.mpr ⟨((item, ts), d), (hmem _).mpr ⟨hfind, rfl, hbefore⟩, rfl⟩, hts.2⟩
    exact (List.mem_map_of_injective row_injective).mp hin

/-- The selected points are merged into the blocks of their series, and their rows are deleted. -/
theorem logicalPoint_sealed {item : SeriesName} {first last : BlockPoint}
    {rows' : Table (SeriesName × Int64) HotPoint}
    (hselects : Selects s item points first last) (hwell : WellStored flate crc32 (s.blocks item))
    (hmerges : Merges flate crc32 (s.blocks item) blocks' points)
    (hrows : ∀ key, rows'.find? key = if key.1 = item ∧
      key.2.toInt ∈ Set.Icc first.timestamp.toInt last.timestamp.toInt then none else s.points.find? key)
    (name : SeriesName) (ts : Int64) :
    logicalPoint flate crc32 { s.setBlocks item blocks' with points := rows' } name ts =
      logicalPoint flate crc32 s name ts := by
  unfold logicalPoint
  rw [hrows]
  by_cases hname : name = item
  · subst hname
    have hblocks : ({ s.setBlocks name blocks' with points := rows' } : ExternalStore).blocks name = blocks' :=
      ExternalStore.setBlocks_blocks_self name blocks'
    rw [hblocks]
    by_cases hts : ts.toInt ∈ Set.Icc first.timestamp.toInt last.timestamp.toInt
    · rw [if_pos ⟨rfl, hts⟩, Option.none_or]
      cases hfind : s.points.find? (name, ts) with
      | some d => exact hmerges.blockPoint_of_mem (hselects.all ts d hfind hts)
      | none =>
        refine hmerges.blockPoint_of_notMem hwell fun hmem => ?_
        obtain ⟨p, hp, rfl⟩ := List.mem_map.mp hmem
        rw [hselects.row p hp] at hfind
        cases hfind
    · rw [if_neg fun h => hts h.2]
      refine congrArg _ (hmerges.blockPoint_of_notMem hwell fun hmem => hts ?_)
      obtain ⟨p, hp, rfl⟩ := List.mem_map.mp hmem
      exact hselects.range p hp
  · rw [if_neg fun h => hname h.1]
    exact congrArg (fun b => (s.points.find? (name, ts)).or (blockPoint flate crc32 b ts))
      (ExternalStore.setBlocks_blocks_ne hname blocks')

variable {metricName : String}

/-- **Sealing keeps the points**, and the blocks stay disjoint and small. -/
theorem sealed_sealExternalPointBlocks {beforeNano count : ℤ} (hs : s.Consistent flate crc32)
    (h : sealExternalPointBlocks flate crc32 metricName beforeNano s = .ok (count, s')) :
    (∀ name ts, logicalPoint flate crc32 s' name ts = logicalPoint flate crc32 s name ts) ∧
      s'.Consistent flate crc32 ∧ (s.Small → s'.Small) := by
  unfold sealExternalPointBlocks at h
  split at h
  · cases h
    exact ⟨fun _ _ => rfl, hs, id⟩
  · next item _ _ _ =>
    have hs₁ := hs.externalSeriesID item
    have hitem := @ExternalStore.mem_externalSeriesID s item
    have hpoints := @ExternalStore.externalSeriesID_points s item
    have hblocks := @ExternalStore.externalSeriesID_blocks s item
    generalize s.externalSeriesID item = s₁ at h hs₁ hitem hpoints hblocks
    have hlogical : ∀ name ts, logicalPoint flate crc32 s₁ name ts = logicalPoint flate crc32 s name ts := by
      intro name ts
      rw [logicalPoint, logicalPoint, hpoints, hblocks]
    have hsmall₁ : s.Small → s₁.Small := by
      intro hsmall name start block hfind
      rw [hblocks] at hfind
      exact hsmall name start block hfind
    dsimp only at h
    split at h
    · next first last hfirst hlast =>
      obtain ⟨blocks', hwrite, h⟩ := bind_eq_ok.mp h
      split_ifs at h
      cases h
      have hselects := selects_take rfl hfirst hlast
      have hmerges := merges_writeExternalBlocks (hs₁.wellStored item) (hs₁.format item) hselects.nodup
        hwrite
      obtain ⟨hconsistent, hsmall⟩ := hs₁.setBlocks hitem
        hmerges.wellStored hmerges.origin
      refine ⟨fun name ts => ?_, hconsistent.withPoints _, fun hs => hsmall (hsmall₁ hs)⟩
      rw [← hlogical]
      refine logicalPoint_sealed hselects (hs₁.wellStored item) hmerges (fun key => ?_) name ts
      rw [Table.find?_deleteWhere]
      by_cases hkey : key.1 = item ∧ key.2.toInt ∈ Set.Icc first.timestamp.toInt last.timestamp.toInt
      · rw [if_pos hkey]
        cases s₁.points.find? key <;> simp [hkey.1, hkey.2.1, hkey.2.2]
      · rw [if_neg hkey]
        rw [Set.mem_Icc] at hkey
        cases s₁.points.find? key <;> simp [Option.filter, hkey]
    · cases h
      exact ⟨hlogical, hs₁, hsmall₁⟩

/-! ### Deleting -/

theorem nodup_decoded (hwell : WellStored flate crc32 blocks) (hformat : FirstFormat blocks)
    {rows : List (ℤ × EncodedBlock)} {decoded : List (List BlockPoint)}
    (hrows : ∀ b ∈ rows, blocks.find? b.1 = some b.2) (hkeys : (rows.map Prod.fst).Nodup)
    (h : (rows.mapM fun r => decodeExternalBlock flate crc32 r.2) = .ok decoded) :
    (decoded.flatten.map BlockPoint.timestamp).Nodup := by
  have hstored : ∀ b ∈ rows, ∀ points, decodeExternalBlock flate crc32 b.2 = .ok points →
      StoredAs flate crc32 b.1 b.2 points := by
    intro b hb points hdecode
    obtain ⟨points', hstored⟩ := hwell.block b.1 b.2 (hrows b hb)
    rw [decodeExternalBlock_eq (hformat b.1 b.2 (hrows b hb)), hstored.decode] at hdecode
    cases hdecode
    exact hstored
  rw [List.Nodup, List.pairwise_map, List.pairwise_flatten]
  constructor
  · intro points hpoints
    obtain ⟨b, hb, hdecode⟩ := (mem_of_mapM_eq_ok h points).mp hpoints
    exact List.pairwise_map.mp (nodup_timestamps (hstored b hb points hdecode).ascending)
  · have hpair : rows.Pairwise fun b c => b ∈ rows ∧ c ∈ rows ∧ b.1 ≠ c.1 :=
      (List.pairwise_map.mp hkeys).imp_of_mem fun hb hc hne => ⟨hb, hc, hne⟩
    refine pairwise_of_mapM_eq_ok h hpair fun b c points points' hpoints hpoints' ⟨hb, hc, hne⟩ => ?_
    intro p hp q hq heq
    have hb' := hstored b hb points hpoints
    have hc' := hstored c hc points' hpoints'
    have hin : p.timestamp.toInt ∈ Set.Icc b.1 b.2.endNano.toInt :=
      hb'.mem_Icc (hb'.rows ▸ List.mem_map_of_mem hp)
    have hin' : q.timestamp.toInt ∈ Set.Icc c.1 c.2.endNano.toInt :=
      hc'.mem_Icc (hc'.rows ▸ List.mem_map_of_mem hq)
    exact Set.disjoint_left.mp (hwell.disjoint b.1 c.1 b.2 c.2 (hrows b hb) (hrows c hc) hne) hin
      (heq ▸ hin')

/-- The blocks of a series without the points before the cutoff. -/
structure CutOff (flate : Flate) (crc32 : List UInt8 → UInt32) (beforeNano : ℤ)
    (blocks blocks' : Table ℤ EncodedBlock) : Prop where
  wellStored : WellStored flate crc32 blocks'
  points : ∀ ts, blockPoint flate crc32 blocks' ts =
    if ts.toInt < beforeNano then none else blockPoint flate crc32 blocks ts
  origin : ∀ start block, blocks'.find? start = some block → blocks.find? start = some block ∨
    block.codec = sqliteV4BlockCodec ∧ block.count ≤ sqliteV4BlockPointLimit

theorem cutOff_deleteExternalBlocksBefore {beforeNano count : ℤ} (hwell : WellStored flate crc32 blocks)
    (hformat : FirstFormat blocks)
    (h : deleteExternalBlocksBefore flate crc32 beforeNano blocks = .ok (count, blocks')) :
    CutOff flate crc32 beforeNano blocks blocks' := by
  obtain ⟨decoded, hdecoded, h⟩ := bind_eq_ok.mp h
  obtain ⟨blocks'', hwrite, h⟩ := bind_eq_ok.mp h
  cases h
  set old := blocks.rows.filter fun r => decide (r.1 < beforeNano) with hold
  set kept := decoded.flatten.filter fun p => !decide (p.timestamp.toInt < beforeNano) with hkept
  have hmem : ∀ b, b ∈ old ↔ blocks.find? b.1 = some b.2 ∧ b.1 < beforeNano := fun b => by
    rw [hold, List.mem_filter, Table.mem_rows, decide_eq_true_eq]
  have hmem_kept : ∀ p, p ∈ kept ↔ (∃ b ∈ old, p.row ∈ blockRows flate crc32 b.2) ∧
      beforeNano ≤ p.timestamp.toInt := fun p => by
    rw [hkept, List.mem_filter, mem_decoded (fun b hb => hformat b.1 b.2 ((hmem b).mp hb).1) hdecoded,
      Bool.not_eq_true', decide_eq_false_iff_not, not_lt]
  have hnodup : (kept.map BlockPoint.timestamp).Nodup :=
    (nodup_decoded hwell hformat (fun b hb => ((hmem b).mp hb).1)
      (blocks.nodup_map_fst_rows.sublist (List.filter_sublist.map _)) hdecoded).sublist
        (List.filter_sublist.map _)
  have hfind : ∀ {start block}, (blocks.deleteKeys (old.map Prod.fst)).find? start = some block ↔
      blocks.find? start = some block ∧ beforeNano ≤ start := by
    intro start block
    have hdeleted : start ∈ old.map Prod.fst ↔ (∃ b, blocks.find? start = some b) ∧ start < beforeNano := by
      rw [List.mem_map]
      exact ⟨fun ⟨b, hb, heq⟩ => heq ▸ ⟨⟨b.2, ((hmem b).mp hb).1⟩, ((hmem b).mp hb).2⟩,
        fun ⟨⟨b, hb⟩, hlt⟩ => ⟨(start, b), (hmem _).mpr ⟨hb, hlt⟩, rfl⟩⟩
    rw [Table.find?_deleteKeys]
    split_ifs with hin
    · exact ⟨fun h => (nomatch h), fun h => absurd (hdeleted.mp hin).2 (not_lt.mpr h.2)⟩
    · exact ⟨fun h => ⟨h, not_lt.mp fun hlt => hin (hdeleted.mpr ⟨⟨block, h⟩, hlt⟩)⟩, And.left⟩
  have hmerges := merges_writeExternalBlocks (hwell.deleteKeys _)
    (fun start block h => hformat start block (hfind.mp h).1) hnodup hwrite
  have hwell' : WellStored flate crc32 (blocks.deleteKeys (old.map Prod.fst)) := hwell.deleteKeys _
  refine ⟨hmerges.wellStored, fun ts => ?_, fun start block h =>
    (hmerges.origin start block h).imp_left fun h => (hfind.mp h).1⟩
  have hrest : ∀ d, blockPoint flate crc32 (blocks.deleteKeys (old.map Prod.fst)) ts = some d ↔
      ∃ start block, (blocks.find? start = some block ∧ beforeNano ≤ start) ∧
        (ts.toInt, d) ∈ blockRows flate crc32 block := fun d => by
    rw [blockPoint_eq_some_iff hwell', mem_blockPoints]
    simp only [hfind]
  by_cases hts : ts ∈ kept.map BlockPoint.timestamp
  · obtain ⟨p, hp, rfl⟩ := List.mem_map.mp hts
    obtain ⟨⟨b, hb, hrow⟩, hge⟩ := (hmem_kept p).mp hp
    rw [hmerges.blockPoint_of_mem hp, if_neg (not_lt.mpr hge), eq_comm, blockPoint_eq_some_iff hwell]
    exact mem_blockPoints.mpr ⟨b.1, b.2, ((hmem b).mp hb).1, hrow⟩
  · rw [hmerges.blockPoint_of_notMem hwell' hts]
    split_ifs with hlt
    · -- the blocks that are left begin at the cutoff or later
      refine Option.eq_none_iff_forall_ne_some.mpr fun d hd => ?_
      obtain ⟨start, block, ⟨hblock, hge⟩, hrow⟩ := (hrest d).mp hd
      obtain ⟨points, hstored⟩ := hwell.block start block hblock
      exact absurd (hge.trans (hstored.mem_Icc hrow).1) (not_le.mpr hlt)
    · ext d
      rw [hrest, blockPoint_eq_some_iff hwell, mem_blockPoints]
      constructor
      · rintro ⟨start, block, ⟨hblock, -⟩, hrow⟩
        exact ⟨start, block, hblock, hrow⟩
      · rintro ⟨start, block, hblock, hrow⟩
        refine ⟨start, block, ⟨hblock, not_lt.mp fun hstart => hts ?_⟩, hrow⟩
        have hp : d.point ts ∈ kept :=
          (hmem_kept _).mpr ⟨⟨(start, block), (hmem _).mpr ⟨hblock, hstart⟩, hrow⟩, not_lt.mp hlt⟩
        exact List.mem_map_of_mem hp

theorem deleteEachBefore_eq_ok {beforeNano deleted count : ℤ} {names : List SeriesName}
    (hs : s.Consistent flate crc32) (hnodup : names.Nodup) (hlisted : ∀ name ∈ names, name ∈ s.series)
    (h : deleteEachBefore flate crc32 beforeNano deleted s names = .ok (count, s')) :
    s'.Consistent flate crc32 ∧ s'.points = s.points ∧ s'.series = s.series ∧
      ∀ name ts, blockPoint flate crc32 (s'.blocks name) ts =
        if name ∈ names ∧ ts.toInt < beforeNano then none
        else blockPoint flate crc32 (s.blocks name) ts := by
  induction names generalizing s deleted with
  | nil =>
    cases h
    exact ⟨hs, rfl, rfl, by simp⟩
  | cons name rest ih =>
    obtain ⟨hname, hrest⟩ := List.nodup_cons.mp hnodup
    obtain ⟨hfirst, hlisted⟩ := List.forall_mem_cons.mp hlisted
    obtain ⟨⟨n, blocks'⟩, hdelete, h⟩ := bind_eq_ok.mp h
    have hcut := cutOff_deleteExternalBlocksBefore (hs.wellStored name) (hs.format name) hdelete
    have hs₁ := (hs.setBlocks hfirst hcut.wellStored hcut.origin).1
    obtain ⟨hs', hpoints, hseries, hblocks⟩ := ih hs₁ hrest hlisted h
    refine ⟨hs', hpoints, hseries, fun name' ts => ?_⟩
    rw [hblocks]
    by_cases hne : name' = name
    · subst hne
      rw [if_neg (fun h => hname h.1), ExternalStore.setBlocks_blocks_self, hcut.points]
      simp only [List.mem_cons_self, true_and]
    · rw [ExternalStore.setBlocks_blocks_ne hne]
      simp only [List.mem_cons, hne, false_or]

variable {name : SeriesName}

theorem mem_matchingExternalPointSeries (hmetric : trimSpace metricName ≠ "")
    : name ∈ s.matchingExternalPointSeries metricName ↔
      name ∈ s.series ∧ name.metricName = metricName := by
  rw [ExternalStore.matchingExternalPointSeries, if_neg hmetric, List.mem_filter, decide_eq_true_eq]

theorem nodup_matchingExternalPointSeries (metricName : String) :
    (s.matchingExternalPointSeries metricName).Nodup := by
  unfold ExternalStore.matchingExternalPointSeries
  split_ifs
  · exact s.nodup
  · exact s.nodup.filter _

theorem listed_matchingExternalPointSeries (metricName : String) :
    ∀ name ∈ s.matchingExternalPointSeries metricName, name ∈ s.series := by
  unfold ExternalStore.matchingExternalPointSeries
  split_ifs
  · exact fun _ => id
  · exact fun _ hname => (List.mem_filter.mp hname).1

@[simp] theorem blockPoint_empty (ts : Int64) : blockPoint flate crc32 ∅ ts = none := rfl

/-- **Deletion** removes exactly the points of the metric before the cutoff. -/
theorem deletedBefore_deleteExternalPointsBeforeTx {beforeNano count : ℤ}
    (hmetric : trimSpace metricName ≠ "") (hs : s.Consistent flate crc32)
    (h : deleteExternalPointsBeforeTx flate crc32 metricName beforeNano s = .ok (count, s'))
    (name : SeriesName) (ts : Int64) : logicalPoint flate crc32 s' name ts =
      if name.metricName = metricName ∧ ts.toInt < beforeNano then none
      else logicalPoint flate crc32 s name ts := by
  obtain ⟨⟨n, mid⟩, hloop, h⟩ := bind_eq_ok.mp h
  cases h
  obtain ⟨-, hpoints, -, hblocks⟩ := deleteEachBefore_eq_ok hs
    (nodup_matchingExternalPointSeries metricName) (listed_matchingExternalPointSeries metricName) hloop
  -- a series without an id has no blocks
  have hblock : blockPoint flate crc32 (mid.blocks name) ts =
      if name.metricName = metricName ∧ ts.toInt < beforeNano then none
      else blockPoint flate crc32 (s.blocks name) ts := by
    rw [hblocks]
    by_cases hlisted : name ∈ s.series
    · simp only [mem_matchingExternalPointSeries hmetric, hlisted, true_and]
    · rw [hs.listed name hlisted, blockPoint_empty, ite_self, ite_self]
  rw [logicalPoint, logicalPoint, Table.find?_deleteWhere, hblock, hpoints]
  by_cases hexpired : name.metricName = metricName ∧ ts.toInt < beforeNano
  · rw [if_pos hexpired, if_pos hexpired]
    cases s.points.find? (name, ts) <;> simp [expiredRow, hexpired.1, hexpired.2]
  · rw [if_neg hexpired, if_neg hexpired]
    cases s.points.find? (name, ts) <;> simp [expiredRow, hexpired]

/-! ### Reading -/

/-- The points of a block in a window, as rows of a series. -/
def windowRows (lo hi : ℤ) (name : SeriesName) (points : List BlockPoint) :
    List ((SeriesName × Int64) × HotPoint) :=
  (points.filter fun p => decide (lo ≤ p.timestamp.toInt ∧ p.timestamp.toInt ≤ hi)).map
    fun p => ((name, p.timestamp), p.data)

theorem mem_windowRows {lo hi : ℤ} {ts : Int64} {d : HotPoint} :
    ((name, ts), d) ∈ windowRows lo hi name points ↔
      lo ≤ ts.toInt ∧ ts.toInt ≤ hi ∧ (ts.toInt, d) ∈ points.map BlockPoint.row := by
  rw [← point_row, List.mem_map_of_injective row_injective, windowRows, List.mem_map]
  constructor
  · rintro ⟨p, hp, heq⟩
    cases heq
    obtain ⟨hp, hin⟩ := List.mem_filter.mp hp
    exact ⟨(of_decide_eq_true hin).1, (of_decide_eq_true hin).2, hp⟩
  · rintro ⟨hlo, hhi, hp⟩
    exact ⟨d.point ts, List.mem_filter.mpr ⟨hp, decide_eq_true ⟨hlo, hhi⟩⟩, rfl⟩

theorem nodup_windowRows {lo hi : ℤ}
    (h : Ascending (points.map BlockPoint.row)) : ((windowRows lo hi name points).map Prod.fst).Nodup := by
  rw [Ascending, List.pairwise_map] at h
  rw [windowRows, List.map_map, List.Nodup, List.pairwise_map]
  refine (h.sublist List.filter_sublist).imp fun {p q} (hlt : p.timestamp.toInt < _) heq => ?_
  exact absurd (congrArg Int64.toInt (Prod.mk.inj heq).2) hlt.ne

/-- Rows are overridden by new ones, and these by later ones, which agree with them. -/
theorem find?_overridden {κ α : Type*} [DecidableEq κ] {stored : Table κ α} {new : List (κ × α)}
    (hkeys : (new.map Prod.fst).Nodup) {k : κ} {later : α → Prop}
    (hunique : ∀ d d', later d → (k, d') ∈ new → d' = d) (d : α) :
    (later d ∨ (¬∃ d', later d') ∧ (stored.upsertAll new).find? k = some d) ↔
      ((k, d) ∈ new ∨ later d) ∨ (¬∃ d', (k, d') ∈ new ∨ later d') ∧ stored.find? k = some d := by
  constructor
  · rintro (hlater | ⟨hnone, hfind⟩)
    · exact .inl (.inr hlater)
    · by_cases hin : k ∈ new.map Prod.fst
      · obtain ⟨⟨key, d'⟩, hd', rfl⟩ := List.mem_map.mp hin
        rw [Table.find?_upsertAll_of_mem hkeys hd'] at hfind
        cases hfind
        exact .inl (.inl hd')
      · rw [Table.find?_upsertAll_of_notMem hin] at hfind
        refine .inr ⟨?_, hfind⟩
        rintro ⟨d', hd' | hlater⟩
        · exact hin (List.mem_map.mpr ⟨_, hd', rfl⟩)
        · exact hnone ⟨d', hlater⟩
  · rintro ((hd | hlater) | ⟨hnone, hfind⟩)
    · by_cases hlater : ∃ d', later d'
      · obtain ⟨d', hd'⟩ := hlater
        obtain rfl := hunique d' d hd' hd
        exact .inl hd'
      · exact .inr ⟨hlater, Table.find?_upsertAll_of_mem hkeys hd⟩
    · exact .inl hlater
    · refine .inr ⟨fun hlater => hnone (hlater.imp fun _ => Or.inr), ?_⟩
      rw [Table.find?_upsertAll_of_notMem, hfind]
      intro hin
      obtain ⟨⟨key, d'⟩, hd', rfl⟩ := List.mem_map.mp hin
      exact hnone ⟨d', .inl hd'⟩

/-- The points of some blocks override those that were collected before. -/
theorem find?_collectBlocks {lo hi : ℤ} {stored : Table (SeriesName × Int64) HotPoint}
    {rows : List (ℤ × EncodedBlock)} (hwell : WellStored flate crc32 blocks) (hformat : FirstFormat blocks)
    (hrows : ∀ b ∈ rows, blocks.find? b.1 = some b.2) :
    ∃ out, collectBlocks flate crc32 lo hi name stored rows = .ok out ∧ ∀ ts d,
      (∀ name', name' ≠ name → out.find? (name', ts) = stored.find? (name', ts)) ∧
        (out.find? (name, ts) = some d ↔
          (lo ≤ ts.toInt ∧ ts.toInt ≤ hi ∧ ∃ b ∈ rows, (ts.toInt, d) ∈ blockRows flate crc32 b.2) ∨
          (¬∃ d', lo ≤ ts.toInt ∧ ts.toInt ≤ hi ∧ ∃ b ∈ rows, (ts.toInt, d') ∈ blockRows flate crc32 b.2) ∧
            stored.find? (name, ts) = some d) := by
  induction rows generalizing stored with
  | nil => exact ⟨stored, rfl, by simp⟩
  | cons b rest ih =>
    obtain ⟨start, block⟩ := b
    obtain ⟨hfind, hrest⟩ := List.forall_mem_cons.mp hrows
    obtain ⟨points, hstored⟩ := hwell.block start block hfind
    have hdecode : decodeExternalBlock flate crc32 block = .ok points := by
      rw [decodeExternalBlock_eq (hformat start block hfind), hstored.decode]
    have hspan : (points.head?.map fun p => p.timestamp.toInt) = some start ∧
        (points.getLast?.map fun p => p.timestamp.toInt) = some block.endNano.toInt := by
      have h := hstored.span
      rw [KeysSpan, List.head?_map, List.getLast?_map, Option.map_map, Option.map_map] at h
      exact h
    obtain ⟨out, hout, hspec⟩ := @ih (stored.upsertAll (windowRows lo hi name points)) hrest
    have hrun : collectBlocks flate crc32 lo hi name stored ((start, block) :: rest) = .ok out := by
      rw [collectBlocks, hdecode]
      dsimp only
      rw [if_neg (not_or.mpr ⟨not_not.mpr hspan.1, not_not.mpr hspan.2⟩)]
      exact hout
    refine ⟨out, hrun, fun ts d => ⟨fun name' hne => ?_, ?_⟩⟩
    · rw [(hspec ts d).1 name' hne, Table.find?_upsertAll_of_notMem]
      simp only [windowRows, List.map_map, List.mem_map, Function.comp_apply, not_exists, not_and]
      exact fun p _ heq => hne (Prod.mk.inj heq).1.symm
    · have hmem : ∀ d', (lo ≤ ts.toInt ∧ ts.toInt ≤ hi ∧
          ∃ b ∈ (start, block) :: rest, (ts.toInt, d') ∈ blockRows flate crc32 b.2) ↔
          ((name, ts), d') ∈ windowRows lo hi name points ∨
            lo ≤ ts.toInt ∧ ts.toInt ≤ hi ∧ ∃ b ∈ rest, (ts.toInt, d') ∈ blockRows flate crc32 b.2 := by
        intro d'
        rw [mem_windowRows, ← hstored.rows, List.exists_mem_cons_iff]
        tauto
      simp only [hmem]
      rw [(hspec ts d).2]
      refine @find?_overridden _ _ _ stored _ (nodup_windowRows hstored.ascending) (name, ts) (fun d' =>
        lo ≤ ts.toInt ∧ ts.toInt ≤ hi ∧ ∃ b ∈ rest, (ts.toInt, d') ∈ blockRows flate crc32 b.2) ?_ d
      -- two blocks agree on a point that both have
      rintro d' d'' ⟨-, -, c, hc, hrow⟩ hd''
      obtain ⟨-, -, hrow'⟩ := mem_windowRows.mp hd''
      rw [← hstored.rows] at hrow'
      exact hwell.eq_of_mem (mem_blockPoints.mpr ⟨start, block, hfind, hrow'⟩)
        (mem_blockPoints.mpr ⟨c.1, c.2, hrest c hc, hrow⟩)

theorem find?_collectSeries {lo hi : ℤ} {stored : Table (SeriesName × Int64) HotPoint}
    {names : List SeriesName} (hs : s.Consistent flate crc32) (hnodup : names.Nodup)
    (hnew : ∀ name ∈ names, ∀ ts, stored.find? (name, ts) = none) :
    ∃ out, collectSeries flate crc32 lo hi s stored names = .ok out ∧ ∀ name ts,
      out.find? (name, ts) = if name ∈ names then
          (if lo ≤ ts.toInt ∧ ts.toInt ≤ hi then blockPoint flate crc32 (s.blocks name) ts else none)
        else stored.find? (name, ts) := by
  induction names generalizing stored with
  | nil => exact ⟨stored, rfl, by simp⟩
  | cons name rest ih =>
    obtain ⟨hname, hrest⟩ := List.nodup_cons.mp hnodup
    obtain ⟨hfirst, hlater⟩ := List.forall_mem_cons.mp hnew
    set rows := (s.blocks name).rows.filter fun r => decide (lo ≤ r.2.endNano.toInt ∧ r.1 ≤ hi) with hrows
    have hmem : ∀ b, b ∈ rows ↔ (s.blocks name).find? b.1 = some b.2 ∧ lo ≤ b.2.endNano.toInt ∧ b.1 ≤ hi :=
      fun b => by rw [hrows, List.mem_filter, Table.mem_rows, decide_eq_true_eq]
    obtain ⟨mid, hmid, hblocks⟩ := find?_collectBlocks (hs.wellStored name) (hs.format name)
      fun b hb => ((hmem b).mp hb).1
    have hdummy : HotPoint := ⟨0, [], 0⟩
    have hold : ∀ name', name' ≠ name → ∀ ts, mid.find? (name', ts) = stored.find? (name', ts) :=
      fun name' hne ts => (hblocks ts hdummy).1 name' hne
    obtain ⟨out, hout, hspec⟩ := @ih mid hrest fun name' hmem ts => by
      rw [hold name' (fun heq => hname (heq ▸ hmem)) ts, hlater name' hmem ts]
    refine ⟨out, bind_eq_ok.mpr ⟨mid, hmid, hout⟩, fun name' ts => ?_⟩
    rw [hspec]
    by_cases hne : name' = name
    · subst hne
      rw [if_neg hname, if_pos List.mem_cons_self]
      ext d
      rw [(hblocks ts d).2, hfirst ts]
      by_cases hwindow : lo ≤ ts.toInt ∧ ts.toInt ≤ hi
      · rw [if_pos hwindow, blockPoint_eq_some_iff (hs.wellStored name'), mem_blockPoints]
        constructor
        · rintro (⟨-, -, b, hb, hrow⟩ | ⟨-, h⟩)
          · exact ⟨b.1, b.2, ((hmem b).mp hb).1, hrow⟩
          · cases h
        · rintro ⟨start, block, hfind, hrow⟩
          -- a block with a point in the window meets the window
          obtain ⟨points, hstored⟩ := (hs.wellStored name').block start block hfind
          have hin := hstored.mem_Icc hrow
          exact .inl ⟨hwindow.1, hwindow.2, (start, block),
            (hmem _).mpr ⟨hfind, hwindow.1.trans hin.2, hin.1.trans hwindow.2⟩, hrow⟩
      · rw [if_neg hwindow]
        constructor
        · rintro (⟨hlo, hhi, -⟩ | ⟨-, h⟩)
          · exact absurd ⟨hlo, hhi⟩ hwindow
          · cases h
        · exact fun h => nomatch h
    · rw [hold name' hne]
      simp only [List.mem_cons, hne, false_or]

/-- **A query collects the logical points** of the metric in its window. -/
theorem find?_storedExternalPoints {lo hi : ℤ} (hmetric : trimSpace metricName ≠ "")
    (hs : s.Consistent flate crc32) :
    ∃ out, storedExternalPoints flate crc32 metricName lo hi s = .ok out ∧ ∀ name ts,
      out.find? (name, ts) = if name.metricName = metricName ∧ lo ≤ ts.toInt ∧ ts.toInt ≤ hi then
        logicalPoint flate crc32 s name ts else none := by
  obtain ⟨mid, hmid, hspec⟩ := find?_collectSeries hs (nodup_matchingExternalPointSeries metricName)
    fun name _ ts => Table.find?_empty (name, ts)
  set rows := s.points.rows.filter fun r =>
    decide (r.1.1.metricName = metricName ∧ lo ≤ r.1.2.toInt ∧ r.1.2.toInt ≤ hi) with hrows
  have hmem : ∀ r, r ∈ rows ↔ s.points.find? r.1 = some r.2 ∧
      r.1.1.metricName = metricName ∧ lo ≤ r.1.2.toInt ∧ r.1.2.toInt ≤ hi := fun r => by
    rw [hrows, List.mem_filter, Table.mem_rows, decide_eq_true_eq]
  have hkeys : (rows.map Prod.fst).Nodup :=
    s.points.nodup_map_fst_rows.sublist (List.filter_sublist.map _)
  refine ⟨mid.upsertAll rows, bind_eq_ok.mpr ⟨mid, hmid, rfl⟩, fun name ts => ?_⟩
  have hblock : mid.find? (name, ts) = if name.metricName = metricName ∧ lo ≤ ts.toInt ∧ ts.toInt ≤ hi then
      blockPoint flate crc32 (s.blocks name) ts else none := by
    rw [hspec, Table.find?_empty]
    by_cases hlisted : name ∈ s.series
    · simp only [mem_matchingExternalPointSeries hmetric, hlisted, true_and, ite_and]
    · rw [hs.listed name hlisted, blockPoint_empty, ite_self, ite_self, ite_self]
  by_cases hin : (name, ts) ∈ rows.map Prod.fst
  · obtain ⟨⟨key, d⟩, hd, rfl⟩ := List.mem_map.mp hin
    obtain ⟨hfind, hwindow⟩ := (hmem _).mp hd
    rw [Table.find?_upsertAll_of_mem hkeys hd, if_pos hwindow, logicalPoint, hfind, Option.some_or]
  · rw [Table.find?_upsertAll_of_notMem hin, hblock]
    split_ifs with hwindow
    · have hnone : s.points.find? (name, ts) = none := Option.eq_none_iff_forall_ne_some.mpr
        fun d hd => hin (List.mem_map_of_mem ((hmem ((name, ts), d)).mpr ⟨hd, hwindow⟩))
      rw [logicalPoint, hnone, Option.none_or]
    · rfl

end Laws
end Block
end Komari
