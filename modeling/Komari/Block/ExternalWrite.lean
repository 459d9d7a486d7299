import Komari.Block.Cleans
import Komari.Block.External

/-!
# Points merged into blocks

New points of a series override the points of its blocks, and nothing else changes.
-/

namespace Komari

namespace Block

/-! ### The point of the blocks -/

section BlockPoint

variable {flate : Flate} {crc32 : List UInt8 → UInt32} {blocks : Table ℤ EncodedBlock}

theorem row_eq (p : BlockPoint) : p.row = (p.timestamp.toInt, p.data) := rfl

theorem row_injective : Function.Injective BlockPoint.row := by
  intro p q h
  obtain ⟨hts, hdata⟩ := Prod.mk.inj h
  obtain ⟨hbits, hlabels, hcreated⟩ := HotPoint.mk.inj hdata
  cases p
  cases q
  simp only [BlockPoint.mk.injEq]
  exact ⟨Int64.toInt_inj.mp hts, hbits, hlabels, hcreated⟩

theorem mem_blockPoints {r : ℤ × HotPoint} : r ∈ blockPoints flate crc32 blocks ↔
    ∃ start block, blocks.find? start = some block ∧ r ∈ blockRows flate crc32 block := by
  rw [blockPoints, Table.total, ← coe_flatMap, Multiset.mem_coe, List.mem_flatMap]
  constructor
  · rintro ⟨⟨start, block⟩, hblock, hr⟩
    exact ⟨start, block, Table.mem_rows.mp hblock, hr⟩
  · rintro ⟨start, block, hfind, hr⟩
    exact ⟨(start, block), Table.mem_rows.mpr hfind, hr⟩

/-- The blocks of a series have one point at an instant. -/
theorem WellStored.eq_of_mem (hwell : WellStored flate crc32 blocks) {ts : ℤ} {d d' : HotPoint}
    (h : (ts, d) ∈ blockPoints flate crc32 blocks) (h' : (ts, d') ∈ blockPoints flate crc32 blocks) :
    d = d' := by
  obtain ⟨start, block, hfind, hr⟩ := mem_blockPoints.mp h
  obtain ⟨start', block', hfind', hr'⟩ := mem_blockPoints.mp h'
  obtain ⟨points, hstored⟩ := hwell.block start block hfind
  obtain ⟨points', hstored'⟩ := hwell.block start' block' hfind'
  by_cases hstart : start = start'
  · subst hstart
    obtain rfl : block = block' := Option.some.inj (hfind.symm.trans hfind')
    rw [hstored.rows] at hr hr'
    exact hstored.ascending.eq_of_mem hr hr'
  · have hin : ts ∈ Set.Icc start block.endNano.toInt := hstored.mem_Icc hr
    have hin' : ts ∈ Set.Icc start' block'.endNano.toInt := hstored'.mem_Icc hr'
    exact absurd hin' (Set.disjoint_left.mp
      (hwell.disjoint start start' block block' hfind hfind' hstart) hin)

theorem blockPoint_eq_some_iff (hwell : WellStored flate crc32 blocks) {ts : Int64} {d : HotPoint} :
    blockPoint flate crc32 blocks ts = some d ↔ (ts.toInt, d) ∈ blockPoints flate crc32 blocks := by
  have hmem : ∀ r : ℤ × HotPoint, (r ∈ blocks.rows.flatMap fun r => blockRows flate crc32 r.2) ↔
      r ∈ blockPoints flate crc32 blocks := by
    intro r
    rw [blockPoints, Table.total, ← coe_flatMap, Multiset.mem_coe]
  rw [blockPoint, Option.map_eq_some_iff]
  constructor
  · rintro ⟨⟨ts', d'⟩, hfind, rfl⟩
    obtain rfl : ts' = ts.toInt := by simpa using List.find?_some hfind
    exact (hmem _).mp (List.mem_of_find?_eq_some hfind)
  · intro h
    have hsome : ((blocks.rows.flatMap fun r => blockRows flate crc32 r.2).find?
        fun r => r.1 = ts.toInt).isSome := by
      rw [List.find?_isSome]
      exact ⟨_, (hmem _).mpr h, by simp⟩
    obtain ⟨⟨ts', d'⟩, hfind⟩ := Option.isSome_iff_exists.mp hsome
    obtain rfl : ts' = ts.toInt := by simpa using List.find?_some hfind
    exact ⟨_, hfind, hwell.eq_of_mem ((hmem _).mp (List.mem_of_find?_eq_some hfind)) h⟩

end BlockPoint

/-! ### Points by their timestamps -/

section Timestamps

theorem byTimestamp_append (old new : List BlockPoint) :
    byTimestamp (old ++ new) = (byTimestamp old).upsertAll (new.map fun p => (p.timestamp, p)) := by
  rw [byTimestamp, byTimestamp, List.map_append, Table.upsertAll, List.foldl_append]
  rfl

theorem find?_byTimestamp {points : List BlockPoint}
    (hone : ∀ p ∈ points, ∀ q ∈ points, p.timestamp = q.timestamp → p = q) {ts : Int64} {p : BlockPoint} :
    (byTimestamp points).find? ts = some p ↔ p ∈ points ∧ p.timestamp = ts := by
  constructor
  · intro h
    by_cases hts : ts ∈ (points.map fun p => (p.timestamp, p)).map Prod.fst
    · obtain ⟨q, hq, hfind⟩ := @Table.exists_find?_upsertAll _ _ _ ∅ _ _ hts
      rw [byTimestamp, hfind] at h
      cases h
      obtain ⟨q', hq', heq⟩ := List.mem_map.mp hq
      obtain ⟨hts', rfl⟩ := Prod.mk.inj heq
      exact ⟨hq', hts'⟩
    · rw [byTimestamp, Table.find?_upsertAll_of_notMem hts] at h
      cases h
  · rintro ⟨hp, rfl⟩
    have hts : p.timestamp ∈ (points.map fun p => (p.timestamp, p)).map Prod.fst :=
      List.mem_map_of_mem (List.mem_map_of_mem hp)
    obtain ⟨q, hq, hfind⟩ := @Table.exists_find?_upsertAll _ _ _ ∅ _ _ hts
    obtain ⟨q', hq', heq⟩ := List.mem_map.mp hq
    obtain ⟨hts', rfl⟩ := Prod.mk.inj heq
    rw [byTimestamp, hfind, hone _ hq' _ hp hts']

/-- **Later points override earlier ones.** -/
theorem mem_byTimestamp {old new : List BlockPoint}
    (hold : ∀ p ∈ old, ∀ q ∈ old, p.timestamp = q.timestamp → p = q)
    (hnew : (new.map BlockPoint.timestamp).Nodup) {ts : Int64} {p : BlockPoint} :
    (byTimestamp (old ++ new)).find? ts = some p ↔ p.timestamp = ts ∧
      (p ∈ new ∨ ts ∉ new.map BlockPoint.timestamp ∧ p ∈ old) := by
  have hkeys : (new.map fun p => (p.timestamp, p)).map Prod.fst = new.map BlockPoint.timestamp := by
    simp
  rw [byTimestamp_append]
  by_cases hts : ts ∈ new.map BlockPoint.timestamp
  · obtain ⟨q, hq, rfl⟩ := List.mem_map.mp hts
    have hfind : ((byTimestamp old).upsertAll (new.map fun p => (p.timestamp, p))).find? q.timestamp =
        some q := Table.find?_upsertAll_of_mem (hkeys ▸ hnew) (List.mem_map.mpr ⟨q, hq, rfl⟩)
    rw [hfind, Option.some.injEq]
    constructor
    · rintro rfl
      exact ⟨rfl, .inl hq⟩
    · rintro ⟨heq, hp | ⟨hnot, -⟩⟩
      · exact (List.inj_on_of_nodup_map hnew hp hq heq).symm
      · exact absurd hts hnot
  · rw [Table.find?_upsertAll_of_notMem (hkeys.symm ▸ hts), find?_byTimestamp hold]
    constructor
    · rintro ⟨hp, heq⟩
      exact ⟨heq, .inr ⟨hts, hp⟩⟩
    · rintro ⟨heq, hp | ⟨-, hp⟩⟩
      · exact absurd (heq ▸ List.mem_map_of_mem hp) hts
      · exact ⟨hp, heq⟩

theorem mem_map_snd_byTimestamp {old new : List BlockPoint}
    (hold : ∀ p ∈ old, ∀ q ∈ old, p.timestamp = q.timestamp → p = q)
    (hnew : (new.map BlockPoint.timestamp).Nodup) {p : BlockPoint} :
    p ∈ (byTimestamp (old ++ new)).rows.map Prod.snd ↔
      p ∈ new ∨ p.timestamp ∉ new.map BlockPoint.timestamp ∧ p ∈ old := by
  rw [List.mem_map]
  constructor
  · rintro ⟨⟨ts, q⟩, hrow, rfl⟩
    obtain ⟨rfl, hq⟩ := (mem_byTimestamp hold hnew).mp (Table.mem_rows.mp hrow)
    exact hq
  · intro hp
    exact ⟨(p.timestamp, p), Table.mem_rows.mpr ((mem_byTimestamp hold hnew).mpr ⟨rfl, hp⟩), rfl⟩

theorem nodup_timestamps_byTimestamp {old new : List BlockPoint}
    (hold : ∀ p ∈ old, ∀ q ∈ old, p.timestamp = q.timestamp → p = q)
    (hnew : (new.map BlockPoint.timestamp).Nodup) :
    (((byTimestamp (old ++ new)).rows.map Prod.snd).map BlockPoint.timestamp).Nodup := by
  have hkeys : ((byTimestamp (old ++ new)).rows.map Prod.snd).map BlockPoint.timestamp =
      (byTimestamp (old ++ new)).rows.map Prod.fst := by
    rw [List.map_map]
    refine List.map_congr_left fun ⟨ts, p⟩ hrow => ?_
    exact ((mem_byTimestamp hold hnew).mp (Table.mem_rows.mp hrow)).1
  rw [hkeys]
  exact Table.nodup_map_fst_rows _

theorem ascending_sortPoints {points : List BlockPoint} (h : (points.map BlockPoint.timestamp).Nodup) :
    Ascending ((sortPoints points).map BlockPoint.row) := by
  rw [← strictlyIncreasing_sortPoints, strictlyIncreasing_iff] at h
  have : IsTrans BlockPoint fun p q => p.timestamp < q.timestamp := ⟨fun p q r => Int64.lt_trans⟩
  rw [Ascending, List.pairwise_map]
  exact (List.isChain_iff_pairwise.mp h).imp fun hlt => Int64.lt_iff_toInt_lt.mp hlt

theorem nodup_timestamps {points : List BlockPoint} (h : Ascending (points.map BlockPoint.row)) :
    (points.map BlockPoint.timestamp).Nodup := by
  rw [Ascending, List.pairwise_map] at h
  rw [List.Nodup, List.pairwise_map]
  refine h.imp fun {p q} (hlt : p.timestamp.toInt < q.timestamp.toInt) heq => ?_
  exact absurd (congrArg Int64.toInt heq) hlt.ne

end Timestamps

/-! ### Merging -/

section Merge

variable {flate : Flate} {crc32 : List UInt8 → UInt32} {blocks blocks' : Table ℤ EncodedBlock}
variable {points : List BlockPoint}

/-- No block is of an older format. -/
def FirstFormat (blocks : Table ℤ EncodedBlock) : Prop :=
  ∀ start block, blocks.find? start = some block → block.codec = sqliteV4BlockCodec

theorem decodeExternalBlock_eq {block : EncodedBlock} (h : block.codec = sqliteV4BlockCodec) :
    decodeExternalBlock flate crc32 block = decodeSQLitePointBlockFromStorage flate crc32 block := by
  rw [decodeSQLitePointBlockFromStorage, decodeSQLiteStoredPointBlock, if_pos h, decodeExternalBlock]

/-- **A written block** is stored as its points. -/
theorem insertExternalBlock_eq_ok (hne : points ≠ [])
    (hlen : points.length ≤ sqliteV4MaxDecodedPoints) (hasc : Ascending (points.map BlockPoint.row))
    (h : insertExternalBlock flate crc32 blocks points = .ok blocks') :
    ∃ start block, StoredAs flate crc32 start block points ∧ blocks' = blocks.upsert start block ∧
      block.codec = sqliteV4BlockCodec := by
  rw [insertExternalBlock] at h
  obtain ⟨block, hencode, h⟩ := bind_eq_ok.mp h
  obtain ⟨decoded, hdecode, h⟩ := bind_eq_ok.mp h
  split_ifs at h with hdata
  rw [not_not] at hdata
  subst hdata
  obtain ⟨-, raw, -, hblock⟩ := (encodeSQLiteV4Block_eq_ok flate crc32 hne hlen).mp hencode
  have hcodec : block.codec = sqliteV4BlockCodec := by rw [hblock]
  rw [decodeExternalBlock_eq hcodec] at hdecode
  refine ⟨block.startNano.toInt, block, ⟨hdecode, hasc, ?_, ?_⟩, (Except.ok.inj h).symm, hcodec⟩
  all_goals subst hblock
  · rw [sortPoints_eq hasc, KeysSpan, List.head?_map, List.getLast?_map,
      List.head?_eq_some_head hne, List.getLast?_eq_some_getLast hne]
    exact ⟨rfl, rfl⟩
  · rfl

/-- What is written in pieces: blocks of the first format, with at most as many points as a piece has. -/
theorem bounded_foldlM {pieces : List (List BlockPoint)}
    (hpieces : ∀ c ∈ pieces, c ≠ [] ∧ c.length ≤ sqliteV4BlockPointLimit)
    (hasc : Ascending (pieces.flatten.map BlockPoint.row))
    (h : pieces.foldlM (insertExternalBlock flate crc32) blocks = .ok blocks') {start : ℤ}
    {block : EncodedBlock} (hfind : blocks'.find? start = some block) :
    blocks.find? start = some block ∨
      block.codec = sqliteV4BlockCodec ∧ block.count ≤ sqliteV4BlockPointLimit := by
  induction pieces generalizing blocks with
  | nil =>
    cases h
    exact .inl hfind
  | cons points pieces ih =>
    obtain ⟨⟨hne, hlen⟩, hpieces⟩ := List.forall_mem_cons.mp hpieces
    rw [List.flatten_cons, List.map_append] at hasc
    obtain ⟨hpoints, hrest, -⟩ := List.pairwise_append.mp hasc
    rw [List.foldlM_cons] at h
    obtain ⟨mid, hmid, h⟩ := bind_eq_ok.mp h
    obtain ⟨start', block', hstored, rfl, hcodec⟩ :=
      insertExternalBlock_eq_ok hne (hlen.trans (by decide)) hpoints hmid
    refine (ih hpieces hrest h).elim (fun hold => ?_) .inr
    rw [Table.find?_upsert] at hold
    split_ifs at hold
    · cases hold
      exact .inr ⟨hcodec, by rw [hstored.count]; exact_mod_cast hlen⟩
    · exact .inl hold

theorem mem_decoded {rows : List (ℤ × EncodedBlock)} {decoded : List (List BlockPoint)}
    (hcodec : ∀ b ∈ rows, b.2.codec = sqliteV4BlockCodec)
    (h : (rows.mapM fun r => decodeExternalBlock flate crc32 r.2) = .ok decoded) {p : BlockPoint} :
    p ∈ decoded.flatten ↔ ∃ b ∈ rows, p.row ∈ blockRows flate crc32 b.2 := by
  rw [List.mem_flatten]
  constructor
  · rintro ⟨points, hpoints, hp⟩
    obtain ⟨b, hb, hdecode⟩ := (mem_of_mapM_eq_ok h points).mp hpoints
    rw [decodeExternalBlock_eq (hcodec b hb)] at hdecode
    exact ⟨b, hb, blockRows_of_decode hdecode ▸ List.mem_map_of_mem hp⟩
  · rintro ⟨b, hb, hp⟩
    have hok : ∀ b ∈ rows, ∃ points, decodeExternalBlock flate crc32 b.2 = .ok points :=
      exists_mapM_eq_ok.mp ⟨decoded, h⟩
    obtain ⟨points, hdecode⟩ := hok b hb
    refine ⟨points, (mem_of_mapM_eq_ok h points).mpr ⟨b, hb, hdecode⟩, ?_⟩
    rw [decodeExternalBlock_eq (hcodec b hb)] at hdecode
    rw [blockRows_of_decode hdecode] at hp
    exact (List.mem_map_of_injective row_injective).mp hp

/-- What writing points does to the blocks of a series: the points override those of the blocks. -/
structure Merges (flate : Flate) (crc32 : List UInt8 → UInt32) (blocks blocks' : Table ℤ EncodedBlock)
    (points : List BlockPoint) : Prop where
  wellStored : WellStored flate crc32 blocks'
  points : ∀ p : BlockPoint, p.row ∈ blockPoints flate crc32 blocks' ↔
    p ∈ points ∨ p.timestamp ∉ points.map BlockPoint.timestamp ∧ p.row ∈ blockPoints flate crc32 blocks
  origin : ∀ start block, blocks'.find? start = some block → blocks.find? start = some block ∨
    block.codec = sqliteV4BlockCodec ∧ block.count ≤ sqliteV4BlockPointLimit

theorem mem_overlappingBlocks {first last : Int64} {b : ℤ × EncodedBlock} :
    b ∈ overlappingBlocks blocks first last ↔ blocks.find? b.1 = some b.2 ∧
      first.toInt ≤ b.2.endNano.toInt ∧ b.1 ≤ last.toInt := by
  rw [overlappingBlocks, List.mem_filter, Table.mem_rows, decide_eq_true_eq]

/-- The first and the last of some points. -/
structure Spans (points : List BlockPoint) (first last : BlockPoint) : Prop where
  first_mem : first ∈ points
  last_mem : last ∈ points
  range : ∀ p ∈ points, p.timestamp.toInt ∈ Set.Icc first.timestamp.toInt last.timestamp.toInt

theorem spans_sortPoints (hnodup : (points.map BlockPoint.timestamp).Nodup) {first last : BlockPoint}
    (hfirst : (sortPoints points).head? = some first) (hlast : (sortPoints points).getLast? = some last) :
    Spans points first last where
  first_mem := (perm_sortPoints points).mem_iff.mp (List.mem_of_mem_head? hfirst)
  last_mem := (perm_sortPoints points).mem_iff.mp (List.mem_of_getLast? hlast)
  range p hp := by
    have hspan : KeysSpan first.timestamp.toInt last.timestamp.toInt
        ((sortPoints points).map BlockPoint.row) := by
      rw [KeysSpan, List.head?_map, List.getLast?_map, hfirst, hlast]
      exact ⟨rfl, rfl⟩
    exact (ascending_sortPoints hnodup).mem_Icc hspan
      (List.mem_map_of_mem ((perm_sortPoints points).mem_iff.mpr hp))

theorem exists_merged (hwell : WellStored flate crc32 blocks) (hformat : FirstFormat blocks)
    (hnodup : (points.map BlockPoint.timestamp).Nodup) (hne : points ≠ [])
    (h : writeExternalBlocks flate crc32 blocks points = .ok blocks') :
    ∃ first last merged, Spans points first last ∧ Ascending (merged.map BlockPoint.row) ∧
      (∀ p, p ∈ merged ↔ p ∈ points ∨ p.timestamp ∉ points.map BlockPoint.timestamp ∧
        ∃ b ∈ overlappingBlocks blocks first.timestamp last.timestamp,
          p.row ∈ blockRows flate crc32 b.2) ∧
      (chunks sqliteV4BlockPointLimit merged).foldlM (insertExternalBlock flate crc32)
        (blocks.deleteKeys ((overlappingBlocks blocks first.timestamp last.timestamp).map Prod.fst)) =
          .ok blocks' := by
  have hsorted := sortPoints_ne_nil hne
  obtain ⟨first, hfirst⟩ : ∃ p, (sortPoints points).head? = some p := ⟨_, List.head?_eq_some_head hsorted⟩
  obtain ⟨last, hlast⟩ : ∃ p, (sortPoints points).getLast? = some p :=
    ⟨_, List.getLast?_eq_some_getLast hsorted⟩
  rw [writeExternalBlocks, hfirst, hlast] at h
  obtain ⟨decoded, hdecoded, h⟩ := bind_eq_ok.mp h
  set overlapping := overlappingBlocks blocks first.timestamp last.timestamp with hoverlapping
  have hcodec : ∀ b ∈ overlapping, b.2.codec = sqliteV4BlockCodec := fun b hb =>
    hformat b.1 b.2 (mem_overlappingBlocks.mp hb).1
  -- disjoint blocks have one point at an instant
  have hold : ∀ p ∈ decoded.flatten, ∀ q ∈ decoded.flatten, p.timestamp = q.timestamp → p = q := by
    intro p hp q hq hts
    obtain ⟨b, hb, hp⟩ := (mem_decoded hcodec hdecoded).mp hp
    obtain ⟨c, hc, hq⟩ := (mem_decoded hcodec hdecoded).mp hq
    have hp' := mem_blockPoints.mpr ⟨b.1, b.2, (mem_overlappingBlocks.mp hb).1, hp⟩
    have hq' := mem_blockPoints.mpr ⟨c.1, c.2, (mem_overlappingBlocks.mp hc).1, hq⟩
    rw [row_eq, hts] at hp'
    rw [row_eq] at hq'
    refine row_injective ?_
    rw [row_eq, row_eq, hts, hwell.eq_of_mem hp' hq']
  have hperm := perm_sortPoints points
  have hnew : ((sortPoints points).map BlockPoint.timestamp).Nodup :=
    (hperm.map BlockPoint.timestamp).nodup_iff.mpr hnodup
  refine ⟨first, last, _, spans_sortPoints hnodup hfirst hlast,
    ascending_sortPoints (nodup_timestamps_byTimestamp hold hnew), fun p => ?_, h⟩
  rw [(perm_sortPoints _).mem_iff, mem_map_snd_byTimestamp hold hnew, hperm.mem_iff,
    (hperm.map BlockPoint.timestamp).mem_iff, mem_decoded hcodec hdecoded]

/-- Points that meet no block become blocks of their own. -/
theorem inserts_writeExternalBlocks {lo hi : ℤ} (hasc : Ascending (points.map BlockPoint.row))
    (hrange : ∀ p ∈ points, p.timestamp.toInt ∈ Set.Icc lo hi) (hwell : WellStored flate crc32 blocks)
    (hclear : Clear blocks lo hi) (hformat : FirstFormat blocks)
    (h : writeExternalBlocks flate crc32 blocks points = .ok blocks') :
    Inserts flate crc32 blocks blocks' lo points := by
  rcases eq_or_ne points [] with rfl | hne
  · cases h
    exact Inserts.refl hwell lo
  obtain ⟨first, last, merged, hspans, hmerged, hmem, hfold⟩ :=
    exists_merged hwell hformat (nodup_timestamps hasc) hne h
  have hnone : overlappingBlocks blocks first.timestamp last.timestamp = [] := by
    refine List.eq_nil_iff_forall_not_mem.mpr fun b hb => ?_
    obtain ⟨hfind, hend, hstart⟩ := mem_overlappingBlocks.mp hb
    obtain ⟨stored, hstored⟩ := hwell.block b.1 b.2 hfind
    have hle := hstored.start_le
    have hlo := (hrange first hspans.first_mem).1
    have hhi := (hrange last hspans.last_mem).2
    have hfl := (hspans.range first hspans.first_mem).2
    refine Set.disjoint_left.mp (hclear b.1 b.2 hfind)
      (show max b.1 first.timestamp.toInt ∈ Set.Icc _ _ from ⟨le_max_left _ _, max_le hle hend⟩) ?_
    exact ⟨hlo.trans (le_max_right _ _), max_le (hstart.trans hhi) (hfl.trans hhi)⟩
  have heq : merged = points := by
    refine List.map_injective_iff.mpr row_injective (hmerged.ext hasc fun r => ?_)
    simp [hmem, hnone]
  rw [hnone, heq] at hfold
  refine inserts_chunks (fun blocks blocks' points hne hlen hpoints hinsert => ?_) hasc hrange hwell
    hclear hfold
  obtain ⟨start, block, hstored, hupsert, -⟩ := insertExternalBlock_eq_ok hne hlen hpoints hinsert
  exact ⟨start, block, hstored, hupsert⟩

/-- No remaining block meets the points that are written: an old point between a remaining block and the
new points would lie in a block that contains the remaining one. -/
theorem clear_deleteKeys (hwell : WellStored flate crc32 blocks) {first last : Int64} {merged : List BlockPoint}
    {lo hi : BlockPoint} (hlo : lo ∈ merged) (hhi : hi ∈ merged)
    (hmem : ∀ p ∈ merged, p.timestamp.toInt ∈ Set.Icc first.toInt last.toInt ∨
      ∃ b ∈ overlappingBlocks blocks first last, p.row ∈ blockRows flate crc32 b.2) :
    Clear (blocks.deleteKeys ((overlappingBlocks blocks first last).map Prod.fst)) lo.timestamp.toInt
      hi.timestamp.toInt := by
  intro start block hfind
  rw [Table.find?_deleteKeys] at hfind
  split_ifs at hfind with hdeleted
  have hkept : ¬(first.toInt ≤ block.endNano.toInt ∧ start ≤ last.toInt) := fun hmeet => hdeleted
    (List.mem_map_of_mem (mem_overlappingBlocks.mpr ⟨hfind, hmeet⟩ : (start, block) ∈ _))
  -- a block that was deleted does not meet this one
  have hapart : ∀ b ∈ overlappingBlocks blocks first last, ∀ x, x ∈ Set.Icc b.1 b.2.endNano.toInt →
      x ∉ Set.Icc start block.endNano.toInt := by
    intro b hb
    have hne : b.1 ≠ start := fun heq => hdeleted (heq ▸ List.mem_map_of_mem hb)
    exact fun x => fun hx => Set.disjoint_left.mp (hwell.disjoint b.1 start b.2 block
      (mem_overlappingBlocks.mp hb).1 hfind hne) hx
  have hinside : ∀ b ∈ overlappingBlocks blocks first last, ∀ p : BlockPoint,
      p.row ∈ blockRows flate crc32 b.2 → p.timestamp.toInt ∈ Set.Icc b.1 b.2.endNano.toInt := by
    intro b hb p hp
    obtain ⟨points, hstored⟩ := hwell.block b.1 b.2 (mem_overlappingBlocks.mp hb).1
    exact hstored.mem_Icc hp
  refine Set.disjoint_left.mpr fun x hx hx' => ?_
  obtain ⟨hx₁, hx₂⟩ := hx
  obtain ⟨hx₃, hx₄⟩ := hx'
  by_cases hbelow : first.toInt ≤ block.endNano.toInt
  · -- the block lies above the new points
    have habove : last.toInt < start := not_le.mp fun hle => hkept ⟨hbelow, hle⟩
    rcases hmem hi hhi with hnew | ⟨b, hb, hp⟩
    · have := hnew.2
      omega
    · have hb' := (mem_overlappingBlocks.mp hb).2
      exact hapart b hb x ⟨by omega, hx₄.trans (hinside b hb hi hp).2⟩ ⟨hx₁, hx₂⟩
  · rcases hmem lo hlo with hnew | ⟨b, hb, hp⟩
    · have := hnew.1
      omega
    · have hb' := (mem_overlappingBlocks.mp hb).2
      exact hapart b hb x ⟨(hinside b hb lo hp).1.trans hx₃, by omega⟩ ⟨hx₁, hx₂⟩

/-- **Merging**: the new points override those of the blocks, and the blocks stay disjoint. -/
theorem merges_writeExternalBlocks (hwell : WellStored flate crc32 blocks) (hformat : FirstFormat blocks)
    (hnodup : (points.map BlockPoint.timestamp).Nodup)
    (h : writeExternalBlocks flate crc32 blocks points = .ok blocks') :
    Merges flate crc32 blocks blocks' points := by
  rcases eq_or_ne points [] with rfl | hne
  · cases h
    exact ⟨hwell, by simp, fun start block hfind => .inl hfind⟩
  obtain ⟨first, last, merged, hspans, hmerged, hmem, hfold⟩ := exists_merged hwell hformat hnodup hne h
  set overlapping := overlappingBlocks blocks first.timestamp last.timestamp with hoverlapping
  have hmerged_ne : merged ≠ [] := List.ne_nil_of_mem ((hmem first).mpr (.inl hspans.first_mem))
  obtain ⟨lo, hi, hspan⟩ := KeysSpan.of_ne_nil (fun hnil => hmerged_ne (List.map_eq_nil_iff.mp hnil) :
    merged.map BlockPoint.row ≠ [])
  obtain ⟨r, hr, rfl⟩ := hspan.exists_first
  obtain ⟨lo, hlo, rfl⟩ := List.mem_map.mp hr
  obtain ⟨r, hr, rfl⟩ := hspan.exists_last
  obtain ⟨hi, hhi, rfl⟩ := List.mem_map.mp hr
  have hclear : Clear (blocks.deleteKeys (overlapping.map Prod.fst)) lo.timestamp.toInt
      hi.timestamp.toInt := by
    refine clear_deleteKeys hwell hlo hhi fun p hp => ?_
    exact ((hmem p).mp hp).imp (hspans.range p) fun hold => hold.2
  have hinserts : Inserts flate crc32 (blocks.deleteKeys (overlapping.map Prod.fst)) blocks'
      lo.timestamp.toInt merged := by
    refine inserts_chunks (fun blocks blocks' points hne hlen hpoints hinsert => ?_) hmerged
      (fun p hp => hmerged.mem_Icc hspan (List.mem_map_of_mem hp)) (hwell.deleteKeys _) hclear hfold
    obtain ⟨start, block, hstored, hupsert, -⟩ := insertExternalBlock_eq_ok hne hlen hpoints hinsert
    exact ⟨start, block, hstored, hupsert⟩
  have hlimit : 0 < sqliteV4BlockPointLimit := by decide
  refine ⟨hinserts.wellStored, fun p => ?_, fun start block hfind => ?_⟩
  · rw [hinserts.rows, Multiset.mem_add, Multiset.mem_coe, List.mem_map_of_injective row_injective, hmem]
    constructor
    · rintro (hkept | hp | ⟨hnot, b, hb, hp⟩)
      · obtain ⟨start, block, hfind, hp⟩ := mem_blockPoints.mp hkept
        have hfind' := hfind
        rw [Table.find?_deleteKeys] at hfind
        split_ifs at hfind with hdeleted
        refine .inr ⟨fun hts => ?_, mem_blockPoints.mpr ⟨start, block, hfind, hp⟩⟩
        -- a new point in a remaining block would have made it overlap
        obtain ⟨q, hq, hqp⟩ := List.mem_map.mp hts
        obtain ⟨stored, hstored⟩ := hwell.block start block hfind
        have hin : p.timestamp.toInt ∈ Set.Icc start block.endNano.toInt := hstored.mem_Icc hp
        have hin' : p.timestamp.toInt ∈ Set.Icc lo.timestamp.toInt hi.timestamp.toInt := by
          rw [← hqp]
          exact hmerged.mem_Icc hspan (List.mem_map_of_mem ((hmem q).mpr (.inl hq)))
        exact Set.disjoint_left.mp (hclear start block hfind') hin hin'
      · exact .inl hp
      · exact .inr ⟨hnot, mem_blockPoints.mpr ⟨b.1, b.2, (mem_overlappingBlocks.mp hb).1, hp⟩⟩
    · rintro (hp | ⟨hnot, hold⟩)
      · exact .inr (.inl hp)
      · obtain ⟨start, block, hfind, hp⟩ := mem_blockPoints.mp hold
        by_cases hdeleted : start ∈ overlapping.map Prod.fst
        · obtain ⟨b, hb, rfl⟩ := List.mem_map.mp hdeleted
          obtain rfl : b.2 = block := Option.some.inj ((mem_overlappingBlocks.mp hb).1.symm.trans hfind)
          exact .inr (.inr ⟨hnot, b, hb, hp⟩)
        · refine .inl (mem_blockPoints.mpr ⟨start, block, ?_, hp⟩)
          rw [Table.find?_deleteKeys, if_neg hdeleted, hfind]
  · have hpieces : ∀ c ∈ chunks sqliteV4BlockPointLimit merged,
        c ≠ [] ∧ c.length ≤ sqliteV4BlockPointLimit := fun c hc =>
      ⟨ne_nil_of_mem_chunks hlimit hc, length_le_of_mem_chunks hc⟩
    refine (bounded_foldlM hpieces (by rwa [flatten_chunks hlimit]) hfold hfind).imp_left fun hold => ?_
    rw [Table.find?_deleteKeys] at hold
    split_ifs at hold
    exact hold

end Merge

end Block
end Komari
