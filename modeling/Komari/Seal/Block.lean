import Komari.Codec.Result
import Komari.Table.Ordered
import Mathlib

/-!
# Compressed rollup blocks

The sealed rollups of one series and resolution are compressed blocks, keyed by the bucket of their
first record and storing the bucket of their last one.  What a block holds is what its payload
decodes to.  The payload codec is a parameter: all that is used of it is that its decoder refuses
buckets that do not increase, since the store decodes every block again before it is written.
-/

namespace Komari

namespace Seal

/-! ### Records and blocks -/

/-- A rollup row: its data (every field but the creation time, the digest decoded) and its creation
time, which a compressed block does not keep. -/
structure RollupRow (δ : Type*) where
  /-- Counts, sums, extremes, first and last sample, digest. -/
  data : δ
  createdAt : ℤ
deriving DecidableEq

/-- A rollup record: the start of its bucket and its row. -/
abbrev RollupRecord (δ : Type*) := ℤ × RollupRow δ

/-- What `sqliteV4RollupRecordDataEqual` compares: everything but the creation time. -/
def recordData {δ : Type*} (r : RollupRecord δ) : ℤ × δ := (r.1, r.2.data)

/-- `encodeSQLiteV4RollupBlock` and `decodeSQLiteV4StoredRollupBlock`. -/
structure RollupCodec (δ β : Type*) where
  encode : List (RollupRecord δ) → Except String β
  decode : β → Except String (List (RollupRecord δ))
  /-- The decoder refuses a bucket that does not increase. -/
  ascending : ∀ payload records, decode payload = .ok records → Ascending records

/-- A stored block, but for its key `start_nano`. -/
structure StoredBlock (β : Type*) where
  endNano : ℤ
  /-- Counts, codecs, checksums and payloads, with the axis that the block refers to. -/
  payload : β
deriving DecidableEq

/-- The blocks of one series and resolution, by `start_nano`. -/
abbrev RollupBlocks (β : Type*) := Table ℤ (StoredBlock β)

/-- `sqliteV4RollupBlockLimit`. -/
def rollupBlockLimit : ℕ := 512

variable {δ β : Type*}

/-- Decode a stored block and compare its bounds with its records; `what` and `place` name it in
the errors. -/
def decodeBlock (codec : RollupCodec δ β) (what place : String) (start : ℤ)
    (block : StoredBlock β) : Except String (List (RollupRecord δ)) :=
  match codec.decode block.payload with
  | .error e => .error s!"metric: decode SQLite V4 {what} {place}: {e}"
  | .ok records =>
    if KeysSpan start block.endNano records then .ok records
    else .error s!"metric: SQLite V4 {what} boundary mismatch for {place}"

section Writing

variable [DecidableEq δ]

/-- One step of `writeSQLiteV4RollupBlocksTx`: encode records, validate the block by decoding it
again, and insert it under a new primary key. -/
def insertBlock (codec : RollupCodec δ β) (blocks : RollupBlocks β)
    (records : List (RollupRecord δ)) : Except String (RollupBlocks β) := do
  let payload ← codec.encode records
  match codec.decode payload with
  | .error e => .error s!"metric: validate SQLite V4 rollup block: {e}"
  | .ok decoded =>
    if decoded.map recordData ≠ records.map recordData then
      .error "metric: validate SQLite V4 rollup block: round-trip validation changed metric data"
    else
      -- the encoder takes the bounds from its sorted copy of records that are sorted already
      match records.head?, records.getLast? with
      | some first, some last =>
        if (blocks.find? first.1).isSome then .error "UNIQUE constraint failed"
        else .ok (blocks.upsert first.1 ⟨last.1, payload⟩)
      | _, _ => .error "metric: cannot encode an empty SQLite V4 rollup block"

/-- `writeSQLiteV4RollupBlocksTx`: sorted records are written as blocks of at most
`rollupBlockLimit` records. -/
def writeSQLiteV4RollupBlocksTx (codec : RollupCodec δ β) (blocks : RollupBlocks β)
    (records : List (RollupRecord δ)) : Except String (RollupBlocks β) :=
  (chunks rollupBlockLimit (sortByKey records)).foldlM (insertBlock codec) blocks

end Writing

/-! ### What blocks hold -/

/-- The block decodes to `records`, and they match its bounds. -/
def Holds (codec : RollupCodec δ β) (start : ℤ) (block : StoredBlock β)
    (records : List (RollupRecord δ)) : Prop :=
  codec.decode block.payload = .ok records ∧ KeysSpan start block.endNano records

variable {codec : RollupCodec δ β} {blocks blocks' : RollupBlocks β}

variable {start : ℤ} {block : StoredBlock β} {records : List (RollupRecord δ)}

theorem decodeBlock_eq_ok {what place : String}
    :
    decodeBlock codec what place start block = .ok records ↔ Holds codec start block records := by
  unfold decodeBlock Holds
  cases h : codec.decode block.payload with
  | error e => simp
  | ok decoded =>
    by_cases hspan : KeysSpan start block.endNano decoded
    · simp only [if_pos hspan, Except.ok.injEq]
      constructor
      · rintro rfl
        exact ⟨rfl, hspan⟩
      · rintro ⟨rfl, -⟩
        rfl
    · simp only [if_neg hspan, Except.ok.injEq, reduceCtorEq, false_iff]
      rintro ⟨rfl, h⟩
      exact hspan h

theorem Holds.unique {r s : List (RollupRecord δ)}
    (hr : Holds codec start block r) (hs : Holds codec start block s) : r = s :=
  Except.ok.inj (hr.1.symm.trans hs.1)

/-- Some block holds the bucket `b` with the data `d`. -/
def Contains (codec : RollupCodec δ β) (blocks : RollupBlocks β) (b : ℤ) (d : δ) : Prop :=
  ∃ start block records, blocks.find? start = some block ∧ Holds codec start block records ∧
    (b, d) ∈ records.map recordData

/-- The interval of every block is disjoint from `[lo, hi]`. -/
def Clear (blocks : RollupBlocks β) (lo hi : ℤ) : Prop :=
  ∀ start block, blocks.find? start = some block →
    Disjoint (Set.Icc start block.endNano) (Set.Icc lo hi)

/-- The intervals of the blocks are pairwise disjoint. -/
def DisjointBlocks (blocks : RollupBlocks β) : Prop :=
  ∀ s₁ s₂ b₁ b₂, blocks.find? s₁ = some b₁ → blocks.find? s₂ = some b₂ → s₁ ≠ s₂ →
    Disjoint (Set.Icc s₁ b₁.endNano) (Set.Icc s₂ b₂.endNano)

/-- No block holds more than `rollupBlockLimit` records. -/
def Small (codec : RollupCodec δ β) (blocks : RollupBlocks β) : Prop :=
  ∀ start block records, blocks.find? start = some block → Holds codec start block records →
    records.length ≤ rollupBlockLimit

/-- Every block decodes to records that match its bounds. -/
def Sound (codec : RollupCodec δ β) (blocks : RollupBlocks β) : Prop :=
  ∀ start block, blocks.find? start = some block → ∃ records, Holds codec start block records

variable {b : ℤ}

variable {l : List (RollupRecord δ)}

theorem mem_map_recordData {d : δ} :
    (b, d) ∈ l.map recordData ↔ ∃ row, (b, row) ∈ l ∧ row.data = d := by
  rw [List.mem_map]
  constructor
  · rintro ⟨⟨b', row⟩, hmem, h⟩
    obtain ⟨rfl, rfl⟩ := Prod.mk.inj h
    exact ⟨row, hmem, rfl⟩
  · rintro ⟨row, hmem, rfl⟩
    exact ⟨(b, row), hmem, rfl⟩

theorem map_fst_recordData (l : List (RollupRecord δ)) :
    (l.map recordData).map Prod.fst = l.map Prod.fst := by
  simp [recordData, Function.comp_def]

theorem mem_keys_of_mem_data {e : ℤ × δ} (h : e ∈ l.map recordData) : e.1 ∈ l.map Prod.fst := by
  rw [← map_fst_recordData]
  exact List.mem_map_of_mem h

theorem Holds.ascending (h : Holds codec start block records) : Ascending records :=
  codec.ascending block.payload records h.1

/-- The buckets of a block lie in its interval. -/
theorem Holds.mem_Icc (hholds : Holds codec start block records) {d : δ}
    (hmem : (b, d) ∈ records.map recordData) : b ∈ Set.Icc start block.endNano := by
  obtain ⟨row, hrow, -⟩ := mem_map_recordData.mp hmem
  exact hholds.ascending.mem_Icc hholds.2 hrow

theorem DisjointBlocks.eq_of_mem (hwf : DisjointBlocks blocks) {s₁ s₂ : ℤ}
    {b₁ b₂ : StoredBlock β} (h₁ : blocks.find? s₁ = some b₁) (h₂ : blocks.find? s₂ = some b₂)
    (hb₁ : b ∈ Set.Icc s₁ b₁.endNano) (hb₂ : b ∈ Set.Icc s₂ b₂.endNano) : s₁ = s₂ := by
  by_contra hne
  exact Set.disjoint_left.mp (hwf s₁ s₂ b₁ b₂ h₁ h₂ hne) hb₁ hb₂

theorem DisjointBlocks.contains_unique (hwf : DisjointBlocks blocks) {d d' : δ}
    (h : Contains codec blocks b d) (h' : Contains codec blocks b d') : d = d' := by
  obtain ⟨s, block, records, hfind, hholds, hmem⟩ := h
  obtain ⟨s', block', records', hfind', hholds', hmem'⟩ := h'
  obtain rfl := hwf.eq_of_mem hfind hfind' (hholds.mem_Icc hmem) (hholds'.mem_Icc hmem')
  obtain rfl : block = block' := Option.some.inj (hfind.symm.trans hfind')
  obtain rfl := hholds.unique hholds'
  have hasc : Ascending (records.map recordData) :=
    hholds.ascending.congr (map_fst_recordData records)
  exact hasc.eq_of_mem hmem hmem'

theorem disjoint_Icc_of_lt {lo hi lo' hi' : ℤ} (h : hi < lo') :
    Disjoint (Set.Icc lo hi) (Set.Icc lo' hi') :=
  Set.disjoint_left.mpr fun _ hx hx' => absurd (hx.2.trans_lt h) hx'.1.not_gt

theorem Clear.mono {lo hi lo' hi' : ℤ} (h : Clear blocks lo hi) (hlo : lo ≤ lo') (hhi : hi' ≤ hi) :
    Clear blocks lo' hi' := fun start block hfind =>
  (h start block hfind).mono_right (Set.Icc_subset_Icc hlo hhi)

/-- A bucket in an interval without blocks is in no block. -/
theorem Clear.not_contains {lo hi : ℤ} {d : δ} (h : Clear blocks lo hi)
    (hb : b ∈ Set.Icc lo hi) : ¬ Contains codec blocks b d := by
  rintro ⟨start, block, records, hfind, hholds, hmem⟩
  exact Set.disjoint_left.mp (h start block hfind) (hholds.mem_Icc hmem) hb

/-! ### Deleting a block -/

/-- `DELETE FROM blocks WHERE start_nano = start`. -/
def deleteBlock (blocks : RollupBlocks β) (start : ℤ) : RollupBlocks β :=
  blocks.deleteWhere fun s _ => s == start

theorem find?_deleteBlock {s : ℤ} :
    (deleteBlock blocks start).find? s = some block ↔ blocks.find? s = some block ∧ s ≠ start := by
  rw [deleteBlock, Table.find?_deleteWhere, Option.filter_eq_some_iff]
  simp

theorem DisjointBlocks.deleteBlock (hwf : DisjointBlocks blocks) (start : ℤ) :
    DisjointBlocks (deleteBlock blocks start) := fun _ _ _ _ h₁ h₂ hne =>
  hwf _ _ _ _ (find?_deleteBlock.mp h₁).1 (find?_deleteBlock.mp h₂).1 hne

theorem DisjointBlocks.clear_deleteBlock (hwf : DisjointBlocks blocks)
    (hfind : blocks.find? start = some block) :
    Clear (Seal.deleteBlock blocks start) start block.endNano := by
  intro s b h
  obtain ⟨hs, hne⟩ := find?_deleteBlock.mp h
  exact hwf s start b block hs hfind hne

/-- Without a block, exactly the buckets of the other blocks are contained. -/
theorem DisjointBlocks.contains_deleteBlock (hwf : DisjointBlocks blocks)
        (hfind : blocks.find? start = some block) (hholds : Holds codec start block records)
    {d : δ} : Contains codec (Seal.deleteBlock blocks start) b d ↔
      Contains codec blocks b d ∧ b ∉ records.map Prod.fst := by
  constructor
  · rintro ⟨s, blk, recs, h, hh, hmem⟩
    obtain ⟨hs, hne⟩ := find?_deleteBlock.mp h
    refine ⟨⟨s, blk, recs, hs, hh, hmem⟩, fun hin => hne ?_⟩
    rw [← map_fst_recordData] at hin
    obtain ⟨⟨_, _⟩, he, rfl⟩ := List.mem_map.mp hin
    exact hwf.eq_of_mem hs hfind (hh.mem_Icc hmem) (hholds.mem_Icc he)
  · rintro ⟨⟨s, blk, recs, hs, hh, hmem⟩, hnot⟩
    refine ⟨s, blk, recs, find?_deleteBlock.mpr ⟨hs, ?_⟩, hh, hmem⟩
    rintro rfl
    obtain rfl : blk = block := Option.some.inj (hs.symm.trans hfind)
    obtain rfl := hh.unique hholds
    exact hnot (mem_keys_of_mem_data hmem)

/-! ### Writing blocks -/

/-- `blocks'` is `blocks` with new small blocks inside `[lo, hi]` that hold exactly the data `new`. -/
structure Adds (codec : RollupCodec δ β) (blocks blocks' : RollupBlocks β) (lo hi : ℤ)
    (new : List (ℤ × δ)) : Prop where
  disjoint : DisjointBlocks blocks'
  old : ∀ start block, blocks.find? start = some block → blocks'.find? start = some block
  origin : ∀ start block, blocks'.find? start = some block → blocks.find? start = some block ∨
    (lo ≤ start ∧ block.endNano ≤ hi ∧ ∃ records, Holds codec start block records ∧
      records.length ≤ rollupBlockLimit ∧ records.map recordData ⊆ new)
  covered : ∀ e ∈ new, Contains codec blocks' e.1 e.2

variable {new : List (ℤ × δ)}

theorem Adds.contains {lo hi : ℤ} (h : Adds codec blocks blocks' lo hi new)
    {d : δ} : Contains codec blocks' b d ↔ Contains codec blocks b d ∨ (b, d) ∈ new := by
  constructor
  · rintro ⟨s, blk, recs, hs, hh, hmem⟩
    rcases h.origin s blk hs with hold | ⟨-, -, recs', hh', -, hsub⟩
    · exact Or.inl ⟨s, blk, recs, hold, hh, hmem⟩
    · obtain rfl := hh.unique hh'
      exact Or.inr (hsub hmem)
  · rintro (⟨s, blk, recs, hs, hh, hmem⟩ | hmem)
    · exact ⟨s, blk, recs, h.old s blk hs, hh, hmem⟩
    · exact h.covered (b, d) hmem

theorem Adds.small {lo hi : ℤ} (h : Adds codec blocks blocks' lo hi new)
    (hsmall : Small codec blocks) : Small codec blocks' := by
  intro s blk recs hs hh
  rcases h.origin s blk hs with hold | ⟨-, -, recs', hh', hlen, -⟩
  · exact hsmall s blk recs hold hh
  · exact hh.unique hh' ▸ hlen

theorem Adds.sound {lo hi : ℤ} (h : Adds codec blocks blocks' lo hi new)
    (hsound : Sound codec blocks) : Sound codec blocks' := by
  intro s blk hs
  rcases h.origin s blk hs with hold | ⟨-, -, recs, hh, -⟩
  · exact hsound s blk hold
  · exact ⟨recs, hh⟩

/-- An interval apart from the new blocks stays free. -/
theorem Adds.clear {lo hi : ℤ} (h : Adds codec blocks blocks' lo hi new)
    {x y : ℤ} (hclear : Clear blocks x y) (hdisj : Disjoint (Set.Icc lo hi) (Set.Icc x y)) :
    Clear blocks' x y := by
  intro s blk hs
  rcases h.origin s blk hs with hold | ⟨hlo, hhi, -⟩
  · exact hclear s blk hold
  · exact hdisj.mono_left (Set.Icc_subset_Icc hlo hhi)

theorem Adds.refl (hwf : DisjointBlocks blocks) (lo hi : ℤ) :
    Adds codec blocks blocks lo hi [] where
  disjoint := hwf
  old _ _ h := h
  origin _ _ h := Or.inl h
  covered _ h := absurd h List.not_mem_nil

theorem Adds.mono {lo hi lo' : ℤ} (h : Adds codec blocks blocks' lo hi new)
    (hlo : lo' ≤ lo) : Adds codec blocks blocks' lo' hi new where
  disjoint := h.disjoint
  old := h.old
  origin s blk hs := (h.origin s blk hs).imp_right fun hnew => ⟨hlo.trans hnew.1, hnew.2⟩
  covered := h.covered

theorem Adds.trans {blocks'' : RollupBlocks β} {lo hi mid mid' : ℤ} {new' : List (ℤ × δ)}
    (h : Adds codec blocks blocks' lo mid new) (h' : Adds codec blocks' blocks'' mid' hi new')
    (hlo : lo ≤ mid') (hhi : mid ≤ hi) : Adds codec blocks blocks'' lo hi (new ++ new') where
  disjoint := h'.disjoint
  old s blk hs := h'.old s blk (h.old s blk hs)
  origin := by
    intro s blk hs
    rcases h'.origin s blk hs with hs | ⟨hs, he, recs, hh, hlen, hsub⟩
    · rcases h.origin s blk hs with hs | ⟨hs, he, recs, hh, hlen, hsub⟩
      · exact Or.inl hs
      · exact Or.inr ⟨hs, he.trans hhi, recs, hh, hlen, fun e he => List.mem_append_left _ (hsub he)⟩
    · exact Or.inr ⟨hlo.trans hs, he, recs, hh, hlen, fun e he => List.mem_append_right _ (hsub he)⟩
  covered := by
    intro e he
    rcases List.mem_append.mp he with he | he
    · exact h'.contains.mpr (Or.inl (h.covered e he))
    · exact h'.covered e he

section Inserting

variable [DecidableEq δ]

/-- A successful insertion adds one block that decodes to the written data. -/
theorem insertBlock_eq_ok {records : List (RollupRecord δ)}
    (h : insertBlock codec blocks records = .ok blocks') :
    ∃ start block decoded, Holds codec start block decoded ∧
      decoded.map recordData = records.map recordData ∧ KeysSpan start block.endNano records ∧
      blocks.find? start = none ∧ blocks' = blocks.upsert start block := by
  unfold insertBlock at h
  obtain ⟨payload, -, h⟩ := bind_eq_ok.mp h
  cases hdec : codec.decode payload with
  | error e => simp [hdec] at h
  | ok decoded =>
    simp only [hdec, ne_eq, ite_not] at h
    split_ifs at h with hdata
    split at h
    · rename_i first last hfirst hlast
      split_ifs at h with hkey
      cases h
      have hspan : KeysSpan first.1 last.1 records := by
        rw [KeysSpan, hfirst, hlast]
        exact ⟨rfl, rfl⟩
      have hkeys : decoded.map Prod.fst = records.map Prod.fst := by
        rw [← map_fst_recordData, hdata, map_fst_recordData]
      have hnone : blocks.find? first.1 = none := by simpa using hkey
      exact ⟨first.1, ⟨last.1, payload⟩, decoded, ⟨hdec, hspan.congr hkeys⟩, hdata, hspan, hnone,
        rfl⟩
    · cases h

theorem adds_insertBlock {records : List (RollupRecord δ)} {lo hi : ℤ}
    (hwf : DisjointBlocks blocks) (hclear : Clear blocks lo hi)
    (hspan : KeysSpan lo hi records)
    (hlen : records.length ≤ rollupBlockLimit)
    (h : insertBlock codec blocks records = .ok blocks') :
    Adds codec blocks blocks' lo hi (records.map recordData) := by
  obtain ⟨start, block, decoded, hholds, hdata, hspan', hnone, rfl⟩ := insertBlock_eq_ok h
  obtain rfl : start = lo := Option.some.inj (hspan'.1.symm.trans hspan.1)
  obtain rfl : block.endNano = hi := Option.some.inj (hspan'.2.symm.trans hspan.2)
  have hnew : (blocks.upsert start block).find? start = some block := Table.find?_upsert_self ..
  have hold : ∀ s blk, blocks.find? s = some blk → s ≠ start := by
    rintro s blk hs rfl
    cases hnone.symm.trans hs
  have horigin : ∀ s blk, (blocks.upsert start block).find? s = some blk →
      blocks.find? s = some blk ∨ (s = start ∧ blk = block) := by
    intro s blk hs
    rw [Table.find?_upsert] at hs
    split_ifs at hs with heq
    · exact Or.inr ⟨heq, (Option.some.inj hs).symm⟩
    · exact Or.inl hs
  refine ⟨?_, ?_, ?_, ?_⟩
  · intro s₁ s₂ b₁ b₂ h₁ h₂ hne
    rcases horigin s₁ b₁ h₁ with h₁' | ⟨rfl, rfl⟩
    · rcases horigin s₂ b₂ h₂ with h₂' | ⟨rfl, rfl⟩
      · exact hwf s₁ s₂ b₁ b₂ h₁' h₂' hne
      · exact hclear s₁ b₁ h₁'
    · rcases horigin s₂ b₂ h₂ with h₂' | ⟨rfl, rfl⟩
      · exact (hclear s₂ b₂ h₂').symm
      · exact absurd rfl hne
  · intro s blk hs
    rw [Table.find?_upsert_ne (hold s blk hs)]
    exact hs
  · intro s blk hs
    rcases horigin s blk hs with hs | ⟨rfl, rfl⟩
    · exact Or.inl hs
    · refine Or.inr ⟨le_rfl, le_rfl, decoded, hholds, ?_, ?_⟩
      · rw [← List.length_map recordData, hdata, List.length_map]
        exact hlen
      · rw [hdata]
        exact List.Subset.refl _
  · intro e he
    exact ⟨start, block, decoded, hnew, hholds, hdata ▸ he⟩

/-- Inserting ascending pieces into a free interval, one after the other. -/
theorem adds_foldlM_insertBlock {pieces : List (List (RollupRecord δ))} {lo hi : ℤ}
    (hwf : DisjointBlocks blocks) (hclear : Clear blocks lo hi)
    (hasc : Ascending pieces.flatten) (hin : ∀ r ∈ pieces.flatten, r.1 ∈ Set.Icc lo hi)
    (hpieces : ∀ p ∈ pieces, p ≠ [] ∧ p.length ≤ rollupBlockLimit)
    (h : pieces.foldlM (insertBlock codec) blocks = .ok blocks') :
    Adds codec blocks blocks' lo hi (pieces.flatten.map recordData) := by
  induction pieces generalizing blocks lo with
  | nil =>
    cases h
    exact Adds.refl hwf lo hi
  | cons p pieces ih =>
    rw [List.foldlM_cons] at h
    obtain ⟨mid, hp, h⟩ := bind_eq_ok.mp h
    rw [List.flatten_cons] at hasc hin
    obtain ⟨hne, hlen⟩ := hpieces p List.mem_cons_self
    obtain ⟨x, y, hspan⟩ := KeysSpan.of_ne_nil hne
    obtain ⟨hascp, hascs, hlt⟩ := List.pairwise_append.mp hasc
    obtain ⟨r, hr, rfl⟩ := hspan.exists_first
    obtain ⟨q, hq, rfl⟩ := hspan.exists_last
    have hrlo := (hin r (List.mem_append_left _ hr)).1
    obtain ⟨hqlo, hqhi⟩ := hin q (List.mem_append_left _ hq)
    have hstep := adds_insertBlock hwf (hclear.mono hrlo hqhi) hspan hlen hp
    -- the remaining pieces lie above the last record of this one
    have hdisj : Disjoint (Set.Icc r.1 q.1) (Set.Icc (q.1 + 1) hi) :=
      disjoint_Icc_of_lt (by omega)
    have hrest : Adds codec mid blocks' (q.1 + 1) hi (pieces.flatten.map recordData) := by
      refine ih hstep.disjoint ?_ hascs ?_ ?_ h
      · exact hstep.clear (hclear.mono (by omega) le_rfl) hdisj
      · intro s hs
        exact ⟨Int.add_one_le_of_lt (hlt q hq s hs), (hin s (List.mem_append_right _ hs)).2⟩
      · exact fun p' hp' => hpieces p' (List.mem_cons_of_mem _ hp')
    rw [List.flatten_cons, List.map_append]
    exact (hstep.mono hrlo).trans hrest (by omega) hqhi

/-- What `writeSQLiteV4RollupBlocksTx` does to the blocks when it succeeds. -/
theorem adds_write {records : List (RollupRecord δ)} {lo hi : ℤ} (hwf : DisjointBlocks blocks)
    (hclear : Clear blocks lo hi) (hasc : Ascending records)
    (hin : ∀ r ∈ records, r.1 ∈ Set.Icc lo hi)
    (h : writeSQLiteV4RollupBlocksTx codec blocks records = .ok blocks') :
    Adds codec blocks blocks' lo hi (records.map recordData) := by
  have hpos : 0 < rollupBlockLimit := by decide
  have hflat := flatten_chunks hpos records
  rw [writeSQLiteV4RollupBlocksTx, sortByKey_eq hasc] at h
  rw [← hflat] at hasc hin ⊢
  exact adds_foldlM_insertBlock hwf hclear hasc hin
    (fun p hp => ⟨ne_nil_of_mem_chunks hpos hp, length_le_of_mem_chunks hp⟩) h

end Inserting

/-! ### Overriding the blocks by records -/

/-- The blocks after a rewrite: those before it, overridden by the records `moved`. -/
structure Absorbs (codec : RollupCodec δ β) (blocks blocks' : RollupBlocks β)
    (moved : List (RollupRecord δ)) : Prop where
  disjoint : DisjointBlocks blocks'
  small : Small codec blocks → Small codec blocks'
  sound : Sound codec blocks → Sound codec blocks'
  contains : ∀ b d, Contains codec blocks' b d ↔
    (b, d) ∈ moved.map recordData ∨ (b ∉ moved.map Prod.fst ∧ Contains codec blocks b d)

theorem mem_keys_iff : b ∈ l.map Prod.fst ↔ ∃ d, (b, d) ∈ l.map recordData := by
  rw [← map_fst_recordData, List.mem_map]
  constructor
  · rintro ⟨⟨_, d⟩, hmem, rfl⟩
    exact ⟨d, hmem⟩
  · rintro ⟨d, hmem⟩
    exact ⟨(b, d), hmem, rfl⟩

theorem Absorbs.refl (hwf : DisjointBlocks blocks) : Absorbs codec blocks blocks [] where
  disjoint := hwf
  small := id
  sound := id
  contains b d := by simp

theorem Absorbs.congr {moved moved' : List (RollupRecord δ)}
    (h : Absorbs codec blocks blocks' moved) (hmem : ∀ r, r ∈ moved ↔ r ∈ moved') :
    Absorbs codec blocks blocks' moved' where
  disjoint := h.disjoint
  small := h.small
  sound := h.sound
  contains b d := by
    rw [h.contains, mem_keys_iff, mem_keys_iff]
    simp only [List.mem_map, hmem]

/-- Two rewrites in a row, when the second agrees with the first where they meet. -/
theorem Absorbs.trans {blocks'' : RollupBlocks β} {moved moved' : List (RollupRecord δ)}
    (h : Absorbs codec blocks blocks' moved) (h' : Absorbs codec blocks' blocks'' moved')
    (hagree : ∀ b d, (b, d) ∈ moved.map recordData → b ∈ moved'.map Prod.fst →
      (b, d) ∈ moved'.map recordData) :
    Absorbs codec blocks blocks'' (moved ++ moved') where
  disjoint := h'.disjoint
  small hsmall := h'.small (h.small hsmall)
  sound hsound := h'.sound (h.sound hsound)
  contains b d := by
    rw [h'.contains, h.contains, List.map_append, List.mem_append, List.map_append,
      List.mem_append, not_or]
    have := hagree b d
    tauto

theorem absorbs_write [DecidableEq δ] {lo hi : ℤ}
    (hwf : DisjointBlocks blocks) (hclear : Clear blocks lo hi) (hasc : Ascending records)
    (hin : ∀ r ∈ records, r.1 ∈ Set.Icc lo hi)
    (h : writeSQLiteV4RollupBlocksTx codec blocks records = .ok blocks') :
    Absorbs codec blocks blocks' records := by
  have hadds := adds_write hwf hclear hasc hin h
  refine ⟨hadds.disjoint, hadds.small, hadds.sound, fun b d => ?_⟩
  rw [hadds.contains]
  have hfree : b ∈ records.map Prod.fst → ¬ Contains codec blocks b d := by
    intro hb
    obtain ⟨r, hr, rfl⟩ := List.mem_map.mp hb
    exact hclear.not_contains (hin r hr)
  tauto

/-- A block is replaced by its records, overridden by the records `moved`. -/
theorem absorbs_replace [DecidableEq δ] {lo hi : ℤ}
    {records' moved : List (RollupRecord δ)} (hwf : DisjointBlocks blocks)
    (hfind : blocks.find? start = some block) (hholds : Holds codec start block records)
    (hclear : Clear (deleteBlock blocks start) lo hi) (hasc : Ascending records')
    (hin : ∀ r ∈ records', r.1 ∈ Set.Icc lo hi)
    (hmoved : ∀ b d, (b, d) ∈ records'.map recordData ↔
      (b, d) ∈ moved.map recordData ∨ (b ∉ moved.map Prod.fst ∧ (b, d) ∈ records.map recordData))
    (h : writeSQLiteV4RollupBlocksTx codec (deleteBlock blocks start) records' = .ok blocks') :
    Absorbs codec blocks blocks' moved := by
  have hadds := adds_write (hwf.deleteBlock start) hclear hasc hin h
  have hsmall : Small codec blocks → Small codec (deleteBlock blocks start) :=
    fun hs s blk recs hf => hs s blk recs (find?_deleteBlock.mp hf).1
  have hsound : Sound codec blocks → Sound codec (deleteBlock blocks start) :=
    fun hs s blk hf => hs s blk (find?_deleteBlock.mp hf).1
  refine ⟨hadds.disjoint, fun hs => hadds.small (hsmall hs), fun hs => hadds.sound (hsound hs),
    fun b d => ?_⟩
  rw [hadds.contains, hmoved]
  constructor
  · rintro (hdel | hmem | ⟨hnot, hmem⟩)
    · refine Or.inr ⟨fun hb => ?_, ((hwf.contains_deleteBlock hfind hholds).mp hdel).1⟩
      -- a moved bucket is written into the free interval
      obtain ⟨d', hd'⟩ := mem_keys_iff.mp hb
      obtain ⟨row, hrow, -⟩ := mem_map_recordData.mp ((hmoved b d').mpr (Or.inl hd'))
      exact hclear.not_contains (hin _ hrow) hdel
    · exact Or.inl hmem
    · exact Or.inr ⟨hnot, start, block, records, hfind, hholds, hmem⟩
  · rintro (hmem | ⟨hnot, hcontains⟩)
    · exact Or.inr (Or.inl hmem)
    · by_cases hb : b ∈ records.map Prod.fst
      · obtain ⟨d', hd'⟩ := mem_keys_iff.mp hb
        obtain rfl := hwf.contains_unique hcontains ⟨start, block, records, hfind, hholds, hd'⟩
        exact Or.inr (Or.inr ⟨hnot, hd'⟩)
      · exact Or.inl ((hwf.contains_deleteBlock hfind hholds).mpr ⟨hcontains, hb⟩)

end Seal

end Komari
