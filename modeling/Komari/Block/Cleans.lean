import Mathlib.Algebra.BigOperators.Group.Multiset.Basic
import Mathlib.Tactic.Abel
import Komari.Block.Expiry
import Komari.Block.PointRoundTrip

/-!
# A batch of cleanup is clean

A batch works through the items of the series in their order: `Takes` is what it does to one series and
`TakesAll` what it does to all of them, so that the items behind the budget are the items that are left.

* `cleans_iff` : a batch is clean unless only such blocks are left.
-/

namespace Komari

namespace Block

/-! ### Points of a block -/

theorem sortPoints_eq {points : List BlockPoint} (h : Ascending (points.map BlockPoint.row)) :
    sortPoints points = points := by
  rw [Ascending, List.pairwise_map] at h
  exact List.Pairwise.insertionSort_eq
    (h.imp fun hlt => Int64.le_iff_toInt_le.mpr (le_of_lt hlt))

section StoredAs

variable {flate : Flate} {crc32 : List UInt8 → UInt32} {beforeNano limit : ℤ}
variable {start : ℤ} {block : EncodedBlock} {points : List BlockPoint}

theorem blockRows_of_decode
    (h : decodeSQLitePointBlockFromStorage flate crc32 block = .ok points) :
    blockRows flate crc32 block = points.map BlockPoint.row := by
  rw [blockRows, h]

section

variable (h : StoredAs flate crc32 start block points)

include h

theorem StoredAs.rows :
    blockRows flate crc32 block = points.map BlockPoint.row := blockRows_of_decode h.decode

/-- The points of a block lie between its bounds. -/
theorem StoredAs.mem_Icc {r : ℤ × HotPoint}
    (hr : r ∈ blockRows flate crc32 block) : r.1 ∈ Set.Icc start block.endNano.toInt := by
  rw [h.rows] at hr
  exact h.ascending.mem_Icc h.span hr

theorem StoredAs.exists_first : ∃ r ∈ blockRows flate crc32 block, r.1 = start := by
  rw [h.rows]
  exact h.span.exists_first

theorem StoredAs.exists_last : ∃ r ∈ blockRows flate crc32 block, r.1 = block.endNano.toInt := by
  rw [h.rows]
  exact h.span.exists_last

theorem StoredAs.start_le : start ≤ block.endNano.toInt := by
  obtain ⟨r, hr, rfl⟩ := h.exists_first
  exact (h.mem_Icc hr).2

theorem StoredAs.length_rows : ((blockRows flate crc32 block).length : ℤ) = block.count := by
  rw [h.rows, h.count, List.length_map]

end

/-- **A written block** is stored as its points. -/
theorem insertPointBlock_eq_ok {blocks blocks' : Table ℤ EncodedBlock} (hne : points ≠ [])
    (hlen : points.length ≤ sqliteV4MaxDecodedPoints)
    (hasc : Ascending (points.map BlockPoint.row))
    (h : insertPointBlock flate crc32 blocks points = .ok blocks') :
    ∃ start block, StoredAs flate crc32 start block points ∧ blocks.find? start = none ∧
      blocks' = blocks.upsert start block := by
  rw [insertPointBlock] at h
  obtain ⟨block, hencode, h⟩ := bind_eq_ok.mp h
  split at h
  · cases h
  · rename_i decoded hdecode
    split_ifs at h with hdata hfind
    rw [not_not] at hdata
    subst hdata
    refine ⟨block.startNano.toInt, block, ⟨hdecode, hasc, ?_, ?_⟩,
      Option.not_isSome_iff_eq_none.mp hfind, (Except.ok.inj h).symm⟩
    all_goals
      obtain ⟨-, axis, values, -, -, rfl⟩ :=
        (encodeSQLiteV6SharedPointBlock_eq_ok flate crc32 hne hlen).mp hencode
    · rw [sortPoints_eq hasc, KeysSpan, List.head?_map, List.getLast?_map,
        List.head?_eq_some_head hne, List.getLast?_eq_some_getLast hne]
      exact ⟨rfl, rfl⟩
    · rfl

end StoredAs

/-! ### Written blocks -/

section Written

variable {flate : Flate} {crc32 : List UInt8 → UInt32} {beforeNano limit : ℤ}
variable {blocks blocks' blocks'' : Table ℤ EncodedBlock}

/-- The points of the blocks of a series. -/
def blockPoints (flate : Flate) (crc32 : List UInt8 → UInt32) (blocks : Table ℤ EncodedBlock) :
    Multiset (ℤ × HotPoint) :=
  blocks.total fun _ block => (blockRows flate crc32 block : Multiset (ℤ × HotPoint))

/-- The interval of every block is disjoint from `[lo, hi]`. -/
def Clear (blocks : Table ℤ EncodedBlock) (lo hi : ℤ) : Prop :=
  ∀ start block, blocks.find? start = some block →
    Disjoint (Set.Icc start block.endNano.toInt) (Set.Icc lo hi)

theorem Clear.mono {lo hi lo' hi' : ℤ} (h : Clear blocks lo hi) (hlo : lo ≤ lo') (hhi : hi' ≤ hi) :
    Clear blocks lo' hi' := fun start block hfind =>
  (h start block hfind).mono_right (Set.Icc_subset_Icc hlo hhi)

/-- `blocks'` is `blocks` with new blocks from `lo` on that hold exactly `points`. -/
structure Inserts (flate : Flate) (crc32 : List UInt8 → UInt32) (blocks blocks' : Table ℤ EncodedBlock)
    (lo : ℤ) (points : List BlockPoint) : Prop where
  wellStored : WellStored flate crc32 blocks'
  rows : blockPoints flate crc32 blocks' =
    blockPoints flate crc32 blocks + (points.map BlockPoint.row : List (ℤ × HotPoint))
  origin : ∀ start block, blocks'.find? start = some block →
    blocks.find? start = some block ∨ lo ≤ start ∧ lo ≤ block.endNano.toInt

theorem Inserts.refl (h : WellStored flate crc32 blocks) (lo : ℤ) :
    Inserts flate crc32 blocks blocks lo [] where
  wellStored := h
  rows := by simp
  origin _ _ hfind := Or.inl hfind

variable {points : List BlockPoint}

theorem Inserts.mono {lo lo' : ℤ} (hlo : lo ≤ lo')
    (h : Inserts flate crc32 blocks blocks' lo' points) :
    Inserts flate crc32 blocks blocks' lo points where
  wellStored := h.wellStored
  rows := h.rows
  origin start block hfind := (h.origin start block hfind).imp_right fun hge =>
    ⟨hlo.trans hge.1, hlo.trans hge.2⟩

theorem Inserts.trans {lo : ℤ} {points' : List BlockPoint}
    (h : Inserts flate crc32 blocks blocks' lo points)
    (h' : Inserts flate crc32 blocks' blocks'' lo points') :
    Inserts flate crc32 blocks blocks'' lo (points ++ points') where
  wellStored := h'.wellStored
  rows := by
    rw [h'.rows, h.rows, add_assoc, List.map_append, Multiset.coe_add]
  origin start block hfind := by
    rcases h'.origin start block hfind with hold | hnew
    · exact h.origin start block hold
    · exact Or.inr hnew

theorem inserts_upsert {start : ℤ} {block : EncodedBlock}
    (hwell : WellStored flate crc32 blocks) (hstored : StoredAs flate crc32 start block points)
    (hclear : Clear blocks start block.endNano.toInt) (hfind : blocks.find? start = none) :
    Inserts flate crc32 blocks (blocks.upsert start block) start points where
  wellStored := by
    constructor
    · intro start' block' h
      rw [Table.find?_upsert] at h
      split_ifs at h with hstart
      · cases h
        exact hstart ▸ ⟨points, hstored⟩
      · exact hwell.block start' block' h
    · intro start₁ start₂ block₁ block₂ h₁ h₂ hne
      rw [Table.find?_upsert] at h₁ h₂
      split_ifs at h₁ h₂ with hs₁ hs₂ hs₂
      · exact absurd (hs₁.trans hs₂.symm) hne
      · cases h₁
        exact hs₁ ▸ (hclear start₂ block₂ h₂).symm
      · cases h₂
        exact hs₂ ▸ hclear start₁ block₁ h₁
      · exact hwell.disjoint start₁ start₂ block₁ block₂ h₁ h₂ hne
  rows := by
    rw [blockPoints, Table.total_upsert, Table.total_erase_of_find?_none hfind, hstored.rows,
      add_comm]
    rfl
  origin start' block' h := by
    rw [Table.find?_upsert] at h
    split_ifs at h with hstart
    · cases h
      exact Or.inr ⟨hstart.ge, hstored.start_le⟩
    · exact Or.inl h

theorem Clear.find?_eq_none {lo hi start : ℤ} (hclear : Clear blocks lo hi)
    (hwell : WellStored flate crc32 blocks) (hlo : lo ≤ start) (hhi : start ≤ hi) :
    blocks.find? start = none := by
  refine Option.eq_none_iff_forall_ne_some.mpr fun block hfind => ?_
  obtain ⟨points, hstored⟩ := hwell.block start block hfind
  exact Set.disjoint_left.mp (hclear start block hfind) ⟨le_rfl, hstored.start_le⟩ ⟨hlo, hhi⟩

/-- The pieces of ascending points are written as blocks, each above the one before. -/
theorem inserts_foldlM
    {insert : Table ℤ EncodedBlock → List BlockPoint → Except String (Table ℤ EncodedBlock)}
    (hinsert : ∀ blocks blocks' points, points ≠ [] → points.length ≤ sqliteV4MaxDecodedPoints →
      Ascending (points.map BlockPoint.row) → insert blocks points = .ok blocks' →
        ∃ start block, StoredAs flate crc32 start block points ∧ blocks' = blocks.upsert start block)
    {pieces : List (List BlockPoint)} {lo hi : ℤ}
    (hpieces : ∀ c ∈ pieces, c ≠ [] ∧ c.length ≤ sqliteV4MaxDecodedPoints)
    (hasc : Ascending (pieces.flatten.map BlockPoint.row))
    (hrange : ∀ p ∈ pieces.flatten, p.timestamp.toInt ∈ Set.Icc lo hi)
    (hwell : WellStored flate crc32 blocks) (hclear : Clear blocks lo hi)
    (h : pieces.foldlM insert blocks = .ok blocks') :
    Inserts flate crc32 blocks blocks' lo pieces.flatten := by
  induction pieces generalizing blocks lo with
  | nil =>
    cases h
    exact Inserts.refl hwell lo
  | cons points pieces ih =>
    obtain ⟨⟨hne, hlen⟩, hpieces⟩ := List.forall_mem_cons.mp hpieces
    rw [List.flatten_cons, List.map_append] at hasc
    obtain ⟨hpoints, hrest, hbelow⟩ := List.pairwise_append.mp hasc
    rw [List.flatten_cons] at hrange
    rw [List.foldlM_cons] at h
    obtain ⟨mid, hmid, h⟩ := bind_eq_ok.mp h
    obtain ⟨start, block, hstored, rfl⟩ := hinsert blocks mid points hne hlen hpoints hmid
    -- the bounds of the new block are timestamps of its points
    have hbound : ∀ r ∈ blockRows flate crc32 block, r.1 ∈ Set.Icc lo hi ∧
        ∀ p ∈ pieces.flatten, r.1 < p.timestamp.toInt := by
      rw [hstored.rows]
      intro r hr
      obtain ⟨p, hp, rfl⟩ := List.mem_map.mp hr
      exact ⟨hrange p (List.mem_append_left _ hp),
        fun q hq => hbelow _ hr _ (List.mem_map_of_mem hq)⟩
    obtain ⟨first, hfirst, rfl⟩ := hstored.exists_first
    obtain ⟨last, hlast, hend⟩ := hstored.exists_last
    have hlo := (hbound first hfirst).1.1
    have hhi := (hbound last hlast).1.2
    have hfind := hclear.find?_eq_none hwell hlo (hbound first hfirst).1.2
    have hnew := inserts_upsert hwell hstored (hclear.mono hlo (hend ▸ hhi)) hfind
    have habove : ∀ p ∈ pieces.flatten, p.timestamp.toInt ∈ Set.Icc (last.1 + 1) hi :=
      fun p hp => ⟨(hbound last hlast).2 p hp, (hrange p (List.mem_append_right _ hp)).2⟩
    have hfirst_le : first.1 ≤ last.1 := hend ▸ hstored.start_le
    have hclear' : Clear (blocks.upsert first.1 block) (last.1 + 1) hi := by
      intro start' block' hfind'
      rw [Table.find?_upsert] at hfind'
      split_ifs at hfind' with hstart
      · cases hfind'
        rw [← hend]
        exact Set.disjoint_left.mpr fun x hx hx' => by
          have := hx.2
          have := hx'.1
          omega
      · exact (hclear.mono (by omega) le_rfl) start' block' hfind'
    have hlater := ih hpieces hrest habove hnew.wellStored hclear' h
    exact (hnew.mono hlo).trans (hlater.mono (by omega))

/-- Ascending points that are written in pieces into a free interval. -/
theorem inserts_chunks
    {insert : Table ℤ EncodedBlock → List BlockPoint → Except String (Table ℤ EncodedBlock)}
    (hinsert : ∀ blocks blocks' points, points ≠ [] → points.length ≤ sqliteV4MaxDecodedPoints →
      Ascending (points.map BlockPoint.row) → insert blocks points = .ok blocks' →
        ∃ start block, StoredAs flate crc32 start block points ∧ blocks' = blocks.upsert start block)
    {lo hi : ℤ} (hasc : Ascending (points.map BlockPoint.row))
    (hrange : ∀ p ∈ points, p.timestamp.toInt ∈ Set.Icc lo hi)
    (hwell : WellStored flate crc32 blocks) (hclear : Clear blocks lo hi)
    (h : (chunks sqliteV4BlockPointLimit points).foldlM insert blocks = .ok blocks') :
    Inserts flate crc32 blocks blocks' lo points := by
  have hlimit : 0 < sqliteV4BlockPointLimit := by decide
  have hflat := flatten_chunks hlimit points
  rw [← hflat] at hasc hrange
  have hpieces : ∀ c ∈ chunks sqliteV4BlockPointLimit points,
      c ≠ [] ∧ c.length ≤ sqliteV4MaxDecodedPoints := fun c hc =>
    ⟨ne_nil_of_mem_chunks hlimit hc, (length_le_of_mem_chunks hc).trans (by decide)⟩
  have hinserts := inserts_foldlM hinsert hpieces hasc hrange hwell hclear h
  rwa [hflat] at hinserts

/-- **Writing** ascending points into a free interval. -/
theorem inserts_writeSQLiteV4BlocksTx {lo hi : ℤ} (hasc : Ascending (points.map BlockPoint.row))
    (hrange : ∀ p ∈ points, p.timestamp.toInt ∈ Set.Icc lo hi)
    (hwell : WellStored flate crc32 blocks) (hclear : Clear blocks lo hi)
    (h : writeSQLiteV4BlocksTx flate crc32 blocks points = .ok blocks') :
    Inserts flate crc32 blocks blocks' lo points := by
  rw [writeSQLiteV4BlocksTx, sortPoints_eq hasc] at h
  refine inserts_chunks (fun blocks blocks' points hne hlen hpoints hinsert => ?_) hasc hrange hwell
    hclear h
  obtain ⟨start, block, hstored, -, hupsert⟩ := insertPointBlock_eq_ok hne hlen hpoints hinsert
  exact ⟨start, block, hstored, hupsert⟩

end Written

/-! ### What a batch takes from a series -/

section Takes

variable {flate : Flate} {crc32 : List UInt8 → UInt32} {beforeNano limit : ℤ}
variable {s s' s'' : PointSeries} {budget budget' budget'' : Budget}

theorem coe_flatMap {α β : Type} (f : α → List β) (l : List α) :
    ((l.flatMap f : List β) : Multiset β) = (l.map fun a => (f a : Multiset β)).sum := by
  induction l with
  | nil => rfl
  | cons a l ih => rw [List.flatMap_cons, List.map_cons, List.sum_cons, ← ih, Multiset.coe_add]

/-- The points that are not sealed. -/
def hotPoints (hot : Table ℤ HotPoint) : Multiset (ℤ × HotPoint) :=
  hot.total fun ts row => {(ts, row)}

theorem sum_singletons {κ α : Type} (rows : List (κ × α)) :
    (rows.map fun r => ({(r.1, r.2)} : Multiset (κ × α))).sum = (rows : Multiset (κ × α)) := by
  induction rows with
  | nil => rfl
  | cons r rows ih => rw [List.map_cons, List.sum_cons, ih, Multiset.singleton_add, Multiset.cons_coe]

theorem coe_rows (hot : Table ℤ HotPoint) : (hot.rows : Multiset (ℤ × HotPoint)) = hotPoints hot :=
  (sum_singletons hot.rows).symm

theorem coe_stored (s : PointSeries) : (s.stored flate crc32 : Multiset (ℤ × HotPoint)) =
    blockPoints flate crc32 s.blocks + hotPoints s.hot := by
  rw [PointSeries.stored, ← Multiset.coe_add, coe_flatMap, coe_rows]
  rfl

/-- The number of stored points of a series. -/
def size (flate : Flate) (crc32 : List UInt8 → UInt32) (s : PointSeries) : ℤ :=
  (s.stored flate crc32).length

/-- Only expired points have left a series. -/
structure Removes (flate : Flate) (crc32 : List UInt8 → UInt32) (beforeNano : ℤ)
    (s s' : PointSeries) : Prop where
  wellStored : WellStored flate crc32 s'.blocks
  removed : ∃ out : Multiset (ℤ × HotPoint), (∀ r ∈ out, r.1 < beforeNano) ∧
    (s.stored flate crc32 : Multiset (ℤ × HotPoint)) = out + s'.stored flate crc32

/-- What a batch takes from a series: as much as its budget shrinks, from the front of the items. -/
structure Takes (flate : Flate) (crc32 : List UInt8 → UInt32) (beforeNano : ℤ)
    (budget budget' : Budget) (s s' : PointSeries) : Prop extends
    Removes flate crc32 beforeNano s s' where
  count : budget'.deleted + size flate crc32 s' = budget.deleted + size flate crc32 s
  remaining : 0 ≤ budget'.remaining
  items : ∃ n : ℕ, n ≤ (workItems beforeNano s).length ∧ budget.remaining = n + budget'.remaining ∧
    workItems beforeNano s' = (workItems beforeNano s).drop n

theorem Takes.refl (hwell : WellStored flate crc32 s.blocks) (h : 0 ≤ budget.remaining) :
    Takes flate crc32 beforeNano budget budget s s where
  wellStored := hwell
  removed := ⟨0, by simp, by simp⟩
  count := rfl
  remaining := h
  items := ⟨0, by simp, by simp, by simp⟩

theorem Takes.trans (h : Takes flate crc32 beforeNano budget budget' s s')
    (h' : Takes flate crc32 beforeNano budget' budget'' s' s'') :
    Takes flate crc32 beforeNano budget budget'' s s'' where
  wellStored := h'.wellStored
  removed := by
    obtain ⟨out, hout, heq⟩ := h.removed
    obtain ⟨out', hout', heq'⟩ := h'.removed
    refine ⟨out + out', fun r hr => ?_, by rw [heq, heq', add_assoc]⟩
    exact (Multiset.mem_add.mp hr).elim (hout r) (hout' r)
  count := h'.count.trans h.count
  remaining := h'.remaining
  items := by
    obtain ⟨n, hn, hrem, hitems⟩ := h.items
    obtain ⟨n', hn', hrem', hitems'⟩ := h'.items
    rw [hitems, List.length_drop] at hn'
    refine ⟨n + n', by omega, by rw [hrem, hrem']; push_cast; ring, ?_⟩
    rw [hitems', hitems, List.drop_drop]

theorem takes_of_removed (out : Multiset (ℤ × HotPoint)) (n : ℕ)
    (hwell : WellStored flate crc32 s'.blocks) (hout : ∀ r ∈ out, r.1 < beforeNano)
    (heq : (s.stored flate crc32 : Multiset (ℤ × HotPoint)) = out + s'.stored flate crc32)
    (hdeleted : budget'.deleted = budget.deleted + out.card)
    (hremaining : budget.remaining = n + budget'.remaining) (hpos : 0 ≤ budget'.remaining)
    (hn : n ≤ (workItems beforeNano s).length)
    (hitems : workItems beforeNano s' = (workItems beforeNano s).drop n) :
    Takes flate crc32 beforeNano budget budget' s s' where
  wellStored := hwell
  removed := ⟨out, hout, heq⟩
  count := by
    have hcard := congrArg Multiset.card heq
    rw [Multiset.card_add, Multiset.coe_card, Multiset.coe_card] at hcard
    rw [hdeleted, size, size, hcard]
    push_cast
    ring
  remaining := hpos
  items := ⟨n, hn, hremaining, hitems⟩

variable {blocks : Table ℤ EncodedBlock}

theorem WellStored.of_find? {blocks' : Table ℤ EncodedBlock} (hwell : WellStored flate crc32 blocks)
    (h : ∀ start block, blocks'.find? start = some block → blocks.find? start = some block) :
    WellStored flate crc32 blocks' where
  block start block hfind := hwell.block start block (h start block hfind)
  disjoint start start' block block' hfind hfind' :=
    hwell.disjoint start start' block block' (h start block hfind) (h start' block' hfind')

theorem WellStored.deleteKeys (hwell : WellStored flate crc32 blocks)
    (keys : List ℤ) : WellStored flate crc32 (blocks.deleteKeys keys) := by
  refine hwell.of_find? fun start block hfind => ?_
  rw [Table.find?_deleteKeys] at hfind
  split_ifs at hfind
  exact hfind

theorem mem_completeBlocks {r : ℤ × EncodedBlock} : r ∈ completeBlocks beforeNano s ↔
    s.blocks.find? r.1 = some r.2 ∧ r.2.endNano.toInt < beforeNano := by
  rw [completeBlocks, Table.mem_select, decide_eq_true_eq]

/-! #### Complete blocks -/

theorem sum_blockRows (hwell : WellStored flate crc32 s.blocks) {rows : List (ℤ × EncodedBlock)}
    (hrows : ∀ r ∈ rows, r ∈ completeBlocks beforeNano s) :
    (∀ p ∈ (rows.map fun r => (blockRows flate crc32 r.2 : Multiset (ℤ × HotPoint))).sum,
        p.1 < beforeNano) ∧
      (rows.map fun r => r.2.count).sum =
        (rows.map fun r => (blockRows flate crc32 r.2 : Multiset (ℤ × HotPoint))).sum.card := by
  induction rows with
  | nil => simp
  | cons r rows ih =>
    obtain ⟨hr, hrows⟩ := List.forall_mem_cons.mp hrows
    obtain ⟨hexpired, hcount⟩ := ih hrows
    obtain ⟨hfind, hend⟩ := mem_completeBlocks.mp hr
    obtain ⟨points, hstored⟩ := hwell.block r.1 r.2 hfind
    rw [List.map_cons, List.map_cons, List.sum_cons, List.sum_cons]
    constructor
    · intro p hp
      rcases Multiset.mem_add.mp hp with hp | hp
      · exact (hstored.mem_Icc (Multiset.mem_coe.mp hp)).2.trans_lt hend
      · exact hexpired p hp
    · rw [hcount, Multiset.card_add, Multiset.coe_card, Nat.cast_add, hstored.length_rows]

theorem drop_length_take {α : Type} (l : List α) (n : ℕ) : l.drop (l.take n).length = l.drop n := by
  rw [List.length_take]
  rcases le_total n l.length with h | h
  · rw [min_eq_left h]
  · rw [min_eq_right h, List.drop_length, List.drop_eq_nil_of_le h]

/-- A complete block is not the block that contains the cutoff. -/
theorem boundaryBlock_deleteKeys {rows : List (ℤ × EncodedBlock)}
    (hrows : ∀ r ∈ rows, r ∈ completeBlocks beforeNano s) :
    boundaryBlock beforeNano { s with blocks := s.blocks.deleteKeys (rows.map Prod.fst) } =
      boundaryBlock beforeNano s := by
  rw [boundaryBlock, Table.select_deleteKeys_of_ne, boundaryBlock]
  intro r hr hkey
  obtain ⟨r', hr', heq⟩ := List.mem_map.mp hkey
  obtain ⟨hfind, hlt⟩ := mem_completeBlocks.mp (hrows r' hr')
  obtain ⟨hfind', hge⟩ := Table.mem_select.mp hr
  rw [heq, hfind'] at hfind
  rw [← Option.some.inj hfind] at hlt
  exact absurd hlt (not_lt.mpr (of_decide_eq_true hge).2)

theorem takes_deleteCompleteBlocks (hlimit : 0 < limit) (hwell : WellStored flate crc32 s.blocks)
    (hpos : 0 ≤ budget.remaining) :
    Takes flate crc32 beforeNano budget (deleteCompleteBlocks beforeNano limit budget s).1 s
        (deleteCompleteBlocks beforeNano limit budget s).2 ∧
      ((deleteCompleteBlocks beforeNano limit budget s).1.remaining = 0 ∨
        completeBlocks beforeNano (deleteCompleteBlocks beforeNano limit budget s).2 = []) := by
  have hlimited : limited limit budget.remaining (completeBlocks beforeNano s) =
      (completeBlocks beforeNano s).take budget.remaining.toNat := if_pos hlimit
  simp only [deleteCompleteBlocks, hlimited]
  set rows := (completeBlocks beforeNano s).take budget.remaining.toNat with hrows
  have hmem : ∀ r ∈ rows, r ∈ completeBlocks beforeNano s := fun r => List.mem_of_mem_take
  have hlen : rows.length = min budget.remaining.toNat (completeBlocks beforeNano s).length :=
    List.length_take
  set after : PointSeries := { s with blocks := s.blocks.deleteKeys (rows.map Prod.fst) } with hafter
  have hcomplete : completeBlocks beforeNano after =
      (completeBlocks beforeNano s).drop rows.length :=
    (Table.select_deleteKeys_take s.blocks _ budget.remaining.toNat).trans
      (drop_length_take (completeBlocks beforeNano s) budget.remaining.toNat).symm
  obtain ⟨hexpired, hcount⟩ := sum_blockRows hwell hmem
  have hblocks : blockPoints flate crc32 s.blocks =
      (rows.map fun r => (blockRows flate crc32 r.2 : Multiset (ℤ × HotPoint))).sum +
        blockPoints flate crc32 after.blocks := by
    have hnodup : (rows.map Prod.fst).Nodup :=
      Ascending.nodup_keys ((Table.ascending_select s.blocks _).sublist (List.take_sublist _ _))
    exact Table.total_deleteKeys hnodup fun r hr => (mem_completeBlocks.mp (hmem r hr)).1
  refine ⟨takes_of_removed _ rows.length (hwell.deleteKeys _) hexpired ?_ ?_ ?_ ?_ ?_ ?_, ?_⟩
  · rw [coe_stored, coe_stored, hblocks, add_assoc]
  · simp only [hcount]
  · simp
  · simp only [hlen]
    omega
  · rw [workItems, List.length_append, List.length_append, List.length_map, hlen]
    omega
  · have hle : rows.length ≤
        ((completeBlocks beforeNano s).map fun _ => WorkItem.complete).length := by
      rw [List.length_map, hlen]
      exact min_le_right _ _
    rw [workItems, workItems, hcomplete, boundaryBlock_deleteKeys hmem, List.append_assoc,
      List.append_assoc, List.drop_append_of_le_length hle, List.map_drop]
    rfl
  · rw [hcomplete, List.drop_eq_nil_iff, hlen]
    omega

/-! #### The block that contains the cutoff -/

theorem boundaryBlock_eq_some {start : ℤ} {block : EncodedBlock}
    (h : boundaryBlock beforeNano s = some (start, block)) :
    s.blocks.find? start = some block ∧ start < beforeNano ∧ beforeNano ≤ block.endNano.toInt := by
  obtain ⟨hfind, hcut⟩ := Table.mem_select.mp (List.mem_of_mem_head? h)
  exact ⟨hfind, of_decide_eq_true hcut⟩

theorem boundaryBlock_eq_none_iff : boundaryBlock beforeNano s = none ↔
    ∀ start block, s.blocks.find? start = some block → start < beforeNano →
      block.endNano.toInt < beforeNano := by
  rw [boundaryBlock, List.head?_eq_none_iff, List.eq_nil_iff_forall_not_mem]
  constructor
  · intro h start block hfind hstart
    by_contra hend
    exact h (start, block) (Table.mem_select.mpr ⟨hfind, decide_eq_true ⟨hstart, not_lt.mp hend⟩⟩)
  · rintro h ⟨start, block⟩ hr
    obtain ⟨hfind, hcut⟩ := Table.mem_select.mp hr
    obtain ⟨hstart, hend⟩ := of_decide_eq_true hcut
    exact absurd (h start block hfind hstart) (not_lt.mpr hend)

theorem completeBlocks_eq_nil_iff : completeBlocks beforeNano s = [] ↔
    ∀ start block, s.blocks.find? start = some block → beforeNano ≤ block.endNano.toInt := by
  rw [List.eq_nil_iff_forall_not_mem]
  constructor
  · intro h start block hfind
    exact not_lt.mp fun hlt => h (start, block) (mem_completeBlocks.mpr ⟨hfind, hlt⟩)
  · rintro h ⟨start, block⟩ hr
    obtain ⟨hfind, hlt⟩ := mem_completeBlocks.mp hr
    exact absurd hlt (not_lt.mpr (h start block hfind))

theorem WellStored.clear_erase
    (hwell : WellStored flate crc32 blocks) {start : ℤ} {block : EncodedBlock}
    (hfind : blocks.find? start = some block) :
    Clear (blocks.erase start) start block.endNano.toInt := by
  intro start' block' h
  rw [Table.find?_erase] at h
  split_ifs at h with hne
  exact hwell.disjoint start' start block' block h hfind hne

theorem WellStored.erase (hwell : WellStored flate crc32 blocks)
    (start : ℤ) : WellStored flate crc32 (blocks.erase start) :=
  hwell.deleteKeys [start]

/-- **The block that contains the cutoff is written again** with the points that are kept. -/
theorem takes_rewrite {start : ℤ} {block : EncodedBlock} {points : List BlockPoint}
    (hwell : WellStored flate crc32 s.blocks)
    (hpos : 0 < budget.remaining) (hcomplete : completeBlocks beforeNano s = [])
    (hsome : boundaryBlock beforeNano s = some (start, block))
    (hdecode : decodeSQLitePointBlockFromStorage flate crc32 block = .ok points)
    (hwrite : ∀ kept, kept = points.filter (fun p => !decide (p.timestamp.toInt < beforeNano)) →
      Ascending (kept.map BlockPoint.row) →
      (∀ p ∈ kept, p.timestamp.toInt ∈ Set.Icc beforeNano block.endNano.toInt) →
      Clear (s.blocks.erase start) beforeNano block.endNano.toInt →
        Inserts flate crc32 (s.blocks.erase start) blocks beforeNano kept) :
    Takes flate crc32 beforeNano budget
        ⟨budget.deleted + (points.filter fun p => decide (p.timestamp.toInt < beforeNano)).length,
          budget.remaining - 1⟩ s { s with blocks := blocks } ∧
      completeBlocks beforeNano { s with blocks := blocks } = [] ∧
      boundaryBlock beforeNano { s with blocks := blocks } = none := by
  obtain ⟨hfind, hstart, hend⟩ := boundaryBlock_eq_some hsome
  obtain ⟨points', hstored⟩ := hwell.block start block hfind
  obtain rfl : points = points' := Except.ok.inj (hdecode.symm.trans hstored.decode)
  set expired := points.filter fun p => decide (p.timestamp.toInt < beforeNano) with hexpired
  set kept := points.filter fun p => !decide (p.timestamp.toInt < beforeNano) with hkept
  have hrange : ∀ p ∈ kept, p.timestamp.toInt ∈ Set.Icc beforeNano block.endNano.toInt := by
    intro p hp
    obtain ⟨hp, hge⟩ := List.mem_filter.mp hp
    have hrow : p.row ∈ blockRows flate crc32 block := by
      rw [hstored.rows]
      exact List.mem_map_of_mem hp
    exact ⟨by simpa using hge, (hstored.mem_Icc hrow).2⟩
  have hinserts := hwrite kept rfl (hstored.ascending.sublist (List.filter_sublist.map _)) hrange
    ((hwell.clear_erase hfind).mono hstart.le le_rfl)
  -- another block that contains the cutoff would intersect the one that has been rewritten
  have hother : ∀ start' block', (s.blocks.erase start).find? start' = some block' →
      start' < beforeNano → block'.endNano.toInt < beforeNano := by
    intro start' block' hfind' hlt
    by_contra hge
    exact Set.disjoint_left.mp (hwell.clear_erase hfind start' block' hfind')
      ⟨hlt.le, not_lt.mp hge⟩ ⟨hstart.le, hend⟩
  have hcomplete' : completeBlocks beforeNano { s with blocks := blocks } = [] := by
    rw [completeBlocks_eq_nil_iff] at hcomplete ⊢
    intro start' block' hfind'
    rcases hinserts.origin start' block' hfind' with hold | hnew
    · rw [Table.find?_erase] at hold
      split_ifs at hold
      exact hcomplete start' block' hold
    · exact hnew.2
  have hboundary' : boundaryBlock beforeNano { s with blocks := blocks } = none := by
    rw [boundaryBlock_eq_none_iff]
    intro start' block' hfind' hlt
    rcases hinserts.origin start' block' hfind' with hold | hnew
    · exact hother start' block' hold hlt
    · exact absurd hnew.1 (not_le.mpr hlt)
  refine ⟨takes_of_removed (expired.map BlockPoint.row : List (ℤ × HotPoint)) 1
    hinserts.wellStored ?_ ?_ ?_ ?_ ?_ ?_ ?_, hcomplete', hboundary'⟩
  · intro r hr
    obtain ⟨p, hp, rfl⟩ := List.mem_map.mp (Multiset.mem_coe.mp hr)
    exact of_decide_eq_true (List.mem_filter.mp hp).2
  · have hsplit : (points.map BlockPoint.row : Multiset (ℤ × HotPoint)) =
        (expired.map BlockPoint.row : List (ℤ × HotPoint)) +
          (kept.map BlockPoint.row : List (ℤ × HotPoint)) := by
      rw [Multiset.coe_add, ← List.map_append]
      exact Multiset.coe_eq_coe.mpr ((List.filter_append_perm _ points).symm.map _)
    rw [coe_stored, coe_stored, hinserts.rows, blockPoints, Table.total_find? hfind, hstored.rows,
      hsplit, blockPoints]
    abel
  · simp
  · simp
  · exact Int.sub_nonneg_of_le hpos
  · simp [workItems, hcomplete, hsome]
  · rw [workItems, workItems, hcomplete, hcomplete', hsome, hboundary']
    rfl

theorem takes_rewriteBoundaryBlock (hlimit : 0 < limit) (hwell : WellStored flate crc32 s.blocks)
    (hpos : 0 < budget.remaining) (hcomplete : completeBlocks beforeNano s = [])
    (h : rewriteBoundaryBlock flate crc32 beforeNano limit budget s = .ok (budget', s')) :
    Takes flate crc32 beforeNano budget budget' s s' ∧ completeBlocks beforeNano s' = [] ∧
      boundaryBlock beforeNano s' = none := by
  rw [rewriteBoundaryBlock] at h
  split at h
  · next hnone =>
    cases h
    exact ⟨Takes.refl hwell hpos.le, hcomplete, hnone⟩
  · next start block hsome =>
    obtain ⟨points, hdecode, h⟩ := bind_eq_ok.mp h
    obtain ⟨blocks, hwrite, h⟩ := bind_eq_ok.mp h
    rw [if_pos hlimit] at h
    cases h
    refine takes_rewrite hwell hpos hcomplete hsome hdecode fun kept hkept hasc hrange hclear => ?_
    subst hkept
    exact inserts_writeSQLiteV4BlocksTx hasc hrange (hwell.erase start) hclear hwrite

/-! #### Hot rows -/

theorem mem_expiredRows {r : ℤ × HotPoint} : r ∈ expiredRows beforeNano s ↔
    s.hot.find? r.1 = some r.2 ∧ r.1 < beforeNano := by
  rw [expiredRows, Table.mem_select, decide_eq_true_eq]

theorem takes_deleteExpiredRows (hlimit : 0 < limit) (hwell : WellStored flate crc32 s.blocks)
    (hpos : 0 ≤ budget.remaining) (hcomplete : completeBlocks beforeNano s = [])
    (hboundary : boundaryBlock beforeNano s = none) :
    Takes flate crc32 beforeNano budget (deleteExpiredRows beforeNano limit budget s).1 s
        (deleteExpiredRows beforeNano limit budget s).2 ∧
      ((deleteExpiredRows beforeNano limit budget s).1.remaining = 0 ∨
        workItems beforeNano (deleteExpiredRows beforeNano limit budget s).2 = []) := by
  have hlimited : limited limit budget.remaining (expiredRows beforeNano s) =
      (expiredRows beforeNano s).take budget.remaining.toNat := if_pos hlimit
  simp only [deleteExpiredRows, hlimited, if_pos hlimit]
  set rows := (expiredRows beforeNano s).take budget.remaining.toNat with hrows
  have hmem : ∀ r ∈ rows, r ∈ expiredRows beforeNano s := fun r => List.mem_of_mem_take
  have hlen : rows.length = min budget.remaining.toNat (expiredRows beforeNano s).length :=
    List.length_take
  set after : PointSeries := { s with hot := s.hot.deleteKeys (rows.map Prod.fst) } with hafter
  have hitems : ∀ s' : PointSeries, s'.blocks = s.blocks →
      workItems beforeNano s' = (expiredRows beforeNano s').map fun _ => WorkItem.row := by
    intro s' hblocks
    rw [workItems, completeBlocks, boundaryBlock, hblocks, ← completeBlocks, hcomplete,
      ← boundaryBlock, hboundary]
    rfl
  have hexpired : expiredRows beforeNano after = (expiredRows beforeNano s).drop rows.length :=
    (Table.select_deleteKeys_take s.hot _ budget.remaining.toNat).trans
      (drop_length_take (expiredRows beforeNano s) budget.remaining.toNat).symm
  have hhot : hotPoints s.hot = (rows : Multiset (ℤ × HotPoint)) + hotPoints after.hot := by
    have hnodup : (rows.map Prod.fst).Nodup :=
      Ascending.nodup_keys ((Table.ascending_select s.hot _).sublist (List.take_sublist _ _))
    rw [hotPoints, Table.total_deleteKeys hnodup fun r hr => (mem_expiredRows.mp (hmem r hr)).1,
      sum_singletons]
    rfl
  refine ⟨takes_of_removed (rows : Multiset (ℤ × HotPoint)) rows.length
    hwell ?_ ?_ ?_ ?_ ?_ ?_ ?_, ?_⟩
  · intro r hr
    exact (mem_expiredRows.mp (hmem r (Multiset.mem_coe.mp hr))).2
  · rw [coe_stored, coe_stored, hhot, add_left_comm]
  · simp
  · simp
  · simp only [hlen]
    omega
  · rw [hitems s rfl, List.length_map, hlen]
    exact min_le_right _ _
  · rw [hitems s rfl, hitems after rfl, hexpired, List.map_drop]
  · rw [hitems after rfl, hexpired, List.map_eq_nil_iff, List.drop_eq_nil_iff, hlen]
    omega

/-! ### A whole batch -/

/-- What a batch takes from all series: items from the front until its budget is spent. -/
structure TakesAll (flate : Flate) (crc32 : List UInt8 → UInt32) (beforeNano : ℤ) (budget : Budget)
    (deleted : ℤ) (series after : List PointSeries) : Prop where
  removes : List.Forall₂ (Removes flate crc32 beforeNano) series after
  count : deleted + (after.map (size flate crc32)).sum =
    budget.deleted + (series.map (size flate crc32)).sum
  items : after.flatMap (workItems beforeNano) =
    (series.flatMap (workItems beforeNano)).drop budget.remaining.toNat

theorem removes_refl {series : List PointSeries}
    (hwell : ∀ s ∈ series, WellStored flate crc32 s.blocks) :
    List.Forall₂ (Removes flate crc32 beforeNano) series series :=
  List.forall₂_same.mpr fun s hs => ⟨hwell s hs, 0, by simp, by simp⟩

theorem Takes.takesAll {rest after : List PointSeries} {deleted : ℤ}
    (h : Takes flate crc32 beforeNano budget budget' s s')
    (hfront : budget'.remaining = 0 ∨ workItems beforeNano s' = [])
    (hrest : TakesAll flate crc32 beforeNano budget' deleted rest after) :
    TakesAll flate crc32 beforeNano budget deleted (s :: rest) (s' :: after) where
  removes := .cons h.toRemoves hrest.removes
  count := by
    have hcount := h.count
    have hrestCount := hrest.count
    rw [List.map_cons, List.map_cons, List.sum_cons, List.sum_cons]
    omega
  items := by
    obtain ⟨n, hn, hrem, hitems⟩ := h.items
    have hpos := h.remaining
    rw [List.flatMap_cons, List.flatMap_cons, List.drop_append, hrest.items]
    rcases hfront with hspent | hdone
    · have htoNat : budget.remaining.toNat = n := by omega
      rw [hspent, htoNat, Nat.sub_eq_zero_of_le hn, hitems]
      rfl
    · rw [hdone, eq_comm, List.drop_eq_nil_iff] at hitems
      have htoNat : budget.remaining.toNat =
          (workItems beforeNano s).length + budget'.remaining.toNat := by omega
      rw [hdone, htoNat, List.drop_eq_nil_of_le (Nat.le_add_right _ _), Nat.add_sub_cancel_left]

theorem takesAll_of_spent {series : List PointSeries} (hspent : budget.remaining ≤ 0)
    (hwell : ∀ s ∈ series, WellStored flate crc32 s.blocks) :
    TakesAll flate crc32 beforeNano budget budget.deleted series series where
  removes := removes_refl hwell
  count := rfl
  items := by rw [Int.toNat_of_nonpos hspent, List.drop_zero]

theorem takesAll_deleteFromSeries (hlimit : 0 < limit) {series after : List PointSeries} {deleted : ℤ}
    (hwell : ∀ s ∈ series, WellStored flate crc32 s.blocks)
    (h : deleteFromSeries flate crc32 beforeNano limit budget series = .ok (deleted, after)) :
    TakesAll flate crc32 beforeNano budget deleted series after := by
  induction series generalizing budget deleted after with
  | nil =>
    cases h
    exact ⟨.nil, rfl, by simp⟩
  | cons s rest ih =>
    obtain ⟨hs, hrest⟩ := List.forall_mem_cons.mp hwell
    rw [deleteFromSeries] at h
    simp only [ne_eq, hlimit.ne', not_false_eq_true, true_and] at h
    split_ifs at h with hspent hspent'
    · cases h
      exact takesAll_of_spent hspent hwell
    all_goals
      rw [not_le] at hspent
      obtain ⟨htakes, hnone⟩ := takes_deleteCompleteBlocks hlimit hs hspent.le
    · cases h
      exact htakes.takesAll (.inl (le_antisymm hspent' htakes.remaining))
        (takesAll_of_spent hspent' hrest)
    · rw [not_le] at hspent'
      obtain ⟨⟨budget₂, s₂⟩, hboundary, h⟩ := bind_eq_ok.mp h
      obtain ⟨⟨deleted', after'⟩, hloop, h⟩ := bind_eq_ok.mp h
      cases h
      obtain ⟨htakes₂, hcomplete, hnone₂⟩ := takes_rewriteBoundaryBlock hlimit htakes.wellStored
        hspent' (hnone.resolve_left hspent'.ne') hboundary
      obtain ⟨htakes₃, hfront⟩ := takes_deleteExpiredRows hlimit htakes₂.wellStored
        htakes₂.remaining hcomplete hnone₂
      exact ((htakes.trans htakes₂).trans htakes₃).takesAll hfront (ih hrest hloop)

/-! ### Clean batches -/

/-- The stored points of a series are kept exactly when it has no items. -/
theorem workItems_eq_nil_iff (hwell : WellStored flate crc32 s.blocks) :
    workItems beforeNano s = [] ↔ ∀ r ∈ s.stored flate crc32, beforeNano ≤ r.1 := by
  have hnil : workItems beforeNano s = [] ↔ completeBlocks beforeNano s = [] ∧
      boundaryBlock beforeNano s = none ∧ expiredRows beforeNano s = [] := by
    simp [workItems]
  rw [hnil, completeBlocks_eq_nil_iff, boundaryBlock_eq_none_iff]
  constructor
  · rintro ⟨hcomplete, hboundary, hrows⟩ r hr
    rw [PointSeries.stored, List.mem_append, List.mem_flatMap] at hr
    rcases hr with ⟨⟨start, block⟩, hblock, hr⟩ | hr
    · have hfind := Table.mem_rows.mp hblock
      obtain ⟨points, hstored⟩ := hwell.block start block hfind
      have hstart : beforeNano ≤ start := not_lt.mp fun hlt =>
        absurd (hboundary start block hfind hlt) (not_lt.mpr (hcomplete start block hfind))
      exact hstart.trans (hstored.mem_Icc hr).1
    · by_contra hlt
      have hmem : r ∈ expiredRows beforeNano s :=
        mem_expiredRows.mpr ⟨Table.mem_rows.mp hr, not_le.mp hlt⟩
      rw [hrows] at hmem
      cases hmem
  · intro h
    have hblock : ∀ start block, s.blocks.find? start = some block → beforeNano ≤ start := by
      intro start block hfind
      obtain ⟨points, hstored⟩ := hwell.block start block hfind
      obtain ⟨r, hr, rfl⟩ := hstored.exists_first
      exact h r (List.mem_append_left _ (List.mem_flatMap.mpr ⟨_, Table.mem_rows.mpr hfind, hr⟩))
    refine ⟨fun start block hfind => ?_, fun start block hfind hlt => ?_, ?_⟩
    · obtain ⟨points, hstored⟩ := hwell.block start block hfind
      exact (hblock start block hfind).trans hstored.start_le
    · exact absurd hlt (not_lt.mpr (hblock start block hfind))
    · refine List.eq_nil_iff_forall_not_mem.mpr fun r hr => ?_
      obtain ⟨hfind, hlt⟩ := mem_expiredRows.mp hr
      exact absurd hlt (not_lt.mpr (h r (List.mem_append_right _ (Table.mem_rows.mpr hfind))))

/-- The pending check finds every item but a block that contains the cutoff. -/
theorem sqliteV4SeriesHasPointsForDelete_eq_false :
    sqliteV4SeriesHasPointsForDelete beforeNano s = false ↔
      ∀ item ∈ workItems beforeNano s, item = .boundary := by
  have hitems : (∀ item ∈ workItems beforeNano s, item = .boundary) ↔
      completeBlocks beforeNano s = [] ∧ expiredRows beforeNano s = [] := by
    simp only [workItems, List.forall_mem_append, List.forall_mem_map]
    simp [List.eq_nil_iff_forall_not_mem]
  rw [hitems, sqliteV4SeriesHasPointsForDelete, Bool.or_eq_false_iff, List.any_eq_false,
    List.any_eq_false, List.eq_nil_iff_forall_not_mem, List.eq_nil_iff_forall_not_mem]
  simp only [mem_completeBlocks, mem_expiredRows, Prod.forall, Table.mem_rows, decide_eq_true_eq,
    not_and]

theorem Removes.removed_sub (h : Removes flate crc32 beforeNano s s') :
    (s'.stored flate crc32 : Multiset (ℤ × HotPoint)) ≤ s.stored flate crc32 ∧
      ∀ r ∈ (s.stored flate crc32 : Multiset (ℤ × HotPoint)) - s'.stored flate crc32,
        r.1 < beforeNano := by
  obtain ⟨out, hout, heq⟩ := h.removed
  rw [heq, Multiset.add_sub_cancel_right]
  exact ⟨Multiset.le_add_left _ _, hout⟩

theorem forall_wellStored {series after : List PointSeries}
    (h : List.Forall₂ (Removes flate crc32 beforeNano) series after) :
    ∀ s ∈ after, WellStored flate crc32 s.blocks := by
  induction h with
  | nil => simp
  | cons hs _ ih => exact List.forall_mem_cons.mpr ⟨hs.wellStored, ih⟩

/-- **A batch of cleanup**: it removes only expired points, it returns their number, and when it says
that it is complete then no expired point is left, unless the items behind its budget are blocks that
contain the cutoff. -/
theorem cleans_iff (hlimit : 0 < limit) {series after : List PointSeries} {deleted : ℤ}
    {complete : Bool} (hwell : ∀ s ∈ series, WellStored flate crc32 s.blocks)
    (h : deleteSQLiteV4PointsBatchTx flate crc32 beforeNano limit series =
      .ok (deleted, complete, after)) :
    Cleans flate crc32 beforeNano series after deleted complete ↔
      ¬OnlyBoundaries beforeNano limit series := by
  obtain ⟨⟨deleted', after'⟩, hloop, h⟩ := bind_eq_ok.mp h
  cases h
  have htakes := takesAll_deleteFromSeries hlimit hwell hloop
  have hitems : after.flatMap (workItems beforeNano) =
      (series.flatMap (workItems beforeNano)).drop limit.toNat := htakes.items
  have hwell' := forall_wellStored htakes.removes
  -- what the pending check says about the items that are left
  have hcomplete : (!after.any (sqliteV4SeriesHasPointsForDelete beforeNano)) = true ↔
      ∀ item ∈ after.flatMap (workItems beforeNano), item = .boundary := by
    simp only [Bool.not_eq_true', List.any_eq_false, Bool.not_eq_true,
      sqliteV4SeriesHasPointsForDelete_eq_false, List.mem_flatMap]
    exact ⟨fun hall item ⟨s, hs, hitem⟩ => hall s hs item hitem,
      fun hall s hs item hitem => hall item ⟨s, hs, hitem⟩⟩
  have hclean : after.flatMap (workItems beforeNano) = [] ↔
      ∀ s ∈ after, ∀ r ∈ s.stored flate crc32, beforeNano ≤ r.1 := by
    rw [List.flatMap_eq_nil_iff]
    exact forall₂_congr fun s hs => workItems_eq_nil_iff (hwell' s hs)
  rw [OnlyBoundaries, ← hitems, not_and', not_not, hclean]
  constructor
  · intro hcleans hall
    exact hcleans.complete (hcomplete.mpr hall)
  · intro hnot
    refine ⟨fun hdone => hnot (hcomplete.mp hdone), ?_, ?_⟩
    · exact htakes.removes.imp fun s s' hs => hs.removed_sub
    · have hcount := htakes.count
      rw [zero_add] at hcount
      exact eq_sub_of_add_eq hcount

end Takes

/-! ### A batch that is not complete -/

def samplePoint (timestamp : Int64) : BlockPoint := ⟨timestamp, 0x3FF0000000000000, [], timestamp⟩

def sampleBlock (points : List BlockPoint) : EncodedBlock :=
  match encodeSQLiteV6SharedPointBlock storedFlate checksumIEEE points with
  | .ok block => block
  | .error _ => ⟨0, 0, 0, 0, 0, [], 0, 0, []⟩

/-- Two blocks: a point at 1, and points at 5 and 15. -/
def sampleSeries : PointSeries where
  blocks := ((∅ : Table ℤ EncodedBlock).upsert 5 (sampleBlock [samplePoint 5, samplePoint 15])).upsert 1
    (sampleBlock [samplePoint 1])
  hot := ∅

theorem wellStored_sampleSeries :
    ∀ s ∈ [sampleSeries], WellStored storedFlate checksumIEEE s.blocks := by
  have hlate : StoredAs storedFlate checksumIEEE 5 (sampleBlock [samplePoint 5, samplePoint 15])
      [samplePoint 5, samplePoint 15] :=
    ⟨by decide +kernel, by decide, by decide +kernel, by decide +kernel⟩
  have hearly : StoredAs storedFlate checksumIEEE 1 (sampleBlock [samplePoint 1]) [samplePoint 1] :=
    ⟨by decide +kernel, by decide, by decide +kernel, by decide +kernel⟩
  have hempty : WellStored storedFlate checksumIEEE ∅ := ⟨by simp, by simp⟩
  have hone := inserts_upsert hempty hlate (by simp [Clear]) (by simp)
  have hclear : Clear ((∅ : Table ℤ EncodedBlock).upsert 5
      (sampleBlock [samplePoint 5, samplePoint 15])) 1 (sampleBlock [samplePoint 1]).endNano.toInt := by
    intro start block hfind
    rw [Table.find?_upsert] at hfind
    split_ifs at hfind with hstart
    · cases hfind
      have hend : (sampleBlock [samplePoint 1]).endNano.toInt = 1 := by decide +kernel
      rw [hstart, hend]
      exact Set.disjoint_left.mpr fun x hx hx' => by
        have := hx.1
        have := hx'.2
        omega
    · cases hfind
  rintro s hs
  rw [List.mem_singleton.mp hs]
  exact (inserts_upsert hone.wellStored hearly hclear (by decide +kernel)).wellStored

/-- The complete block takes the whole budget, and the expired point of the other block stays. -/
theorem cleans_fails :
    (∀ s ∈ [sampleSeries], WellStored storedFlate checksumIEEE s.blocks) ∧
      ∃ after, deleteSQLiteV4PointsBatchTx storedFlate checksumIEEE 10 1 [sampleSeries] =
          .ok (1, true, after) ∧
        ¬Cleans storedFlate checksumIEEE 10 [sampleSeries] after 1 true := by
  refine ⟨wellStored_sampleSeries, [(deleteCompleteBlocks 10 1 ⟨0, 1⟩ sampleSeries).2], by rfl, ?_⟩
  intro hcleans
  have hleft : (samplePoint 5).row ∈
      ((deleteCompleteBlocks 10 1 ⟨0, 1⟩ sampleSeries).2.stored storedFlate checksumIEEE) := by
    decide +kernel
  exact absurd (hcleans.complete rfl _ (List.mem_singleton_self _) _ hleft) (by decide)

theorem cleans_sampleSeries :
    ∃ after, deleteSQLiteV4PointsBatchTx storedFlate checksumIEEE 10 2 [sampleSeries] =
        .ok (2, true, after) ∧
      Cleans storedFlate checksumIEEE 10 [sampleSeries] after 2 true := by
  have hrun : (deleteSQLiteV4PointsBatchTx storedFlate checksumIEEE 10 2 [sampleSeries]).toOption.map
      (fun r => (r.1, r.2.1)) = some (2, true) := by decide +kernel
  cases h : deleteSQLiteV4PointsBatchTx storedFlate checksumIEEE 10 2 [sampleSeries] with
  | error e => rw [h] at hrun; cases hrun
  | ok result =>
    obtain ⟨deleted, complete, after⟩ := result
    rw [h] at hrun
    obtain ⟨rfl, rfl⟩ : deleted = 2 ∧ complete = true := by simpa [Except.toOption] using hrun
    have hnil : ([sampleSeries].flatMap (workItems 10)).drop (2 : ℤ).toNat = [] := by decide +kernel
    exact ⟨after, rfl, (cleans_iff (by decide) wellStored_sampleSeries h).mpr
      fun honly => honly.1 hnil⟩

end Block
end Komari
