import Komari.Seal.Model

/-!
# Sealing is invisible

Every rewrite overrides the blocks by exactly the hot rows that it removes, so that the logical
rollup map does not change.
-/

namespace Komari

namespace Seal

variable {δ β : Type} {codec : RollupCodec δ β} {g g' : Group δ β}

/-! ### The logical rollup map -/

variable {blocks : RollupBlocks β}

theorem mem_blockRecords {r : RollupRecord δ} :
    r ∈ blockRecords codec blocks ↔ ∃ start block records, blocks.find? start = some block ∧
      Holds codec start block records ∧ r ∈ records := by
  rw [blockRecords, List.mem_flatMap]
  constructor
  · rintro ⟨⟨start, block⟩, hrow, hr⟩
    cases hdec : decodeBlock codec "rollup block" "" start block with
    | error e => simp [hdec] at hr
    | ok records =>
      simp only [hdec] at hr
      exact ⟨start, block, records, Table.mem_rows.mp hrow, decodeBlock_eq_ok.mp hdec, hr⟩
  · rintro ⟨start, block, records, hfind, hholds, hr⟩
    refine ⟨(start, block), Table.mem_rows.mpr hfind, ?_⟩
    simp only [decodeBlock_eq_ok.mpr hholds]
    exact hr

/-- The records of the blocks, looked up by bucket, are what the blocks contain. -/
theorem find?_blockRecords (hwf : DisjointBlocks blocks) {b : ℤ}
    {d : δ} : (((blockRecords codec blocks).find? fun r => r.1 == b).map fun r => r.2.data) = some d ↔
      Contains codec blocks b d := by
  have hmem : ∀ row, (b, row) ∈ blockRecords codec blocks → Contains codec blocks b row.data := by
    intro row hrow
    obtain ⟨start, block, records, hfind, hholds, hr⟩ := mem_blockRecords.mp hrow
    exact ⟨start, block, records, hfind, hholds, mem_map_recordData.mpr ⟨row, hr, rfl⟩⟩
  constructor
  · intro h
    obtain ⟨⟨b', row⟩, hfind, rfl⟩ := Option.map_eq_some_iff.mp h
    obtain rfl : b' = b := by simpa using List.find?_some hfind
    exact hmem row (List.mem_of_find?_eq_some hfind)
  · intro hcontains
    obtain ⟨start, block, records, hblock, hholds, hd⟩ := hcontains
    obtain ⟨row, hrow, hrowd⟩ := mem_map_recordData.mp hd
    have hr : (b, row) ∈ blockRecords codec blocks :=
      mem_blockRecords.mpr ⟨start, block, records, hblock, hholds, hrow⟩
    cases hfind : (blockRecords codec blocks).find? fun r => r.1 == b with
    | none => simpa using List.find?_eq_none.mp hfind _ hr
    | some r =>
      obtain ⟨b', row'⟩ := r
      obtain rfl : b' = b := by simpa using List.find?_some hfind
      have h' := hmem row' (List.mem_of_find?_eq_some hfind)
      rw [Option.map_some, Option.some_inj]
      exact hwf.contains_unique h' ⟨start, block, records, hblock, hholds, hd⟩

theorem logicalRollup_of_hot {b : ℤ} {row : RollupRow δ} (h : g.hot.find? b = some row) :
    logicalRollup codec g b = some row.data := by
  simp only [logicalRollup, h]

theorem logicalRollup_of_cold (hwf : DisjointBlocks g.blocks) {b : ℤ} {d : δ}
    (h : g.hot.find? b = none) :
    logicalRollup codec g b = some d ↔ Contains codec g.blocks b d := by
  simp only [logicalRollup, h]
  exact find?_blockRecords hwf

/-! ### What sealing does to a group -/

/-- A step from `g` to `g'` that moves only hot rows of the buckets `moves` and changes nothing
that a reader of the logical map sees. -/
structure Seals (codec : RollupCodec δ β) (moves : ℤ → Prop) (g g' : Group δ β) : Prop where
  disjoint : DisjointBlocks g'.blocks
  logical : ∀ b, logicalRollup codec g' b = logicalRollup codec g b
  hot_subset : ∀ b row, g'.hot.find? b = some row → g.hot.find? b = some row
  kept : ∀ b row, g.hot.find? b = some row → ¬ moves b → g'.hot.find? b = some row
  small : Small codec g.blocks → Small codec g'.blocks
  sound : Sound codec g.blocks → Sound codec g'.blocks

theorem Seals.refl (hwf : DisjointBlocks g.blocks) (moves : ℤ → Prop) :
    Seals codec moves g g :=
  ⟨hwf, fun _ => rfl, fun _ _ h => h, fun _ _ h _ => h, id, id⟩

theorem Seals.trans {moves : ℤ → Prop} {g'' : Group δ β} (h : Seals codec moves g g')
    (h' : Seals codec moves g' g'') : Seals codec moves g g'' where
  disjoint := h'.disjoint
  logical b := (h'.logical b).trans (h.logical b)
  hot_subset b row hrow := h.hot_subset b row (h'.hot_subset b row hrow)
  kept b row hrow hb := h'.kept b row (h.kept b row hrow hb) hb
  small hs := h'.small (h.small hs)
  sound hs := h'.sound (h.sound hs)

theorem Seals.mono {moves moves' : ℤ → Prop} (h : Seals codec moves g g')
    (hmoves : ∀ b, moves b → moves' b) : Seals codec moves' g g' where
  disjoint := h.disjoint
  logical := h.logical
  hot_subset := h.hot_subset
  kept b row hrow hb := h.kept b row hrow fun hm => hb (hmoves b hm)
  small := h.small
  sound := h.sound

/-- Removing hot rows and overriding the blocks by them is invisible. -/
theorem Seals.of_absorbs {moves : ℤ → Prop} {p : ℤ → RollupRow δ → Bool}
    {moved : List (RollupRecord δ)} (hwf : DisjointBlocks g.blocks)
    (hhot : g'.hot = g.hot.deleteWhere p) (habs : Absorbs codec g.blocks g'.blocks moved)
    (hmoved : ∀ b row, (b, row) ∈ moved ↔ g.hot.find? b = some row ∧ p b row = true)
    (hmoves : ∀ b row, p b row = true → moves b) : Seals codec moves g g' := by
  have hfind : ∀ b, g'.hot.find? b = (g.hot.find? b).filter fun row => !p b row := by
    intro b
    rw [hhot, Table.find?_deleteWhere]
  refine ⟨habs.disjoint, ?_, ?_, ?_, habs.small, habs.sound⟩
  · intro b
    cases hrow : g.hot.find? b with
    | none =>
      have hcold : g'.hot.find? b = none := by
        rw [hfind, hrow]
        rfl
      have hnot : b ∉ moved.map Prod.fst := by
        intro hmem
        obtain ⟨⟨_, row⟩, hr, rfl⟩ := List.mem_map.mp hmem
        cases hrow.symm.trans ((hmoved _ row).mp hr).1
      ext d
      rw [logicalRollup_of_cold habs.disjoint hcold, logicalRollup_of_cold hwf hrow,
        habs.contains]
      have hnot' := fun h => hnot (mem_keys_iff.mpr ⟨d, h⟩)
      tauto
    | some row =>
      rw [logicalRollup_of_hot hrow]
      cases hp : p b row with
      | true =>
        -- the row has moved into the blocks
        have hcold : g'.hot.find? b = none := by
          rw [hfind, hrow, Option.filter_some, hp]
          rfl
        rw [logicalRollup_of_cold habs.disjoint hcold, habs.contains]
        exact Or.inl (mem_map_recordData.mpr ⟨row, (hmoved b row).mpr ⟨hrow, hp⟩, rfl⟩)
      | false =>
        have hhot' : g'.hot.find? b = some row := by
          rw [hfind, hrow, Option.filter_some, hp]
          rfl
        exact logicalRollup_of_hot hhot'
  · intro b row h
    rw [hfind, Option.filter_eq_some_iff] at h
    exact h.1
  · intro b row hrow hb
    have hp : p b row = false := by
      rw [Bool.eq_false_iff]
      exact fun hp => hb (hmoves b row hp)
    rw [hfind, hrow, Option.filter_some, hp]
    rfl

/-! ### Appending to the last block -/

variable {key : GroupKey}

/-- Nothing is stored above the bucket that `loadTail` returns as the lower bound, and the block to
replace ends there. -/
theorem loadTail_eq_ok {tail : Tail δ}
    (hwf : DisjointBlocks blocks) (h : loadTail codec key blocks = .ok tail) :
    (∀ hi, Clear blocks (tail.lower + 1) hi) ∧
      ((tail.replace = none ∧ tail.records = []) ∨
        ∃ start block, tail.replace = some start ∧ blocks.find? start = some block ∧
          Holds codec start block tail.records ∧ block.endNano = tail.lower) := by
  unfold loadTail at h
  split at h
  · rename_i hnone
    cases h
    refine ⟨fun hi start block hfind => ?_, Or.inl ⟨rfl, rfl⟩⟩
    have hnil := List.getLast?_eq_none_iff.mp hnone
    have hmem := (Table.mem_select (p := fun _ _ => true)).mpr ⟨hfind, rfl⟩
    rw [hnil] at hmem
    cases hmem
  · rename_i start block hlast
    obtain ⟨records, hdec, h⟩ := bind_eq_ok.mp h
    have hholds := decodeBlock_eq_ok.mp hdec
    have hasc := blocks.ascending_select fun _ _ => true
    obtain ⟨front, hfront⟩ := List.getLast?_eq_some_iff.mp hlast
    have hfind : blocks.find? start = some block := by
      have hmem : (start, block) ∈ blocks.select fun _ _ => true :=
        List.mem_of_getLast? hlast
      exact (Table.mem_select.mp hmem).1
    -- every other block starts before the last one, and so ends before it
    have hclear : ∀ hi, Clear blocks (block.endNano + 1) hi := by
      intro hi s blk hs
      by_cases hne : s = start
      · subst hne
        obtain rfl : blk = block := Option.some.inj (hs.symm.trans hfind)
        exact disjoint_Icc_of_lt (by omega)
      · have hmem : (s, blk) ∈ blocks.select fun _ _ => true := Table.mem_select.mpr ⟨hs, rfl⟩
        rw [hfront, List.mem_append, List.mem_singleton] at hmem
        have hlt : s < start := by
          rcases hmem with hmem | heq
          · rw [hfront] at hasc
            exact (List.pairwise_append.mp hasc).2.2 _ hmem _ (List.mem_singleton_self _)
          · exact absurd (congrArg Prod.fst heq) hne
        have hdisj := hwf s start blk block hs hfind hne
        have hle : start ≤ block.endNano := by
          obtain ⟨r, hr, hr'⟩ := hholds.2.exists_first
          have := hholds.ascending.mem_Icc hholds.2 hr
          exact hr' ▸ this.2
        have hend : blk.endNano < start := by
          by_contra hge
          exact Set.disjoint_left.mp hdisj ⟨hlt.le, not_lt.mp hge⟩ ⟨le_rfl, hle⟩
        exact disjoint_Icc_of_lt (by omega)
    split_ifs at h
    · cases h
      exact ⟨hclear, Or.inr ⟨start, block, rfl, hfind, hholds, rfl⟩⟩
    · cases h
      exact ⟨hclear, Or.inl ⟨rfl, rfl⟩⟩

section Append

variable [DecidableEq δ]

/-- Hot rows above the last block, written behind its records. -/
theorem absorbs_append {key : GroupKey} {blocks blocks' : RollupBlocks β} {tail : Tail δ}
    {hot : List (RollupRecord δ)} (hwf : DisjointBlocks blocks)
    (htail : loadTail codec key blocks = .ok tail) (hasc : Ascending hot)
    (hlower : ∀ r ∈ hot, tail.lower < r.1)
    (h : writeSQLiteV4RollupBlocksTx codec
      (match tail.replace with
        | some start => deleteBlock blocks start
        | none => blocks) (tail.records ++ hot) = .ok blocks') :
    Absorbs codec blocks blocks' hot := by
  obtain ⟨hclear, hcases⟩ := loadTail_eq_ok hwf htail
  obtain ⟨lo, hi, hIcc⟩ := hasc.exists_Icc
  rcases hcases with ⟨hrep, hrecs⟩ | ⟨start, block, hrep, hfind, hholds, hend⟩
  · simp only [hrep, hrecs, List.nil_append] at h
    exact absorbs_write hwf (hclear hi) hasc
      (fun r hr => ⟨Int.add_one_le_of_lt (hlower r hr), (hIcc r hr).2⟩) h
  · simp only [hrep] at h
    have hrecords : ∀ r ∈ tail.records, r.1 ∈ Set.Icc start tail.lower := by
      intro r hr
      rw [← hend]
      exact hholds.ascending.mem_Icc hholds.2 hr
    have hdel : Clear (deleteBlock blocks start) start (max hi tail.lower) := by
      intro s blk hs
      have hleft := hwf.clear_deleteBlock hfind s blk hs
      have hright := hclear (max hi tail.lower) s blk (find?_deleteBlock.mp hs).1
      rw [hend] at hleft
      refine Set.disjoint_left.mpr fun x hx hx' => ?_
      by_cases hle : x ≤ tail.lower
      · exact Set.disjoint_left.mp hleft hx ⟨hx'.1, hle⟩
      · exact Set.disjoint_left.mp hright hx ⟨by omega, hx'.2⟩
    have hstart : start ≤ tail.lower := by
      obtain ⟨r, hr, rfl⟩ := hholds.2.exists_first
      exact (hrecords r hr).2
    refine absorbs_replace hwf hfind hholds hdel ?_ ?_ ?_ h
    · refine List.pairwise_append.mpr ⟨hholds.ascending, hasc, ?_⟩
      exact fun r hr q hq => (hrecords r hr).2.trans_lt (hlower q hq)
    · intro r hr
      rcases List.mem_append.mp hr with hr | hr
      · exact ⟨(hrecords r hr).1, (hrecords r hr).2.trans (le_max_right _ _)⟩
      · exact ⟨hstart.trans (hlower r hr).le, (hIcc r hr).2.trans (le_max_left _ _)⟩
    · intro b d
      rw [List.map_append, List.mem_append]
      have hnot : (b, d) ∈ tail.records.map recordData → b ∉ hot.map Prod.fst := by
        intro hmem hb
        obtain ⟨row, hrow, -⟩ := mem_map_recordData.mp hmem
        obtain ⟨q, hq, rfl⟩ := List.mem_map.mp hb
        exact absurd (hlower q hq) (hrecords _ hrow).2.not_gt
      tauto

/-- An iteration of the append loop moves the hot rows between two buckets, at least one. -/
theorem appendTailStep_eq_ok {key : GroupKey} {beforeNano : ℤ} {count : ℕ}
    (hwf : DisjointBlocks g.blocks)
    (h : appendTailStep codec key beforeNano g = .ok (some (count, g'))) :
    Seals codec (· < beforeNano) g g' ∧ g'.hot.rows.length < g.hot.rows.length := by
  unfold appendTailStep at h
  obtain ⟨tail, htail, h⟩ := bind_eq_ok.mp h
  dsimp only at h
  generalize hhot : (g.hot.select fun b _ => tail.lower < b && b < beforeNano).take tail.limit =
    hot at h
  have hL := g.hot.ascending_select fun b _ => tail.lower < b && b < beforeNano
  have hsel : ∀ r ∈ hot, g.hot.find? r.1 = some r.2 ∧ tail.lower < r.1 ∧ r.1 < beforeNano := by
    intro r hr
    rw [← hhot] at hr
    have := Table.mem_select.mp (List.mem_of_mem_take hr)
    simpa using this
  split at h
  · rename_i first last hfirst hlast
    obtain ⟨blocks, hwrite, h⟩ := bind_eq_ok.mp h
    cases h
    have hspan : KeysSpan first.1 last.1 hot := by
      rw [KeysSpan, hfirst, hlast]
      exact ⟨rfl, rfl⟩
    have hasc : Ascending hot := hhot ▸ hL.sublist (List.take_sublist _ _)
    have habs := absorbs_append hwf htail hasc (fun r hr => (hsel r hr).2.1) hwrite
    have hmemfirst := hsel first (List.mem_of_mem_head? hfirst)
    have hmemlast := hsel last (List.mem_of_getLast? hlast)
    constructor
    · refine Seals.of_absorbs (p := fun b _ => first.1 ≤ b && b ≤ last.1) hwf rfl habs ?_ ?_
      · intro b row
        constructor
        · intro hr
          have := hasc.mem_Icc hspan hr
          exact ⟨(hsel _ hr).1, by simpa using this⟩
        · rintro ⟨hfind, hb⟩
          have hb' : first.1 ≤ b ∧ b ≤ last.1 := by simpa using hb
          rw [← hhot] at hspan ⊢
          refine (hL.mem_take hspan).mpr ⟨Table.mem_select.mpr ⟨hfind, ?_⟩, hb'.2⟩
          simp only [Bool.and_eq_true, decide_eq_true_eq]
          omega
      · intro b row hb
        have hb' : first.1 ≤ b ∧ b ≤ last.1 := by simpa using hb
        omega
    · rw [Table.rows_deleteWhere]
      refine List.length_filter_lt_length_iff_exists.mpr ⟨first, ?_, ?_⟩
      · exact Table.mem_rows.mpr hmemfirst.1
      · have := hasc.mem_Icc hspan (List.mem_of_mem_head? hfirst)
        simpa using this
  · cases h

/-- The append loop seals only rows before the cutoff. -/
theorem seals_appendTailLoop {key : GroupKey} {beforeNano : ℤ} {fuel done total : ℕ}
    (hwf : DisjointBlocks g.blocks)
    (h : appendTailLoop codec key beforeNano fuel done g = .ok (total, g')) :
    Seals codec (· < beforeNano) g g' := by
  induction fuel generalizing done g with
  | zero =>
    cases h
    exact Seals.refl hwf _
  | succ fuel ih =>
    rw [appendTailLoop] at h
    obtain ⟨out, hstep, h⟩ := bind_eq_ok.mp h
    cases out with
    | none =>
      cases h
      exact Seals.refl hwf _
    | some next =>
      obtain ⟨count, mid⟩ := next
      have hfirst := (appendTailStep_eq_ok hwf hstep).1
      exact hfirst.trans (ih hfirst.disjoint h)

end Append

/-! ### Late rows -/

variable {hot : List (RollupRecord δ)}

theorem newest_of_mem (hasc : Ascending hot) {h r : RollupRecord δ}
    (hmem : h ∈ hot) (hkey : h.1 = r.1) : newest hot r = h := by
  unfold newest
  cases hfind : hot.find? fun q => q.1 == r.1 with
  | none => exact absurd (beq_iff_eq.mpr hkey) (List.find?_eq_none.mp hfind h hmem)
  | some q =>
    have hq : q.1 = h.1 := by
      rw [hkey]
      simpa using List.find?_some hfind
    exact List.inj_on_of_nodup_map hasc.nodup_keys (List.mem_of_find?_eq_some hfind) hmem hq

theorem newest_of_notMem {r : RollupRecord δ} (h : r.1 ∉ hot.map Prod.fst) : newest hot r = r := by
  unfold newest
  rw [List.find?_eq_none.mpr]
  · rfl
  · intro q hq heq
    exact h (List.mem_map.mpr ⟨q, hq, beq_iff_eq.mp heq⟩)

theorem newest_fst (hot : List (RollupRecord δ)) (r : RollupRecord δ) : (newest hot r).1 = r.1 := by
  unfold newest
  cases hfind : hot.find? fun q => q.1 == r.1 with
  | none => rfl
  | some q => simpa using List.find?_some hfind

variable {records : List (RollupRecord δ)}

theorem holdsBucket_iff {b : ℤ} : holdsBucket records b = true ↔ b ∈ records.map Prod.fst := by
  simp [holdsBucket]

/-- The records of a rewritten block: its own, overridden by the hot rows of its buckets. -/
theorem mem_map_newest (hasc : Ascending hot) {b : ℤ}
    {d : δ} : (b, d) ∈ (records.map (newest hot)).map recordData ↔
      (b, d) ∈ (hot.filter fun h => holdsBucket records h.1).map recordData ∨
        (b ∉ (hot.filter fun h => holdsBucket records h.1).map Prod.fst ∧
          (b, d) ∈ records.map recordData) := by
  constructor
  · intro hmem
    rw [List.map_map] at hmem
    obtain ⟨r, hr, heq⟩ := List.mem_map.mp hmem
    obtain rfl : r.1 = b := (newest_fst hot r).symm.trans (congrArg Prod.fst heq)
    by_cases hhot : r.1 ∈ hot.map Prod.fst
    · obtain ⟨h, hh, hkey⟩ := List.mem_map.mp hhot
      rw [Function.comp_apply, newest_of_mem hasc hh hkey] at heq
      refine Or.inl (List.mem_map.mpr ⟨h, List.mem_filter.mpr ⟨hh, ?_⟩, heq⟩)
      exact holdsBucket_iff.mpr (hkey ▸ List.mem_map_of_mem hr)
    · rw [Function.comp_apply, newest_of_notMem hhot] at heq
      refine Or.inr ⟨fun hin => hhot ?_, List.mem_map.mpr ⟨r, hr, heq⟩⟩
      exact (List.filter_sublist.map Prod.fst).subset hin
  · rintro (hmem | ⟨hnot, hmem⟩)
    · obtain ⟨h, hh, heq⟩ := List.mem_map.mp hmem
      obtain ⟨hh, hholds⟩ := List.mem_filter.mp hh
      obtain ⟨r, hr, hkey⟩ := List.mem_map.mp (holdsBucket_iff.mp hholds)
      refine List.mem_map.mpr ⟨newest hot r, List.mem_map_of_mem hr, ?_⟩
      rw [newest_of_mem hasc hh hkey.symm, heq]
    · obtain ⟨r, hr, heq⟩ := List.mem_map.mp hmem
      have hhot : r.1 ∉ hot.map Prod.fst := by
        intro hin
        obtain ⟨h, hh, hkey⟩ := List.mem_map.mp hin
        refine hnot (List.mem_map.mpr ⟨h, List.mem_filter.mpr ⟨hh, ?_⟩, ?_⟩)
        · exact holdsBucket_iff.mpr (hkey ▸ List.mem_map_of_mem hr)
        · exact hkey.trans (congrArg Prod.fst heq)
      refine List.mem_map.mpr ⟨newest hot r, List.mem_map_of_mem hr, ?_⟩
      rw [newest_of_notMem hhot, heq]

theorem mem_overridden (hasc : Ascending hot)
    (hunique : ∀ b d d', (b, d) ∈ records.map recordData → (b, d') ∈ records.map recordData → d = d')
    {b : ℤ} {d : δ} :
    (b, d) ∈ (sortByKey ((Table.upsertAll ∅ records).upsertAll hot).rows).map recordData ↔
      (b, d) ∈ hot.map recordData ∨
        (b ∉ hot.map Prod.fst ∧ (b, d) ∈ records.map recordData) := by
  rw [mem_map_recordData (l := sortByKey _), mem_map_recordData (l := hot)]
  simp only [mem_sortByKey, Table.mem_rows]
  by_cases hhot : b ∈ hot.map Prod.fst
  · obtain ⟨row, hrow, hfind⟩ := Table.exists_find?_upsertAll (t := Table.upsertAll ∅ records) hhot
    rw [hfind]
    constructor
    · rintro ⟨_, h, rfl⟩
      cases h
      exact Or.inl ⟨row, hrow, rfl⟩
    · rintro (⟨row', hrow', rfl⟩ | ⟨hnot, -⟩)
      · exact ⟨row, rfl, by rw [hasc.eq_of_mem hrow hrow']⟩
      · exact absurd hhot hnot
  · rw [Table.find?_upsertAll_of_notMem hhot]
    have hnot : ¬ ∃ row, (b, row) ∈ hot ∧ row.data = d := by
      rintro ⟨row, hrow, -⟩
      exact hhot (List.mem_map_of_mem hrow)
    simp only [hnot, false_or, hhot, not_false_eq_true, true_and]
    by_cases hrec : b ∈ records.map Prod.fst
    · obtain ⟨row, hrow, hfind⟩ := Table.exists_find?_upsertAll (t := (∅ : Table ℤ (RollupRow δ))) hrec
      have hmem : (b, row.data) ∈ records.map recordData := mem_map_recordData.mpr ⟨row, hrow, rfl⟩
      rw [hfind]
      constructor
      · rintro ⟨_, h, rfl⟩
        cases h
        exact hmem
      · intro h
        exact ⟨row, rfl, hunique b row.data d hmem h⟩
    · rw [Table.find?_upsertAll_of_notMem hrec, Table.find?_empty]
      constructor
      · rintro ⟨_, h, -⟩
        cases h
      · intro h
        exact absurd (mem_keys_iff.mpr ⟨d, h⟩) hrec

/-- The records that `loadAllSQLiteV4RollupBlockRecords` returns are those of the blocks. -/
theorem mem_loadAll
    (h : loadAllSQLiteV4RollupBlockRecords codec key blocks = .ok records) (b : ℤ) (d : δ) :
    (b, d) ∈ records.map recordData ↔ Contains codec blocks b d := by
  unfold loadAllSQLiteV4RollupBlockRecords at h
  obtain ⟨loaded, hload, h⟩ := bind_eq_ok.mp h
  cases h
  rw [mem_map_recordData]
  constructor
  · rintro ⟨row, hrow, rfl⟩
    obtain ⟨recs, hrecs, hr⟩ := List.mem_flatten.mp hrow
    obtain ⟨⟨start, block⟩, hblock, hdec⟩ := (mem_of_mapM_eq_ok hload recs).mp hrecs
    exact ⟨start, block, recs, (Table.mem_select.mp hblock).1, decodeBlock_eq_ok.mp hdec,
      mem_map_recordData.mpr ⟨row, hr, rfl⟩⟩
  · rintro ⟨start, block, recs, hfind, hholds, hmem⟩
    obtain ⟨row, hrow, hd⟩ := mem_map_recordData.mp hmem
    refine ⟨row, List.mem_flatten.mpr ⟨recs, (mem_of_mapM_eq_ok hload recs).mpr ?_, hrow⟩, hd⟩
    exact ⟨(start, block), Table.mem_select.mpr ⟨hfind, rfl⟩, decodeBlock_eq_ok.mpr hholds⟩

section Late

variable [DecidableEq δ]

/-- Blocks are rewritten one after the other, each overridden by the hot rows of its buckets. -/
theorem absorbs_rewriteBlocks {hot : List (RollupRecord δ)} (hasc : Ascending hot)
    {touched : List (ℤ × List (RollupRecord δ))} {blocks blocks' : RollupBlocks β}
    (hwf : DisjointBlocks blocks) (hnd : (touched.map Prod.fst).Nodup)
    (hstored : ∀ t ∈ touched, ∃ block, blocks.find? t.1 = some block ∧ Holds codec t.1 block t.2)
    (h : (touched.foldlM (fun blocks block =>
        writeSQLiteV4RollupBlocksTx codec (deleteBlock blocks block.1)
          (block.2.map (newest hot))) blocks : Except String (RollupBlocks β)) = .ok blocks') :
    Absorbs codec blocks blocks'
      (touched.flatMap fun t => hot.filter fun r => holdsBucket t.2 r.1) := by
  induction touched generalizing blocks with
  | nil =>
    cases h
    exact Absorbs.refl hwf
  | cons t touched ih =>
    rw [List.foldlM_cons] at h
    obtain ⟨mid, hwrite, h⟩ := bind_eq_ok.mp h
    obtain ⟨hnot, hnd⟩ := List.nodup_cons.mp hnd
    obtain ⟨block, hfind, hholds⟩ := hstored t List.mem_cons_self
    have hkeys : (t.2.map (newest hot)).map Prod.fst = t.2.map Prod.fst := by
      rw [List.map_map]
      exact List.map_congr_left fun r _ => newest_fst hot r
    have hrecs : Ascending (t.2.map (newest hot)) :=
      hholds.ascending.congr hkeys
    have hin : ∀ r ∈ t.2.map (newest hot), r.1 ∈ Set.Icc t.1 block.endNano :=
      fun r hr => hrecs.mem_Icc (hholds.2.congr hkeys) hr
    have hclear := hwf.clear_deleteBlock hfind
    have hfirst : Absorbs codec blocks mid (hot.filter fun r => holdsBucket t.2 r.1) :=
      absorbs_replace hwf hfind hholds hclear hrecs hin (fun b d => mem_map_newest hasc) hwrite
    have hadds := adds_write (hwf.deleteBlock t.1) hclear hrecs hin hwrite
    have hrest := ih hfirst.disjoint hnd (fun t' ht' => by
      obtain ⟨block', hfind', hholds'⟩ := hstored t' (List.mem_cons_of_mem _ ht')
      refine ⟨block', hadds.old _ _ (find?_deleteBlock.mpr ⟨hfind', ?_⟩), hholds'⟩
      rintro heq
      exact hnot (heq ▸ List.mem_map_of_mem ht')) h
    rw [List.flatMap_cons]
    refine hfirst.trans hrest fun b d hd hb => ?_
    -- both lists are parts of `hot`, where a bucket has one row
    obtain ⟨row, hrow, rfl⟩ := mem_map_recordData.mp hd
    obtain ⟨q, hq, rfl⟩ := List.mem_map.mp hb
    obtain ⟨t', -, hq'⟩ := List.mem_flatMap.mp hq
    have heq := hasc.eq_of_mem (List.mem_filter.mp hrow).1 (List.mem_filter.mp hq').1
    exact mem_map_recordData.mpr ⟨q.2, hq, by rw [heq]⟩

/-- `rewriteSQLiteV4LateRollupBlocksTx` moves late rows, or does nothing. -/
theorem seals_rewriteLate {key : GroupKey} {maxEnd throughNano : ℤ} {rewritten : Bool}
    (hwf : DisjointBlocks g.blocks)
    (h : rewriteSQLiteV4LateRollupBlocksTx codec key maxEnd throughNano g =
      .ok (rewritten, g')) : Seals codec (· ≤ throughNano) g g' := by
  unfold rewriteSQLiteV4LateRollupBlocksTx at h
  simp only [] at h
  generalize hhot : (g.hot.select fun b _ => b ≤ maxEnd && b ≤ throughNano) = hot at h
  split at h
  · rename_i first last hfirst hlast
    generalize hover : (g.blocks.select fun start block =>
      first.1 ≤ block.endNano && start ≤ last.1) = overlapping at h
    obtain ⟨loaded, hload, h⟩ := bind_eq_ok.mp h
    split_ifs at h with hall
    · obtain ⟨blocks, hfold, h⟩ := bind_eq_ok.mp h
      cases h
      have hsel : Ascending hot := hhot ▸ g.hot.ascending_select _
      have hstored : ∀ t ∈ loaded, ∃ block, g.blocks.find? t.1 = some block ∧
          Holds codec t.1 block t.2 := by
        intro t ht
        obtain ⟨⟨start, block⟩, hrow, hdec⟩ := (mem_of_mapM_eq_ok hload t).mp ht
        obtain ⟨records, hrecords, heq⟩ := bind_eq_ok.mp hdec
        cases heq
        rw [← hover] at hrow
        exact ⟨block, (Table.mem_select.mp hrow).1, decodeBlock_eq_ok.mp hrecords⟩
      have hstarts : loaded.map Prod.fst = overlapping.map Prod.fst := by
        refine map_of_mapM_eq_ok (fun r t hdec => ?_) hload
        obtain ⟨records, -, heq⟩ := bind_eq_ok.mp hdec
        cases heq
        rfl
      have hnd : (loaded.map Prod.fst).Nodup := by
        rw [hstarts, ← hover]
        exact (g.blocks.ascending_select _).nodup_keys
      have habs := absorbs_rewriteBlocks hsel hwf (hnd.sublist (List.filter_sublist.map _))
        (fun t ht => hstored t (List.mem_filter.mp ht).1) hfold
      -- every late row is in one of the rewritten blocks
      have hmem : ∀ r, r ∈ (loaded.filter fun block =>
          hot.any fun r => holdsBucket block.2 r.1).flatMap
            (fun t => hot.filter fun r => holdsBucket t.2 r.1) ↔ r ∈ hot := by
        intro r
        constructor
        · intro hr
          obtain ⟨t, -, hr⟩ := List.mem_flatMap.mp hr
          exact (List.mem_filter.mp hr).1
        · intro hr
          obtain ⟨t, ht, hb⟩ := List.any_eq_true.mp (List.all_eq_true.mp hall r hr)
          refine List.mem_flatMap.mpr ⟨t, List.mem_filter.mpr ⟨ht, ?_⟩, ?_⟩
          · exact List.any_eq_true.mpr ⟨r, hr, hb⟩
          · exact List.mem_filter.mpr ⟨hr, hb⟩
      refine Seals.of_absorbs (p := fun b _ => b ≤ maxEnd && b ≤ throughNano) hwf rfl
        (habs.congr hmem) ?_ ?_
      · intro b row
        rw [← hhot, Table.mem_select]
      · intro b row hb
        simp only [Bool.and_eq_true, decide_eq_true_eq] at hb
        exact hb.2
    · cases h
      exact Seals.refl hwf _
  · cases h
    exact Seals.refl hwf _

/-- `rewriteSQLiteV4RollupGroupTx` moves late rows. -/
theorem seals_rewriteGroup {key : GroupKey} {throughNano : ℤ} (hwf : DisjointBlocks g.blocks)
    (h : rewriteSQLiteV4RollupGroupTx codec key throughNano g = .ok g') :
    Seals codec (· ≤ throughNano) g g' := by
  unfold rewriteSQLiteV4RollupGroupTx at h
  obtain ⟨records, hload, h⟩ := bind_eq_ok.mp h
  dsimp only at h
  generalize hhot : (g.hot.select fun b _ => decide (b ≤ throughNano)) = hot at h
  obtain ⟨blocks, hwrite, h⟩ := bind_eq_ok.mp h
  cases h
  have hasc : Ascending hot := hhot ▸ g.hot.ascending_select _
  have hnone : ∀ start, (g.blocks.deleteWhere fun _ _ => true).find? start = none := by
    intro start
    rw [Table.find?_deleteWhere]
    cases g.blocks.find? start <;> rfl
  have hfree : ∀ start block, (g.blocks.deleteWhere fun _ _ => true).find? start ≠ some block := by
    intro start block h
    cases (hnone start).symm.trans h
  have hempty : DisjointBlocks (g.blocks.deleteWhere fun _ _ => true) :=
    fun _ _ _ _ h => absurd h (hfree _ _)
  have hmerged := ascending_sortByKey
    ((Table.upsertAll ∅ records).upsertAll hot).nodup_map_fst_rows
  obtain ⟨lo, hi, hIcc⟩ := hmerged.exists_Icc
  have hwritten := absorbs_write hempty (fun _ _ h => absurd h (hfree _ _)) hmerged hIcc hwrite
  have habs : Absorbs codec g.blocks blocks hot := by
    refine ⟨hwritten.disjoint, fun _ => hwritten.small ?_, fun _ => hwritten.sound ?_,
      fun b d => ?_⟩
    · exact fun _ _ _ h => absurd h (hfree _ _)
    · exact fun _ _ h => absurd h (hfree _ _)
    · have hunique : ∀ b d d', (b, d) ∈ records.map recordData →
          (b, d') ∈ records.map recordData → d = d' := by
        intro b d d' h h'
        exact hwf.contains_unique ((mem_loadAll hload b d).mp h) ((mem_loadAll hload b d').mp h')
      rw [hwritten.contains, ← mem_loadAll hload, ← mem_overridden hasc hunique, or_iff_left]
      rintro ⟨-, _, _, _, hfind, -⟩
      exact hfree _ _ hfind
  refine Seals.of_absorbs (p := fun b _ => decide (b ≤ throughNano)) hwf rfl habs ?_ ?_
  · intro b row
    rw [← hhot, Table.mem_select]
  · intro b row hb
    exact of_decide_eq_true hb

end Late

/-! ### Sealing a group -/

/-- Some cutoff seals the bucket. -/
def Sealable (beforeNano frontierNano resolution b : ℤ) : Prop :=
  ∃ cutoff, rollupSealCutoff beforeNano frontierNano resolution = some cutoff ∧
    (b < cutoff ∨ b ≤ lateBeforeNano cutoff resolution)

variable [DecidableEq δ]

theorem seals_sealLate {sealBefore : ℤ} (hwf : DisjointBlocks g.blocks)
    (h : sealLate codec key sealBefore g = .ok g') :
    Seals codec (· ≤ lateBeforeNano sealBefore key.resolution) g g' := by
  unfold sealLate at h
  split at h
  · cases h
    exact Seals.refl hwf _
  · rename_i maxEnd hmax
    dsimp only at h
    split_ifs at h
    · obtain ⟨⟨rewritten, mid⟩, hlate, h⟩ := bind_eq_ok.mp h
      have hfirst := seals_rewriteLate hwf hlate
      cases rewritten with
      | true =>
        cases h
        exact hfirst
      | false => exact hfirst.trans (seals_rewriteGroup hfirst.disjoint h)
    · cases h
      exact Seals.refl hwf _

theorem seals_sealGroup {beforeNano frontierNano : ℤ} (hwf : DisjointBlocks g.blocks)
    (h : sealGroup codec key beforeNano frontierNano g = .ok g') :
    Seals codec (Sealable beforeNano frontierNano key.resolution) g g' := by
  unfold sealGroup at h
  split at h
  · cases h
    exact Seals.refl hwf _
  · rename_i sealBefore hcutoff
    obtain ⟨mid, hlate, h⟩ := bind_eq_ok.mp h
    have hfirst : Seals codec (Sealable beforeNano frontierNano key.resolution) g mid :=
      (seals_sealLate hwf hlate).mono fun b hb => ⟨sealBefore, hcutoff, Or.inr hb⟩
    dsimp only at h
    split_ifs at h
    · cases h
      exact hfirst
    · obtain ⟨⟨total, last⟩, htail, h⟩ := bind_eq_ok.mp h
      cases h
      exact hfirst.trans ((seals_appendTailLoop hfirst.disjoint htail).mono
        fun b hb => ⟨sealBefore, hcutoff, Or.inl hb⟩)

end Seal

end Komari
