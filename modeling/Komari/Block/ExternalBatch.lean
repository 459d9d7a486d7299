import Komari.Block.ExternalLaws

/-!
# A batch of cleanup in an external database

A batch works through the items of the metric in their order: the blocks of the first series, the hot
rows of all series, and the blocks of the other series.
-/

namespace Komari

namespace Block

open TrafficReset

section Batch

variable {flate : Flate} {crc32 : List UInt8 → UInt32} {s s' s'' : ExternalStore}
variable {blocks blocks' : Table ℤ EncodedBlock} {metricName : String} {beforeNano limit : ℤ}
variable {budget budget' budget'' : Budget}

/-! ### Blocks that a batch takes from -/

theorem mem_blockRows_timestamp (hwell : WellStored flate crc32 blocks) {start : ℤ} {block : EncodedBlock}
    (hfind : blocks.find? start = some block) {r : ℤ × HotPoint} (hr : r ∈ blockRows flate crc32 block) :
    ∃ ts : Int64, r.1 = ts.toInt := by
  obtain ⟨points, hstored⟩ := hwell.block start block hfind
  rw [hstored.rows] at hr
  obtain ⟨p, -, rfl⟩ := List.mem_map.mp hr
  exact ⟨p.timestamp, rfl⟩

theorem stored_blocks : (PointSeries.mk blocks ∅).stored flate crc32 =
    blocks.rows.flatMap fun r => blockRows flate crc32 r.2 := by
  rw [PointSeries.stored]
  exact List.append_nil _

theorem coe_stored_blocks :
    ((PointSeries.mk blocks ∅).stored flate crc32 : Multiset (ℤ × HotPoint)) =
      blockPoints flate crc32 blocks := by
  rw [stored_blocks, coe_flatMap]
  rfl

/-- Points from the cutoff on stay in the blocks. -/
theorem Removes.blockPoint_eq
    (h : Removes flate crc32 beforeNano (PointSeries.mk blocks ∅) (PointSeries.mk blocks' ∅))
    (hwell : WellStored flate crc32 blocks) {ts : Int64} (hts : beforeNano ≤ ts.toInt) :
    blockPoint flate crc32 blocks' ts = blockPoint flate crc32 blocks ts := by
  obtain ⟨out, hout, heq⟩ := h.removed
  rw [coe_stored_blocks, coe_stored_blocks] at heq
  ext d
  rw [blockPoint_eq_some_iff h.wellStored, blockPoint_eq_some_iff hwell, heq, Multiset.mem_add]
  constructor
  · exact .inr
  · rintro (hd | hd)
    · exact absurd (hout _ hd) (not_lt.mpr hts)
    · exact hd

/-- What a batch takes from the blocks of a series, and at least one point for each item. -/
structure TakesBlocks (flate : Flate) (crc32 : List UInt8 → UInt32) (beforeNano : ℤ)
    (budget budget' : Budget) (blocks blocks' : Table ℤ EncodedBlock) : Prop where
  takes : Takes flate crc32 beforeNano budget budget' ⟨blocks, ∅⟩ ⟨blocks', ∅⟩
  spent : budget.remaining - budget'.remaining ≤ budget'.deleted - budget.deleted
  origin : ∀ start block, blocks'.find? start = some block → blocks.find? start = some block ∨
    block.codec = sqliteV4BlockCodec ∧ block.count ≤ sqliteV4BlockPointLimit

theorem TakesBlocks.trans {blocks'' : Table ℤ EncodedBlock}
    (h : TakesBlocks flate crc32 beforeNano budget budget' blocks blocks')
    (h' : TakesBlocks flate crc32 beforeNano budget' budget'' blocks' blocks'') :
    TakesBlocks flate crc32 beforeNano budget budget'' blocks blocks'' where
  takes := h.takes.trans h'.takes
  spent := by
    have hspent := h.spent
    have hspent' := h'.spent
    omega
  origin start block hfind := (h'.origin start block hfind).elim (h.origin start block) .inr

theorem TakesBlocks.items (h : TakesBlocks flate crc32 beforeNano budget budget' blocks blocks') :
    ∃ n : ℕ, n ≤ (blockItems beforeNano blocks).length ∧ budget.remaining = n + budget'.remaining ∧
      blockItems beforeNano blocks' = (blockItems beforeNano blocks).drop n := h.takes.items

theorem length_le_sum_count {rows : List (ℤ × EncodedBlock)} (h : ∀ r ∈ rows, 1 ≤ r.2.count) :
    (rows.length : ℤ) ≤ (rows.map fun r => r.2.count).sum := by
  induction rows with
  | nil => simp
  | cons r rows ih =>
    obtain ⟨hr, hrows⟩ := List.forall_mem_cons.mp h
    have hle := ih hrows
    rw [List.length_cons, List.map_cons, List.sum_cons]
    push_cast
    omega

theorem takesBlocks_deleteComplete (hlimit : 0 < limit) (hwell : WellStored flate crc32 blocks)
    (hpos : 0 ≤ budget.remaining) :
    TakesBlocks flate crc32 beforeNano budget
        (deleteCompleteExternalBlocks beforeNano limit budget blocks).1 blocks
        (deleteCompleteExternalBlocks beforeNano limit budget blocks).2 ∧
      ((deleteCompleteExternalBlocks beforeNano limit budget blocks).1.remaining = 0 ∨
        completeBlocks beforeNano
          ⟨(deleteCompleteExternalBlocks beforeNano limit budget blocks).2, ∅⟩ = []) := by
  have heq : deleteCompleteExternalBlocks beforeNano limit budget blocks =
      ((deleteCompleteBlocks beforeNano limit budget ⟨blocks, ∅⟩).1,
        (deleteCompleteBlocks beforeNano limit budget ⟨blocks, ∅⟩).2.blocks) := by
    simp only [deleteCompleteExternalBlocks, deleteCompleteBlocks, Budget.spend, if_pos hlimit]
    rfl
  rw [heq]
  obtain ⟨htakes, hdone⟩ := takes_deleteCompleteBlocks hlimit
    (show WellStored flate crc32 (PointSeries.mk blocks ∅).blocks from hwell) hpos
  refine ⟨⟨htakes, ?_, fun start block hfind => .inl ?_⟩, hdone⟩
  · have hcounts := @length_le_sum_count (limited limit budget.remaining
      (completeBlocks beforeNano ⟨blocks, ∅⟩)) fun r hr => by
        have hmem : r ∈ completeBlocks beforeNano ⟨blocks, ∅⟩ := by
          rw [limited, if_pos hlimit] at hr
          exact List.mem_of_mem_take hr
        obtain ⟨points, hstored⟩ := hwell.block r.1 r.2 (mem_completeBlocks.mp hmem).1
        obtain ⟨first, hfirst, -⟩ := hstored.exists_first
        have hlength := hstored.length_rows
        have hlen := List.length_pos_of_mem hfirst
        omega
    simp only [deleteCompleteBlocks]
    omega
  · rw [deleteCompleteBlocks, Table.find?_deleteKeys] at hfind
    split_ifs at hfind
    exact hfind

theorem takesBlocks_rewriteBoundary (hlimit : 0 < limit) (hwell : WellStored flate crc32 blocks)
    (hformat : FirstFormat blocks) (hpos : 0 < budget.remaining)
    (hcomplete : completeBlocks beforeNano ⟨blocks, ∅⟩ = [])
    (h : rewriteExternalBoundary flate crc32 beforeNano limit budget blocks = .ok (budget', blocks')) :
    TakesBlocks flate crc32 beforeNano budget budget' blocks blocks' ∧ blockItems beforeNano blocks' = [] := by
  have hitems : ∀ blocks, completeBlocks beforeNano ⟨blocks, ∅⟩ = [] →
      boundaryBlock beforeNano ⟨blocks, ∅⟩ = none → blockItems beforeNano blocks = [] := by
    intro blocks hcomplete hboundary
    rw [blockItems, workItems, hcomplete, hboundary]
    rfl
  unfold rewriteExternalBoundary at h
  split at h
  · next hnone =>
    cases h
    exact ⟨⟨Takes.refl hwell hpos.le, by simp, fun start block hfind => .inl hfind⟩,
      hitems blocks hcomplete hnone⟩
  · next start block hsome =>
    obtain ⟨points, hdecode, h⟩ := bind_eq_ok.mp h
    obtain ⟨written, hwrite, h⟩ := bind_eq_ok.mp h
    cases h
    have hboundary : boundaryBlock beforeNano ⟨blocks, ∅⟩ = some (start, block) := hsome
    obtain ⟨hfind, hstart, -⟩ := boundaryBlock_eq_some hboundary
    obtain ⟨points', hstored⟩ := hwell.block start block hfind
    rw [decodeExternalBlock_eq (hformat start block hfind)] at hdecode
    obtain rfl : points = points' := Except.ok.inj (hdecode.symm.trans hstored.decode)
    have hformat' : FirstFormat (blocks.erase start) := by
      intro start' block' hfind'
      rw [Table.find?_erase] at hfind'
      split_ifs at hfind'
      exact hformat start' block' hfind'
    set expired := points.filter fun p => decide (p.timestamp.toInt < beforeNano) with hexpired
    obtain ⟨htakes, hcomplete', hnone⟩ := @takes_rewrite flate crc32 beforeNano ⟨blocks, ∅⟩ budget blocks' start
      block points hwell hpos hcomplete hboundary hdecode (fun kept hkept hasc hrange hclear => by
        subst hkept
        exact inserts_writeExternalBlocks hasc hrange (hwell.erase start) hclear hformat' hwrite)
    have hnodup : ((points.filter fun p => !decide (p.timestamp.toInt < beforeNano)).map
        BlockPoint.timestamp).Nodup :=
      nodup_timestamps (hstored.ascending.sublist (List.filter_sublist.map _))
    have hmerges := merges_writeExternalBlocks (hwell.erase start) hformat' hnodup hwrite
    -- the first point of the block lies before the cutoff
    have hone : 1 ≤ expired.length := by
      obtain ⟨r, hr, heq⟩ := hstored.exists_first
      rw [hstored.rows] at hr
      obtain ⟨p, hp, rfl⟩ := List.mem_map.mp hr
      have hlt : p.timestamp.toInt < beforeNano := lt_of_eq_of_lt heq hstart
      exact List.length_pos_of_mem (List.mem_filter.mpr ⟨hp, decide_eq_true hlt⟩)
    have hspend : budget.spend limit expired.length 1 =
        ⟨budget.deleted + expired.length, budget.remaining - 1⟩ := by
      rw [Budget.spend, if_pos hlimit]
    rw [hspend]
    refine ⟨⟨htakes, ?_, fun start' block' hfind' => ?_⟩, hitems blocks' hcomplete' hnone⟩
    · dsimp only
      omega
    · refine (hmerges.origin start' block' hfind').imp_left fun hold => ?_
      rw [Table.find?_erase] at hold
      split_ifs at hold
      exact hold

/-! ### What a part of a batch does -/

/-- The number of points in the blocks of a series. -/
def blockSize (flate : Flate) (crc32 : List UInt8 → UInt32) (blocks : Table ℤ EncodedBlock) : ℤ :=
  (blocks.rows.flatMap fun r => blockRows flate crc32 r.2).length

theorem sum_update {α β : Type} [DecidableEq α] {names : List α} (hnodup : names.Nodup) {name : α}
    (hname : name ∈ names) (f : α → β) (x : β) (g : β → ℤ) :
    (names.map fun n => g (Function.update f name x n)).sum + g (f name) =
      (names.map fun n => g (f n)).sum + g x := by
  induction names with
  | nil => cases hname
  | cons n names ih =>
    obtain ⟨hn, hnodup⟩ := List.nodup_cons.mp hnodup
    rw [List.map_cons, List.map_cons, List.sum_cons, List.sum_cons]
    by_cases heq : n = name
    · subst heq
      have hrest : (names.map fun m => g (Function.update f n x m)) = names.map fun m => g (f m) := by
        refine List.map_congr_left fun m hm => ?_
        have hne : m ≠ n := fun h => hn (h ▸ hm)
        rw [Function.update_of_ne hne]
      rw [hrest, Function.update_self]
      omega
    · rw [Function.update_of_ne heq]
      have hrest := ih hnodup ((List.mem_cons.mp hname).resolve_left fun h => heq h.symm)
      omega

variable {name : SeriesName}

theorem storedCount_setBlocks (hname : name ∈ s.matchingExternalPointSeries metricName) :
    storedCount flate crc32 metricName (s.setBlocks name blocks') + blockSize flate crc32 (s.blocks name) =
      storedCount flate crc32 metricName s + blockSize flate crc32 blocks' := by
  have hsum := sum_update (nodup_matchingExternalPointSeries metricName) hname s.blocks blocks'
    (blockSize flate crc32)
  change _ + _ + _ = _ + _ + _
  have hmatching : (s.setBlocks name blocks').matchingExternalPointSeries metricName =
      s.matchingExternalPointSeries metricName := rfl
  rw [hmatching]
  unfold blockSize ExternalStore.setBlocks at *
  dsimp only at *
  omega

/-- A part of a batch: it keeps the points from the cutoff on and those of other metrics, it counts what it
deletes, and it deletes at least one point for each item. -/
structure Steps (flate : Flate) (crc32 : List UInt8 → UInt32) (metricName : String) (beforeNano : ℤ)
    (budget budget' : Budget) (s s' : ExternalStore) : Prop where
  consistent : s'.Consistent flate crc32
  series : s'.series = s.series
  rows : ∀ key d, s'.points.find? key = some d → s.points.find? key = some d
  keptRows : ∀ key, expiredRow metricName beforeNano key = false →
    s'.points.find? key = s.points.find? key
  kept : ∀ name ts, beforeNano ≤ ts.toInt ∨ name.metricName ≠ metricName →
    blockPoint flate crc32 (s'.blocks name) ts = blockPoint flate crc32 (s.blocks name) ts
  count : budget'.deleted + storedCount flate crc32 metricName s' =
    budget.deleted + storedCount flate crc32 metricName s
  remaining : 0 ≤ budget'.remaining
  spent : budget.remaining - budget'.remaining ≤ budget'.deleted - budget.deleted

theorem Steps.refl (hs : s.Consistent flate crc32) (hpos : 0 ≤ budget.remaining) :
    Steps flate crc32 metricName beforeNano budget budget s s :=
  ⟨hs, rfl, fun _ _ => id, fun _ _ => rfl, fun _ _ _ => rfl, rfl, hpos, by simp⟩

theorem Steps.trans (h : Steps flate crc32 metricName beforeNano budget budget' s s')
    (h' : Steps flate crc32 metricName beforeNano budget' budget'' s' s'') :
    Steps flate crc32 metricName beforeNano budget budget'' s s'' where
  consistent := h'.consistent
  series := h'.series.trans h.series
  rows key d hfind := h.rows key d (h'.rows key d hfind)
  keptRows key hkey := (h'.keptRows key hkey).trans (h.keptRows key hkey)
  kept name ts hkept := (h'.kept name ts hkept).trans (h.kept name ts hkept)
  count := h'.count.trans h.count
  remaining := h'.remaining
  spent := by
    have hspent := h.spent
    have hspent' := h'.spent
    omega

theorem Steps.matching (h : Steps flate crc32 metricName beforeNano budget budget' s s')
    (metricName' : String) :
    s'.matchingExternalPointSeries metricName' = s.matchingExternalPointSeries metricName' := by
  rw [ExternalStore.matchingExternalPointSeries, h.series]
  rfl

theorem steps_setBlocks (hs : s.Consistent flate crc32)
    (hname : name ∈ s.matchingExternalPointSeries metricName) (hmetric : name.metricName = metricName)
    (h : TakesBlocks flate crc32 beforeNano budget budget' (s.blocks name) blocks') :
    Steps flate crc32 metricName beforeNano budget budget' s (s.setBlocks name blocks') where
  consistent := (hs.setBlocks (listed_matchingExternalPointSeries metricName name hname)
    h.takes.wellStored h.origin).1
  series := rfl
  rows _ _ := id
  keptRows _ _ := rfl
  kept name' ts hkept := by
    by_cases hne : name' = name
    · subst hne
      rw [ExternalStore.setBlocks_blocks_self]
      exact h.takes.toRemoves.blockPoint_eq (hs.wellStored name')
        (hkept.resolve_right fun hother => hother hmetric)
    · rw [ExternalStore.setBlocks_blocks_ne hne]
  count := by
    have hsize := @storedCount_setBlocks flate crc32 s blocks' metricName name hname
    have hcount := h.takes.count
    rw [size, size, stored_blocks, stored_blocks, ← blockSize, ← blockSize] at hcount
    omega
  remaining := h.takes.remaining
  spent := h.spent

/-! ### Hot rows -/

theorem mem_expiredExternalRows {r : (SeriesName × Int64) × HotPoint} :
    r ∈ expiredExternalRows metricName beforeNano s ↔
      s.points.find? r.1 = some r.2 ∧ expiredRow metricName beforeNano r.1 = true :=
  ExternalStore.mem_hotRows

theorem nodup_hotRows (p : SeriesName → Int64 → Bool) : ((s.hotRows p).map Prod.fst).Nodup :=
  ((sortOn_perm _ _).map Prod.fst).nodup_iff.mpr
    (s.points.nodup_map_fst_rows.sublist (List.filter_sublist.map _))

/-- The expired rows that are left are those behind the deleted ones. -/
theorem expiredExternalRows_deleteKeys {n : ℕ} {keys : List (SeriesName × Int64)}
    (hkeys : keys = ((expiredExternalRows metricName beforeNano s).take n).map Prod.fst) :
    expiredExternalRows metricName beforeNano { s with points := s.points.deleteKeys keys } =
      (expiredExternalRows metricName beforeNano s).drop n := by
  set rows := expiredExternalRows metricName beforeNano s with hrows
  have hnodup : ((rows.take n ++ rows.drop n).map Prod.fst).Nodup := by
    rw [List.take_append_drop]
    exact nodup_hotRows _
  have hfront := Table.filter_notMem_front hnodup
  rw [List.take_append_drop, ← hkeys] at hfront
  rw [← hfront, hrows, expiredExternalRows, expiredExternalRows, ExternalStore.hotRows,
    ExternalStore.hotRows, filter_sortOn, Table.rows_deleteKeys, List.filter_comm]

theorem filter_deleteKeys {keys : List (SeriesName × Int64)} {rows : List ((SeriesName × Int64) × HotPoint)}
    (hkeys : rows.map Prod.fst = keys) (hnodup : (rows.map Prod.fst).Nodup)
    (hrows : ∀ r ∈ rows, s.points.find? r.1 = some r.2 ∧ r.1.1.metricName = metricName) :
    ((s.points.rows.filter fun r => decide (r.1.1.metricName = metricName)).length : ℤ) =
      rows.length + ((s.points.deleteKeys keys).rows.filter fun r =>
        decide (r.1.1.metricName = metricName)).length := by
  have hcount : ∀ t : Table (SeriesName × Int64) HotPoint,
      ((t.rows.filter fun r => decide (r.1.1.metricName = metricName)).length : ℤ) =
        t.total fun key _ => if key.1.metricName = metricName then 1 else 0 := by
    intro t
    rw [← List.countP_eq_length_filter, Table.total]
    induction t.rows with
    | nil => rfl
    | cons r rows ih =>
      rw [List.countP_cons, List.map_cons, List.sum_cons, ← ih]
      by_cases hr : r.1.1.metricName = metricName <;> simp [hr, add_comm]
  have hones : (rows.map fun r => if r.1.1.metricName = metricName then (1 : ℤ) else 0) =
      rows.map fun _ => 1 := List.map_congr_left fun r hr => if_pos (hrows r hr).2
  subst hkeys
  rw [hcount, hcount, Table.total_deleteKeys hnodup fun r hr => (hrows r hr).1, hones]
  simp

theorem steps_deleteExternalRows (hlimit : 0 < limit) (hs : s.Consistent flate crc32)
    (hpos : 0 < budget.remaining) :
    Steps flate crc32 metricName beforeNano budget
      (deleteExternalRows metricName beforeNano limit budget s).1 s
      (deleteExternalRows metricName beforeNano limit budget s).2 := by
  set rows := (expiredExternalRows metricName beforeNano s).take budget.remaining.toNat with hrows
  have heq : deleteExternalRows metricName beforeNano limit budget s =
      (⟨budget.deleted + rows.length, budget.remaining - rows.length⟩,
        { s with points := s.points.deleteKeys (rows.map Prod.fst) }) := by
    simp only [deleteExternalRows, if_neg (not_le.mpr hpos), Budget.spend, if_pos hlimit]
    rfl
  have hmem : ∀ r ∈ rows, s.points.find? r.1 = some r.2 ∧ expiredRow metricName beforeNano r.1 = true :=
    fun r hr => mem_expiredExternalRows.mp (List.mem_of_mem_take hr)
  have hlen : rows.length ≤ budget.remaining.toNat := List.length_take_le _ _
  rw [heq]
  refine ⟨hs.withPoints _, rfl, fun key d hfind => ?_, fun key hkey => ?_, fun _ _ _ => rfl, ?_, ?_, ?_⟩
  · rw [Table.find?_deleteKeys] at hfind
    split_ifs at hfind
    exact hfind
  · rw [Table.find?_deleteKeys, if_neg]
    intro hin
    obtain ⟨r, hr, rfl⟩ := List.mem_map.mp hin
    rw [(hmem r hr).2] at hkey
    cases hkey
  · have hcount := @filter_deleteKeys s metricName _ rows rfl
      ((nodup_hotRows _).sublist ((List.take_sublist _ _).map _))
      fun r hr => ⟨(hmem r hr).1, (of_decide_eq_true (hmem r hr).2).1⟩
    have hmatching : ({ s with points := s.points.deleteKeys (rows.map Prod.fst) } :
        ExternalStore).matchingExternalPointSeries metricName =
          s.matchingExternalPointSeries metricName := rfl
    rw [storedCount, storedCount, hmatching]
    dsimp only
    omega
  · dsimp only
    omega
  · dsimp only
    omega

/-! ### The loop -/

/-- What the loop over some series does: items are taken from the front, until none is left or the budget is
spent. -/
structure Works (flate : Flate) (crc32 : List UInt8 → UInt32) (metricName : String) (beforeNano : ℤ)
    (budget budget' : Budget) (s s' : ExternalStore) (names : List SeriesName) : Prop extends
    Steps flate crc32 metricName beforeNano budget budget' s s' where
  frame : ∀ name, name ∉ names → s'.blocks name = s.blocks name
  items : ∃ n : ℕ, n ≤ (externalItems metricName beforeNano s names).length ∧
    budget.remaining = n + budget'.remaining ∧
    externalItems metricName beforeNano s' names = (externalItems metricName beforeNano s names).drop n ∧
    (budget'.remaining = 0 ∨ n = (externalItems metricName beforeNano s names).length)

theorem works_of_spent (hs : s.Consistent flate crc32) (names : List SeriesName)
    (hspent : budget.remaining = 0) :
    Works flate crc32 metricName beforeNano budget budget s s names where
  toSteps := Steps.refl hs hspent.ge
  frame _ _ := rfl
  items := ⟨0, by simp, by simp, by simp, .inl hspent⟩

theorem externalItems_of_rows_eq_nil (hrows : expiredExternalRows metricName beforeNano s = [])
    (names : List SeriesName) : externalItems metricName beforeNano s names =
      names.flatMap fun name => blockItems beforeNano (s.blocks name) := by
  cases names with
  | nil => rfl
  | cons name rest =>
    rw [externalItems, hrows, List.map_nil, List.append_nil, List.flatMap_cons]

theorem deleteFromExternalSeries_of_spent (hlimit : 0 < limit) (hspent : budget.remaining ≤ 0)
    (names : List SeriesName) :
    deleteFromExternalSeries flate crc32 metricName beforeNano limit budget s names =
      .ok (budget.deleted, s) := by
  cases names with
  | nil => rfl
  | cons name rest => rw [deleteFromExternalSeries, if_pos ⟨hlimit, hspent⟩]

/-- The blocks of the first series take the whole budget. -/
theorem works_of_blocks {rest : List SeriesName} (hname : name ∉ rest)
    (hsteps : Steps flate crc32 metricName beforeNano budget budget' s (s.setBlocks name blocks'))
    (h : TakesBlocks flate crc32 beforeNano budget budget' (s.blocks name) blocks')
    (hspent : budget'.remaining = 0) :
    Works flate crc32 metricName beforeNano budget budget' s (s.setBlocks name blocks') (name :: rest) where
  toSteps := hsteps
  frame name' hname' := ExternalStore.setBlocks_blocks_ne
    (ne_of_mem_of_not_mem List.mem_cons_self hname').symm _
  items := by
    obtain ⟨n, hn, hrem, hitems⟩ := h.items
    have hrest : (rest.flatMap fun name' => blockItems beforeNano ((s.setBlocks name blocks').blocks name')) =
        rest.flatMap fun name' => blockItems beforeNano (s.blocks name') := by
      refine List.flatMap_congr fun name' hname' => ?_
      rw [ExternalStore.setBlocks_blocks_ne (ne_of_mem_of_not_mem hname' hname)]
    refine ⟨n, ?_, hrem, ?_, .inl hspent⟩
    · rw [externalItems, List.length_append, List.length_append]
      omega
    · rw [externalItems, externalItems, hrest, ExternalStore.setBlocks_blocks_self, List.append_assoc,
        List.append_assoc, List.drop_append_of_le_length hn, hitems]
      rfl

/-- All blocks of the first series are taken, and then rows. -/
theorem works_of_rows {rest : List SeriesName} {s₂ s₃ : ExternalStore}
    (hlimit : 0 < limit) (hname : name ∉ rest)
    (hs₂ : s₂ = s.setBlocks name blocks')
    (hsteps : Steps flate crc32 metricName beforeNano budget budget' s s₂)
    (h : TakesBlocks flate crc32 beforeNano budget budget' (s.blocks name) blocks')
    (hblocks : blockItems beforeNano blocks' = []) (hpos : 0 < budget'.remaining)
    (hrun : deleteExternalRows metricName beforeNano limit budget' s₂ = (budget'', s₃))
    {budget₄ : Budget} {after : ExternalStore}
    (hwork : Works flate crc32 metricName beforeNano budget'' budget₄ s₃ after rest)
    (hlast : budget''.remaining = 0 → after = s₃ ∧ budget₄ = budget'') :
    Works flate crc32 metricName beforeNano budget budget₄ s after (name :: rest) := by
  have hsteps₃ : Steps flate crc32 metricName beforeNano budget' budget'' s₂ s₃ := by
    have hrows := @steps_deleteExternalRows flate crc32 s₂ metricName beforeNano limit budget' hlimit
      hsteps.consistent hpos
    rwa [hrun] at hrows
  obtain ⟨n, hn, hrem, hitems⟩ := h.items
  set rows := expiredExternalRows metricName beforeNano s with hrows
  have hexpired : expiredExternalRows metricName beforeNano s₂ = rows := by
    rw [hs₂]
    rfl
  -- how many rows are taken
  obtain ⟨m, hm, hrem₃, hexpired₃, hdone⟩ : ∃ m : ℕ, m ≤ rows.length ∧ budget'.remaining = m + budget''.remaining ∧
      expiredExternalRows metricName beforeNano s₃ = rows.drop m ∧
        (budget''.remaining = 0 ∨ m = rows.length) := by
    have hbudget := congrArg (fun r => r.1.remaining) hrun
    have hstore := congrArg (fun r => expiredExternalRows metricName beforeNano r.2) hrun
    simp only [deleteExternalRows, if_neg (not_le.mpr hpos), Budget.spend, if_pos hlimit, hexpired] at hbudget
    simp only [deleteExternalRows, if_neg (not_le.mpr hpos)] at hstore
    rw [expiredExternalRows_deleteKeys rfl, hexpired] at hstore
    have hlen : (rows.take budget'.remaining.toNat).length = min budget'.remaining.toNat rows.length :=
      List.length_take
    refine ⟨(rows.take budget'.remaining.toNat).length, by omega, by omega, ?_, by omega⟩
    rw [← hstore, drop_length_take]
  have hframe : ∀ name', name' ∉ name :: rest → after.blocks name' = s.blocks name' := by
    intro name' hname'
    obtain ⟨hne, hrest⟩ := not_or.mp fun hor => hname' (List.mem_cons.mpr hor)
    rw [hwork.frame name' hrest]
    have hs₃ : s₃.blocks = s₂.blocks := by
      have hstore := congrArg (fun r => r.2.blocks) hrun
      exact hstore.symm
    rw [hs₃, hs₂, ExternalStore.setBlocks_blocks_ne hne]
  have hs₃ : s₃.blocks = (s.setBlocks name blocks').blocks := by
    have hstore := congrArg (fun r => r.2.blocks) hrun
    rw [← hs₂]
    exact hstore.symm
  have hrest : (rest.flatMap fun name' => blockItems beforeNano (s₃.blocks name')) =
      rest.flatMap fun name' => blockItems beforeNano (s.blocks name') := by
    refine List.flatMap_congr fun name' hname' => ?_
    rw [hs₃, ExternalStore.setBlocks_blocks_ne (ne_of_mem_of_not_mem hname' hname)]
  have hfirst : blockItems beforeNano (after.blocks name) = [] := by
    rw [hwork.frame name hname, hs₃, ExternalStore.setBlocks_blocks_self, hblocks]
  have hall : n = (blockItems beforeNano (s.blocks name)).length := by
    have hnil := hitems.symm.trans hblocks
    have hle := List.drop_eq_nil_iff.mp hnil
    exact le_antisymm hn hle
  refine ⟨(hsteps.trans hsteps₃).trans hwork.toSteps, hframe, ?_⟩
  rw [externalItems, externalItems, hfirst, ← hrows, List.nil_append, List.append_assoc]
  rcases hdone with hspent | hm_eq
  · -- the budget is spent on the rows
    obtain ⟨hafter, hbudget₄⟩ := hlast hspent
    refine ⟨n + m, ?_, by rw [hbudget₄]; push_cast; omega, ?_, .inl (hbudget₄ ▸ hspent)⟩
    · rw [List.length_append, List.length_append, List.length_map]
      omega
    · rw [hafter, hexpired₃, hrest, hall, List.drop_length_add_append,
        List.drop_append_of_le_length (by rw [List.length_map]; exact hm), List.map_drop]
  · -- no expired row is left, so that the other series have only blocks
    obtain ⟨k, hk, hrem₄, hitems₄, hdone₄⟩ := hwork.items
    have hrows₃ : expiredExternalRows metricName beforeNano s₃ = [] := by
      rw [hexpired₃, hm_eq, List.drop_length]
    have hrows₄ : expiredExternalRows metricName beforeNano after = [] := by
      refine List.eq_nil_iff_forall_not_mem.mpr fun r hr => ?_
      obtain ⟨hfind, hexp⟩ := mem_expiredExternalRows.mp hr
      have hmem := mem_expiredExternalRows.mpr ⟨hwork.rows r.1 r.2 hfind, hexp⟩
      rw [hrows₃] at hmem
      cases hmem
    rw [externalItems_of_rows_eq_nil hrows₃, hrest] at hk hitems₄ hdone₄
    rw [externalItems_of_rows_eq_nil hrows₄] at hitems₄
    have hlen : (rows.map fun _ => WorkItem.row).length = rows.length := List.length_map _
    refine ⟨n + (m + k), ?_, by push_cast; omega, ?_, hdone₄.imp_right fun heq => ?_⟩
    · rw [List.length_append, List.length_append, hlen]
      omega
    · rw [hrows₄, List.map_nil, List.nil_append, hitems₄, hall, List.drop_length_add_append, hm_eq, ← hlen,
        List.drop_length_add_append]
    · rw [List.length_append, List.length_append, hlen]
      omega

theorem works_deleteFromExternalSeries (hlimit : 0 < limit) {names : List SeriesName} {deleted : ℤ}
    (hs : s.Consistent flate crc32) (hnodup : names.Nodup)
    (hnames : ∀ name ∈ names, name ∈ s.matchingExternalPointSeries metricName ∧
      name.metricName = metricName) (hpos : 0 ≤ budget.remaining)
    (h : deleteFromExternalSeries flate crc32 metricName beforeNano limit budget s names =
      .ok (deleted, s')) :
    ∃ budget', budget'.deleted = deleted ∧
      Works flate crc32 metricName beforeNano budget budget' s s' names := by
  induction names generalizing s budget with
  | nil =>
    cases h
    exact ⟨budget, rfl, Steps.refl hs hpos, fun _ _ => rfl, 0, by simp [externalItems]⟩
  | cons name rest ih =>
    obtain ⟨hname, hrest⟩ := List.nodup_cons.mp hnodup
    obtain ⟨⟨hmatching, hmetric⟩, hothers⟩ := List.forall_mem_cons.mp hnames
    by_cases hspent : budget.remaining ≤ 0
    · rw [deleteFromExternalSeries_of_spent hlimit hspent] at h
      cases h
      exact ⟨budget, rfl, works_of_spent hs _ (le_antisymm hspent hpos)⟩
    rw [deleteFromExternalSeries, if_neg fun h => hspent h.2] at h
    obtain ⟨htakes₁, hcomplete⟩ := @takesBlocks_deleteComplete flate crc32 _ beforeNano limit budget hlimit
      (hs.wellStored name) hpos
    generalize deleteCompleteExternalBlocks beforeNano limit budget (s.blocks name) = r at h htakes₁ hcomplete
    obtain ⟨budget₁, blocks₁⟩ := r
    have hsteps₁ := steps_setBlocks hs hmatching hmetric htakes₁
    dsimp only at h htakes₁ hcomplete
    split_ifs at h with hspent₁
    · cases h
      have hzero := le_antisymm hspent₁.2 htakes₁.takes.remaining
      exact ⟨budget₁, rfl, works_of_blocks hname hsteps₁ htakes₁ hzero⟩
    have hpos₁ : 0 < budget₁.remaining := not_le.mp fun hle => hspent₁ ⟨hlimit, hle⟩
    obtain ⟨⟨budget₂, blocks₂⟩, hboundary, h⟩ := bind_eq_ok.mp h
    rw [ExternalStore.setBlocks_blocks_self] at hboundary
    have hformat₁ : FirstFormat blocks₁ := fun start block hfind =>
      (htakes₁.origin start block hfind).elim (hs.codec name start block) And.left
    obtain ⟨htakes₂, hnone⟩ := takesBlocks_rewriteBoundary hlimit htakes₁.takes.wellStored hformat₁ hpos₁
      (hcomplete.resolve_left hpos₁.ne') hboundary
    have htakes := htakes₁.trans htakes₂
    have hsteps := steps_setBlocks hs hmatching hmetric htakes
    have hstore : (s.setBlocks name blocks₁).setBlocks name blocks₂ = s.setBlocks name blocks₂ := by
      simp [ExternalStore.setBlocks]
    dsimp only at h
    rw [hstore] at h
    split_ifs at h with hspent₂
    · cases h
      have hzero := le_antisymm hspent₂.2 htakes₂.takes.remaining
      exact ⟨budget₂, rfl, works_of_blocks hname hsteps htakes hzero⟩
    have hpos₂ : 0 < budget₂.remaining := not_le.mp fun hle => hspent₂ ⟨hlimit, hle⟩
    have hsteps₃ := @steps_deleteExternalRows flate crc32 _ metricName beforeNano limit budget₂ hlimit
      hsteps.consistent hpos₂
    cases hrun : deleteExternalRows metricName beforeNano limit budget₂ (s.setBlocks name blocks₂) with
    | mk budget₃ s₃ =>
    rw [hrun] at h hsteps₃
    dsimp only at h hsteps₃
    have hnames₃ : ∀ name' ∈ rest, name' ∈ s₃.matchingExternalPointSeries metricName ∧
        name'.metricName = metricName := by
      rw [hsteps₃.matching]
      exact hothers
    by_cases hspent₃ : budget₃.remaining ≤ 0
    · rw [deleteFromExternalSeries_of_spent hlimit hspent₃] at h
      cases h
      exact ⟨budget₃, rfl, works_of_rows hlimit hname rfl hsteps htakes hnone hpos₂ hrun
        (works_of_spent hsteps₃.consistent rest (le_antisymm hspent₃ hsteps₃.remaining))
        fun _ => ⟨rfl, rfl⟩⟩
    · obtain ⟨budget₄, hdeleted, hworks⟩ := ih hsteps₃.consistent hrest hnames₃ hsteps₃.remaining h
      exact ⟨budget₄, hdeleted, works_of_rows hlimit hname rfl hsteps htakes hnone hpos₂ hrun hworks
        fun hzero => absurd hzero.le hspent₃⟩

end Batch

end Block
end Komari
