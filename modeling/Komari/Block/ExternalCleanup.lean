import Komari.Block.ExternalBatch
import Mathlib.Algebra.Order.BigOperators.Group.List

/-!
# Cleanup in an external database

A cleanup comes to an end, and leaves nothing behind, if every expired point is an item that the batches see.

* `keepsAndCleans_iff` : the points are kept and can be cleaned, unless the metric was never sealed or only
  such blocks are left.
-/

namespace Komari

namespace Block

open TrafficReset

section Cleanup

variable {flate : Flate} {crc32 : List UInt8 → UInt32} {s s' : ExternalStore}
variable {blocks : Table ℤ EncodedBlock} {metricName : String} {beforeNano limit : ℤ}

/-! ### Expired points and items -/

theorem blockItems_eq_nil_iff (hwell : WellStored flate crc32 blocks) :
    blockItems beforeNano blocks = [] ↔
      ∀ ts : Int64, ts.toInt < beforeNano → blockPoint flate crc32 blocks ts = none := by
  rw [blockItems, @workItems_eq_nil_iff flate crc32 beforeNano ⟨blocks, ∅⟩ hwell, stored_blocks]
  have hmem : ∀ r : ℤ × HotPoint, (r ∈ blocks.rows.flatMap fun r => blockRows flate crc32 r.2) ↔
      r ∈ blockPoints flate crc32 blocks := by
    intro r
    rw [blockPoints, Table.total, ← coe_flatMap, Multiset.mem_coe]
  constructor
  · intro h ts hts
    refine Option.eq_none_iff_forall_ne_some.mpr fun d hd => ?_
    rw [blockPoint_eq_some_iff hwell, ← hmem] at hd
    exact absurd (h _ hd) (not_le.mpr hts)
  · intro h r hr
    obtain ⟨start, block, hfind, hrow⟩ := mem_blockPoints.mp ((hmem r).mp hr)
    obtain ⟨ts, hts⟩ := mem_blockRows_timestamp hwell hfind hrow
    by_contra hlt
    have hnone := h ts (hts ▸ not_le.mp hlt)
    rw [(@blockPoint_eq_some_iff flate crc32 blocks hwell ts r.2).mpr (hts ▸ (hmem r).mp hr)] at hnone
    cases hnone

/-- A series has an expired point when there is an item, unless the metric was never sealed. -/
theorem hasExpired_iff (hmetric : trimSpace metricName ≠ "") (hs : s.Consistent flate crc32) :
    s.HasExpired flate crc32 metricName beforeNano ↔
      externalItems metricName beforeNano s (s.matchingExternalPointSeries metricName) ≠ [] ∨
        NeverSealed metricName beforeNano s := by
  have hrows : expiredExternalRows metricName beforeNano s ≠ [] ↔ ∃ name ts,
      name.metricName = metricName ∧ ts.toInt < beforeNano ∧ (s.points.find? (name, ts)).isSome := by
    constructor
    · intro hne
      obtain ⟨⟨⟨name, ts⟩, d⟩, hr⟩ := List.exists_mem_of_ne_nil _ hne
      obtain ⟨hfind, hexpired⟩ := mem_expiredExternalRows.mp hr
      obtain ⟨hname, hts⟩ := of_decide_eq_true hexpired
      exact ⟨name, ts, hname, hts, Option.isSome_iff_exists.mpr ⟨d, hfind⟩⟩
    · rintro ⟨name, ts, hname, hts, hsome⟩
      obtain ⟨d, hfind⟩ := Option.isSome_iff_exists.mp hsome
      have hr : ((name, ts), d) ∈ expiredExternalRows metricName beforeNano s :=
        mem_expiredExternalRows.mpr ⟨hfind, decide_eq_true ⟨hname, hts⟩⟩
      exact List.ne_nil_of_mem hr
  have hblocks : (∃ name ∈ s.matchingExternalPointSeries metricName,
      blockItems beforeNano (s.blocks name) ≠ []) ↔ ∃ name ts, name.metricName = metricName ∧
        ts.toInt < beforeNano ∧ (blockPoint flate crc32 (s.blocks name) ts).isSome := by
    constructor
    · rintro ⟨name, hname, hitems⟩
      rw [ne_eq, blockItems_eq_nil_iff (hs.wellStored name)] at hitems
      push Not at hitems
      obtain ⟨ts, hts, hne⟩ := hitems
      exact ⟨name, ts, ((mem_matchingExternalPointSeries hmetric).mp hname).2, hts,
        Option.isSome_iff_ne_none.mpr hne⟩
    · rintro ⟨name, ts, hname, hts, hsome⟩
      have hlisted : name ∈ s.series := by
        by_contra hnot
        rw [hs.listed name hnot, blockPoint_empty] at hsome
        cases hsome
      refine ⟨name, (mem_matchingExternalPointSeries hmetric).mpr ⟨hlisted, hname⟩, fun hnil => ?_⟩
      rw [(blockItems_eq_nil_iff (hs.wellStored name)).mp hnil ts hts] at hsome
      cases hsome
  have hlogical : s.HasExpired flate crc32 metricName beforeNano ↔
      expiredExternalRows metricName beforeNano s ≠ [] ∨ ∃ name ∈ s.matchingExternalPointSeries metricName,
        blockItems beforeNano (s.blocks name) ≠ [] := by
    rw [hrows, hblocks, ExternalStore.HasExpired, ← exists_or]
    refine exists_congr fun name => ?_
    rw [← exists_or]
    refine exists_congr fun ts => ?_
    rw [logicalPoint, Option.isSome_or, Bool.or_eq_true, ← and_or_left, ← and_or_left]
  rw [hlogical, NeverSealed]
  cases hnames : s.matchingExternalPointSeries metricName with
  | nil => simp [externalItems]
  | cons name rest =>
    have hrest : (∃ name ∈ rest, blockItems beforeNano (s.blocks name) ≠ []) ↔
        ¬∀ name ∈ rest, blockItems beforeNano (s.blocks name) = [] := by
      push Not
      rfl
    simp only [externalItems, ne_eq, List.append_eq_nil_iff, List.map_eq_nil_iff, List.flatMap_eq_nil_iff,
      List.exists_mem_cons_iff, reduceCtorEq, false_and, or_false, not_and_or]
    rw [hrest, ← or_assoc, or_comm (a := ¬expiredExternalRows metricName beforeNano s = [])]

/-- **The pending check** sees every item but a block that contains the cutoff. -/
theorem complete_iff (hmetric : trimSpace metricName ≠ "") (hnever : ¬NeverSealed metricName beforeNano s) :
    blockPending metricName beforeNano s = false ∧ rowPending metricName beforeNano s = false ↔
      ∀ item ∈ externalItems metricName beforeNano s (s.matchingExternalPointSeries metricName),
        item = .boundary := by
  have hrows : rowPending metricName beforeNano s = false ↔
      expiredExternalRows metricName beforeNano s = [] := by
    rw [rowPending, List.any_eq_false, List.eq_nil_iff_forall_not_mem]
    simp only [mem_expiredExternalRows, Prod.forall, Table.mem_rows, not_and]
  have hcomplete : ∀ name, (((s.blocks name).rows.any fun r =>
      decide (r.2.endNano.toInt < beforeNano)) = false ↔
        ∀ item ∈ blockItems beforeNano (s.blocks name), item = .boundary) := by
    intro name
    have hcheck := @sqliteV4SeriesHasPointsForDelete_eq_false beforeNano ⟨s.blocks name, ∅⟩
    rw [sqliteV4SeriesHasPointsForDelete] at hcheck
    rw [blockItems, ← hcheck]
    exact (iff_of_eq (congrArg (· = false) (Bool.or_false _))).symm
  have hblocks : blockPending metricName beforeNano s = false ↔
      ∀ name ∈ s.matchingExternalPointSeries metricName,
        ∀ item ∈ blockItems beforeNano (s.blocks name), item = .boundary := by
    rw [blockPending, List.any_eq_false]
    simp only [Bool.and_eq_true, decide_eq_true_eq, not_and, Bool.not_eq_true, hcomplete,
      mem_matchingExternalPointSeries hmetric, and_imp]
  rw [hblocks, hrows]
  rw [NeverSealed, not_and_or, not_not] at hnever
  cases hnames : s.matchingExternalPointSeries metricName with
  | nil => simpa [externalItems] using hnever.resolve_left (not_not.mpr hnames)
  | cons name rest =>
    simp only [externalItems, List.forall_mem_append, List.forall_mem_map, List.forall_mem_cons,
      List.mem_flatMap, forall_exists_index, and_imp, reduceCtorEq]
    constructor
    · rintro ⟨⟨hfirst, hrest⟩, hnil⟩
      exact ⟨⟨hfirst, by simp [hnil]⟩, fun item name' hname' hitem => hrest name' hname' item hitem⟩
    · rintro ⟨⟨hfirst, hnone⟩, hrest⟩
      exact ⟨⟨hfirst, fun name' hname' item hitem => hrest item name' hname' hitem⟩,
        List.eq_nil_iff_forall_not_mem.mpr hnone⟩

/-! ### A batch -/

theorem works_batch (hlimit : 0 < limit) (hmetric : trimSpace metricName ≠ "")
    (hs : s.Consistent flate crc32) {deleted : ℤ} {complete : Bool}
    (h : deleteExternalPointsBeforeBatchTx flate crc32 metricName beforeNano limit s =
      .ok (deleted, complete, s')) :
    (∃ budget, budget.deleted = deleted ∧ Works flate crc32 metricName beforeNano ⟨0, limit⟩ budget s s'
        (s.matchingExternalPointSeries metricName)) ∧
      (complete = true ↔ blockPending metricName beforeNano s' = false ∧
        rowPending metricName beforeNano s' = false) := by
  obtain ⟨⟨deleted', after⟩, hloop, h⟩ := bind_eq_ok.mp h
  have hnames : ∀ name ∈ s.matchingExternalPointSeries metricName,
      name ∈ s.matchingExternalPointSeries metricName ∧ name.metricName = metricName := fun name hname =>
    ⟨hname, ((mem_matchingExternalPointSeries hmetric).mp hname).2⟩
  have hworks := works_deleteFromExternalSeries hlimit hs (nodup_matchingExternalPointSeries metricName)
    hnames hlimit.le hloop
  dsimp only at h
  split_ifs at h with hpending
  · cases h
    exact ⟨hworks, by simp [hpending]⟩
  · cases h
    exact ⟨hworks, by simp [hpending]⟩

section Works

variable {budget budget' : Budget} {names : List SeriesName}

/-- The items that are left are those behind the budget. -/
theorem Works.items_eq (h : Works flate crc32 metricName beforeNano budget budget' s s' names) :
    externalItems metricName beforeNano s' names =
      (externalItems metricName beforeNano s names).drop budget.remaining.toNat := by
  obtain ⟨n, hn, hrem, hitems, hdone⟩ := h.items
  have hpos := h.remaining
  rw [hitems]
  rcases hdone with hspent | hall
  · have htoNat : budget.remaining.toNat = n := by omega
    rw [htoNat]
  · rw [hall, List.drop_length, List.drop_eq_nil_of_le (by omega)]

/-- When there is an item, a point is deleted. -/
theorem Works.one_le (h : Works flate crc32 metricName beforeNano budget budget' s s' names)
    (hpos : 0 < budget.remaining) (hne : externalItems metricName beforeNano s names ≠ []) :
    budget.deleted + 1 ≤ budget'.deleted := by
  obtain ⟨n, hn, hrem, -, hdone⟩ := h.items
  have hlen := List.length_pos_iff.mpr hne
  have hspent := h.spent
  omega

theorem Steps.not_neverSealed (h : Steps flate crc32 metricName beforeNano budget budget' s s')
    (hnever : ¬NeverSealed metricName beforeNano s) : ¬NeverSealed metricName beforeNano s' := by
  rintro ⟨hnames, hrows⟩
  rw [h.matching] at hnames
  obtain ⟨r, hr⟩ := List.exists_mem_of_ne_nil _ hrows
  obtain ⟨hfind, hexpired⟩ := mem_expiredExternalRows.mp hr
  have hmem : r ∈ expiredExternalRows metricName beforeNano s :=
    mem_expiredExternalRows.mpr ⟨h.rows r.1 r.2 hfind, hexpired⟩
  exact hnever ⟨hnames, List.ne_nil_of_mem hmem⟩

theorem Steps.logicalPoint_eq (h : Steps flate crc32 metricName beforeNano budget budget' s s')
    {name : SeriesName} {ts : Int64} (hkept : beforeNano ≤ ts.toInt ∨ name.metricName ≠ metricName) :
    logicalPoint flate crc32 s' name ts = logicalPoint flate crc32 s name ts := by
  have hrow : expiredRow metricName beforeNano (name, ts) = false := by
    rw [expiredRow, decide_eq_false_iff_not, not_and, not_lt]
    exact fun heq => hkept.resolve_right (not_not.mpr heq)
  rw [logicalPoint, logicalPoint, h.keptRows _ hrow, h.kept name ts hkept]

end Works

theorem storedCount_nonneg (s : ExternalStore) : 0 ≤ storedCount flate crc32 metricName s := by
  refine add_nonneg (List.sum_nonneg fun x hx => ?_) (Int.natCast_nonneg _)
  obtain ⟨name, -, rfl⟩ := List.mem_map.mp hx
  exact Int.natCast_nonneg _

/-- Every batch that is not complete deletes a point. -/
theorem incomplete_le (hlimit : 0 < limit) (hmetric : trimSpace metricName ≠ "") {k : ℕ}
    (hs : s.Consistent flate crc32) (hnever : ¬NeverSealed metricName beforeNano s)
    (h : Incomplete flate crc32 metricName beforeNano limit k s s') :
    (k : ℤ) ≤ storedCount flate crc32 metricName s := by
  induction k generalizing s with
  | zero => exact storedCount_nonneg s
  | succ k ih =>
    obtain ⟨deleted, mid, hbatch, h⟩ := h
    obtain ⟨⟨budget, rfl, hworks⟩, hcomplete⟩ := works_batch hlimit hmetric hs hbatch
    have hnever' := hworks.not_neverSealed hnever
    have hle := ih hworks.consistent hnever' h
    rw [complete_iff hmetric hnever', hworks.matching] at hcomplete
    have hne : externalItems metricName beforeNano s (s.matchingExternalPointSeries metricName) ≠ [] := by
      intro hnil
      rw [hworks.items_eq, hnil, List.drop_nil] at hcomplete
      simp at hcomplete
    have hone := hworks.one_le hlimit hne
    have hcount := hworks.count
    push_cast
    omega

/-- **Cleanup**: points are kept by sealing and by deletion, a batch is complete only when nothing is left,
and batches come to an end, unless the metric was never sealed or only blocks that contain the cutoff are
left behind the limit. -/
theorem keepsAndCleans_iff (hlimit : 0 < limit) (hmetric : trimSpace metricName ≠ "")
    (hs : s.Consistent flate crc32) {deleted : ℤ} {complete : Bool}
    (h : deleteExternalPointsBeforeBatchTx flate crc32 metricName beforeNano limit s =
      .ok (deleted, complete, s')) :
    KeepsAndCleans flate crc32 metricName beforeNano limit s ↔
      ¬NeverSealed metricName beforeNano s ∧ ¬OnlyExternalBoundaries metricName beforeNano limit s := by
  constructor
  · intro hclean
    refine ⟨fun hnever => ?_, fun honly => ?_⟩
    · -- the loop over the series does nothing
      have hrun := h
      rw [deleteExternalPointsBeforeBatchTx, hnever.1] at hrun
      obtain ⟨⟨deleted', after⟩, hloop, hrun⟩ := bind_eq_ok.mp hrun
      cases hloop
      have hzero : deleted = 0 := by
        dsimp only at hrun
        split_ifs at hrun
        · cases hrun
          rfl
        · cases hrun
          rfl
      have hone := (hclean.progress deleted complete s' h
        ((hasExpired_iff hmetric hs).mpr (.inr hnever))).1
      omega
    · obtain ⟨⟨budget, rfl, hworks⟩, hcomplete⟩ := works_batch hlimit hmetric hs h
      obtain ⟨hne, hall⟩ := honly
      rw [← hworks.items_eq, ← hworks.matching] at hne hall
      have hnever : ¬NeverSealed metricName beforeNano s' := by
        rintro ⟨hnames, -⟩
        rw [hnames] at hne
        exact hne rfl
      rw [complete_iff hmetric hnever] at hcomplete
      obtain rfl := hcomplete.mpr hall
      exact hclean.complete _ _ h ((hasExpired_iff hmetric hworks.consistent).mpr (.inl hne))
  · rintro ⟨hnever, honly⟩
    refine ⟨fun sealBefore count s' hseal => sealed_sealExternalPointBlocks hs hseal,
      fun count s' hdelete => deletedBefore_deleteExternalPointsBeforeTx hmetric hs hdelete,
      fun deleted complete s' hbatch name ts hkept => ?_, fun deleted s' hbatch hexpired => ?_,
      fun deleted complete s' hbatch hexpired => ?_, (storedCount flate crc32 metricName s).toNat,
      fun k s' hruns => ?_⟩
    · obtain ⟨⟨budget, -, hworks⟩, -⟩ := works_batch hlimit hmetric hs hbatch
      exact hworks.logicalPoint_eq hkept
    · obtain ⟨⟨budget, rfl, hworks⟩, hcomplete⟩ := works_batch hlimit hmetric hs hbatch
      have hnever' := hworks.not_neverSealed hnever
      rw [complete_iff hmetric hnever'] at hcomplete
      have hne := ((hasExpired_iff hmetric hworks.consistent).mp hexpired).resolve_right hnever'
      have hall := hcomplete.mp rfl
      rw [hworks.matching, hworks.items_eq] at hne hall
      exact honly ⟨hne, hall⟩
    · obtain ⟨⟨budget, rfl, hworks⟩, -⟩ := works_batch hlimit hmetric hs hbatch
      have hne := ((hasExpired_iff hmetric hs).mp hexpired).resolve_right hnever
      have hone := hworks.one_le hlimit hne
      have hcount := hworks.count
      dsimp only at hone hcount
      omega
    · have hle := incomplete_le hlimit hmetric hs hnever hruns
      omega

end Cleanup

/-! ### Stores that are not cleaned -/

/-- The block of some points in the first format. -/
def sampleExternalBlock (points : List BlockPoint) : EncodedBlock :=
  match encodeSQLiteV4Block storedFlate checksumIEEE points with
  | .ok block => block
  | .error _ => ⟨0, 0, 0, 0, 0, [], 0, 0, []⟩

def sampleName (entityID : String) : SeriesName := ⟨"cpu", entityID, ""⟩

/-- A block, and nothing sealed. -/
def neverSealedStore : ExternalStore where
  series := []
  nodup := .nil
  blocks _ := ∅
  points := (∅ : Table (SeriesName × Int64) HotPoint).upsert (sampleName "a", 5) (samplePoint 5).data

/-- Two series: a point at 1, and points at 5 and 15. -/
def boundaryStore : ExternalStore where
  series := [sampleName "a", sampleName "b"]
  nodup := by decide
  blocks := Function.update (Function.update (fun _ => ∅) (sampleName "a")
      ((∅ : Table ℤ EncodedBlock).upsert 1 (sampleExternalBlock [samplePoint 1])))
    (sampleName "b") ((∅ : Table ℤ EncodedBlock).upsert 5 (sampleExternalBlock [samplePoint 5, samplePoint 15]))
  points := ∅

theorem consistent_neverSealedStore : neverSealedStore.Consistent storedFlate checksumIEEE :=
  ⟨fun _ => ⟨by simp [neverSealedStore], by simp [neverSealedStore]⟩, by simp [neverSealedStore], fun _ _ => rfl⟩

theorem consistent_boundaryStore : boundaryStore.Consistent storedFlate checksumIEEE := by
  have hempty : WellStored storedFlate checksumIEEE ∅ := ⟨by simp, by simp⟩
  have hearly : StoredAs storedFlate checksumIEEE 1 (sampleExternalBlock [samplePoint 1]) [samplePoint 1] :=
    ⟨by decide +kernel, by decide, by decide +kernel, by decide +kernel⟩
  have hlate : StoredAs storedFlate checksumIEEE 5 (sampleExternalBlock [samplePoint 5, samplePoint 15])
      [samplePoint 5, samplePoint 15] :=
    ⟨by decide +kernel, by decide, by decide +kernel, by decide +kernel⟩
  have hblocks : ∀ name, boundaryStore.blocks name = if name = sampleName "b" then
      (∅ : Table ℤ EncodedBlock).upsert 5 (sampleExternalBlock [samplePoint 5, samplePoint 15])
      else if name = sampleName "a" then
        (∅ : Table ℤ EncodedBlock).upsert 1 (sampleExternalBlock [samplePoint 1]) else ∅ := by
    intro name
    simp only [boundaryStore, Function.update_apply]
  have hcodec : ∀ points, points = [samplePoint 1] ∨ points = [samplePoint 5, samplePoint 15] →
      (sampleExternalBlock points).codec = sqliteV4BlockCodec := by
    rintro points (rfl | rfl) <;> decide +kernel
  refine ⟨fun name => ?_, fun name start block hfind => ?_, fun name hname => ?_⟩
  · rw [hblocks]
    split_ifs
    · exact (inserts_upsert hempty hlate (by simp [Clear]) (by simp)).wellStored
    · exact (inserts_upsert hempty hearly (by simp [Clear]) (by simp)).wellStored
    · exact hempty
  · rw [hblocks] at hfind
    split_ifs at hfind
    · rw [Table.find?_upsert] at hfind
      split_ifs at hfind
      · cases hfind
        exact hcodec _ (.inr rfl)
      · cases hfind
    · rw [Table.find?_upsert] at hfind
      split_ifs at hfind
      · cases hfind
        exact hcodec _ (.inl rfl)
      · cases hfind
    · cases hfind
  · rw [hblocks, if_neg, if_neg]
    all_goals
      rintro rfl
      exact hname (by simp [boundaryStore])

/-- A metric that was never sealed is not cleaned, and a block that contains the cutoff is left behind when
the limit is spent on another series. -/
theorem not_keepsAndCleans :
    (neverSealedStore.Consistent storedFlate checksumIEEE ∧
        ¬KeepsAndCleans storedFlate checksumIEEE "cpu" 10 1 neverSealedStore) ∧
      boundaryStore.Consistent storedFlate checksumIEEE ∧
        ¬KeepsAndCleans storedFlate checksumIEEE "cpu" 10 1 boundaryStore := by
  refine ⟨⟨consistent_neverSealedStore, fun hclean => ?_⟩, consistent_boundaryStore, fun hclean => ?_⟩
  · have hrun : deleteExternalPointsBeforeBatchTx storedFlate checksumIEEE "cpu" 10 1 neverSealedStore =
        .ok (0, false, neverSealedStore) := by rfl
    have hone := (hclean.progress 0 false neverSealedStore hrun
      ⟨sampleName "a", 5, rfl, by decide, by decide⟩).1
    omega
  · have hrun : (deleteExternalPointsBeforeBatchTx storedFlate checksumIEEE "cpu" 10 1 boundaryStore).toOption.map
        (fun r => (r.2.1, (logicalPoint storedFlate checksumIEEE r.2.2 (sampleName "b") 5).isSome)) =
          some (true, true) := by decide +kernel
    cases h : deleteExternalPointsBeforeBatchTx storedFlate checksumIEEE "cpu" 10 1 boundaryStore with
    | error e => rw [h] at hrun; cases hrun
    | ok result =>
      obtain ⟨deleted, complete, after⟩ := result
      rw [h] at hrun
      obtain ⟨rfl, hleft⟩ : complete = true ∧
          (logicalPoint storedFlate checksumIEEE after (sampleName "b") 5).isSome = true := by
        simpa [Except.toOption] using hrun
      exact hclean.complete deleted after h ⟨sampleName "b", 5, rfl, by decide, hleft⟩

theorem keepsAndCleans_boundaryStore :
    KeepsAndCleans storedFlate checksumIEEE "cpu" 10 2 boundaryStore := by
  have hrun : (deleteExternalPointsBeforeBatchTx storedFlate checksumIEEE "cpu" 10 2 boundaryStore).toOption.isSome =
      true := by decide +kernel
  cases h : deleteExternalPointsBeforeBatchTx storedFlate checksumIEEE "cpu" 10 2 boundaryStore with
  | error e => rw [h] at hrun; cases hrun
  | ok result =>
    obtain ⟨deleted, complete, after⟩ := result
    have hnames : boundaryStore.matchingExternalPointSeries "cpu" ≠ [] := by decide
    have hnil : (externalItems "cpu" 10 boundaryStore
        (boundaryStore.matchingExternalPointSeries "cpu")).drop (2 : ℤ).toNat = [] := by decide +kernel
    exact (keepsAndCleans_iff (by decide) (by decide) consistent_boundaryStore h).mpr
      ⟨fun hnever => hnames hnever.1, fun honly => honly.1 hnil⟩

end Block
end Komari
