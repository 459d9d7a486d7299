import Komari.Metric.Store

/-!
# What compaction moves

A measure of buckets that is additive in the samples says where samples go.  Each operation of the
store has one lemma that says what it does to the rows and one that says what it does to the measure.
-/

namespace Komari

namespace Metric

variable {B M : Type} [AddCommMonoid M]

/-! ### Summaries -/

section FoldBuckets

variable {ι : Type} {fresh : B} {keyOf : ι → RollupKey} {fold : B → ι → B}

theorem isSome_foldBuckets (items : List ι) (key : RollupKey) :
    ((foldBuckets fresh keyOf fold items).find? key).isSome = true ↔ ∃ i ∈ items, keyOf i = key := by
  have hfold : ∀ out : Table RollupKey B,
      ((items.foldl (fun out i => out.upsert (keyOf i)
        (fold ((out.find? (keyOf i)).getD fresh) i)) out).find? key).isSome = true ↔
      (out.find? key).isSome = true ∨ ∃ i ∈ items, keyOf i = key := by
    induction items with
    | nil => simp
    | cons i items ih =>
      intro out
      rw [List.foldl_cons, ih, Table.find?_upsert, List.exists_mem_cons_iff, ← or_assoc]
      split_ifs with hkey
      · simp [hkey]
      · simp [Ne.symm hkey]
  rw [foldBuckets, hfold]
  simp

/-- The bucket of a key holds the items of the key. -/
theorem weightAt_foldBuckets {w : B → M} {x : ι → M} (hfresh : w fresh = 0)
    (hfold : ∀ b i, w (fold b i) = w b + x i) (items : List ι) (key : RollupKey) :
    (foldBuckets fresh keyOf fold items).weightAt w key =
      ((items.filter fun i => decide (keyOf i = key)).map x).sum := by
  have hrun : ∀ out : Table RollupKey B,
      (items.foldl (fun out i => out.upsert (keyOf i)
        (fold ((out.find? (keyOf i)).getD fresh) i)) out).weightAt w key =
      out.weightAt w key + ((items.filter fun i => decide (keyOf i = key)).map x).sum := by
    induction items with
    | nil => simp
    | cons i items ih =>
      intro out
      have hget : w ((out.find? (keyOf i)).getD fresh) = out.weightAt w (keyOf i) := by
        rw [Table.weightAt]
        cases out.find? (keyOf i) with
        | none => exact hfresh
        | some b => rfl
      rw [List.foldl_cons, ih]
      by_cases hkey : keyOf i = key
      · rw [List.filter_cons_of_pos (by simpa using hkey), List.map_cons, List.sum_cons, ← add_assoc,
          ← hkey, ← hget, ← hfold]
        congr 1
        exact Table.weightAt_of_some (Table.find?_upsert_self _ _ _)
      · rw [List.filter_cons_of_neg (by simpa using hkey)]
        congr 1
        exact Table.weightAt_congr (Table.find?_upsert_ne (Ne.symm hkey))
  rw [foldBuckets, hrun, Table.weightAt_of_none (Table.find?_empty key), zero_add]

theorem total_foldBuckets {w : Series → B → M} {x : Series → ι → M} (hfresh : ∀ σ, w σ fresh = 0)
    (hfold : ∀ σ b i, w σ (fold b i) = w σ b + x σ i) (items : List ι) :
    Table.total (fun key b => w key.series b) (foldBuckets fresh keyOf fold items) =
      (items.map fun i => x (keyOf i).series i).sum := by
  have hrun : ∀ out : Table RollupKey B,
      Table.total (fun key b => w key.series b) (items.foldl (fun out i => out.upsert (keyOf i)
        (fold ((out.find? (keyOf i)).getD fresh) i)) out) =
      Table.total (fun key b => w key.series b) out +
        (items.map fun i => x (keyOf i).series i).sum := by
    induction items with
    | nil => simp
    | cons i items ih =>
      intro out
      rw [List.foldl_cons, ih, List.map_cons, List.sum_cons, ← add_assoc]
      congr 1
      refine Table.total_upsert_add ?_
      rw [hfold]
      congr 1
      cases out.find? (keyOf i) with
      | none => exact hfresh _
      | some b => rfl
  rw [foldBuckets, hrun, Table.total_empty, zero_add]

end FoldBuckets

section Additive

variable {o : BucketOps B}

variable {unit : ℚ → ℤ → M}

/-- A bucket of points holds the points of its series and interval. -/
theorem weightAt_groupPoints {w : B → M} (h : o.Additive w unit) (interval : ℤ)
    (points : List (PointKey × ℚ)) (key : RollupKey) :
    (groupPoints o interval points).weightAt w key =
      ((points.filter fun p => decide (p.1.rollupKey interval = key)).map fun p =>
        unit p.2 p.1.tsNano).sum :=
  weightAt_foldBuckets (h.new true) (fun b p => h.addMetricPoint b p.2 p.1.tsNano) points key

theorem total_groupPoints {w : Series → B → M} {unit : Series → ℚ → ℤ → M}
    (h : ∀ σ, o.Additive (w σ) (unit σ)) (interval : ℤ) (points : List (PointKey × ℚ)) :
    Table.total (fun key b => w key.series b) (groupPoints o interval points) =
      (points.map fun p => unit p.1.series p.2 p.1.tsNano).sum := by
  rw [groupPoints, total_foldBuckets (x := fun σ (p : PointKey × ℚ) => unit σ p.2 p.1.tsNano)
    (fun σ => (h σ).new true) fun σ b p => (h σ).addMetricPoint b p.2 p.1.tsNano]
  rfl

theorem weightAt_coarsenRows {w : B → M} (h : o.Additive w unit)
    (includeDigest : Bool) (interval : ℤ) (rows : List (RollupKey × B)) (key : RollupKey) :
    (coarsenRows o includeDigest interval rows).weightAt w key =
      ((rows.filter fun r => decide (r.1.coarsen interval = key)).map fun r => w r.2).sum :=
  weightAt_foldBuckets (h.new includeDigest) (fun b r => h.mergeStored b r.2) rows key

theorem total_coarsenRows {w : Series → B → M} {unit : Series → ℚ → ℤ → M}
    (h : ∀ σ, o.Additive (w σ) (unit σ)) (includeDigest : Bool) (interval : ℤ)
    (rows : List (RollupKey × B)) :
    Table.total (fun key b => w key.series b) (coarsenRows o includeDigest interval rows) =
      (rows.map fun r => w r.1.series r.2).sum := by
  rw [coarsenRows, total_foldBuckets (x := fun σ (r : RollupKey × B) => w σ r.2)
    (fun σ => (h σ).new includeDigest) fun σ b r => (h σ).mergeStored b r.2]
  rfl

theorem find?_coarsenStoredRollups (o : BucketOps B) (interval : ℤ) (rows : List (RollupKey × B))
    (key : RollupKey) :
    (coarsenStoredRollups o interval rows).find? key =
      ((coarsenRows o false interval rows).find? key).map fun b =>
        if o.digestOptional b then o.dropDigest b else b :=
  Table.find?_mapRows _ key

theorem weight_dropOptional {w : B → M} (h : o.Additive w unit) (b : B) :
    w (if o.digestOptional b then o.dropDigest b else b) = w b := by
  split_ifs
  · exact h.dropDigest b
  · rfl

/-- An expired bucket is handed to the coarser bucket that contains it. -/
theorem weightAt_coarsenStoredRollups {w : B → M} (h : o.Additive w unit)
    (interval : ℤ) (rows : List (RollupKey × B)) (key : RollupKey) :
    (coarsenStoredRollups o interval rows).weightAt w key =
      ((rows.filter fun r => decide (r.1.coarsen interval = key)).map fun r => w r.2).sum := by
  rw [← weightAt_coarsenRows h false, Table.weightAt, Table.weightAt, find?_coarsenStoredRollups,
    Option.map_map]
  congr 2
  funext b
  exact weight_dropOptional h b

theorem total_coarsenStoredRollups {w : Series → B → M} {unit : Series → ℚ → ℤ → M}
    (h : ∀ σ, o.Additive (w σ) (unit σ)) (interval : ℤ) (rows : List (RollupKey × B)) :
    Table.total (fun key b => w key.series b) (coarsenStoredRollups o interval rows) =
      (rows.map fun r => w r.1.series r.2).sum := by
  rw [← total_coarsenRows h false interval, Table.total, Table.total, coarsenStoredRollups,
    Table.rows_mapRows, List.map_map]
  congr 2
  funext r
  exact weight_dropOptional (h r.1.series) r.2

end Additive

namespace Store

variable {o : BucketOps B}

/-! ### Storing buckets -/

/-- What storing buckets in a resolution does to the rows. -/
structure StoresRows (o : BucketOps B) (combine : Option B → B → B) (interval : ℤ)
    (buckets : Table RollupKey B) (s s' : Store B) : Prop where
  points : s'.points = s.points
  watermark : s'.watermark = s.watermark
  other : ∀ key, (key.1 = interval → (buckets.find? key.2).isSome = false) →
    s'.rollups.find? key = s.rollups.find? key
  stored : ∀ key b, buckets.find? key = some b → ∃ row,
    o.storedRow (combine (s.rollups.find? (interval, key)) b) = .ok row ∧
      s'.rollups.find? (interval, key) = some row

variable {interval : ℤ}

theorem storeRow_eq_ok {combine : Option B → B → B} {s s' : Store B}
    {r : RollupKey × B} (h : s.storeRow o combine interval r = .ok s') :
    ∃ row, o.storedRow (combine (s.rollups.find? (interval, r.1)) r.2) = .ok row ∧
      s' = { s with rollups := s.rollups.upsert (interval, r.1) row } := by
  obtain ⟨row, hrow, h⟩ := bind_eq_ok.mp h
  cases h
  exact ⟨row, hrow, rfl⟩

variable {buckets : Table RollupKey B}

theorem storeRows_eq_ok {combine : Option B → B → B}
    {s s' : Store B} (h : s.storeRows o combine interval buckets = .ok s') :
    StoresRows o combine interval buckets s s' := by
  have hlist : ∀ (l : List (RollupKey × B)) (s : Store B), (l.map Prod.fst).Nodup →
      l.foldlM (storeRow o combine interval) s = .ok s' →
      s'.points = s.points ∧ s'.watermark = s.watermark ∧
        (∀ key, (key.1 = interval → key.2 ∉ l.map Prod.fst) →
          s'.rollups.find? key = s.rollups.find? key) ∧
        ∀ r ∈ l, ∃ row, o.storedRow (combine (s.rollups.find? (interval, r.1)) r.2) = .ok row ∧
          s'.rollups.find? (interval, r.1) = some row := by
    intro l
    induction l with
    | nil =>
      intro s _ h
      cases h
      exact ⟨rfl, rfl, fun _ _ => rfl, fun r hr => absurd hr List.not_mem_nil⟩
    | cons r l ih =>
      intro s hnd h
      rw [List.map_cons, List.nodup_cons] at hnd
      rw [List.foldlM_cons] at h
      obtain ⟨s₁, hs₁, h⟩ := bind_eq_ok.mp h
      obtain ⟨row, hrow, rfl⟩ := storeRow_eq_ok hs₁
      obtain ⟨hpoints, hwatermark, hother, hstored⟩ := ih _ hnd.2 h
      -- the key of the first row is not stored again
      have hfirst : s'.rollups.find? (interval, r.1) = some row := by
        rw [hother (interval, r.1) fun _ => hnd.1]
        exact Table.find?_upsert_self _ _ _
      refine ⟨hpoints, hwatermark, fun key hkey => ?_, fun q hq => ?_⟩
      · have hne : key ≠ (interval, r.1) := by
          rintro rfl
          exact hkey rfl List.mem_cons_self
        rw [hother key fun hi hmem => hkey hi (List.mem_cons_of_mem _ hmem)]
        exact Table.find?_upsert_ne hne
      · rcases List.mem_cons.mp hq with rfl | hq
        · exact ⟨row, hrow, hfirst⟩
        · obtain ⟨row', hrow', hfind⟩ := hstored q hq
          have hne : q.1 ≠ r.1 := fun heq => hnd.1 (heq ▸ List.mem_map_of_mem hq)
          have hsame : (s.rollups.upsert (interval, r.1) row).find? (interval, q.1) =
              s.rollups.find? (interval, q.1) :=
            Table.find?_upsert_ne fun heq => hne (Prod.mk.inj heq).2
          rw [hsame] at hrow'
          exact ⟨row', hrow', hfind⟩
  obtain ⟨hpoints, hwatermark, hother, hstored⟩ := hlist buckets.rows s buckets.nodup_map_fst_rows h
  refine ⟨hpoints, hwatermark, fun key hkey => hother key fun hi hmem => ?_, fun key b hb => ?_⟩
  · obtain ⟨r, hr, hkeyr⟩ := List.mem_map.mp hmem
    have hsome := hkey hi
    rw [← hkeyr, Table.mem_rows.mp hr] at hsome
    cases hsome
  · exact hstored (key, b) (Table.mem_rows.mpr hb)

theorem total_mergeRollupBucketsTx {w : Series → B → M} {unit : Series → ℚ → ℤ → M}
    (hw : ∀ σ, o.Additive (w σ) (unit σ))
    {s s' : Store B} (h : s.mergeRollupBucketsTx o interval buckets = .ok s') :
    Table.total (fun key b => w key.2.series b) s'.rollups =
      Table.total (fun key b => w key.2.series b) s.rollups +
        Table.total (fun key b => w key.series b) buckets := by
  have hlist : ∀ (l : List (RollupKey × B)) (s : Store B),
      l.foldlM (storeRow o (mergeExisting o) interval) s = .ok s' →
      Table.total (fun key b => w key.2.series b) s'.rollups =
        Table.total (fun key b => w key.2.series b) s.rollups +
          (l.map fun r => w r.1.series r.2).sum := by
    intro l
    induction l with
    | nil =>
      intro s h
      cases h
      simp
    | cons r l ih =>
      intro s h
      rw [List.foldlM_cons] at h
      obtain ⟨s₁, hs₁, h⟩ := bind_eq_ok.mp h
      obtain ⟨row, hrow, rfl⟩ := storeRow_eq_ok hs₁
      rw [ih _ h, List.map_cons, List.sum_cons, ← add_assoc]
      congr 1
      refine Table.total_upsert_add ?_
      rw [(hw r.1.series).storedRow _ _ hrow]
      cases s.rollups.find? (interval, r.1) with
      | none => exact (zero_add _).symm
      | some e => exact (hw r.1.series).mergeStored e r.2
  exact hlist buckets.rows s h

/-- Merging buckets adds the measure of a key's bucket to that of its row. -/
theorem weightAt_mergeRollupBucketsTx {w : B → M} {unit : ℚ → ℤ → M} (hw : o.Additive w unit)
    {s s' : Store B} (h : s.mergeRollupBucketsTx o interval buckets = .ok s') (key : RollupKey) :
    s'.rollups.weightAt w (interval, key) =
      s.rollups.weightAt w (interval, key) + buckets.weightAt w key := by
  have hspec := storeRows_eq_ok h
  cases hb : buckets.find? key with
  | none =>
    have hsame := hspec.other (interval, key) fun _ => by rw [hb]; rfl
    rw [Table.weightAt_of_none hb, add_zero, Table.weightAt_congr hsame]
  | some b =>
    obtain ⟨row, hrow, hfind⟩ := hspec.stored key b hb
    rw [Table.weightAt_of_some hfind, Table.weightAt_of_some hb, hw.storedRow _ _ hrow]
    cases he : s.rollups.find? (interval, key) with
    | none =>
      rw [Table.weightAt_of_none he, zero_add]
      rfl
    | some e =>
      rw [Table.weightAt_of_some he]
      exact hw.mergeStored e b

/-! ### Handing a tier down -/

theorem mem_scanRollupRows {before : Option ℤ} {s : Store B} {key : RollupKey} {b : B} :
    (key, b) ∈ s.scanRollupRows interval before ↔
      s.rollups.find? (interval, key) = some b ∧ ∀ hi ∈ before, key.bucket < hi := by
  rw [scanRollupRows, mem_sortOn, List.mem_map, ← Table.mem_rows]
  constructor
  · rintro ⟨⟨⟨i, key'⟩, b'⟩, hr, heq⟩
    obtain ⟨rfl, rfl⟩ := Prod.mk.inj heq
    obtain ⟨hmem, hp⟩ := List.mem_filter.mp hr
    obtain ⟨hi, hbefore⟩ := (Bool.and_eq_true _ _).mp hp
    obtain rfl : i = interval := beq_iff_eq.mp hi
    refine ⟨hmem, fun hi hmem => ?_⟩
    rw [Option.mem_def] at hmem
    simpa [hmem] using hbefore
  · rintro ⟨hmem, hbefore⟩
    refine ⟨_, List.mem_filter.mpr ⟨hmem, ?_⟩, rfl⟩
    cases before with
    | none => simp
    | some hi => simpa using hbefore hi rfl

/-- The measure of the rows of a scan is that of the rows that a deletion of them would remove. -/
theorem sum_scanRollupRows {w : Series → B → M} (interval before : ℤ) (s : Store B) :
    ((s.scanRollupRows interval (some before)).map fun r => w r.1.series r.2).sum =
      Table.total (fun key b => w key.2.series b) (s.rollups.deleteWhere fun key _ =>
        !(key.1 == interval && decide (key.2.bucket < before))) := by
  rw [scanRollupRows, ((sortOn_perm _ _).map _).sum_eq, List.map_map, Table.total,
    Table.rows_deleteWhere]
  simp only [Bool.not_not]
  rfl

/-- What handing a tier down does to the rows. -/
structure HandsOff (o : BucketOps B) (fine coarse cutoff : ℤ) (s s' : Store B) : Prop where
  points : s'.points = s.points
  watermark : s'.watermark = s.watermark
  other : ∀ key, key.1 ≠ fine → key.1 ≠ coarse → s'.rollups.find? key = s.rollups.find? key
  expired : ∀ key, s'.rollups.find? (fine, key) =
    (s.rollups.find? (fine, key)).filter fun _ => !decide (key.bucket < cutoff)
  present : ∀ key, (s'.rollups.find? (coarse, key)).isSome = true ↔
    (s.rollups.find? (coarse, key)).isSome = true ∨
      ∃ fineKey, fineKey.coarsen coarse = key ∧ fineKey.bucket < cutoff ∧
        (s.rollups.find? (fine, fineKey)).isSome = true
  received : ∀ {M : Type} [AddCommMonoid M] {w : B → M} {unit : ℚ → ℤ → M}, o.Additive w unit →
    ∀ key, s'.rollups.weightAt w (coarse, key) = s.rollups.weightAt w (coarse, key) +
      (((s.scanRollupRows fine (some cutoff)).filter fun r =>
        decide (r.1.coarsen coarse = key)).map fun r => w r.2).sum
  total : ∀ {M : Type} [AddCommMonoid M] [IsRightCancelAdd M] {w : Series → B → M} {unit : Series → ℚ → ℤ → M},
    (∀ σ, o.Additive (w σ) (unit σ)) →
      Table.total (fun key b => w key.2.series b) s'.rollups =
        Table.total (fun key b => w key.2.series b) s.rollups

@[simp] theorem filter_const_true {α : Type*} (x : Option α) : (x.filter fun _ => true) = x := by
  cases x <;> rfl

theorem find?_deleteRollupsBefore (interval before : ℤ) (s : Store B) (key : ℤ × RollupKey) :
    (s.deleteRollupsBefore interval before).rollups.find? key =
      (s.rollups.find? key).filter fun _ =>
        !(key.1 == interval && decide (key.2.bucket < before)) :=
  Table.find?_deleteWhere _ _ key

/-- Without expired rows a deletion of them changes nothing. -/
theorem find?_filter_of_scan_eq_nil {before : ℤ} {s : Store B}
    (h : s.scanRollupRows interval (some before) = []) (key : RollupKey) :
    s.rollups.find? (interval, key) =
      (s.rollups.find? (interval, key)).filter fun _ => !decide (key.bucket < before) := by
  cases hb : s.rollups.find? (interval, key) with
  | none => rfl
  | some b =>
    by_cases hlt : key.bucket < before
    · have hmem : (key, b) ∈ s.scanRollupRows interval (some before) :=
        mem_scanRollupRows.mpr ⟨hb, fun hi hhi => by cases hhi; exact hlt⟩
      rw [h] at hmem
      cases hmem
    · simp [hlt]

theorem handoffTier_eq_ok {now : ℤ} {fine coarse : RollupTier} {s s' : Store B}
    (hne : fine.interval ≠ coarse.interval) (h : s.handoffTier o now fine coarse = .ok s') :
    HandsOff o fine.interval coarse.interval
      (alignRollupRetentionCutoff (now - fine.retention) coarse.interval) s s' := by
  unfold handoffTier at h
  dsimp only at h
  generalize alignRollupRetentionCutoff (now - fine.retention) coarse.interval = cutoff at h ⊢
  by_cases hrows : s.scanRollupRows fine.interval (some cutoff) = []
  · rw [if_pos hrows] at h
    cases h
    refine ⟨rfl, rfl, fun _ _ _ => rfl, find?_filter_of_scan_eq_nil hrows, fun key => ?_,
      fun hw key => ?_, fun hw => rfl⟩
    · refine ⟨Or.inl, fun hor => hor.resolve_right ?_⟩
      rintro ⟨fineKey, -, hlt, hsome⟩
      obtain ⟨b, hb⟩ := Option.isSome_iff_exists.mp hsome
      have hmem : (fineKey, b) ∈ s.scanRollupRows fine.interval (some cutoff) :=
        mem_scanRollupRows.mpr ⟨hb, fun hi hhi => by cases hhi; exact hlt⟩
      rw [hrows] at hmem
      cases hmem
    · rw [hrows, List.filter_nil, List.map_nil, List.sum_nil, add_zero]
  · rw [if_neg hrows] at h
    split at h
    · cases h
    · obtain ⟨s₁, hmerge, h⟩ := bind_eq_ok.mp h
      cases h
      have hspec := storeRows_eq_ok hmerge
      -- the merge leaves the rows of the fine tier alone
      have hfine : ∀ key : ℤ × RollupKey, key.1 ≠ coarse.interval →
          s₁.rollups.find? key = s.rollups.find? key :=
        fun key hkey => hspec.other key fun heq => absurd heq hkey
      have hcoarse : ∀ key, (s₁.deleteRollupsBefore fine.interval cutoff).rollups.find?
          (coarse.interval, key) = s₁.rollups.find? (coarse.interval, key) := by
        intro key
        rw [find?_deleteRollupsBefore, beq_eq_false_iff_ne.mpr hne.symm]
        simp
      refine ⟨hspec.points, hspec.watermark, fun key h₁ h₂ => ?_, fun key => ?_, fun key => ?_,
        fun hw key => ?_, ?_⟩
      · rw [find?_deleteRollupsBefore, hfine key h₂, beq_eq_false_iff_ne.mpr h₁]
        simp
      · rw [find?_deleteRollupsBefore, hfine _ hne, beq_self_eq_true]
        simp only [Bool.true_and]
      · have hbucket : ((coarsenStoredRollups o coarse.interval
            (s.scanRollupRows fine.interval (some cutoff))).find? key).isSome = true ↔
            ∃ fineKey : RollupKey, fineKey.coarsen coarse.interval = key ∧
              fineKey.bucket < cutoff ∧
              (s.rollups.find? (fine.interval, fineKey)).isSome = true := by
          rw [find?_coarsenStoredRollups, Option.isSome_map, coarsenRows, isSome_foldBuckets]
          constructor
          · rintro ⟨r, hr, hkey⟩
            obtain ⟨hb, hlt⟩ := mem_scanRollupRows.mp hr
            exact ⟨r.1, hkey, hlt cutoff rfl, Option.isSome_iff_exists.mpr ⟨r.2, hb⟩⟩
          · rintro ⟨fineKey, hkey, hlt, hsome⟩
            obtain ⟨b, hb⟩ := Option.isSome_iff_exists.mp hsome
            exact ⟨(fineKey, b),
              mem_scanRollupRows.mpr ⟨hb, fun hi hhi => by cases hhi; exact hlt⟩, hkey⟩
        rw [hcoarse, ← hbucket]
        cases hb : (coarsenStoredRollups o coarse.interval
            (s.scanRollupRows fine.interval (some cutoff))).find? key with
        | none =>
          rw [hspec.other (coarse.interval, key) fun _ => by rw [hb]; rfl]
          simp
        | some b =>
          obtain ⟨row, -, hfind⟩ := hspec.stored key b hb
          rw [hfind]
          simp
      · rw [Table.weightAt_congr (hcoarse key), weightAt_mergeRollupBucketsTx hw hmerge,
          weightAt_coarsenStoredRollups hw]
      · intro M _ _ w unit hw
        have hmoved : ∀ key, (s₁.rollups.deleteWhere fun key _ =>
              !(key.1 == fine.interval && decide (key.2.bucket < cutoff))).find? key =
            (s.rollups.deleteWhere fun key _ =>
              !(key.1 == fine.interval && decide (key.2.bucket < cutoff))).find? key := by
          intro key
          rw [Table.find?_deleteWhere, Table.find?_deleteWhere]
          by_cases hkey : key.1 = fine.interval
          · rw [hfine key (hkey ▸ hne)]
          · simp only [beq_eq_false_iff_ne.mpr hkey, Bool.false_and, Bool.not_false, Bool.not_true]
            cases s₁.rollups.find? key <;> cases s.rollups.find? key <;> rfl
        have hsplit := Table.total_split (w := fun (key : ℤ × RollupKey) b => w key.2.series b)
          (fun key => key.1 == fine.interval && decide (key.2.bucket < cutoff)) s₁.rollups
        rw [total_mergeRollupBucketsTx hw hmerge, total_coarsenStoredRollups hw,
          sum_scanRollupRows, Table.total_congr_find? hmoved] at hsplit
        exact (add_right_cancel hsplit).symm

end Store

end Metric

end Komari
