import Komari.Metric.PingMergeLaw
import Komari.Table.Convert

/-!
# The migration of a filled store

A store that the older code filled is migrated exactly when every stored bucket of the latency can be
separated.

* `merges_ping_iff` : pairs of buckets and whole stores are merged exactly under the condition.
-/

namespace Komari

namespace Metric

/-! ### Identities -/

/-- What stands before and after a separator that the second text does not contain. -/
theorem append_cons_inj {α : Type*} {c : α} {x y h h' : List α} (hc : c ∉ h) (hc' : c ∉ h')
    (heq : x ++ c :: h = y ++ c :: h') : x = y ∧ h = h' := by
  rcases List.append_eq_append_iff.mp heq with ⟨a, rfl, ha⟩ | ⟨a, rfl, ha⟩
  · cases a with
    | nil => exact ⟨(List.append_nil x).symm, (List.cons.inj ha).2⟩
    | cons d a =>
      rw [(List.cons.inj ha).2] at hc
      exact absurd (List.mem_append_right a List.mem_cons_self) hc
  · cases a with
    | nil => exact ⟨List.append_nil y, (List.cons.inj ha).2.symm⟩
    | cons d a =>
      rw [(List.cons.inj ha).2] at hc'
      exact absurd (List.mem_append_right a List.mem_cons_self) hc'

/-- Tag hashes are hexadecimal, so the identity of a series can be read back. -/
theorem sqliteV8SeriesIdentity_inj {series series' : Series} (h : '\x00' ∉ series.tagsHash.toList)
    (h' : '\x00' ∉ series'.tagsHash.toList)
    (heq : sqliteV8SeriesIdentity series = sqliteV8SeriesIdentity series') : series = series' := by
  have hlist := congrArg String.toList heq
  unfold sqliteV8SeriesIdentity at hlist
  rw [String.toList_append, String.toList_append, String.toList_append, String.toList_append,
    List.append_assoc, List.append_assoc] at hlist
  obtain ⟨hentity, hhash⟩ := append_cons_inj h h' hlist
  cases series
  cases series'
  rw [Series.mk.injEq]
  exact ⟨String.toList_inj.mp hentity, String.toList_inj.mp hhash⟩

/-! ### Points -/

theorem validateSQLiteV8PingPoints_eq_ok {series : Series} {latency loss : Table ℤ ℚ}
    (h : ∀ ts, loss.find? ts = (latency.find? ts).map lossValue) :
    validateSQLiteV8PingPoints series latency loss = .ok ⟨⟩ := by
  have hlength : latency.rows.length = loss.rows.length :=
    Table.length_rows_congr fun ts => by rw [h ts, Option.isSome_map]
  unfold validateSQLiteV8PingPoints
  rw [if_neg (not_not.mpr hlength)]
  refine forM_eq_ok fun r hr => ?_
  have hfind := h r.1
  rw [Table.mem_rows.mp hr, Option.map_some] at hfind
  dsimp only
  rw [hfind]
  dsimp only
  rw [if_neg (not_not.mpr rfl)]

section Stores

variable [DigestConfig]

/-! ### Filled stores -/

/-- The buckets that the older code stores for the samples. -/
def StoredPair (samples : List PingSample) (b o : RollupBucket Digest) : Prop :=
  ∃ b' o', Folded samples b' o' ∧ b = b'.encoded ∧ o = o'.encoded

/-- A store that the older code wrote: every series of the latency has one of the loss, with the same
points and buckets.  The samples of each bucket are given by its series, resolution and start. -/
structure Filled (s : PingStore) (samples : Series → ℤ → ℤ → List PingSample) : Prop where
  version : s.userVersion < sqliteStorageVersionPingMerge
  nodup_latency : (s.latency.map Prod.fst).Nodup
  nodup_loss : (s.loss.map Prod.fst).Nodup
  same : ∀ series, series ∈ s.loss.map Prod.fst ↔ series ∈ s.latency.map Prod.fst
  hash : ∀ series ∈ s.latency.map Prod.fst, '\x00' ∉ series.tagsHash.toList
  points : ∀ series x y, (series, x) ∈ s.latency → (series, y) ∈ s.loss →
    ∀ ts, y.points.find? ts = (x.points.find? ts).map lossValue
  rollups : ∀ series x y, (series, x) ∈ s.latency → (series, y) ∈ s.loss → ∀ resolution,
    Option.Rel (fun bs os => ∀ k, Option.Rel (StoredPair (samples series resolution k)) (bs.find? k) (os.find? k))
      (x.rollups.find? resolution) (y.rollups.find? resolution)

/-- The migrated series: the points are kept, and every bucket is merged from its samples. -/
def MigratedSeries (samples : Series → ℤ → ℤ → List PingSample) (l l' : Series × PingSeries) : Prop :=
  l'.1 = l.1 ∧ l'.2.points = l.2.points ∧ ∀ resolution,
    Option.Rel (fun bs bs' => ∀ k,
        Option.Rel (fun _ => MergedFrom (samples l.1 resolution k)) (bs.find? k) (bs'.find? k))
      (l.2.rollups.find? resolution) (l'.2.rollups.find? resolution)

/-- The migration succeeds, and the store has the merged series only. -/
def Migrates (s : PingStore) (samples : Series → ℤ → ℤ → List PingSample) : Prop :=
  ∃ s', migrateSQLiteV8PingSeries s = .ok s' ∧ s'.userVersion = sqliteStorageVersionPingMerge ∧
    s'.merged = true ∧ s'.loss = [] ∧ List.Forall₂ (MigratedSeries samples) s.latency s'.latency

/-- Every bucket of the latency can be separated. -/
def SeparableStore (s : PingStore) (samples : Series → ℤ → ℤ → List PingSample) : Prop :=
  ∀ series x, (series, x) ∈ s.latency → ∀ resolution bs, x.rollups.find? resolution = some bs →
    ∀ k b, bs.find? k = some b → Separable (samples series resolution k) b

/-! ### One series -/

theorem StoredPair.pairMerges_iff {samples : List PingSample} {b o : RollupBucket Digest}
    (h : StoredPair samples b o) (k : ℤ) : PairMerges samples (k, b) (k, o) ↔ Separable samples b := by
  obtain ⟨b', o', hfolded, rfl, rfl⟩ := h
  refine hfolded.stored.pairOf.pairMerges_iff (fun d hd => ?_) k
  obtain ⟨e, he, rfl⟩ := Option.map_eq_some_iff.mp hd
  obtain ⟨-, hpos⟩ := Option.filter_eq_some_iff.mp he
  exact ⟨e.process_process, by rw [e.count_process]; exact of_decide_eq_true hpos⟩

variable {series : Series}

theorem mergePingBucket_eq_ok {resolution k : ℤ} {b o : RollupBucket Digest}
    {os : Table ℤ (RollupBucket Digest)} (ho : os.find? k = some o) {record : PingRecord} :
    mergePingBucket series resolution (some os) (k, b) = .ok record ↔
      ∃ n, sqliteV8LossCount (k, b) (k, o) true = .ok n ∧
        convertSQLiteV8LatencyRollup (k, b) n = .ok record := by
  unfold mergePingBucket
  dsimp only
  rw [ho]
  dsimp only
  rw [bind_eq_ok]
  exact exists_congr fun n => by rw [mapError_eq_ok, mapError_eq_ok]

/-- A converted record is that of the same bucket. -/
theorem convertSQLiteV8LatencyRollup_key {record record' : PingRecord} {n : ℕ}
    (h : convertSQLiteV8LatencyRollup record n = .ok record') : record'.1 = record.1 := by
  unfold convertSQLiteV8LatencyRollup at h
  dsimp only at h
  split_ifs at h
  · cases h
    rfl
  · cases h
    rfl
  · cases hd : record.2.digest with
    | none =>
      rw [hd] at h
      cases h
      rfl
    | some d =>
      rw [hd] at h
      obtain ⟨⟨positive, removed⟩, -, h⟩ := bind_eq_ok.mp h
      dsimp only at h
      split_ifs at h
      split at h
      · cases h
        rfl
      · cases h

theorem mergePingBucket_key {resolution : ℤ}
    {pairedBuckets : Option (Table ℤ (RollupBucket Digest))} {record record' : PingRecord}
    (h : mergePingBucket series resolution pairedBuckets record = .ok record') : record'.1 = record.1 := by
  unfold mergePingBucket at h
  dsimp only at h
  split at h
  · obtain ⟨n, -, h⟩ := bind_eq_ok.mp h
    exact convertSQLiteV8LatencyRollup_key (mapError_eq_ok.mp h)
  · split at h
    · cases h
    · obtain ⟨n, -, h⟩ := bind_eq_ok.mp h
      exact convertSQLiteV8LatencyRollup_key (mapError_eq_ok.mp h)

theorem mergePingBuckets_key {lossRollups : Option (Table ℤ (Table ℤ (RollupBucket Digest)))}
    {row row' : ℤ × Table ℤ (RollupBucket Digest)}
    (h : mergePingBuckets series lossRollups row = .ok row') : row'.1 = row.1 := by
  unfold mergePingBuckets at h
  dsimp only at h
  split_ifs at h
  obtain ⟨converted, -, h⟩ := bind_eq_ok.mp h
  cases h
  rfl

section Series

variable {series : Series} {samples : ℤ → List PingSample} {bs os : Table ℤ (RollupBucket Digest)}

/-- **One resolution** of a series. -/
theorem mergePingBuckets_iff {resolution : ℤ} {lossRollups : Table ℤ (Table ℤ (RollupBucket Digest))}
    (hos : lossRollups.find? resolution = some os)
    (hpair : ∀ k, Option.Rel (StoredPair (samples k)) (bs.find? k) (os.find? k)) :
    (∃ out, mergePingBuckets series (some lossRollups) (resolution, bs) = .ok out ∧ out.1 = resolution ∧
      ∀ k, Option.Rel (fun _ => MergedFrom (samples k)) (bs.find? k) (out.2.find? k)) ↔
      ∀ k b, bs.find? k = some b → Separable (samples k) b := by
  have hlength : bs.rows.length = os.rows.length :=
    Table.length_rows_congr fun k => Table.isSome_eq_of_rel (hpair k)
  have hrun : mergePingBuckets series (some lossRollups) (resolution, bs) = (do
      let converted ← bs.rows.mapM (mergePingBucket series resolution (some os))
      return (resolution, Table.upsertAll ∅ (sortByKey converted))) := by
    unfold mergePingBuckets
    dsimp only
    rw [Option.map_some, hos, Option.getD_some, Option.map_some, Option.getD_some,
      if_neg (not_not.mpr hlength.symm)]
  have hout : (∃ out, mergePingBuckets series (some lossRollups) (resolution, bs) = .ok out ∧
      out.1 = resolution ∧ ∀ k, Option.Rel (fun _ => MergedFrom (samples k)) (bs.find? k) (out.2.find? k)) ↔
      ∃ converted, bs.rows.mapM (mergePingBucket series resolution (some os)) = .ok converted ∧
        ∀ k, Option.Rel (fun _ => MergedFrom (samples k)) (bs.find? k)
          ((Table.upsertAll (∅ : Table ℤ (RollupBucket Digest)) (sortByKey converted)).find? k) := by
    rw [hrun]
    constructor
    · rintro ⟨out, h, -, hrel⟩
      obtain ⟨converted, hconverted, h⟩ := bind_eq_ok.mp h
      cases h
      exact ⟨converted, hconverted, hrel⟩
    · rintro ⟨converted, hconverted, hrel⟩
      exact ⟨_, bind_eq_ok.mpr ⟨converted, hconverted, rfl⟩, rfl, hrel⟩
  rw [hout, Table.exists_mapM_rel (R := fun k _ => MergedFrom (samples k))
    (fun _ _ h => mergePingBucket_key h) sortByKey sortByKey_perm]
  refine forall_congr' fun k => forall_congr' fun b => forall_congr' fun hb => ?_
  have hrel := hpair k
  rw [hb] at hrel
  cases ho : os.find? k with
  | none =>
    rw [ho] at hrel
    cases hrel
  | some o =>
    rw [ho] at hrel
    cases hrel with
    | some hstored =>
      rw [← hstored.pairMerges_iff k]
      constructor
      · rintro ⟨record, hrecord, hkey, hmerged⟩
        obtain ⟨n, hn, hconvert⟩ := (mergePingBucket_eq_ok ho).mp hrecord
        exact ⟨n, record, hn, hconvert, hkey, hmerged⟩
      · rintro ⟨n, record, hn, hconvert, hkey, hmerged⟩
        exact ⟨record, (mergePingBucket_eq_ok ho).mpr ⟨n, hn, hconvert⟩, hkey, hmerged⟩

/-- **One series** of the latency, with its loss. -/
theorem mergePingSeries_iff {samples : Series → ℤ → ℤ → List PingSample}
    {lossByIdentity : Table String PingSeries} {x y : PingSeries}
    (hy : lossByIdentity.find? (sqliteV8SeriesIdentity series) = some y)
    (hpoints : ∀ ts, y.points.find? ts = (x.points.find? ts).map lossValue)
    (hrollups : ∀ resolution, Option.Rel
      (fun bs os => ∀ k, Option.Rel (StoredPair (samples series resolution k)) (bs.find? k) (os.find? k))
      (x.rollups.find? resolution) (y.rollups.find? resolution)) :
    (∃ l', mergePingSeries lossByIdentity (series, x) = .ok l' ∧ MigratedSeries samples (series, x) l') ↔
      ∀ resolution bs, x.rollups.find? resolution = some bs →
        ∀ k b, bs.find? k = some b → Separable (samples series resolution k) b := by
  have hlength : y.rollups.rows.length = x.rollups.rows.length :=
    Table.length_rows_congr fun resolution => (Table.isSome_eq_of_rel (hrollups resolution)).symm
  have hrun : mergePingSeries lossByIdentity (series, x) = (do
      let rollups ← x.rollups.rows.mapM (mergePingBuckets series (some y.rollups))
      return (series, { x with rollups := Table.upsertAll ∅ rollups })) := by
    unfold mergePingSeries
    dsimp only
    rw [hy]
    dsimp only
    rw [validateSQLiteV8PingPoints_eq_ok hpoints, Option.map_some, Option.map_some, Option.getD_some,
      if_neg (not_not.mpr hlength)]
    rfl
  have hout : (∃ l', mergePingSeries lossByIdentity (series, x) = .ok l' ∧
      MigratedSeries samples (series, x) l') ↔
      ∃ rollups, x.rollups.rows.mapM (mergePingBuckets series (some y.rollups)) = .ok rollups ∧
        ∀ resolution, Option.Rel (fun bs bs' => ∀ k,
            Option.Rel (fun _ => MergedFrom (samples series resolution k)) (bs.find? k) (bs'.find? k))
          (x.rollups.find? resolution)
          ((Table.upsertAll (∅ : Table ℤ (Table ℤ (RollupBucket Digest))) rollups).find? resolution) := by
    rw [hrun]
    constructor
    · rintro ⟨l', h, -, -, hrel⟩
      obtain ⟨rollups, hmap, h⟩ := bind_eq_ok.mp h
      cases h
      exact ⟨rollups, hmap, hrel⟩
    · rintro ⟨rollups, hmap, hrel⟩
      exact ⟨_, bind_eq_ok.mpr ⟨rollups, hmap, rfl⟩, rfl, rfl, hrel⟩
  have hrows := Table.exists_mapM_rel (t := x.rollups) (f := mergePingBuckets series (some y.rollups))
    (R := fun resolution bs bs' => ∀ k,
      Option.Rel (fun _ => MergedFrom (samples series resolution k)) (bs.find? k) (bs'.find? k))
    (fun _ _ h => mergePingBuckets_key h) id fun l => List.Perm.refl l
  refine (hout.trans hrows).trans ?_
  refine forall_congr' fun resolution => forall_congr' fun bs => forall_congr' fun hbs => ?_
  have hrel := hrollups resolution
  rw [hbs] at hrel
  cases hos : y.rollups.find? resolution with
  | none =>
    rw [hos] at hrel
    cases hrel
  | some os =>
    rw [hos] at hrel
    cases hrel with
    | some hpair => exact mergePingBuckets_iff hos hpair

end Series

/-! ### The whole store -/

theorem lossByIdentity_find? {s : PingStore} {samples : Series → ℤ → ℤ → List PingSample}
    (h : Filled s samples) {y : PingSeries} (hy : (series, y) ∈ s.loss) :
    (Table.upsertAll (∅ : Table String PingSeries)
      (s.loss.map fun l => (sqliteV8SeriesIdentity l.1, l.2))).find? (sqliteV8SeriesIdentity series) = some y := by
  refine Table.find?_upsertAll_of_mem ?_ (List.mem_map_of_mem (f := fun l : Series × PingSeries =>
    (sqliteV8SeriesIdentity l.1, l.2)) hy)
  have hhash : ∀ series ∈ s.loss.map Prod.fst, '\x00' ∉ series.tagsHash.toList :=
    fun series hseries => h.hash series ((h.same series).mp hseries)
  have hmap : (s.loss.map fun l => (sqliteV8SeriesIdentity l.1, l.2)).map Prod.fst =
      (s.loss.map Prod.fst).map sqliteV8SeriesIdentity := by
    rw [List.map_map, List.map_map]
    rfl
  rw [hmap]
  exact List.Nodup.map_on (fun a ha b hb heq => sqliteV8SeriesIdentity_inj (hhash a ha) (hhash b hb) heq)
    h.nodup_loss

/-- **A filled store is migrated** exactly when its buckets can be separated. -/
theorem Filled.migrates_iff {s : PingStore} {samples : Series → ℤ → ℤ → List PingSample}
    (h : Filled s samples) : Migrates s samples ↔ SeparableStore s samples := by
  let lossByIdentity := Table.upsertAll (∅ : Table String PingSeries)
    (s.loss.map fun l => (sqliteV8SeriesIdentity l.1, l.2))
  have hmatched : lossByIdentity.rows.find? (fun l =>
      !(s.latency.map fun l => sqliteV8SeriesIdentity l.1).contains l.1) = none := by
    refine List.find?_eq_none.mpr fun ⟨identity, y⟩ hrow => ?_
    have hidentity : identity ∈ (s.loss.map fun l => (sqliteV8SeriesIdentity l.1, l.2)).map Prod.fst := by
      by_contra hnot
      have hfind := Table.find?_upsertAll_of_notMem (t := ∅) hnot
      rw [Table.mem_rows.mp hrow, Table.find?_empty] at hfind
      cases hfind
    rw [List.map_map] at hidentity
    obtain ⟨⟨series, y'⟩, hl, rfl⟩ := List.mem_map.mp hidentity
    obtain ⟨⟨series', x⟩, hx, rfl⟩ :=
      List.mem_map.mp ((h.same series).mp (List.mem_map_of_mem (f := Prod.fst) hl))
    simpa using ⟨series', ⟨x, hx⟩, rfl⟩
  have hrun : migrateSQLiteV8PingSeries s = (do
      let latency ← s.latency.mapM (mergePingSeries lossByIdentity)
      return {
        userVersion := sqliteStorageVersionPingMerge
        merged := true
        latency := latency
        loss := [] }) := by
    unfold migrateSQLiteV8PingSeries
    rw [if_neg (not_le.mpr h.version)]
    dsimp only
    rw [hmatched]
  have hout : Migrates s samples ↔ ∃ latency, s.latency.mapM (mergePingSeries lossByIdentity) = .ok latency ∧
      List.Forall₂ (MigratedSeries samples) s.latency latency := by
    unfold Migrates
    rw [hrun]
    constructor
    · rintro ⟨s', hs', -, -, -, hall⟩
      obtain ⟨latency, hlatency, hs'⟩ := bind_eq_ok.mp hs'
      cases hs'
      exact ⟨latency, hlatency, hall⟩
    · rintro ⟨latency, hlatency, hall⟩
      exact ⟨_, bind_eq_ok.mpr ⟨latency, hlatency, rfl⟩, rfl, rfl, rfl, hall⟩
  rw [hout, exists_mapM_forall₂]
  unfold SeparableStore
  rw [Prod.forall]
  refine forall_congr' fun series => forall_congr' fun x => forall_congr' fun hx => ?_
  obtain ⟨⟨series', y⟩, hy, rfl⟩ :=
    List.mem_map.mp ((h.same series).mpr (List.mem_map_of_mem (f := Prod.fst) hx))
  exact mergePingSeries_iff (lossByIdentity_find? h hy) (h.points _ x y hx hy) (h.rollups _ x y hx hy)

/-- **The ping merge**: a pair of buckets of the older code is merged into that of its samples, and a
store that it filled is migrated, exactly when the digests still separate the sentinels. -/
theorem merges_ping_iff :
    (∀ samples b o, Folded samples b o → ∀ k,
      PairMerges samples (k, b.encoded) (k, o.encoded) ↔ Separable samples b.encoded) ∧
    ∀ s samples, Filled s samples → (Migrates s samples ↔ SeparableStore s samples) :=
  ⟨fun _ b o h k => StoredPair.pairMerges_iff ⟨b, o, h, rfl, rfl⟩ k, fun _ _ h => h.migrates_iff⟩

/-! ### A store with one bucket -/

/-- The samples, folded into one pair of buckets. -/
def foldPair (samples : List PingSample) : RollupBucket Digest × RollupBucket Digest :=
  samples.foldl (fun p s => (p.1.addPoint s.1.value s.1.ts, p.2.addPoint (lossValue s.1.value) s.1.ts))
    (RollupBucket.new true, RollupBucket.new true)

theorem folded_foldPair (samples : List PingSample) :
    Folded samples (foldPair samples).1 (foldPair samples).2 := by
  induction samples using List.reverseRecOn with
  | nil => exact .new true true
  | append_singleton samples s ih =>
    rw [foldPair, List.foldl_append]
    exact ih.add s

/-- The series of a node with one bucket, whose raw points have expired. -/
def nodeSeries (b : RollupBucket Digest) : List (Series × PingSeries) :=
  [(⟨"node", ""⟩, ⟨∅, Table.upsert ∅ 60 (Table.upsert ∅ 0 b.encoded)⟩)]

/-- The store with one bucket of the samples. -/
def nodeStore (samples : List PingSample) : PingStore where
  userVersion := 7
  merged := false
  latency := nodeSeries (foldPair samples).1
  loss := nodeSeries (foldPair samples).2

theorem filled_nodeStore (samples : List PingSample) : Filled (nodeStore samples) fun _ _ _ => samples where
  version := Nat.lt_succ_self 7
  nodup_latency := List.nodup_singleton _
  nodup_loss := List.nodup_singleton _
  same _ := Iff.rfl
  hash series h := by
    rw [List.mem_singleton.mp h]
    exact List.not_mem_nil
  points series x y hx hy ts := by
    cases List.mem_singleton.mp hx
    cases List.mem_singleton.mp hy
    rfl
  rollups series x y hx hy resolution := by
    cases List.mem_singleton.mp hx
    cases List.mem_singleton.mp hy
    rw [Table.find?_upsert, Table.find?_upsert]
    split_ifs
    · refine .some fun k => ?_
      rw [Table.find?_upsert, Table.find?_upsert]
      split_ifs
      · exact .some ⟨_, _, folded_foldPair samples, rfl, rfl⟩
      · exact .none
    · exact .none

theorem separableStore_nodeStore {samples : List PingSample}
    (h : Separable samples (foldPair samples).1.encoded) :
    SeparableStore (nodeStore samples) fun _ _ _ => samples := by
  intro series x hx resolution bs hbs k b hb
  cases List.mem_singleton.mp hx
  rw [Table.find?_upsert] at hbs
  split_ifs at hbs
  · cases hbs
    rw [Table.find?_upsert] at hb
    split_ifs at hb
    · cases hb
      exact h
    · cases hb
  · cases hbs

end Stores

def fewPings : List PingSample :=
  [⟨⟨100, -1⟩, by decide⟩, ⟨⟨101, 10⟩, by decide⟩, ⟨⟨102, 30⟩, by decide⟩, ⟨⟨103, -1⟩, by decide⟩]

theorem separable_fewPings : Separable fewPings (foldPair fewPings).1.encoded :=
  Or.inr (Or.inr ⟨{
    compression := 100
    centroids := [⟨-1, 1⟩, ⟨-1, 1⟩, ⟨10, 1⟩, ⟨30, 1⟩]
    count := 4
    min := (-1 : ℚ)
    max := (30 : ℚ)
    processed := true }, by decide +kernel, by decide, by decide +kernel, ⟨⟨10, 1⟩, by decide, by decide⟩,
    ⟨⟨30, 1⟩, by decide, by decide⟩⟩)

theorem merges_fewPings :
    PairMerges fewPings (0, (foldPair fewPings).1.encoded) (0, (foldPair fewPings).2.encoded) ∧
      Migrates (nodeStore fewPings) fun _ _ _ => fewPings :=
  ⟨(merges_ping_iff.1 _ _ _ (folded_foldPair fewPings) 0).mpr separable_fewPings,
    (merges_ping_iff.2 _ _ (filled_nodeStore fewPings)).mpr (separableStore_nodeStore separable_fewPings)⟩

/-- As many losses as answers: the middle centroid of the digest is half a loss. -/
def manyPings : List PingSample :=
  (List.range 200).map fun i =>
    if i < 100 then ⟨⟨i, -1⟩, Or.inl rfl⟩ else ⟨⟨i, 20⟩, Or.inr (by norm_num)⟩

theorem migrateSQLiteV8PingSeries_manyPings :
    (migrateSQLiteV8PingSeries (nodeStore manyPings)).toOption.isNone = true := by
  decide +kernel

theorem not_merges_ping : ¬∀ s samples, Filled s samples → Migrates s samples := by
  intro h
  obtain ⟨s', hs', -⟩ := h _ _ (filled_nodeStore manyPings)
  have hnone := migrateSQLiteV8PingSeries_manyPings
  rw [hs'] at hnone
  cases hnone

end Metric

end Komari
