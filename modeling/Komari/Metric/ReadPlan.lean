import Komari.Metric.Policy
import Komari.Word.Int64

/-!
# The tiered read plan

A query that reaches behind the raw boundary reads, tier by tier, the buckets between the tier's own
retention cutoff and that of the next finer tier, and raw points from the raw boundary on.

* `spanCount_eq_one_iff` : the instants that an accepted ladder covers exactly once;
  `spanCount_preserveRaw` : nobody reads the stratum of a tier that the query skips.
-/

namespace Komari

namespace Metric

/-! ### The plan -/

/-- The bucket starts `[lower, upper]` that are read from a tier. -/
structure TierScan where
  interval : ℤ
  lower : ℤ
  upper : ℤ
deriving DecidableEq

/-- A query of `Series`: an inclusive window and the width of the output buckets. -/
structure SeriesWindow where
  start : ℤ
  stop : ℤ
  interval : ℤ
deriving DecidableEq

/-- Output buckets can be put together from the buckets of the tier. -/
def RollupTier.compatible (tier : RollupTier) (interval : ℤ) : Bool :=
  tier.interval ≤ interval && interval.tmod tier.interval == 0

/-- The tier loop of `collectSeriesAcrossHandoffTiers`, with the cutoff of the next finer tier. -/
def handoffScans (now : ℤ) (q : SeriesWindow) : ℤ → List RollupTier → List TierScan
  | _, [] => []
  | youngBoundary, tier :: rest =>
    let lower := tierLower now tier rest
    if tier.compatible q.interval then
      let scanLower := if q.start < lower then lower else q.start
      let last := q.stop - tier.interval + 1
      let scanUpper :=
        if youngBoundary ≠ minInt64 ∧ youngBoundary - 1 < last then youngBoundary - 1 else last
      if scanLower ≤ scanUpper then
        ⟨tier.interval, scanLower, scanUpper⟩ :: handoffScans now q lower rest
      else handoffScans now q lower rest
    else handoffScans now q lower rest

/-- The ages that the plan assigns to a tier: from its retention cutoff on, until that of the next
finer tier. -/
structure Stratum where
  tier : RollupTier
  lower : ℤ
  young : ℤ

/-- The strata of the tiers, whether or not a query can use them. -/
def strata (now : ℤ) : ℤ → List RollupTier → List Stratum
  | _, [] => []
  | young, tier :: rest =>
    ⟨tier, tierLower now tier rest, young⟩ :: strata now (tierLower now tier rest) rest

/-- The instant is of the ages of the stratum. -/
def Stratum.holds (s : Stratum) (t : ℤ) : Bool :=
  s.lower ≤ t && (t < s.young || s.young == minInt64)

/-- The query can use the tier, whose bucket of the instant is not cut off by retention. -/
def Stratum.serves (s : Stratum) (interval t : ℤ) : Bool :=
  s.tier.compatible interval && s.lower ≤ floorDivNano t s.tier.interval

/-- The scan reads the bucket that contains the instant. -/
def TierScan.covers (scan : TierScan) (t : ℤ) : Bool :=
  scan.lower ≤ floorDivNano t scan.interval && floorDivNano t scan.interval ≤ scan.upper

/-- How often an instant is covered by the buckets of the tier scans and by the raw points. -/
def spanCount (rawBoundary : ℤ) (q : SeriesWindow) (scans : List TierScan) (t : ℤ) : ℕ :=
  (scans.countP fun scan => scan.covers t) + if rawBoundary ≤ t ∧ t ≤ q.stop then 1 else 0

/-! ### Ladders -/

/-- The lower edge of the last tier that the query can use, or else the raw boundary. -/
def lastLower (now interval : ℤ) : ℤ → List RollupTier → ℤ
  | edge, [] => edge
  | edge, tier :: rest =>
    if tier.compatible interval then lastLower now interval (tierLower now tier rest) rest
    else lastLower now interval edge rest

/-- The buckets that contain the instant in the tiers that the query can use lie in its window. -/
def Enclosed (q : SeriesWindow) (tiers : List RollupTier) (t : ℤ) : Prop :=
  ∀ tier ∈ tiers, tier.compatible q.interval = true →
    q.start ≤ floorDivNano t tier.interval ∧ floorDivNano t tier.interval + tier.interval - 1 ≤ q.stop

instance (q : SeriesWindow) (tiers : List RollupTier) (t : ℤ) : Decidable (Enclosed q tiers t) :=
  inferInstanceAs (Decidable (∀ tier ∈ tiers, _ → _))

/-- The retention cutoffs are representable times after the earliest one. -/
def CutoffsRepresentable (now : ℤ) : List RollupTier → Prop
  | [] => True
  | tier :: rest => minInt64 < tierLower now tier rest ∧ CutoffsRepresentable now rest

variable {tier : RollupTier}

theorem compatible_iff {interval : ℤ} :
    tier.compatible interval = true ↔ tier.interval ≤ interval ∧ tier.interval ∣ interval := by
  rw [RollupTier.compatible, Bool.and_eq_true, decide_eq_true_eq, beq_iff_eq,
    Int.dvd_iff_tmod_eq_zero]

variable {tiers : List RollupTier}

theorem lastLower_incompatible {now interval edge : ℤ}
    (h : ∀ tier ∈ tiers, tier.compatible interval = false) :
    lastLower now interval edge tiers = edge := by
  induction tiers with
  | nil => rfl
  | cons tier rest ih =>
    have htier := h tier List.mem_cons_self
    rw [lastLower]
    simp only [htier, Bool.false_eq_true, if_false]
    exact ih fun t ht => h t (List.mem_cons_of_mem _ ht)

theorem alignRollupRetentionCutoff_eq {interval : ℤ} (h : 0 < interval) (cutoff : ℤ) :
    alignRollupRetentionCutoff cutoff interval = floorDivNano cutoff interval := by
  rw [alignRollupRetentionCutoff, if_neg (not_le.mpr h)]

variable {rest : List RollupTier}

/-- The cutoff of a tier that divides the next one is a bucket start of the tier. -/
theorem dvd_tierLower (now : ℤ) (hpos : ∀ t ∈ tier :: rest, 0 < t.interval)
    (hdvd : ∀ next ∈ rest.head?, tier.interval ∣ next.interval) :
    tier.interval ∣ tierLower now tier rest := by
  unfold tierLower
  cases rest with
  | nil =>
    have h := hpos tier List.mem_cons_self
    simp only [alignRollupRetentionCutoff_eq h]
    exact dvd_floorDivNano h _
  | cons next rest =>
    have h := hpos next (List.mem_cons_of_mem _ List.mem_cons_self)
    simp only [alignRollupRetentionCutoff_eq h]
    exact (hdvd next rfl).trans (dvd_floorDivNano h _)

theorem tierLower_anti (now : ℤ) {next : RollupTier}
    (hpos : ∀ t ∈ next :: rest, 0 < t.interval) (hret : tier.retention ≤ next.retention)
    (hdvd : ∀ other ∈ rest.head?, next.interval ∣ other.interval) :
    tierLower now next rest ≤ tierLower now tier (next :: rest) := by
  have h := hpos next List.mem_cons_self
  have hown : floorDivNano (now - next.retention) next.interval ≤
      floorDivNano (now - tier.retention) next.interval := floorDivNano_mono h (by omega)
  unfold tierLower
  cases rest with
  | nil => simpa only [alignRollupRetentionCutoff_eq h] using hown
  | cons other rest =>
    have hother := hpos other (List.mem_cons_of_mem _ List.mem_cons_self)
    simp only [alignRollupRetentionCutoff_eq h, alignRollupRetentionCutoff_eq hother]
    exact (floorDivNano_le_of_dvd h hother (hdvd other rfl) _).trans hown

theorem handoffScans_compatible (now : ℤ) {q : SeriesWindow} (young : ℤ)
    (rest : List RollupTier) (h : tier.compatible q.interval = true) :
    ∃ upper, upper ≤ q.stop - tier.interval + 1 ∧ (young ≠ minInt64 → upper ≤ young - 1) ∧
      (∀ b, b ≤ q.stop - tier.interval + 1 → b < young ∨ young = minInt64 → b ≤ upper) ∧
      ∀ t, (handoffScans now q young (tier :: rest)).countP (fun scan => scan.covers t) =
        (if max q.start (tierLower now tier rest) ≤ floorDivNano t tier.interval ∧
            floorDivNano t tier.interval ≤ upper then 1 else 0) +
          (handoffScans now q (tierLower now tier rest) rest).countP fun scan => scan.covers t := by
  refine ⟨if young ≠ minInt64 ∧ young - 1 < q.stop - tier.interval + 1 then young - 1
    else q.stop - tier.interval + 1, ?_, ?_, ?_, ?_⟩
  · split_ifs <;> omega
  · intro hyoung
    split_ifs <;> omega
  · intro b hb hlt
    split_ifs <;> omega
  · intro t
    rw [handoffScans]
    simp only [h, if_true]
    have hmax : (if q.start < tierLower now tier rest then tierLower now tier rest else q.start) =
        max q.start (tierLower now tier rest) := by
      split_ifs <;> omega
    rw [hmax]
    generalize (if young ≠ minInt64 ∧ young - 1 < q.stop - tier.interval + 1 then young - 1
      else q.stop - tier.interval + 1) = upper
    split_ifs with hle hcov hcov
    · rw [List.countP_cons, if_pos (by simpa [TierScan.covers] using hcov)]
      omega
    · rw [List.countP_cons, if_neg (by simpa [TierScan.covers] using hcov)]
      omega
    · omega
    · omega

/-- Every coarser tier of a ladder of multiples is a multiple. -/
theorem Ladder.dvd_of_mem {other : RollupTier}
    (h : Ladder true (tier :: rest)) (hother : other ∈ rest) :
    tier.interval < other.interval ∧ tier.interval ∣ other.interval := by
  induction rest generalizing tier with
  | nil => cases hother
  | cons next rest ih =>
    obtain ⟨⟨hlt, -, hdvd⟩, hsteps⟩ := List.isChain_cons_cons.mp h.steps
    rcases List.mem_cons.mp hother with rfl | hother
    · exact ⟨hlt, hdvd rfl⟩
    · have hnext := ih ⟨fun r hr => h.positive r (List.mem_cons_of_mem _ hr), hsteps⟩ hother
      exact ⟨hlt.trans hnext.1, (hdvd rfl).trans hnext.2⟩

/-- What is read from a tier is in the window of the query. -/
theorem mem_handoffScans {now young : ℤ} {q : SeriesWindow} {scan : TierScan}
    (h : scan ∈ handoffScans now q young tiers) :
    (∃ tier ∈ tiers, tier.compatible q.interval = true ∧ scan.interval = tier.interval) ∧
      q.start ≤ scan.lower ∧ scan.upper ≤ q.stop - scan.interval + 1 := by
  induction tiers generalizing young with
  | nil => cases h
  | cons tier rest ih =>
    have hrest : scan ∈ handoffScans now q (tierLower now tier rest) rest →
        (∃ other ∈ tier :: rest, other.compatible q.interval = true ∧
          scan.interval = other.interval) ∧
            q.start ≤ scan.lower ∧ scan.upper ≤ q.stop - scan.interval + 1 := by
      intro h
      obtain ⟨⟨other, hother, hscan⟩, hwindow⟩ := ih h
      exact ⟨⟨other, List.mem_cons_of_mem _ hother, hscan⟩, hwindow⟩
    rw [handoffScans] at h
    dsimp only at h
    split_ifs at h with hcompat
    all_goals
      first
      | exact hrest h
      | rcases List.mem_cons.mp h with rfl | h
        · exact ⟨⟨tier, List.mem_cons_self, hcompat, rfl⟩, by dsimp only; omega, by dsimp only; omega⟩
        · exact hrest h

/-! ### Which instants are covered once -/

/-- The plan reads an instant from every tier that serves it and whose stratum holds its bucket. -/
theorem countP_handoffScans {now : ℤ} {q : SeriesWindow} {t young : ℤ}
    (henclosed : Enclosed q tiers t) :
    ((handoffScans now q young tiers).countP fun scan => scan.covers t) =
      (strata now young tiers).countP fun s =>
        s.serves q.interval t && s.holds (floorDivNano t s.tier.interval) := by
  induction tiers generalizing young with
  | nil => rfl
  | cons tier rest ih =>
    have hrest := @ih (tierLower now tier rest)
      fun r hr => henclosed r (List.mem_cons_of_mem _ hr)
    rw [strata, List.countP_cons, ← hrest]
    by_cases hcompat : tier.compatible q.interval = true
    · obtain ⟨upper, -, hyoung, hupper, hcount⟩ := handoffScans_compatible now young rest hcompat
      obtain ⟨hstart, hstop⟩ := henclosed tier List.mem_cons_self hcompat
      rw [hcount, Nat.add_comm]
      congr 1
      refine if_congr ?_ rfl rfl
      simp only [Stratum.serves, Stratum.holds, hcompat, Bool.true_and, Bool.and_eq_true,
        Bool.or_eq_true, decide_eq_true_eq, beq_iff_eq, max_le_iff]
      constructor
      · rintro ⟨⟨-, hlow⟩, hle⟩
        refine ⟨hlow, hlow, ?_⟩
        by_cases hmin : young = minInt64
        · exact Or.inr hmin
        · have := hyoung hmin
          omega
      · rintro ⟨hlow, -, hage⟩
        exact ⟨⟨hstart, hlow⟩, hupper _ (by omega) hage⟩
    · rw [handoffScans]
      simp [hcompat, Stratum.serves]

/-- The young edge of a stratum lies behind the instant or is a bucket start of the tier, when that
of the first stratum is so. -/
theorem young_of_mem_strata {now t young : ℤ} (hpos : ∀ r ∈ tiers, 0 < r.interval)
    (hyoung : t < young ∨ ∀ r ∈ tiers.head?, r.interval ∣ young) {s : Stratum}
    (hs : s ∈ strata now young tiers) :
    0 < s.tier.interval ∧ (t < s.young ∨ s.tier.interval ∣ s.young) := by
  induction tiers generalizing young with
  | nil => cases hs
  | cons tier rest ih =>
    rcases List.mem_cons.mp hs with rfl | hs
    · exact ⟨hpos tier List.mem_cons_self, hyoung.imp_right fun h => h tier rfl⟩
    · refine ih (fun r hr => hpos r (List.mem_cons_of_mem _ hr)) (Or.inr ?_) hs
      intro next hnext
      cases rest with
      | nil => cases hnext
      | cons other rest =>
        cases hnext
        have hsize := hpos next (List.mem_cons_of_mem _ List.mem_cons_self)
        rw [tierLower, alignRollupRetentionCutoff_eq hsize]
        exact dvd_floorDivNano hsize _

/-- Before the raw boundary, a tier that serves the instant reads it when the instant is of the ages
of its stratum. -/
theorem holds_floorDivNano {s : Stratum} {interval t : ℤ} (hsize : 0 < s.tier.interval)
    (hyoung : t < s.young ∨ s.tier.interval ∣ s.young) (hserves : s.serves interval t = true) :
    s.holds (floorDivNano t s.tier.interval) = s.holds t := by
  have hle := floorDivNano_le hsize t
  have hlow : s.lower ≤ floorDivNano t s.tier.interval := by
    rw [Stratum.serves, Bool.and_eq_true, decide_eq_true_eq] at hserves
    exact hserves.2
  have hedge : floorDivNano t s.tier.interval < s.young ↔ t < s.young := by
    rcases hyoung with hlt | hdvd
    · omega
    · exact floorDivNano_lt_iff hsize hdvd
  simp only [Stratum.holds, hedge, hlow, hlow.trans hle]

/-- Before the raw boundary, the plan reads an instant from the tiers that serve it and whose stratum
holds it. -/
theorem countP_handoffScans_of_lt {now young t : ℤ} {q : SeriesWindow}
    (hpos : ∀ r ∈ tiers, 0 < r.interval) (henclosed : Enclosed q tiers t) (ht : t < young) :
    ((handoffScans now q young tiers).countP fun scan => scan.covers t) =
      (strata now young tiers).countP fun s => s.serves q.interval t && s.holds t := by
  rw [countP_handoffScans henclosed]
  refine List.countP_congr fun s hs => ?_
  obtain ⟨hsize, hyoung⟩ := young_of_mem_strata hpos (Or.inl ht) hs
  simp only [Bool.and_eq_true]
  exact and_congr_right fun hserves => by rw [holds_floorDivNano hsize hyoung hserves]

/-- In a window that is aligned to the tiers, an instant before the raw boundary is read once when one
tier serves it; no instant out of the window is read. -/
theorem countP_handoffScans_aligned {now young t : ℤ} {q : SeriesWindow}
    (hpos : ∀ r ∈ tiers, 0 < r.interval) (haligned : ∀ r ∈ tiers, r.compatible q.interval = true →
      r.interval ∣ q.start ∧ r.interval ∣ q.stop + 1) (ht : t < young)
    (hserved : q.start ≤ t → t ≤ q.stop → (strata now young tiers).countP
      (fun s => s.serves q.interval t && s.holds t) = 1) :
    ((handoffScans now q young tiers).countP fun scan => scan.covers t) =
      if q.start ≤ t ∧ t ≤ q.stop then 1 else 0 := by
  split_ifs with hin
  · refine (countP_handoffScans_of_lt hpos (fun tier htier hcompat => ?_) ht).trans
      (hserved hin.1 hin.2)
    obtain ⟨hstart, hstop⟩ := haligned tier htier hcompat
    have hsize := hpos tier htier
    have hlt : floorDivNano t tier.interval < q.stop + 1 :=
      (floorDivNano_lt_iff hsize hstop).mpr (by omega)
    have hle := Int.le_of_dvd (by omega) (dvd_sub hstop (dvd_floorDivNano hsize t))
    exact ⟨(le_floorDivNano_iff hsize hstart).mpr hin.1, by omega⟩
  · refine List.countP_eq_zero.mpr fun scan hscan hcovers => hin ?_
    obtain ⟨⟨tier, htier, hcompat, hinterval⟩, hlower, hupper⟩ := mem_handoffScans hscan
    obtain ⟨hstart, hstop⟩ := haligned tier htier hcompat
    have hsize := hpos tier htier
    rw [TierScan.covers, hinterval, Bool.and_eq_true, decide_eq_true_eq, decide_eq_true_eq] at hcovers
    have hlt : floorDivNano t tier.interval < q.stop + 1 := by omega
    exact ⟨(le_floorDivNano_iff hsize hstart).mp (hlower.trans hcovers.1),
      Int.lt_add_one_iff.mp ((floorDivNano_lt_iff hsize hstop).mp hlt)⟩

/-- A coarser tier is kept no shorter than the finer ones, in aligned cutoffs too. -/
def Falling (bands : List Stratum) : Prop :=
  bands.IsChain fun fine coarse => minInt64 < fine.lower ∧ coarse.lower ≤ fine.lower

theorem young_le_of_mem_strata {now young : ℤ}
    (hfalling : Falling (strata now young (tier :: rest))) {s : Stratum}
    (hs : s ∈ strata now (tierLower now tier rest) rest) :
    minInt64 < s.young ∧ s.young ≤ tierLower now tier rest := by
  induction rest generalizing tier young with
  | nil => cases hs
  | cons next rest ih =>
    obtain ⟨⟨hmin, hle⟩, hrest⟩ := List.isChain_cons_cons.mp hfalling
    rcases List.mem_cons.mp hs with rfl | hs
    · exact ⟨hmin, le_rfl⟩
    · obtain ⟨hlow, hyoung⟩ := ih hrest hs
      exact ⟨hlow, hyoung.trans hle⟩

/-- Where cutoffs fall, an instant before the raw boundary is of the ages of one stratum at most. -/
theorem countP_holds_le_one {now t young : ℤ} (hfalling : Falling (strata now young tiers)) :
    (strata now young tiers).countP (fun s => s.holds t) ≤ 1 := by
  induction tiers generalizing young with
  | nil => exact zero_le_one
  | cons tier rest ih =>
    have hrest := @ih (tierLower now tier rest) hfalling.of_cons
    rw [strata, List.countP_cons]
    split_ifs with hholds
    · -- what the tier holds is too young for every coarser stratum
      rw [List.countP_eq_zero.mpr]
      intro s hs
      obtain ⟨hmin, hyoung⟩ := young_le_of_mem_strata hfalling hs
      simp only [Stratum.holds, Bool.and_eq_true, Bool.or_eq_true, decide_eq_true_eq,
        beq_iff_eq] at hholds ⊢
      omega
    · exact hrest

/-- Cutoffs fall on a ladder of multiples. -/
theorem Ladder.falling {now young : ℤ} (h : Ladder true tiers)
    (hrep : CutoffsRepresentable now tiers) : Falling (strata now young tiers) := by
  induction tiers generalizing young with
  | nil => exact List.IsChain.nil
  | cons tier rest ih =>
    have hrest : Ladder true rest :=
      ⟨fun r hr => h.positive r (List.mem_cons_of_mem _ hr), h.steps.of_cons⟩
    have hfalling := @ih (tierLower now tier rest) hrest hrep.2
    cases rest with
    | nil => exact List.IsChain.singleton _
    | cons next rest =>
      refine List.IsChain.cons_cons ⟨hrep.1, ?_⟩ hfalling
      refine tierLower_anti now (fun r hr => (hrest.positive r hr).1)
        (List.isChain_cons_cons.mp h.steps).1.2.1 fun other hother => ?_
      cases rest with
      | nil => cases hother
      | cons third rest =>
        cases hother
        exact (List.isChain_cons_cons.mp hrest.steps).1.2.2 rfl

/-- On a ladder of multiples, an instant from the edge of the last tier that the query can use on is
served by the tier whose stratum holds it. -/
theorem Ladder.exists_serves {now interval t young : ℤ}
    (h : Ladder true tiers) (hlast : lastLower now interval young tiers ≤ t) (ht : t < young) :
    ∃ s ∈ strata now young tiers, s.holds t = true ∧ s.serves interval t = true := by
  induction tiers generalizing young with
  | nil => exact absurd hlast (not_le.mpr ht)
  | cons tier rest ih =>
    have hpos : ∀ r ∈ tier :: rest, 0 < r.interval := fun r hr => (h.positive r hr).1
    have hdvd : ∀ next ∈ rest.head?, tier.interval ∣ next.interval := by
      intro next hnext
      exact (h.dvd_of_mem (List.mem_of_mem_head? hnext)).2
    by_cases hcompat : tier.compatible interval = true
    · by_cases hlow : tierLower now tier rest ≤ t
      · -- the cutoff is a bucket start
        have hge := (le_floorDivNano_iff (hpos tier List.mem_cons_self)
          (dvd_tierLower now hpos hdvd)).mpr hlow
        refine ⟨_, List.mem_cons_self, ?_, ?_⟩
        · simp [Stratum.holds, hlow, ht]
        · simp [Stratum.serves, hcompat, hge]
      · rw [lastLower, if_pos hcompat] at hlast
        obtain ⟨s, hs, hserves⟩ := ih
          ⟨fun r hr => h.positive r (List.mem_cons_of_mem _ hr), h.steps.of_cons⟩ hlast
          (not_le.mp hlow)
        exact ⟨s, List.mem_cons_of_mem _ hs, hserves⟩
    · -- a coarser tier that the query could use would be a multiple of this one
      rw [lastLower_incompatible] at hlast
      · exact absurd hlast (not_le.mpr ht)
      · intro r hr
        rw [Bool.eq_false_iff]
        intro hcompat'
        obtain ⟨hle, hmul⟩ := compatible_iff.mp hcompat'
        rcases List.mem_cons.mp hr with rfl | hr
        · exact hcompat hcompat'
        · obtain ⟨hlt, htier⟩ := h.dvd_of_mem hr
          exact hcompat (compatible_iff.mpr ⟨hlt.le.trans hle, htier.trans hmul⟩)

/-- An instant before the raw boundary is covered once when exactly one tier serves it of those
whose stratum holds it (with falling cutoffs: when the tier that holds it serves it, as it does in
downsample mode); from the boundary on, when no tier that serves it holds its bucket, so that the
boundary does not cut the bucket. -/
theorem spanCount_eq_one_iff (p : RollupPolicy) (q : SeriesWindow) (now rawBoundary t : ℤ)
    (hvalid : p.validate = .ok ()) (hstop : t ≤ q.stop) (henclosed : Enclosed q p.tiers t) :
    (t < rawBoundary →
      (spanCount rawBoundary q (handoffScans now q rawBoundary p.tiers) t = 1 ↔
        (strata now rawBoundary p.tiers).countP
          (fun s => s.serves q.interval t && s.holds t) = 1) ∧
      (Falling (strata now rawBoundary p.tiers) →
        (spanCount rawBoundary q (handoffScans now q rawBoundary p.tiers) t = 1 ↔
          ∃ s ∈ strata now rawBoundary p.tiers,
            s.holds t = true ∧ s.serves q.interval t = true)) ∧
      (p.preservesRaw = false → CutoffsRepresentable now p.tiers →
        lastLower now q.interval rawBoundary p.tiers ≤ t →
        spanCount rawBoundary q (handoffScans now q rawBoundary p.tiers) t = 1)) ∧
    (rawBoundary ≤ t →
      (spanCount rawBoundary q (handoffScans now q rawBoundary p.tiers) t = 1 ↔
        ∀ s ∈ strata now rawBoundary p.tiers, s.serves q.interval t = true →
          s.holds (floorDivNano t s.tier.interval) = false)) := by
  have hladder := p.ladder_of_validate hvalid
  have hpos : ∀ r ∈ p.tiers, 0 < r.interval := fun r hr => (hladder.positive r hr).1
  unfold spanCount
  refine ⟨fun ht => ?_, fun ht => ?_⟩
  · rw [if_neg (fun h => absurd ht (not_lt.mpr h.1)), Nat.add_zero,
      countP_handoffScans_of_lt hpos henclosed ht]
    have hexists : Falling (strata now rawBoundary p.tiers) →
        ((strata now rawBoundary p.tiers).countP
            (fun s => s.serves q.interval t && s.holds t) = 1 ↔
          ∃ s ∈ strata now rawBoundary p.tiers,
            s.holds t = true ∧ s.serves q.interval t = true) := by
      intro hfalling
      have hone : (strata now rawBoundary p.tiers).countP
          (fun s => s.serves q.interval t && s.holds t) ≤ 1 :=
        (List.countP_mono_left fun s _ h => ((Bool.and_eq_true _ _).mp h).2).trans
          (countP_holds_le_one hfalling)
      rw [le_antisymm_iff, and_iff_right hone, Nat.one_le_iff_ne_zero, ← Nat.pos_iff_ne_zero,
        List.countP_pos_iff]
      simp only [Bool.and_eq_true, and_comm]
    refine ⟨Iff.rfl, hexists, fun hmode hrep hlast => ?_⟩
    rw [hmode] at hladder
    exact (hexists (hladder.falling hrep)).mpr (hladder.exists_serves hlast ht)
  · rw [countP_handoffScans henclosed, if_pos ⟨ht, hstop⟩, Nat.add_eq_right, List.countP_eq_zero]
    simp only [Bool.and_eq_true, not_and, Bool.not_eq_true]

/-! ### Samples -/

/-- The ladder of the production store without downsampling. -/
def preserveRawPolicy : RollupPolicy where
  mode := .preserveRaw
  rawRetention := 2 * 60 * minute
  preserveRaw := true
  tiers := [⟨minute, 6 * 60 * minute⟩, ⟨5 * minute, day⟩, ⟨15 * minute, 7 * day⟩,
    ⟨30 * minute, 15 * day⟩, ⟨45 * minute, 30 * day⟩, ⟨60 * minute, 100 * 365 * day⟩]

/-- Two hours of raw points, behind them minutes; hourly buckets have nobody to read day 80. -/
theorem spanCount_eq_one_preserveRaw :
    let boundary := 100 * day - 120 * minute
    let plan := fun q => handoffScans (100 * day) q boundary preserveRawPolicy.tiers
    let five : SeriesWindow := ⟨0, 100 * day - 1, 5 * minute⟩
    let sixty : SeriesWindow := ⟨0, 100 * day - 1, 60 * minute⟩
    spanCount boundary five (plan five) (boundary - 15) = 1 ∧
      spanCount boundary five (plan five) (boundary + 15) = 1 ∧
      spanCount boundary sixty (plan sixty) (80 * day) ≠ 1 := by
  refine ⟨?_, ?_, ?_⟩
  · exact ((spanCount_eq_one_iff preserveRawPolicy ⟨0, 100 * day - 1, 5 * minute⟩ (100 * day)
      (100 * day - 120 * minute) (100 * day - 120 * minute - 15) (by decide) (by decide)
      (by decide)).1 (by decide)).1.mpr (by decide)
  · exact ((spanCount_eq_one_iff preserveRawPolicy ⟨0, 100 * day - 1, 5 * minute⟩ (100 * day)
      (100 * day - 120 * minute) (100 * day - 120 * minute + 15) (by decide) (by decide)
      (by decide)).2 (by decide)).mpr (by decide)
  · exact mt ((spanCount_eq_one_iff preserveRawPolicy ⟨0, 100 * day - 1, 60 * minute⟩ (100 * day)
      (100 * day - 120 * minute) (80 * day) (by decide) (by decide) (by decide)).1
      (by decide)).1.mp (by decide)

/-- Hourly buckets leave a gap where the 45-minute tier is skipped: from the fifteenth to the
thirtieth day nobody reads what is stored. -/
theorem spanCount_preserveRaw :
    let boundary := 100 * day - 120 * minute
    let q : SeriesWindow := ⟨0, 100 * day - 1, 60 * minute⟩
    let tiers := preserveRawPolicy.tiers
    preserveRawPolicy.validate = .ok () ∧
      Enclosed q tiers (80 * day) ∧ lastLower (100 * day) q.interval boundary tiers ≤ 80 * day ∧
      spanCount boundary q (handoffScans (100 * day) q boundary tiers) (80 * day) = 0 := by
  decide

end Metric

end Komari
