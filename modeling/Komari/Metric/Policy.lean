import Mathlib.Data.Int.ModEq
import Mathlib.Data.List.Basic
import Mathlib.Tactic.Linarith

/-!
# Rollup policies

A rollup policy is a ladder of tiers, from fine to coarse buckets, and the time for which raw points
stay unmaterialized.  Instants and durations are nanoseconds, kept as integers.
-/

namespace Komari

namespace Metric

/-! ### Instants -/

/-- `time.Minute`. -/
def minute : ℤ := 60 * 1000000000

/-- `24 * time.Hour`. -/
def day : ℤ := 24 * 60 * minute

/-- `floorDivNano`: the start of the bucket of width `size` that contains `ts`. -/
def floorDivNano (ts size : ℤ) : ℤ := ts - ((ts.tmod size) + size).tmod size

variable {size : ℤ}

section

variable (hsize : 0 < size)

include hsize

theorem floorDivNano_eq (ts : ℤ) : floorDivNano ts size = ts - ts % size := by
  have hlow := Int.lt_tmod_of_pos ts hsize
  have hmod : ((ts.tmod size) + size).tmod size = ts % size := by
    rw [Int.tmod_eq_emod_of_nonneg (by omega), Int.add_emod_right]
    exact Int.ModEq.symm ((Int.modEq_iff_dvd).mpr Int.dvd_tmod_sub_self)
  rw [floorDivNano, hmod]

/-- A bucket starts at a multiple of its width. -/
theorem dvd_floorDivNano (ts : ℤ) : size ∣ floorDivNano ts size := by
  rw [floorDivNano_eq hsize]
  exact Int.dvd_self_sub_emod

theorem floorDivNano_le (ts : ℤ) : floorDivNano ts size ≤ ts := by
  have := Int.emod_nonneg ts hsize.ne'
  rw [floorDivNano_eq hsize]
  omega

theorem lt_floorDivNano_add (ts : ℤ) : ts < floorDivNano ts size + size := by
  have := Int.emod_lt_of_pos ts hsize
  rw [floorDivNano_eq hsize]
  omega

/-- A bucket start is below an instant when it is below the start of the instant's bucket. -/
theorem le_floorDivNano_iff {x ts : ℤ} (hx : size ∣ x) : x ≤ floorDivNano ts size ↔ x ≤ ts := by
  constructor
  · exact fun h => h.trans (floorDivNano_le hsize ts)
  · intro h
    have hlt := lt_floorDivNano_add hsize ts
    obtain ⟨k, rfl⟩ := hx
    obtain ⟨m, hm⟩ := dvd_floorDivNano hsize ts
    rw [hm] at hlt ⊢
    have hk : k < m + 1 := by
      by_contra hge
      have := Int.mul_le_mul_of_nonneg_left (not_lt.mp hge) hsize.le
      linarith
    exact Int.mul_le_mul_of_nonneg_left (Int.lt_add_one_iff.mp hk) hsize.le

theorem floorDivNano_lt_iff {x ts : ℤ} (hx : size ∣ x) : floorDivNano ts size < x ↔ ts < x := by
  rw [← not_le, ← not_le, le_floorDivNano_iff hsize hx]

theorem floorDivNano_mono {a b : ℤ} (h : a ≤ b) : floorDivNano a size ≤ floorDivNano b size :=
  (le_floorDivNano_iff hsize (dvd_floorDivNano hsize a)).mpr ((floorDivNano_le hsize a).trans h)

end

/-- Fine buckets lie in coarse ones: the coarse bucket of an instant is that of its fine bucket. -/
theorem floorDivNano_floorDivNano {fine coarse : ℤ} (hfine : 0 < fine) (hcoarse : 0 < coarse)
    (hdvd : fine ∣ coarse) (ts : ℤ) :
    floorDivNano (floorDivNano ts fine) coarse = floorDivNano ts coarse := by
  apply le_antisymm (floorDivNano_mono hcoarse (floorDivNano_le hfine ts))
  have hd := dvd_floorDivNano hcoarse ts
  rw [le_floorDivNano_iff hcoarse hd, le_floorDivNano_iff hfine (hdvd.trans hd)]
  exact floorDivNano_le hcoarse ts

theorem floorDivNano_le_of_dvd {fine coarse : ℤ} (hfine : 0 < fine) (hcoarse : 0 < coarse)
    (hdvd : fine ∣ coarse) (ts : ℤ) : floorDivNano ts coarse ≤ floorDivNano ts fine := by
  rw [le_floorDivNano_iff hfine (hdvd.trans (dvd_floorDivNano hcoarse ts))]
  exact floorDivNano_le hcoarse ts

/-! ### Policies -/

/-- Buckets of one width. -/
structure RollupTier where
  interval : ℤ
  /-- How long buckets of the tier are kept. -/
  retention : ℤ
deriving DecidableEq

/-- `RollupMode`: who owns raw samples. -/
inductive RollupMode
  /-- The empty string of policies written before the mode was introduced. -/
  | unset
  /-- Raw samples are deleted after they have been materialized. -/
  | downsample
  /-- Raw samples stay until the metric's own retention. -/
  | preserveRaw
  | other (name : String)
deriving DecidableEq

/-- `RollupPolicy`, but for the compression of digests. -/
structure RollupPolicy where
  mode : RollupMode
  rawRetention : ℤ
  preserveRaw : Bool
  tiers : List RollupTier
deriving DecidableEq

namespace RollupPolicy

/-- Rollups leave the raw points in place. -/
def preservesRaw (p : RollupPolicy) : Bool :=
  if p.mode ≠ .unset then p.mode == .preserveRaw else p.preserveRaw

/-- There is a tier. -/
def enabled (p : RollupPolicy) : Bool := 0 < p.tiers.length

/-- `rawCutoff`: raw points before it are due for materialization; `none` is the zero time. -/
def rawCutoff (p : RollupPolicy) (now : ℤ) : Option ℤ :=
  match p.tiers with
  | [] => none
  | tier :: _ =>
    if p.rawRetention ≤ 0 then none else some (floorDivNano (now - p.rawRetention) tier.interval)

/-- The loop of `withMetricRetention` for a downsampling policy; `kept` is the last tier kept. -/
def capTiers (retention : ℤ) : Option RollupTier → List RollupTier → List RollupTier
  | _, [] => []
  | kept, tier :: rest =>
    let capped : RollupTier :=
      if rest = [] ∨ retention < tier.retention then { tier with retention := retention } else tier
    match kept with
    | some last =>
      if capped.retention ≤ last.retention then capTiers retention kept rest
      else capped :: capTiers retention (some capped) rest
    | none => capped :: capTiers retention (some capped) rest

/-- The ladder that a metric's own retention leaves. -/
def withMetricRetention (p : RollupPolicy) (retention : ℤ) : RollupPolicy :=
  if retention ≤ 0 ∨ p.tiers = [] then p
  else if p.preservesRaw then
    { p with tiers := p.tiers.map fun tier =>
        if retention < tier.retention then { tier with retention := retention } else tier }
  else { p with tiers := capTiers retention none p.tiers }

/-- The loop of `Validate` after the first tier `prev`, from the tier with index `i`. -/
def validateTiers (preserves : Bool) : ℕ → RollupTier → List RollupTier → Except String Unit
  | _, _, [] => .ok ()
  | i, prev, tier :: rest =>
    if tier.interval ≤ 0 then
      .error s!"metric: invalid argument: tier {i} interval must be positive"
    else if tier.retention ≤ 0 then
      .error s!"metric: invalid argument: tier {i} retention must be positive"
    else if tier.interval ≤ prev.interval then
      .error s!"metric: invalid argument: tier {i} interval must be larger than tier {i - 1}"
    else if preserves = false ∧ tier.interval.tmod prev.interval ≠ 0 then
      .error s!"metric: invalid argument: tier {i} interval must be a multiple of tier {i - 1} interval"
    else if tier.retention < prev.retention then
      .error s!"metric: invalid argument: tier {i} retention must be >= tier {i - 1} retention"
    else validateTiers preserves (i + 1) tier rest

/-- The structural rules of a ladder. -/
def validate (p : RollupPolicy) : Except String Unit :=
  match p.mode, p.tiers with
  | .other name, _ => .error s!"metric: invalid argument: unsupported rollup mode {name.quote}"
  | _, [] => .ok ()
  | _, tier :: rest =>
    if p.rawRetention < 0 then
      .error "metric: invalid argument: raw retention cannot be negative"
    else if tier.interval ≤ 0 then
      .error "metric: invalid argument: tier 0 interval must be positive"
    else if tier.retention ≤ 0 then
      .error "metric: invalid argument: tier 0 retention must be positive"
    else if 0 < p.rawRetention ∧ p.rawRetention < 2 * tier.interval then
      .error "metric: invalid argument: raw retention must be >= 2x the finest tier interval"
    else validateTiers p.preservesRaw 1 tier rest

end RollupPolicy

/-- The cutoff, at a bucket of the next tier. -/
def alignRollupRetentionCutoff (cutoff nextInterval : ℤ) : ℤ :=
  if nextInterval ≤ 0 then cutoff else floorDivNano cutoff nextInterval

/-- The retention cutoff of a tier, aligned to the next tier, or to itself when it is the last. -/
def tierLower (now : ℤ) (tier : RollupTier) (rest : List RollupTier) : ℤ :=
  match rest with
  | next :: _ => alignRollupRetentionCutoff (now - tier.retention) next.interval
  | [] => alignRollupRetentionCutoff (now - tier.retention) tier.interval

/-- `rollupIntervalsOutsidePolicy`: the configured intervals that are not effective. -/
def rollupIntervalsOutsidePolicy (configured effective : List RollupTier) : List ℤ :=
  (configured.map RollupTier.interval).filter fun interval =>
    !(effective.any fun tier => tier.interval == interval)

/-! ### Accepted ladders -/

/-- A ladder whose intervals grow, each a positive multiple of the one before when `multiples`, and
whose retentions do not shrink. -/
structure Ladder (multiples : Bool) (tiers : List RollupTier) : Prop where
  positive : ∀ tier ∈ tiers, 0 < tier.interval ∧ 0 < tier.retention
  steps : tiers.IsChain fun fine coarse => fine.interval < coarse.interval ∧
    fine.retention ≤ coarse.retention ∧ (multiples = true → fine.interval ∣ coarse.interval)

theorem ladder_of_validateTiers {preserves : Bool} {i : ℕ} {prev : RollupTier}
    {tiers : List RollupTier} (hprev : 0 < prev.interval ∧ 0 < prev.retention)
    (h : RollupPolicy.validateTiers preserves i prev tiers = .ok ()) :
    Ladder (!preserves) (prev :: tiers) := by
  induction tiers generalizing i prev with
  | nil =>
    exact ⟨fun tier ht => List.mem_singleton.mp ht ▸ hprev, List.IsChain.singleton prev⟩
  | cons tier rest ih =>
    unfold RollupPolicy.validateTiers at h
    split_ifs at h with h₁ h₂ h₃ h₄ h₅
    have hrest := ih ⟨not_le.mp h₁, not_le.mp h₂⟩ h
    refine ⟨fun t ht => ?_, List.IsChain.cons_cons ⟨not_le.mp h₃, not_lt.mp h₅, ?_⟩ hrest.steps⟩
    · rcases List.mem_cons.mp ht with rfl | ht
      · exact hprev
      · exact hrest.positive t ht
    · intro hm
      have hpres : preserves = false := by simpa using hm
      by_contra hdvd
      exact h₄ ⟨hpres, fun h0 => hdvd (Int.dvd_of_tmod_eq_zero h0)⟩

/-- What `Validate` promises about the tiers of an accepted policy. -/
theorem RollupPolicy.ladder_of_validate {p : RollupPolicy} (h : p.validate = .ok ()) :
    Ladder (!p.preservesRaw) p.tiers := by
  unfold RollupPolicy.validate at h
  cases htiers : p.tiers with
  | nil => exact ⟨fun _ ht => absurd ht List.not_mem_nil, List.IsChain.nil⟩
  | cons tier rest =>
    rw [htiers] at h
    split at h
    · cases h
    · rename_i heq _
      cases heq
    · rename_i heq _
      cases heq
      split_ifs at h with h₁ h₂ h₃ h₄
      exact ladder_of_validateTiers ⟨not_le.mp h₂, not_le.mp h₃⟩ h

/-- A tier may follow another one. -/
def Coarser (multiples : Bool) (fine coarse : RollupTier) : Prop :=
  fine.interval < coarse.interval ∧ (multiples = true → fine.interval ∣ coarse.interval)

theorem Coarser.trans {multiples : Bool} {a b c : RollupTier} (hab : Coarser multiples a b)
    (hbc : Coarser multiples b c) : Coarser multiples a c :=
  ⟨hab.1.trans hbc.1, fun hm => (hab.2 hm).trans (hbc.2 hm)⟩

/-- Every tier of a ladder is coarser than those before it. -/
theorem Ladder.pairwise {multiples : Bool} {tiers : List RollupTier} (h : Ladder multiples tiers) :
    tiers.Pairwise (Coarser multiples) := by
  have htrans : IsTrans RollupTier (Coarser multiples) := ⟨fun _ _ _ => Coarser.trans⟩
  exact List.isChain_iff_pairwise.mp (h.steps.imp fun _ _ hstep => ⟨hstep.1, hstep.2.2⟩)

/-- The tiers that the metric's own retention leaves are a ladder again. -/
theorem ladder_capTiers {multiples : Bool} {retention : ℤ} (hret : 0 < retention)
    (kept : Option RollupTier) {tiers : List RollupTier}
    (hpos : ∀ tier ∈ kept.toList ++ tiers, 0 < tier.interval ∧ 0 < tier.retention)
    (hpair : (kept.toList ++ tiers).Pairwise (Coarser multiples)) :
    Ladder multiples (kept.toList ++ RollupPolicy.capTiers retention kept tiers) := by
  induction tiers generalizing kept with
  | nil =>
    rw [List.append_nil] at hpos
    unfold RollupPolicy.capTiers
    rw [List.append_nil]
    refine ⟨hpos, ?_⟩
    cases kept with
    | none => exact List.IsChain.nil
    | some last => exact List.IsChain.singleton last
  | cons tier rest ih =>
    unfold RollupPolicy.capTiers
    dsimp only
    generalize hcapped : (if rest = [] ∨ retention < tier.retention then
      { tier with retention := retention } else tier : RollupTier) = capped
    have hinterval : capped.interval = tier.interval := by
      rw [← hcapped]
      split_ifs <;> rfl
    have htier := hpos tier (List.mem_append_right _ List.mem_cons_self)
    have hcappos : 0 < capped.interval ∧ 0 < capped.retention := by
      refine ⟨hinterval ▸ htier.1, ?_⟩
      rw [← hcapped]
      split_ifs
      · exact hret
      · exact htier.2
    have hrest : ∀ c : RollupTier, c.interval = tier.interval →
        (c :: rest).Pairwise (Coarser multiples) := by
      intro c hc
      have hsub := hpair.sublist (List.sublist_append_right kept.toList (tier :: rest))
      obtain ⟨hhead, htail⟩ := List.pairwise_cons.mp hsub
      refine List.pairwise_cons.mpr ⟨fun t ht => ?_, htail⟩
      have := hhead t ht
      rwa [Coarser, ← hc] at this
    have hposrest : ∀ t ∈ rest, 0 < t.interval ∧ 0 < t.retention := fun t ht =>
      hpos t (List.mem_append_right _ (List.mem_cons_of_mem _ ht))
    have hkeep : Ladder multiples (capped :: RollupPolicy.capTiers retention (some capped) rest) := by
      refine ih (some capped) (fun t ht => ?_) (hrest capped hinterval)
      rcases List.mem_cons.mp ht with rfl | ht
      · exact hcappos
      · exact hposrest t ht
    cases kept with
    | none => exact hkeep
    | some last =>
      dsimp only [Option.toList_some, List.singleton_append] at *
      obtain ⟨hlast, -⟩ := List.pairwise_cons.mp hpair
      split_ifs with hle
      · refine ih (some last) (fun t ht => ?_) ?_
        · rcases List.mem_cons.mp ht with rfl | ht
          · exact hpos _ List.mem_cons_self
          · exact hposrest t ht
        · exact hpair.sublist (List.Sublist.cons_cons last (List.sublist_cons_self tier rest))
      · -- the tier is kept, since its retention is longer
        have hstep := hlast tier List.mem_cons_self
        refine ⟨fun t ht => ?_, List.IsChain.cons_cons ⟨?_, (not_le.mp hle).le, ?_⟩ hkeep.steps⟩
        · rcases List.mem_cons.mp ht with rfl | ht
          · exact hpos _ List.mem_cons_self
          · exact hkeep.positive t ht
        · exact hinterval ▸ hstep.1
        · exact fun hm => hinterval ▸ hstep.2 hm

/-- The effective policy of a metric whose raw points are downsampled is a ladder. -/
theorem RollupPolicy.ladder_withMetricRetention {p : RollupPolicy} (h : p.validate = .ok ())
    (hmode : p.preservesRaw = false) (retention : ℤ) :
    Ladder true (p.withMetricRetention retention).tiers := by
  have hladder := p.ladder_of_validate h
  rw [hmode, Bool.not_false] at hladder
  unfold withMetricRetention
  split_ifs with hcap hpres
  · exact hladder
  · rw [hmode] at hpres
    cases hpres
  · obtain ⟨hpos, -⟩ := not_or.mp hcap
    exact ladder_capTiers (not_le.mp hpos) none hladder.positive hladder.pairwise

@[simp] theorem RollupPolicy.preservesRaw_withMetricRetention (p : RollupPolicy) (retention : ℤ) :
    (p.withMetricRetention retention).preservesRaw = p.preservesRaw := by
  unfold withMetricRetention
  split_ifs <;> rfl

@[simp] theorem RollupPolicy.rawRetention_withMetricRetention (p : RollupPolicy) (retention : ℤ) :
    (p.withMetricRetention retention).rawRetention = p.rawRetention := by
  unfold withMetricRetention
  split_ifs <;> rfl

theorem notMem_of_mem_rollupIntervalsOutsidePolicy {configured effective : List RollupTier} {i : ℤ}
    (h : i ∈ rollupIntervalsOutsidePolicy configured effective) :
    i ∉ effective.map RollupTier.interval := by
  intro hmem
  obtain ⟨tier, htier, rfl⟩ := List.mem_map.mp hmem
  obtain ⟨-, hnone⟩ := List.mem_filter.mp h
  rw [Bool.not_eq_true', List.any_eq_false] at hnone
  exact hnone tier htier (by simp)

end Metric

end Komari
