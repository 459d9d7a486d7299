import Mathlib.Algebra.Order.BigOperators.Group.List
import Komari.Traffic.Calibration

/-!
# Spreading a correction over the days

One direction of a calibration: the sum of the effective usages of the days is brought to a target by
a delta that goes to the latest day, or is taken back from the days, the latest first.
-/

namespace Komari

namespace Traffic

/-! ### Directions -/

/-- Sent or received. -/
inductive Direction
  | up
  | down
deriving DecidableEq

/-- One direction. -/
def Usage.on (u : Usage) : Direction → ℤ
  | .up => u.up
  | .down => u.down

/-- One direction. -/
def SignedUsage.on (u : SignedUsage) : Direction → ℤ
  | .up => u.up
  | .down => u.down

theorem Usage.ext_on {u v : Usage} (h : ∀ dir, u.on dir = v.on dir) : u = v := by
  obtain ⟨up, down⟩ := u
  obtain ⟨up', down'⟩ := v
  have hup : up = up' := h .up
  have hdown : down = down' := h .down
  rw [hup, hdown]

/-- Values of a non-negative signed 64-bit word. -/
def Countable64 (x : ℤ) : Prop := 0 ≤ x ∧ x ≤ maxInt64

/-- The effective value of a day, before it is cut to 64 bits. -/
def due (raw delta : ℤ) : ℤ := max 0 (raw + delta)

theorem due_nonneg (raw delta : ℤ) : 0 ≤ due raw delta := le_max_left _ _

theorem maxInt64_nonneg : (0 : ℤ) ≤ maxInt64 := by decide

theorem int64_of_abs_le {x : ℤ} (h : |x| ≤ maxInt64) : int64 x = x := by
  refine int64_eq_self ⟨?_, (abs_le.mp h).2⟩
  have h' := (abs_le.mp h).1
  unfold maxInt64 at h'
  unfold minInt64
  omega

theorem saturatingAdd_eq_min {x y : ℤ} (hx : 0 ≤ x) (hxm : x ≤ maxInt64) (hy : 0 ≤ y) :
    saturatingAdd x y = min maxInt64 (x + y) := by
  by_cases h : x + y ≤ maxInt64
  · rw [min_eq_right h, saturatingAdd_of_eq rfl (by omega) h]
  · rw [saturatingAdd, if_pos (by omega), min_eq_left (by omega)]

/-- The effective value of a day is its due value, cut to 64 bits. -/
theorem addSignedNonNegative_eq {raw delta : ℤ} (hraw : Countable64 raw)
    (hdelta : |delta| ≤ maxInt64) :
    addSignedNonNegative raw delta = min maxInt64 (due raw delta) := by
  obtain ⟨hraw, hmax⟩ := hraw
  obtain ⟨hlow, hhigh⟩ := abs_le.mp hdelta
  unfold addSignedNonNegative due
  split_ifs with hpos hneg
  · rw [saturatingAdd_eq_min hraw hmax hpos, max_eq_right (by omega)]
  · rw [int64_of_abs_le (by rwa [abs_neg, abs_of_nonneg hraw])] at hneg
    rw [max_eq_left (by omega), min_eq_right maxInt64_nonneg]
  · rw [int64_of_abs_le (by rwa [abs_neg, abs_of_nonneg hraw])] at hneg
    rw [addInt64, int64_of_abs_le (by rw [abs_le]; omega), max_eq_right (by omega),
      min_eq_right (by omega)]

theorem foldl_saturatingAdd {x : ℤ} (hx : 0 ≤ x) (l : List ℤ) (hl : ∀ y ∈ l, 0 ≤ y) :
    l.foldl saturatingAdd (min maxInt64 x) = min maxInt64 (x + l.sum) := by
  induction l generalizing x with
  | nil => simp
  | cons y l ih =>
    obtain ⟨hy, hl⟩ := List.forall_mem_cons.mp hl
    have hmax := maxInt64_nonneg
    have hstep : saturatingAdd (min maxInt64 x) y = min maxInt64 (x + y) := by
      rw [saturatingAdd_eq_min (by omega) (min_le_left _ _) hy]
      omega
    rw [List.foldl_cons, hstep, ih (by omega) hl, List.sum_cons, add_assoc]

/-- Cutting every value before the sum is cut changes nothing. -/
theorem min_sum_map_min (l : List ℤ) (hl : ∀ y ∈ l, 0 ≤ y) :
    min maxInt64 (l.map (min maxInt64)).sum = min maxInt64 l.sum := by
  induction l with
  | nil => rfl
  | cons y l ih =>
    obtain ⟨hy, hl⟩ := List.forall_mem_cons.mp hl
    have hsum : 0 ≤ l.sum := List.sum_nonneg hl
    have hcut : 0 ≤ (l.map (min maxInt64)).sum := by
      refine List.sum_nonneg fun x hx => ?_
      obtain ⟨z, hz, rfl⟩ := List.mem_map.mp hx
      exact le_min maxInt64_nonneg (hl z hz)
    have ih := ih hl
    rw [List.map_cons, List.sum_cons, List.sum_cons]
    omega

/-! ### Taking back -/

section TakeBack

variable {effective : CalibrationDay → ℤ}

theorem allocatedOn_cons (day x : ℤ) (a : ℤ) (allocated : List (ℤ × ℤ)) :
    allocatedOn ((day, a) :: allocated) x = if x = day then a else allocatedOn allocated x := by
  unfold allocatedOn
  rw [List.lookup_cons]
  by_cases h : x = day
  · simp [h]
  · simp [h, beq_false_of_ne h]

@[simp] theorem allocatedOn_nil (x : ℤ) : allocatedOn [] x = 0 := rfl

theorem takeBack_cons (remaining : ℤ) (d : CalibrationDay) (days : List CalibrationDay) :
    takeBack effective remaining (d :: days) =
      if 0 < remaining then
        if effective d ≤ 0 then takeBack effective remaining days
        else
          ((d.day, -min remaining (effective d)) ::
              (takeBack effective (remaining - min remaining (effective d)) days).1,
            (takeBack effective (remaining - min remaining (effective d)) days).2)
      else ([], remaining) := by
  have htake : (if remaining < effective d then remaining else effective d) =
      min remaining (effective d) := by
    rw [min_def_lt]
  rw [takeBack]
  simp only [htake]

variable {days : List CalibrationDay}

theorem allocatedOn_takeBack_of_notMem {day remaining : ℤ} (h : day ∉ days.map CalibrationDay.day) :
    allocatedOn (takeBack effective remaining days).1 day = 0 := by
  induction days generalizing remaining with
  | nil => rfl
  | cons d days ih =>
    obtain ⟨hne, hnot⟩ := not_or.mp (List.mem_cons.not.mp h)
    rw [takeBack_cons]
    split_ifs
    · exact ih hnot
    · rw [allocatedOn_cons, if_neg hne]
      exact ih hnot
    · rfl

/-- What is taken from a day is at most its usage. -/
theorem takeBack_bounds (remaining : ℤ)
    (hnodup : (days.map CalibrationDay.day).Nodup) (heff : ∀ d ∈ days, 0 ≤ effective d) :
    ∀ d ∈ days, -effective d ≤ allocatedOn (takeBack effective remaining days).1 d.day ∧
      allocatedOn (takeBack effective remaining days).1 d.day ≤ 0 := by
  induction days generalizing remaining with
  | nil => simp
  | cons d days ih =>
    obtain ⟨hnot, hnodup⟩ := List.nodup_cons.mp hnodup
    obtain ⟨hd, heff⟩ := List.forall_mem_cons.mp heff
    have hne : ∀ x ∈ days, x.day ≠ d.day := fun x hx heq =>
      hnot (heq ▸ List.mem_map_of_mem hx)
    rw [takeBack_cons]
    refine List.forall_mem_cons.mpr ?_
    split_ifs
    · rw [allocatedOn_takeBack_of_notMem hnot]
      exact ⟨⟨by omega, le_rfl⟩, ih _ hnodup heff⟩
    · refine ⟨by rw [allocatedOn_cons, if_pos rfl]; omega, fun x hx => ?_⟩
      rw [allocatedOn_cons, if_neg (hne x hx)]
      exact ih _ hnodup heff x hx
    · simp only [allocatedOn_nil]
      exact ⟨by omega, fun x hx => ⟨by have := heff x hx; omega, le_rfl⟩⟩

/-- What is taken from the days is what does not remain. -/
theorem sum_takeBack (effective : CalibrationDay → ℤ) (remaining : ℤ)
    (hnodup : (days.map CalibrationDay.day).Nodup) :
    (days.map fun d => allocatedOn (takeBack effective remaining days).1 d.day).sum =
      (takeBack effective remaining days).2 - remaining := by
  induction days generalizing remaining with
  | nil => simp [takeBack]
  | cons d days ih =>
    obtain ⟨hnot, hnodup⟩ := List.nodup_cons.mp hnodup
    have hcons : ∀ (a : ℤ) (allocated : List (ℤ × ℤ)),
        (days.map fun x => allocatedOn ((d.day, a) :: allocated) x.day).sum =
          (days.map fun x => allocatedOn allocated x.day).sum := by
      intro a allocated
      refine congrArg List.sum (List.map_congr_left fun x hx => ?_)
      rw [allocatedOn_cons, if_neg]
      exact fun heq => hnot (heq ▸ List.mem_map_of_mem hx)
    rw [List.map_cons, List.sum_cons]
    rw [takeBack_cons]
    split_ifs
    · rw [allocatedOn_takeBack_of_notMem hnot, zero_add, ih _ hnodup]
    · rw [allocatedOn_cons, if_pos rfl, hcons, ih _ hnodup]
      omega
    · simp

theorem takeBack_remaining {remaining : ℤ} (hpos : 0 ≤ remaining)
    (henough : remaining ≤ (days.map effective).sum) (heff : ∀ d ∈ days, 0 ≤ effective d) :
    (takeBack effective remaining days).2 = 0 := by
  induction days generalizing remaining with
  | nil =>
    simp only [List.map_nil, List.sum_nil] at henough
    exact le_antisymm henough hpos
  | cons d days ih =>
    obtain ⟨hd, heff⟩ := List.forall_mem_cons.mp heff
    rw [List.map_cons, List.sum_cons] at henough
    have hsum := List.sum_nonneg (l := days.map effective) (by simpa using heff)
    rw [takeBack_cons]
    split_ifs
    · exact ih hpos (by omega) heff
    · exact ih (by omega) (by omega) heff
    · exact le_antisymm (by omega) hpos

end TakeBack

/-! ### Allocations -/

/-- What an allocation of `delta` does: a positive delta goes to the latest day, a negative one is taken
from the days. -/
structure Allocates (days : List CalibrationDay) (latest : CalibrationDay) (delta : ℤ)
    (effective : CalibrationDay → ℤ) (allocated : List (ℤ × ℤ)) : Prop where
  gives : 0 < delta →
    ∀ day, allocatedOn allocated day = if day = latest.day then delta else 0
  takes : delta ≤ 0 → ∀ d ∈ days, -effective d ≤ allocatedOn allocated d.day ∧
    allocatedOn allocated d.day ≤ 0
  sum : delta ≤ 0 → (days.map fun d => allocatedOn allocated d.day).sum = delta

variable {days : List CalibrationDay}

theorem allocateCalibration_spec {latest : CalibrationDay} {delta : ℤ}
    {effective : CalibrationDay → ℤ} (hlatest : days.getLast? = some latest)
    (hnodup : (days.map CalibrationDay.day).Nodup) (heff : ∀ d ∈ days, 0 ≤ effective d)
    (hdelta : |delta| ≤ maxInt64) (henough : -delta ≤ (days.map effective).sum) :
    ∃ allocated, allocateCalibration days delta effective = .ok allocated ∧
      Allocates days latest delta effective allocated := by
  rw [allocateCalibration, hlatest]
  dsimp only
  rcases lt_trichotomy delta 0 with hneg | rfl | hpos
  · have hrev : (days.reverse.map CalibrationDay.day).Nodup := by
      rw [List.map_reverse]
      exact List.nodup_reverse.mpr hnodup
    have heff' : ∀ d ∈ days.reverse, 0 ≤ effective d := fun d hd => heff d (List.mem_reverse.mp hd)
    have hremaining : (takeBack effective (-delta) days.reverse).2 = 0 := by
      refine takeBack_remaining (by omega) ?_ heff'
      rwa [List.map_reverse, List.sum_reverse]
    have hbounds := takeBack_bounds (-delta) hrev heff'
    have hsum := sum_takeBack effective (-delta) hrev
    rw [if_neg hneg.ne, if_neg hneg.not_gt, int64_of_abs_le (by rwa [abs_neg]),
      if_neg (not_not.mpr hremaining)]
    refine ⟨_, rfl, ?_, ?_, ?_⟩
    · intro h
      omega
    · intro _ d hd
      exact hbounds d (List.mem_reverse.mpr hd)
    · intro _
      rw [List.map_reverse, List.sum_reverse, hremaining] at hsum
      omega
  · refine ⟨[], rfl, ?_, ?_, ?_⟩
    · intro h
      omega
    · intro _ d hd
      have := heff d hd
      simp only [allocatedOn_nil]
      omega
    · simp
  · rw [if_neg hpos.ne', if_pos hpos]
    refine ⟨_, rfl, ?_, ?_, ?_⟩
    · intro _ day
      rw [allocatedOn_cons, allocatedOn_nil]
    · intro h
      omega
    · intro h
      omega

/-- The sum of a function that is zero but for one day. -/
theorem sum_map_ite_day (hnodup : (days.map CalibrationDay.day).Nodup)
    {latest : CalibrationDay} (hlatest : latest ∈ days) (x : ℤ) :
    (days.map fun d => if d.day = latest.day then x else 0).sum = x := by
  have hmap : (days.map fun d => if d.day = latest.day then x else 0) =
      (days.map CalibrationDay.day).map fun day => if day = latest.day then x else 0 := by
    rw [List.map_map]
    rfl
  rw [hmap, List.sum_map_ite_eq, List.count_eq_one_of_mem hnodup (List.mem_map_of_mem hlatest)]
  simp [Function.comp_def]

/-- **When the days reach the target.**  After the delta between the target and the sum of the effective
usages is allocated, the due values of the days add up to the target exactly if the sum before did not
leave the 64-bit integers and, should something be added, the latest day was not below zero. -/
theorem sum_due_allocated_iff {latest : CalibrationDay}
    {raw delta effective : CalibrationDay → ℤ} {target : ℤ} {allocated : List (ℤ × ℤ)}
    (hlatest : latest ∈ days) (hnodup : (days.map CalibrationDay.day).Nodup)
    (htarget : target < maxInt64) (heff : ∀ d ∈ days, effective d ≤ due (raw d) (delta d))
    (halloc : Allocates days latest
      (target - min maxInt64 (days.map fun d => due (raw d) (delta d)).sum) effective
      allocated) :
    (days.map fun d => due (raw d) (delta d + allocatedOn allocated d.day)).sum = target ↔
      (days.map fun d => due (raw d) (delta d)).sum ≤ maxInt64 ∧
        (target ≤ (days.map fun d => due (raw d) (delta d)).sum ∨
          0 ≤ raw latest + delta latest) := by
  set total := (days.map fun d => due (raw d) (delta d)).sum with htotal
  obtain ⟨gap, hgap⟩ : ∃ gap, gap = target - min maxInt64 total := ⟨_, rfl⟩
  rw [← hgap] at halloc
  by_cases hpos : 0 < gap
  · -- the latest day gets everything
    have hsum : (days.map fun d => due (raw d) (delta d + allocatedOn allocated d.day)).sum =
        total + (due (raw latest) (delta latest + gap) - due (raw latest) (delta latest)) := by
      rw [htotal, ← sum_map_ite_day hnodup hlatest (due (raw latest) _ - _), ← List.sum_map_add]
      refine congrArg List.sum (List.map_congr_left fun d hd => ?_)
      rw [halloc.gives hpos]
      split_ifs with hday
      · rw [List.inj_on_of_nodup_map hnodup hd hlatest hday]
        omega
      · rw [add_zero, add_zero]
    rw [hsum]
    unfold due
    omega
  · -- what is taken from a day is taken from its due value
    have hsum : (days.map fun d => due (raw d) (delta d + allocatedOn allocated d.day)).sum =
        total + gap := by
      rw [htotal, ← halloc.sum (by omega), ← List.sum_map_add]
      refine congrArg List.sum (List.map_congr_left fun d hd => ?_)
      have h := halloc.takes (by omega) d hd
      have h' := heff d hd
      unfold due at h' ⊢
      omega
    rw [hsum]
    omega

end Traffic

end Komari
