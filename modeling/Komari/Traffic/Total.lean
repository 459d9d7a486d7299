import Mathlib.Algebra.Order.Group.Unbundled.Int
import Mathlib.Tactic.Linarith
import Komari.Traffic.FirstDay

/-!
# Billable totals

A counting type turns the two directions of a usage into one total.  `calibrationTargetsForTotal`
goes the other way: it finds directions with a given total that stay close to the current ones.
-/

namespace Komari

namespace Traffic

open TrafficReset

/-- The letter that `strings.ToLower` makes of a character, as far as it decides whether the result is
one of the letters a to z. -/
def lowerChar (c : Char) : Char :=
  if c = Char.ofNat 0x130 then 'i' else if c = Char.ofNat 0x212A then 'k' else c.toLower

/-- `strings.ToLower(strings.TrimSpace(kind))`. -/
def foldKind (kind : String) : String :=
  String.ofList ((trimSpace kind).toList.map lowerChar)

/-- What a total counts. -/
def countingTypes : List String := ["up", "down", "sum", "min", "max"]

/-- The type, or the default. -/
def normalizedCountingType (kind : String) : String :=
  let kind := foldKind kind
  if kind ∈ countingTypes then kind else "max"

/-- What counts of both directions. -/
def billableUsage (kind : String) (up down : ℤ) : ℤ :=
  match normalizedCountingType kind with
  | "up" => up
  | "down" => down
  | "sum" => saturatingAdd up down
  | "min" => if up < down then up else down
  | _ => if down < up then up else down

/-- What counts of both directions. -/
abbrev Usage.billable (kind : String) (u : Usage) : ℤ := billableUsage kind u.up u.down

/-- A total as targets for both directions. -/
def calibrationTargetsForTotal (kind : String) (current : Usage) (target : ℤ) :
    Except String Usage :=
  if target < 0 ∨ current.up < 0 ∨ current.down < 0 then
    .error "traffic totals cannot be negative"
  else
    match foldKind kind with
    | "sum" =>
      let sum := current.up + current.down
      if sum = 0 then .ok ⟨target, 0⟩
      else
        let up := (target * current.up).tdiv sum
        .ok ⟨up, target - up⟩
    | "up" => .ok { current with up := target }
    | "down" => .ok { current with down := target }
    | "max" =>
      if current.down ≤ current.up then .ok ⟨target, min current.down target⟩
      else .ok ⟨min current.up target, target⟩
    | "min" =>
      if current.up ≤ current.down then .ok ⟨target, max current.down target⟩
      else .ok ⟨max current.up target, target⟩
    | _ => .error "unsupported traffic counting type"

theorem foldKind_of_mem {kind : String} (h : kind ∈ countingTypes) : foldKind kind = kind := by
  revert kind
  decide +kernel

theorem normalizedCountingType_of_mem {kind : String} (h : kind ∈ countingTypes) :
    normalizedCountingType kind = kind := by
  rw [normalizedCountingType, foldKind_of_mem h, if_pos h]

theorem normalizedCountingType_mem (kind : String) :
    normalizedCountingType kind ∈ countingTypes := by
  unfold normalizedCountingType
  dsimp only
  split_ifs with h
  · exact h
  · decide

theorem saturatingAdd_of_eq {left right total : ℤ} (h : left + right = total) (hnonneg : 0 ≤ total)
    (hmax : total ≤ maxInt64) : saturatingAdd left right = total := by
  subst h
  have hmin : minInt64 ≤ 0 := by decide
  rw [saturatingAdd_eq hmax, addInt64, int64_eq_self ⟨hmin.trans hnonneg, hmax⟩]

/-- The upload part of a total, in proportion to the current directions. -/
theorem proportion_bounds {target up down : ℤ} (hup : 0 ≤ up) (hdown : 0 ≤ down)
    (hsum : up + down ≠ 0) (htarget : 0 ≤ target) :
    0 ≤ (target * up).tdiv (up + down) ∧ (target * up).tdiv (up + down) ≤ target := by
  have hprod : 0 ≤ target * up := mul_nonneg htarget hup
  rw [Int.tdiv_eq_ediv_of_nonneg hprod]
  refine ⟨Int.ediv_nonneg hprod (by omega), Int.ediv_le_of_le_mul (by omega) ?_⟩
  exact mul_le_mul_of_nonneg_left (by omega) htarget

/-- The directions that are found for a total are not negative and have this total. -/
theorem billableUsage_calibrationTargetsForTotal {kind : String} (hkind : kind ∈ countingTypes)
    {current : Usage} {target : ℤ} (hup : 0 ≤ current.up) (hdown : 0 ≤ current.down)
    (htarget : 0 ≤ target) (hmax : target ≤ maxInt64) :
    ∃ result, calibrationTargetsForTotal kind current target = .ok result ∧ 0 ≤ result.up ∧
      0 ≤ result.down ∧ result.billable kind = target := by
  unfold calibrationTargetsForTotal Usage.billable billableUsage
  rw [if_neg (by omega), foldKind_of_mem hkind, normalizedCountingType_of_mem hkind]
  simp only [countingTypes, List.mem_cons, List.not_mem_nil, or_false] at hkind
  rcases hkind with rfl | rfl | rfl | rfl | rfl
  · exact ⟨_, rfl, htarget, hdown, rfl⟩
  · exact ⟨_, rfl, hup, htarget, rfl⟩
  · show ∃ result : Usage, (if current.up + current.down = 0 then _ else _) = _ ∧ 0 ≤ result.up ∧
      0 ≤ result.down ∧ saturatingAdd result.up result.down = target
    split_ifs with hsum
    · exact ⟨_, rfl, htarget, le_rfl, saturatingAdd_of_eq (add_zero target) htarget hmax⟩
    · obtain ⟨hlow, hhigh⟩ := proportion_bounds hup hdown hsum htarget
      exact ⟨_, rfl, hlow, sub_nonneg.mpr hhigh,
        saturatingAdd_of_eq (add_sub_cancel _ target) htarget hmax⟩
  · show ∃ result : Usage, (if current.up ≤ current.down then _ else _) = _ ∧ 0 ≤ result.up ∧
      0 ≤ result.down ∧ (if result.up < result.down then result.up else result.down) = target
    split_ifs with hle
    · refine ⟨_, rfl, htarget, le_max_of_le_left hdown, ?_⟩
      dsimp only
      split_ifs <;> omega
    · refine ⟨_, rfl, le_max_of_le_left hup, htarget, ?_⟩
      dsimp only
      split_ifs <;> omega
  · show ∃ result : Usage, (if current.down ≤ current.up then _ else _) = _ ∧ 0 ≤ result.up ∧
      0 ≤ result.down ∧ (if result.down < result.up then result.up else result.down) = target
    split_ifs with hle
    · refine ⟨_, rfl, htarget, le_min hdown htarget, ?_⟩
      dsimp only
      split_ifs <;> omega
    · refine ⟨_, rfl, le_min hup htarget, htarget, ?_⟩
      dsimp only
      split_ifs <;> omega

end Traffic

end Komari
