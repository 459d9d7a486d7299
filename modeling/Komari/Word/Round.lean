import Mathlib.Data.Rat.Floor
import Mathlib.Tactic.Linarith
import Mathlib.Tactic.FieldSimp

/-!
# Rounding fractions

Money is computed as a fraction and rounded once.  A division with remainder rounds toward zero; one
more unit is added when twice the remainder reaches the divisor.
-/

namespace Komari

/-- The nearest integer, away from zero in the middle between two. -/
def roundHalfAway (q : ℚ) : ℤ := if q < 0 then -⌊-q + 1 / 2⌋ else ⌊q + 1 / 2⌋

/-- The nearest integer, the even one in the middle between two. -/
def roundHalfEven (q : ℚ) : ℤ :=
  let down := ⌊q + 1 / 2⌋
  if q + 1 / 2 = down ∧ down % 2 = 1 then down - 1 else down

/-- The rounded fraction `num / den`, from the division with remainder toward zero. -/
def roundQuotient (num den : ℤ) : ℤ :=
  let quotient := num.tdiv den
  let remainder := num.tmod den
  if den ≤ 2 * |remainder| then (if num < 0 then quotient - 1 else quotient + 1) else quotient

@[simp] theorem roundHalfAway_zero : roundHalfAway 0 = 0 := by
  unfold roundHalfAway
  norm_num

theorem roundHalfAway_neg (q : ℚ) : roundHalfAway (-q) = -roundHalfAway q := by
  unfold roundHalfAway
  rcases lt_trichotomy q 0 with hneg | rfl | hpos
  · rw [if_neg (by linarith), if_pos hneg, neg_neg]
  · norm_num
  · rw [if_pos (by linarith), if_neg (by linarith), neg_neg]

/-- The nearest integer of a fraction that is not negative. -/
theorem roundHalfAway_of_nonneg {q : ℚ} (h : 0 ≤ q) : roundHalfAway q = ⌊q + 1 / 2⌋ :=
  if_neg h.not_gt

theorem roundHalfAway_nonneg {q : ℚ} (h : 0 ≤ q) : 0 ≤ roundHalfAway q := by
  rw [roundHalfAway_of_nonneg h]
  exact Int.floor_nonneg.mpr (by linarith)

theorem roundHalfAway_mem_Icc {q : ℚ} {low high : ℤ} (hlow : (low : ℚ) ≤ q) (hhigh : q ≤ high) :
    low ≤ roundHalfAway q ∧ roundHalfAway q ≤ high := by
  unfold roundHalfAway
  split_ifs with hneg
  · have hle : -high ≤ ⌊-q + 1 / 2⌋ := Int.le_floor.mpr (by push_cast; linarith)
    have hlt : ⌊-q + 1 / 2⌋ < -low + 1 := Int.floor_lt.mpr (by push_cast; linarith)
    omega
  · have hle : low ≤ ⌊q + 1 / 2⌋ := Int.le_floor.mpr (by linarith)
    have hlt : ⌊q + 1 / 2⌋ < high + 1 := Int.floor_lt.mpr (by push_cast; linarith)
    omega

/-- The division with remainder of a numerator that is not negative. -/
theorem roundQuotient_of_nonneg {num : ℤ} {den : ℕ} (hnum : 0 ≤ num) (hden : 0 < den) :
    roundQuotient num den = ⌊(num / den : ℚ) + 1 / 2⌋ := by
  have hden' : (den : ℚ) ≠ 0 := by exact_mod_cast hden.ne'
  have hsum : (num / den : ℚ) + 1 / 2 = ((2 * num + den : ℤ) : ℚ) / ((2 * den : ℕ) : ℚ) := by
    push_cast
    field_simp
  rw [hsum, Rat.floor_intCast_div_natCast]
  unfold roundQuotient
  rw [Int.tdiv_eq_ediv_of_nonneg hnum, Int.tmod_eq_emod_of_nonneg hnum]
  dsimp only
  have hlow := Int.emod_nonneg num (b := den) (by omega)
  have hhigh := Int.emod_lt_of_pos num (b := den) (by omega)
  have hdiv := Int.mul_ediv_add_emod num den
  rw [abs_of_nonneg hlow, if_neg hnum.not_gt]
  generalize num / (den : ℤ) = k at hdiv ⊢
  generalize num % (den : ℤ) = r at hlow hhigh hdiv ⊢
  have htwo : 2 * num + den = (2 * r + den) + k * ((2 * den : ℕ) : ℤ) := by
    push_cast
    rw [← hdiv]
    ring
  rw [htwo, Int.add_mul_ediv_right _ _ (by omega)]
  by_cases hhalf : (den : ℤ) ≤ 2 * r
  · have hone : (2 * r + den) / ((2 * den : ℕ) : ℤ) = 1 := by
      rw [Int.ediv_eq_iff_of_pos (by omega)]
      omega
    rw [if_pos hhalf, hone]
    omega
  · have hzero : (2 * r + den) / ((2 * den : ℕ) : ℤ) = 0 := by
      rw [Int.ediv_eq_iff_of_pos (by omega)]
      omega
    rw [if_neg hhalf, hzero]
    omega

theorem roundQuotient_neg {num : ℤ} {den : ℕ} (hden : 0 < den) :
    roundQuotient (-num) den = -roundQuotient num den := by
  unfold roundQuotient
  dsimp only
  rw [Int.neg_tdiv, Int.neg_tmod, abs_neg]
  rcases lt_trichotomy num 0 with h | rfl | h
  · rw [if_neg (show ¬-num < 0 by omega), if_pos h]
    split_ifs <;> omega
  · have hzero : ¬(den : ℤ) ≤ 2 * |(0 : ℤ).tmod den| := by
      rw [Int.zero_tmod, abs_zero]
      omega
    rw [if_neg hzero]
    omega
  · rw [if_pos (show -num < 0 by omega), if_neg (show ¬num < 0 by omega)]
    split_ifs <;> omega

/-- **The division with remainder rounds half away from zero.** -/
theorem roundQuotient_eq (q : ℚ) : roundQuotient q.num q.den = roundHalfAway q := by
  have key : ∀ p : ℚ, 0 ≤ p → roundQuotient p.num p.den = roundHalfAway p := by
    intro p hp
    rw [roundQuotient_of_nonneg (Rat.num_nonneg.mpr hp) p.den_pos, Rat.num_div_den,
      roundHalfAway_of_nonneg hp]
  rcases le_total 0 q with h | h
  · exact key q h
  · have hneg := key (-q) (by linarith)
    rw [Rat.neg_num, Rat.neg_den, roundQuotient_neg q.den_pos, roundHalfAway_neg] at hneg
    exact neg_injective hneg

end Komari
