import Mathlib.Algebra.Order.Group.Int
import Mathlib.Logic.Function.Iterate
import Mathlib.Data.Set.Card
import Mathlib.Tactic.Linarith

/-!
# Climbing by iteration

Iterating a function that goes up in small enough steps reaches a bound.
-/

namespace Komari

variable {f : ℤ → ℤ}

/-- The first `n` iterations from `x` go up. -/
def Climbs (f : ℤ → ℤ) (x : ℤ) (n : ℕ) : Prop := ∀ i < n, f^[i] x < f^[i + 1] x

theorem Climbs.lt {x : ℤ} {n : ℕ} (h : Climbs f x n) {i j : ℕ} (hij : i < j) (hj : j ≤ n) :
    f^[i] x < f^[j] x := by
  induction j, hij using Nat.le_induction with
  | base => exact h i (by omega)
  | succ j hij ih => exact (ih (by omega)).trans (h j (by omega))

theorem Climbs.le {x : ℤ} {n : ℕ} (h : Climbs f x n) {i j : ℕ} (hij : i ≤ j) (hj : j ≤ n) :
    f^[i] x ≤ f^[j] x := by
  rcases hij.eq_or_lt with rfl | hlt
  · exact le_rfl
  · exact (h.lt hlt hj).le

theorem climbs_succ {x : ℤ} {n : ℕ} (hx : x < f x) (h : Climbs f (f x) n) : Climbs f x (n + 1) := by
  intro i hi
  cases i with
  | zero => exact hx
  | succ i => exact h i (by omega)

/-- **Steps that go up, and not past the bound, reach the bound.** -/
theorem exists_climb {p : ℤ → Prop} {bound : ℤ}
    (hstep : ∀ x, p x → x < bound → p (f x) ∧ x < f x ∧ f x ≤ bound) {x : ℤ} (hx : p x)
    (hle : x ≤ bound) : ∃ n, Climbs f x n ∧ f^[n] x = bound := by
  -- the distance to the bound shrinks
  obtain ⟨k, hk⟩ : ∃ k : ℕ, bound - x ≤ k := ⟨(bound - x).toNat, by omega⟩
  induction k generalizing x with
  | zero => exact ⟨0, fun i hi => absurd hi (by omega), show x = bound by omega⟩
  | succ k ih =>
    rcases hle.eq_or_lt with rfl | hlt
    · exact ⟨0, fun i hi => absurd hi (by omega), rfl⟩
    · obtain ⟨hp, hup, hle'⟩ := hstep x hx hlt
      obtain ⟨n, hclimb, hn⟩ := ih hp hle' (by omega)
      exact ⟨n + 1, climbs_succ hup hclimb, hn⟩

/-- A climb meets as many points as it has steps. -/
theorem Climbs.ncard_image {x : ℤ} {n : ℕ} (h : Climbs f x n) :
    ((fun i => f^[i] x) '' Set.Iio n).ncard = n := by
  rw [Set.InjOn.ncard_image, ← Finset.coe_range, Set.ncard_coe_finset, Finset.card_range]
  intro i hi j hj heq
  rcases lt_trichotomy i j with hlt | rfl | hlt
  · exact absurd heq (h.lt hlt (Set.mem_Iio.mp hj).le).ne
  · rfl
  · exact absurd heq (h.lt hlt (Set.mem_Iio.mp hi).le).ne'

end Komari
