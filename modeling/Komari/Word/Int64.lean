import Mathlib

/-!
# Signed 64-bit arithmetic on integers

Fixed-width integers of a program are kept as integers; an operation that can overflow wraps its
result around with `int64`.
-/

namespace Komari

def maxInt64 : ℤ := 2 ^ 63 - 1

def minInt64 : ℤ := -2 ^ 63

/-- The integers that a signed 64-bit word holds. -/
def InInt64 (x : ℤ) : Prop := minInt64 ≤ x ∧ x ≤ maxInt64

instance (x : ℤ) : Decidable (InInt64 x) := inferInstanceAs (Decidable (_ ∧ _))

/-- The signed 64-bit word that agrees with `x` modulo `2 ^ 64`. -/
def int64 (x : ℤ) : ℤ := x.bmod (2 ^ 64)

/-- Addition in a machine word. -/
def addInt64 (x y : ℤ) : ℤ := int64 (x + y)

/-- Subtraction in a machine word. -/
def subInt64 (x y : ℤ) : ℤ := int64 (x - y)

theorem int64_eq_self {x : ℤ} (h : InInt64 x) : int64 x = x := by
  obtain ⟨hl, hu⟩ := h
  unfold minInt64 at hl
  unfold maxInt64 at hu
  exact Int.bmod_eq_of_le (by omega) (by omega)

theorem inInt64_int64 (x : ℤ) : InInt64 (int64 x) := by
  have hlt : int64 x < (((2 ^ 64 : ℕ) : ℤ) + 1) / 2 := Int.bmod_lt (Nat.two_pow_pos 64)
  have hle : -(((2 ^ 64 : ℕ) : ℤ) / 2) ≤ int64 x := Int.le_bmod (Nat.two_pow_pos 64)
  constructor
  · unfold minInt64
    omega
  · unfold maxInt64
    omega

@[simp] theorem int64_zero : int64 0 = 0 := by decide

@[simp] theorem int64_int64_add (x y : ℤ) : int64 (int64 x + y) = int64 (x + y) :=
  Int.bmod_add_bmod

@[simp] theorem int64_add_int64 (x y : ℤ) : int64 (x + int64 y) = int64 (x + y) :=
  Int.add_bmod_bmod

/-- A word does not see multiples of `2 ^ 64`. -/
theorem int64_add_mul (x k : ℤ) : int64 (x + 2 ^ 64 * k) = int64 x :=
  Int.add_mul_bmod_self_left x (2 ^ 64) k

/-- Words that agree differ by a multiple of `2 ^ 64`. -/
theorem int64_eq_int64_iff {x y : ℤ} : int64 x = int64 y ↔ (2 ^ 64 : ℤ) ∣ x - y := by
  unfold int64
  rw [Int.bmod_eq_bmod_iff_bmod_sub_eq_zero, ← Int.dvd_iff_bmod_eq_zero]
  rfl

/-- The wrapping sum of a list, from left to right. -/
def sumInt64 (l : List ℤ) : ℤ := l.foldl addInt64 0

theorem foldl_addInt64 (l : List ℤ) (x : ℤ) : l.foldl addInt64 (int64 x) = int64 (x + l.sum) := by
  induction l generalizing x with
  | nil => simp
  | cons y l ih =>
    rw [List.foldl_cons, addInt64, int64_int64_add, ih, List.sum_cons, add_assoc]

/-- Wrapping after every addition is the same as wrapping the sum once. -/
theorem sumInt64_eq (l : List ℤ) : sumInt64 l = int64 l.sum := by
  have h := foldl_addInt64 l 0
  rwa [int64_zero, zero_add] at h

end Komari
