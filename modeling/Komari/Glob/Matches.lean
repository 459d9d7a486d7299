import Mathlib.Data.List.Basic
import Mathlib.Data.List.Infix

/-!
# Patterns with a wildcard

A pattern is a word in which one letter, the wildcard, stands for any word.
-/

namespace Komari

namespace Glob

variable {α : Type*} {star : α}

/-- The word is the pattern with some word in place of each wildcard. -/
inductive Matches (star : α) : List α → List α → Prop
  | nil : Matches star [] []
  | letter {a : α} {p s : List α} (ha : a ≠ star) : Matches star p s → Matches star (a :: p) (a :: s)
  | star {p s : List α} (t : List α) : Matches star p s → Matches star (star :: p) (t ++ s)

theorem matches_nil_left_iff {s : List α} : Matches star [] s ↔ s = [] := by
  constructor
  · rintro ⟨⟩
    rfl
  · rintro rfl
    exact .nil

theorem matches_star_cons_iff {p s : List α} :
    Matches star (star :: p) s ↔ ∃ n, Matches star p (s.drop n) := by
  constructor
  · intro h
    cases h with
    | letter ha => exact absurd rfl ha
    | star t h => exact ⟨t.length, by simpa using h⟩
  · rintro ⟨n, h⟩
    have := Matches.star (s.take n) h
    rwa [List.take_append_drop] at this

theorem matches_cons_iff {a : α} (ha : a ≠ star) {p s : List α} :
    Matches star (a :: p) s ↔ ∃ t, s = a :: t ∧ Matches star p t := by
  constructor
  · intro h
    cases h with
    | letter _ h => exact ⟨_, rfl, h⟩
    | star => exact absurd rfl ha
  · rintro ⟨t, rfl, h⟩
    exact .letter ha h

theorem matches_cons_cons_iff {a b : α} (ha : a ≠ star) {p s : List α} :
    Matches star (a :: p) (b :: s) ↔ a = b ∧ Matches star p s := by
  rw [matches_cons_iff ha]
  constructor
  · rintro ⟨t, heq, h⟩
    cases heq
    exact ⟨rfl, h⟩
  · rintro ⟨rfl, h⟩
    exact ⟨s, rfl, h⟩

theorem matches_nil_right_iff {p : List α} : Matches star p [] ↔ ∀ a ∈ p, a = star := by
  induction p with
  | nil => simp [matches_nil_left_iff]
  | cons a p ih =>
    by_cases ha : a = star
    · subst ha
      simp [matches_star_cons_iff, ih]
    · simp [matches_cons_iff ha, ha]

theorem matches_append_iff {w : List α} (hw : star ∉ w) {p s : List α} :
    Matches star (w ++ p) s ↔ ∃ t, s = w ++ t ∧ Matches star p t := by
  induction w generalizing s with
  | nil => simp
  | cons a w ih =>
    rw [List.mem_cons, not_or] at hw
    rw [List.cons_append, matches_cons_iff (Ne.symm hw.1)]
    constructor
    · rintro ⟨u, rfl, h⟩
      obtain ⟨t, rfl, ht⟩ := (ih hw.2).mp h
      exact ⟨t, rfl, ht⟩
    · rintro ⟨t, rfl, ht⟩
      exact ⟨w ++ t, rfl, (ih hw.2).mpr ⟨t, rfl, ht⟩⟩

theorem matches_self {w : List α} (hw : star ∉ w) : Matches star w w := by
  have := (matches_append_iff hw (p := []) (s := w)).mpr ⟨[], by simp, .nil⟩
  rwa [List.append_nil] at this

theorem matches_iff_eq {w : List α} (hw : star ∉ w) {s : List α} : Matches star w s ↔ s = w := by
  have := matches_append_iff hw (p := []) (s := s)
  simpa [matches_nil_left_iff] using this

variable [DecidableEq α]

/-- A pattern has no more letters other than the wildcard than the word. -/
theorem Matches.literals_le {p s : List α} (h : Matches star p s) :
    p.countP (· ≠ star) ≤ s.countP (· ≠ star) := by
  induction h with
  | nil => simp
  | letter ha _ ih => simpa [List.countP_cons, ha] using ih
  | star t _ ih => simpa [List.countP_cons] using ih.trans (Nat.le_add_left _ _)

/-- What a pattern has after a word that covers all that is matched are wildcards. -/
theorem Matches.matches_nil {w p s : List α} (h : Matches star (w ++ p) s) (hs : s <:+ w) :
    Matches star p [] := by
  have hle := h.literals_le.trans (hs.sublist.countP_le)
  rw [List.countP_append] at hle
  have hzero : p.countP (· ≠ star) = 0 := by omega
  rw [List.countP_eq_zero] at hzero
  exact matches_nil_right_iff.mpr fun a ha => by simpa using hzero a ha

end Glob

end Komari
