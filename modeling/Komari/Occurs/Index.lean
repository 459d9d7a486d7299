import Mathlib.Data.List.Infix
import Mathlib.Order.MinMax

/-!
# The first occurrence of a word
-/

namespace Komari

namespace Occurs

variable {α : Type*}

/-! ### The first occurrence -/

section Index

variable [DecidableEq α]

/-- The place at which a word occurs first. -/
def index (word : List α) : List α → Option ℕ
  | [] => if word = [] then some 0 else none
  | c :: s => if word <+: c :: s then some 0 else (index word s).map (· + 1)

variable {word s : List α}

theorem index_cons_of_occurs {c : α} (h : word <+: c :: s) : index word (c :: s) = some 0 := by
  rw [index, if_pos h]

theorem index_cons_of_not {c : α} (h : ¬word <+: c :: s) :
    index word (c :: s) = (index word s).map (· + 1) := by
  rw [index, if_neg h]

/-- A word does not begin among letters that it does not have. -/
theorem index_append_of_foreign (hword : word ≠ []) {u : List α} (hu : ∀ b ∈ u, b ∉ word) (s : List α) :
    index word (u ++ s) = (index word s).map (· + u.length) := by
  induction u with
  | nil => simp
  | cons b u ih =>
    have hnot : ¬word <+: b :: (u ++ s) := by
      intro hocc
      obtain ⟨a, word', rfl⟩ := List.exists_cons_of_ne_nil hword
      rw [List.cons_prefix_cons] at hocc
      exact hu b List.mem_cons_self (hocc.1 ▸ List.mem_cons_self)
    rw [List.cons_append, index_cons_of_not hnot,
      ih fun c hc => hu c (List.mem_cons_of_mem b hc), Option.map_map]
    congr 1

end Index

/-! ### Insertions -/

/-- A text with some letters inserted at a place. -/
def insertAt (i : ℕ) (new s : List α) : List α := s.take i ++ new ++ s.drop i

/-- What stands between two places. -/
def between (i j : ℕ) (s : List α) : List α := (s.take (max i j)).drop (min i j)

theorem between_comm (i j : ℕ) (s : List α) : between i j s = between j i s := by
  rw [between, between, max_comm, min_comm]

@[simp] theorem between_self (i : ℕ) (s : List α) : between i i s = [] := by
  simp [between]

theorem insertAt_eq_of_le {i j : ℕ} (hij : i ≤ j) (new s : List α) :
    insertAt i new s = insertAt j new s ↔ new ++ between i j s = between i j s ++ new := by
  have htake : s.take j = s.take i ++ between i j s := by
    rw [between, max_eq_right hij, min_eq_left hij]
    conv_lhs => rw [← List.take_append_drop i (s.take j), List.take_take, min_eq_left hij]
  have hdrop : s.drop i = between i j s ++ s.drop j := by
    have h₁ := List.take_append_drop j s
    rw [htake, List.append_assoc] at h₁
    have h₂ := List.take_append_drop i s
    exact List.append_cancel_left (h₂.trans h₁.symm)
  rw [insertAt, insertAt, htake, hdrop]
  simp only [List.append_assoc, List.append_cancel_left_eq]
  rw [← List.append_assoc, ← List.append_assoc, List.append_cancel_right_eq]

/-- An insertion gives the same text at two places exactly if what is inserted commutes with what is between
them. -/
theorem insertAt_eq_iff (i j : ℕ) (new s : List α) :
    insertAt i new s = insertAt j new s ↔ new ++ between i j s = between i j s ++ new := by
  rcases le_total i j with h | h
  · exact insertAt_eq_of_le h new s
  · rw [eq_comm, insertAt_eq_of_le h, between_comm]

end Occurs

end Komari
