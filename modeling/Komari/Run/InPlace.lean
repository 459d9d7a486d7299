import Mathlib.Data.List.Basic

/-!
# Filtering in place

A slice is filtered in place: its elements are examined one after the other, and those that are kept are
written to its beginning.
-/

namespace Komari

namespace Run

variable {α : Type*}

/-- The elements that were examined and kept. -/
def kept (examined : List (α × Bool)) : List α := (examined.filter Prod.snd).map Prod.fst

/-- The slice, when some elements were examined and others are left. -/
def overwritten (examined : List (α × Bool)) (rest : List α) : List α :=
  kept examined ++ (examined.map Prod.fst).drop (kept examined).length ++ rest

/-- No element is kept behind one that is not. -/
def Trailing (examined : List (α × Bool)) : Prop :=
  examined.Pairwise fun earlier later => later.2 = true → earlier.2 = true

instance (examined : List (α × Bool)) : Decidable (Trailing examined) :=
  inferInstanceAs (Decidable (List.Pairwise _ _))

@[simp] theorem kept_nil : kept ([] : List (α × Bool)) = [] := rfl

@[simp] theorem overwritten_nil (rest : List α) : overwritten [] rest = rest := rfl

@[simp] theorem kept_append_kept (examined : List (α × Bool)) (a : α) :
    kept (examined ++ [(a, true)]) = kept examined ++ [a] := by
  simp [kept]

@[simp] theorem kept_append_dropped (examined : List (α × Bool)) (a : α) :
    kept (examined ++ [(a, false)]) = kept examined := by
  simp [kept]

section

variable (examined : List (α × Bool))

include examined

theorem length_kept_le : (kept examined).length ≤ examined.length := by
  simpa [kept] using List.length_filter_le Prod.snd examined

theorem kept_sublist : (kept examined).Sublist (examined.map Prod.fst) :=
  List.filter_sublist.map Prod.fst

/-- What was overwritten ends before the elements that are left. -/
theorem drop_overwritten (rest : List α) :
    (overwritten examined rest).drop examined.length = rest := by
  have hle := length_kept_le examined
  apply List.drop_left'
  rw [List.length_append, List.length_drop, List.length_map]
  omega

theorem take_overwritten (rest : List α) :
    (overwritten examined rest).take (kept examined).length = kept examined := by
  rw [overwritten, List.append_assoc, List.take_left]

theorem length_overwritten (rest : List α) :
    (overwritten examined rest).length = examined.length + rest.length := by
  have hle := length_kept_le examined
  rw [overwritten, List.length_append, List.length_append, List.length_drop, List.length_map]
  omega

theorem getElem?_overwritten (rest : List α) :
    (overwritten examined rest)[examined.length]? = rest[0]? := by
  have hdrop := @List.getElem?_drop _ (overwritten examined rest) examined.length 0
  rw [drop_overwritten] at hdrop
  exact hdrop.symm

/-- An element is kept: it is written behind those that were kept before. -/
theorem overwritten_append_kept (a : α) (rest : List α) :
    overwritten (examined ++ [(a, true)]) rest =
      (overwritten examined (a :: rest)).set (kept examined).length a := by
  have hle : (kept examined).length ≤ (examined.map Prod.fst).length := by
    simpa using length_kept_le examined
  unfold overwritten
  simp only [kept_append_kept, List.map_append, List.length_append, List.append_assoc,
    List.set_append_right _ _ (Nat.le_refl _), Nat.sub_self]
  congr 1
  -- is there a gap between what was kept and the element?
  rcases Nat.eq_or_lt_of_le hle with heq | hlt
  · rw [heq, List.drop_of_length_le (Nat.le_refl _), List.drop_of_length_le (by simp)]
    simp
  · rw [List.length_singleton, List.drop_append_of_le_length (Nat.succ_le_of_lt hlt),
      List.drop_eq_getElem_cons hlt]
    simp

theorem overwritten_append_dropped (a : α) (rest : List α) :
    overwritten (examined ++ [(a, false)]) rest = overwritten examined (a :: rest) := by
  have hle : (kept examined).length ≤ (examined.map Prod.fst).length := by
    simpa using length_kept_le examined
  unfold overwritten
  rw [kept_append_dropped, List.map_append, List.drop_append_of_le_length hle]
  simp

end

/-- What is kept is the beginning of what was examined. -/
theorem Trailing.kept_prefix {examined : List (α × Bool)} (h : Trailing examined) :
    kept examined <+: examined.map Prod.fst := by
  induction examined with
  | nil => exact List.prefix_rfl
  | cons x examined ih =>
    obtain ⟨hx, htail⟩ := List.pairwise_cons.mp h
    obtain ⟨a, keep⟩ := x
    cases keep with
    | true => simpa [kept] using ih htail
    | false =>
      -- nothing behind it is kept
      have hnone : kept ((a, false) :: examined) = [] := by
        simp only [kept, List.map_eq_nil_iff, List.filter_eq_nil_iff, List.mem_cons, forall_eq_or_imp,
          Bool.false_eq_true, not_false_eq_true, true_and]
        exact fun y hy hkeep => absurd (hx y hy hkeep) Bool.false_ne_true
      rw [hnone]
      exact List.nil_prefix

/-- **The slice is what it was**, if only elements at the end were not kept. -/
theorem Trailing.overwritten_eq {examined : List (α × Bool)} (h : Trailing examined) (rest : List α) :
    overwritten examined rest = examined.map Prod.fst ++ rest := by
  obtain ⟨dropped, hdropped⟩ := h.kept_prefix
  rw [overwritten, ← hdropped, List.drop_left]

end Run

end Komari
