import Komari.Table.Basic
import Mathlib.Algebra.BigOperators.Group.List.Basic
import Mathlib.Algebra.Order.Group.Abs
import Mathlib.Algebra.Order.Group.Int
import Mathlib.Tactic.Abel

/-!
# Grouping rows by a key

A report runs over rows once and keeps one value for each key.
-/

namespace Komari

variable {κ α β : Type*} [DecidableEq κ]

namespace Table

/-- One value for each key: rows of a new key start from `start`, and every row is added with `f`. -/
def collect (key : β → κ) (start : β → α) (f : α → β → α) (t : Table κ α) (rows : List β) :
    Table κ α :=
  rows.foldl (fun t row => t.upsert (key row) (f ((t.find? (key row)).getD (start row)) row)) t

variable {key : β → κ} {start : β → α} {f : α → β → α}

@[simp] theorem collect_nil (t : Table κ α) : t.collect key start f [] = t := rfl

theorem collect_cons (t : Table κ α) (row : β) (rows : List β) :
    t.collect key start f (row :: rows) =
      (t.upsert (key row) (f ((t.find? (key row)).getD (start row)) row)).collect key start f rows :=
  rfl

/-- A key that is there keeps collecting its rows. -/
theorem find?_collect_some {t : Table κ α} {k : κ} {value : α} (h : t.find? k = some value)
    (rows : List β) : (t.collect key start f rows).find? k =
      some ((rows.filter fun row => key row = k).foldl f value) := by
  induction rows generalizing t value with
  | nil => exact h
  | cons row rows ih =>
    rw [collect_cons]
    by_cases hk : key row = k
    · rw [List.filter_cons_of_pos (by simpa using hk), List.foldl_cons]
      refine ih ?_
      rw [hk, h, Option.getD_some, find?_upsert_self]
    · rw [List.filter_cons_of_neg (by simpa using hk)]
      refine ih ?_
      rwa [find?_upsert_ne (Ne.symm hk)]

/-- **The value of a key is made of its rows.** -/
theorem find?_collect (k : κ) (rows : List β) :
    ((∅ : Table κ α).collect key start f rows).find? k =
      ((rows.filter fun row => key row = k).head?).map fun first =>
        (rows.filter fun row => key row = k).foldl f (start first) := by
  suffices h : ∀ t : Table κ α, t.find? k = none → (t.collect key start f rows).find? k =
      ((rows.filter fun row => key row = k).head?).map fun first =>
        (rows.filter fun row => key row = k).foldl f (start first) from h ∅ rfl
  intro t hnone
  induction rows generalizing t with
  | nil => exact hnone
  | cons row rows ih =>
    rw [collect_cons]
    by_cases hk : key row = k
    · rw [List.filter_cons_of_pos (by simpa using hk), List.head?_cons, Option.map_some,
        List.foldl_cons, hk, hnone, Option.getD_none, find?_collect_some (find?_upsert_self _ _ _)]
    · rw [List.filter_cons_of_neg (by simpa using hk)]
      refine ih _ ?_
      rwa [find?_upsert_ne (Ne.symm hk)]

/-- Where all keys start from one value, a key without rows keeps it. -/
theorem getD_find?_collect {base : α} (hstart : ∀ row, start row = base) (t : Table κ α) (k : κ)
    (rows : List β) : ((t.collect key start f rows).find? k).getD base =
      (rows.filter fun row => key row = k).foldl f ((t.find? k).getD base) := by
  induction rows generalizing t with
  | nil => rfl
  | cons row rows ih =>
    rw [collect_cons, ih, hstart]
    by_cases hk : key row = k
    · rw [List.filter_cons_of_pos (by simpa using hk), List.foldl_cons, hk, find?_upsert_self,
        Option.getD_some]
    · rw [List.filter_cons_of_neg (by simpa using hk), find?_upsert_ne (Ne.symm hk)]

/-- A key that is not in the rows is not added. -/
theorem find?_collect_of_forall_ne {t : Table κ α} {k : κ} {rows : List β}
    (h : ∀ row ∈ rows, key row ≠ k) : (t.collect key start f rows).find? k = t.find? k := by
  induction rows generalizing t with
  | nil => rfl
  | cons row rows ih =>
    obtain ⟨hrow, hrows⟩ := List.forall_mem_cons.mp h
    rw [collect_cons, ih hrows, find?_upsert_ne (Ne.symm hrow)]

theorem find?_collect_of_mem {k : κ} {rows : List β} {row : β} (hmem : row ∈ rows)
    (hk : key row = k) : ∃ first ∈ rows, key first = k ∧
      ((∅ : Table κ α).collect key start f rows).find? k =
        some ((rows.filter fun row => key row = k).foldl f (start first)) := by
  have hin : row ∈ rows.filter fun row => key row = k :=
    List.mem_filter.mpr ⟨hmem, by simpa using hk⟩
  rw [find?_collect]
  cases hhead : (rows.filter fun row => key row = k).head? with
  | none =>
    rw [List.head?_eq_none_iff] at hhead
    rw [hhead] at hin
    cases hin
  | some first =>
    obtain ⟨hfirst, hkey⟩ := List.mem_filter.mp (List.mem_of_mem_head? hhead)
    exact ⟨first, hfirst, by simpa using hkey, rfl⟩

/-- A table with a single key has a single row. -/
theorem rows_eq_singleton {t : Table κ α} {k : κ} {value : α} (h : t.find? k = some value)
    (hother : ∀ k', k' ≠ k → t.find? k' = none) : t.rows = [(k, value)] := by
  refine List.perm_singleton.mp ((List.perm_ext_iff_of_nodup t.nodup_rows
    (List.nodup_singleton _)).mpr ?_)
  rintro ⟨k', value'⟩
  rw [mem_rows, List.mem_singleton, Prod.mk.injEq]
  by_cases hk : k' = k
  · subst hk
    rw [h, Option.some.injEq, eq_comm]
    exact ⟨fun heq => ⟨rfl, heq⟩, fun heq => heq.2⟩
  · rw [hother k' hk]
    exact ⟨fun heq => (Option.some_ne_none _ heq.symm).elim, fun heq => absurd heq.1 hk⟩

end Table

/-! ### Sums by key -/

/-- **Summing the sums of the keys sums all rows.** -/
theorem sum_keys {keys : List κ} (hkeys : keys.Nodup) (key : β → κ) (amount : β → ℤ) (rows : List β)
    (hcover : ∀ row ∈ rows, key row ∈ keys) :
    (keys.map fun k => ((rows.filter fun row => key row = k).map amount).sum).sum =
      (rows.map amount).sum := by
  induction rows with
  | nil => simp
  | cons row rows ih =>
    obtain ⟨hrow, hrows⟩ := List.forall_mem_cons.mp hcover
    -- the row counts for its own key only
    have hsplit : ∀ k, (((row :: rows).filter fun row => key row = k).map amount).sum =
        (if key row = k then amount row else 0) +
          ((rows.filter fun row => key row = k).map amount).sum := by
      intro k
      by_cases hk : key row = k
      · rw [List.filter_cons_of_pos (by simpa using hk), if_pos hk, List.map_cons, List.sum_cons]
      · rw [List.filter_cons_of_neg (by simpa using hk), if_neg hk, zero_add]
    have hone : (keys.map fun k => if key row = k then amount row else 0).sum = amount row := by
      rw [show (fun k => if key row = k then amount row else 0) = fun k => if k = key row then
        amount row else 0 from funext fun k => by simp only [eq_comm], List.sum_map_ite_eq]
      simp [List.count_eq_one_of_mem hkeys hrow]
    rw [funext hsplit, List.sum_map_add, hone, ih hrows, List.map_cons, List.sum_cons]

omit [DecidableEq κ] in
/-- The sum of some rows is at most the sum of the sizes of all. -/
theorem abs_sum_filter_le (amount : β → ℤ) (p : β → Bool) (rows : List β) :
    |((rows.filter p).map amount).sum| ≤ (rows.map fun row => |amount row|).sum := by
  induction rows with
  | nil => simp
  | cons row rows ih =>
    rw [List.map_cons, List.sum_cons]
    cases hp : p row with
    | false =>
      rw [List.filter_cons_of_neg (by simp [hp])]
      have := abs_nonneg (amount row)
      omega
    | true =>
      rw [List.filter_cons_of_pos hp, List.map_cons, List.sum_cons]
      have := abs_add_le (amount row) ((rows.filter p).map amount).sum
      omega

end Komari
