import Mathlib.Algebra.BigOperators.Group.List.Basic
import Komari.Table.Basic

/-!
# Sums over the rows of a table, and maps of rows
-/

namespace Komari

namespace Table

variable {κ α β M : Type*}

/-! ### Sums of weights -/

section Total

variable [AddCommMonoid M] {w : κ → α → M}

/-- The sum of the weights of all rows. -/
def total (w : κ → α → M) (t : Table κ α) : M := (t.rows.map fun r => w r.1 r.2).sum

@[simp] theorem total_empty : total w (∅ : Table κ α) = 0 := rfl

theorem sum_filter_add (p : κ × α → Bool) (l : List (κ × α)) :
    ((l.filter fun r => !p r).map fun r => w r.1 r.2).sum +
      ((l.filter p).map fun r => w r.1 r.2).sum = (l.map fun r => w r.1 r.2).sum := by
  induction l with
  | nil => simp
  | cons r l ih =>
    rw [List.map_cons, List.sum_cons, ← ih]
    cases hp : p r with
    | true => simp [hp, add_left_comm]
    | false => simp [hp, add_assoc]

theorem total_deleteWhere (p : κ → α → Bool) (t : Table κ α) :
    total w (t.deleteWhere p) + ((t.rows.filter fun r => p r.1 r.2).map fun r => w r.1 r.2).sum =
      total w t := by
  rw [total, rows_deleteWhere]
  exact sum_filter_add (fun r => p r.1 r.2) t.rows

/-- A sum splits into the rows that a deletion leaves and those that it removes. -/
theorem total_split (p : κ → Bool) (t : Table κ α) :
    total w t = total w (t.deleteWhere fun k _ => p k) +
      total w (t.deleteWhere fun k _ => !p k) := by
  rw [← total_deleteWhere (fun k _ => p k) t]
  congr 1
  rw [total, rows_deleteWhere]
  simp only [Bool.not_not]

variable {t : Table κ α}

theorem total_deleteWhere_of_zero {p : κ → α → Bool}
    (h : ∀ k v, (k, v) ∈ t.rows → p k v = true → w k v = 0) :
    total w (t.deleteWhere p) = total w t := by
  rw [← total_deleteWhere p t, List.sum_eq_zero, add_zero]
  intro x hx
  obtain ⟨r, hr, rfl⟩ := List.mem_map.mp hx
  obtain ⟨hr, hp⟩ := List.mem_filter.mp hr
  exact h r.1 r.2 hr hp

variable [DecidableEq κ]

/-- Without a key. -/
def erase (t : Table κ α) (k : κ) : Table κ α := t.deleteWhere fun k' _ => k' == k

theorem rows_perm_of_find? {k : κ} {v : α} (h : t.find? k = some v) :
    t.rows.Perm ((k, v) :: (t.erase k).rows) := by
  have hnd : ((k, v) :: (t.erase k).rows).Nodup := by
    refine List.nodup_cons.mpr ⟨fun hmem => ?_, nodup_rows _⟩
    rw [erase, rows_deleteWhere, List.mem_filter] at hmem
    simp at hmem
  refine (List.perm_ext_iff_of_nodup (nodup_rows _) hnd).mpr fun r => ?_
  rw [List.mem_cons, mem_rows, mem_rows, erase, find?_deleteWhere]
  by_cases hk : r.1 = k
  · obtain ⟨k', v'⟩ := r
    obtain rfl : k' = k := hk
    simp [h, eq_comm]
  · simp [hk, Prod.ext_iff]

theorem rows_upsert_perm (t : Table κ α) (k : κ) (v : α) :
    (t.upsert k v).rows.Perm ((k, v) :: (t.erase k).rows) := by
  refine (rows_perm_of_find? (find?_upsert_self t k v)).trans (List.Perm.cons _ ?_)
  -- what else was under the key is gone in both
  refine (List.perm_ext_iff_of_nodup (nodup_rows _) (nodup_rows _)).mpr fun r => ?_
  rw [mem_rows, mem_rows, erase, erase, find?_deleteWhere, find?_deleteWhere, find?_upsert]
  by_cases hk : r.1 = k <;> simp [hk]

/-- The weight after an upsert: the new row and the other rows. -/
theorem total_upsert (t : Table κ α) (k : κ) (v : α) :
    total w (t.upsert k v) = w k v + total w (t.erase k) := by
  rw [total, ((rows_upsert_perm t k v).map _).sum_eq, List.map_cons, List.sum_cons, total]

/-- The weight of a row and of the other rows. -/
theorem total_find? {k : κ} {v : α} (h : t.find? k = some v) :
    total w t = w k v + total w (t.erase k) := by
  rw [total, ((rows_perm_of_find? h).map _).sum_eq, List.map_cons, List.sum_cons, total]

theorem total_erase_of_find?_none {k : κ} (h : t.find? k = none) :
    total w (t.erase k) = total w t := by
  refine total_deleteWhere_of_zero fun k' v hmem hk => ?_
  rw [beq_iff_eq] at hk
  rw [mem_rows, hk, h] at hmem
  cases hmem

/-- An upsert that adds to the weight of the row of its key adds as much to the sum. -/
theorem total_upsert_add {k : κ} {v : α} {x : M} (h : w k v = ((t.find? k).map (w k)).getD 0 + x) :
    total w (t.upsert k v) = total w t + x := by
  rw [total_upsert, h]
  cases hk : t.find? k with
  | none => rw [total_erase_of_find?_none hk, Option.map_none, Option.getD_none, zero_add, add_comm]
  | some e => rw [total_find? hk, Option.map_some, Option.getD_some, add_right_comm]

/-- Tables that find the same rows have the same sums. -/
theorem total_congr_find? {t' : Table κ α} (h : ∀ k, t.find? k = t'.find? k) :
    total w t = total w t' := by
  have hperm : t.rows.Perm t'.rows := by
    refine (List.perm_ext_iff_of_nodup (nodup_rows t) (nodup_rows t')).mpr fun r => ?_
    rw [mem_rows, mem_rows, h]
  exact (hperm.map _).sum_eq

end Total

/-! ### The weight of one key -/

section WeightAt

variable [AddCommMonoid M] [DecidableEq κ] {w : α → M}

/-- The weight of the row of a key; no row weighs nothing. -/
def weightAt (w : α → M) (t : Table κ α) (k : κ) : M := ((t.find? k).map w).getD 0

theorem weightAt_of_some {t : Table κ α} {k : κ} {v : α} (h : t.find? k = some v) :
    t.weightAt w k = w v := by
  rw [weightAt, h]
  rfl

theorem weightAt_of_none {t : Table κ α} {k : κ} (h : t.find? k = none) : t.weightAt w k = 0 := by
  rw [weightAt, h]
  rfl

theorem weightAt_congr {t t' : Table κ α} {k : κ} (h : t.find? k = t'.find? k) :
    t.weightAt w k = t'.weightAt w k := by
  rw [weightAt, weightAt, h]

end WeightAt

/-! ### Maps of rows -/

section MapRows

variable {f : α → β}

/-- The data of every row mapped; it commutes with the table operations. -/
def mapRows (f : α → β) (t : Table κ α) : Table κ β where
  entries := t.entries.map fun e => ⟨e.1, f e.2⟩
  nodupKeys := by
    have h := t.nodupKeys
    rw [List.NodupKeys, List.keys] at h ⊢
    rwa [List.map_map]

@[simp] theorem rows_mapRows (t : Table κ α) :
    (t.mapRows f).rows = t.rows.map fun r => (r.1, f r.2) := by
  simp [rows, mapRows, Function.comp_def]

@[simp] theorem mapRows_empty : mapRows f (∅ : Table κ α) = ∅ := rfl

/-- A deletion by key commutes with a map of the data. -/
theorem mapRows_deleteWhere (t : Table κ α) (p : κ → Bool) :
    (t.deleteWhere fun k _ => p k).mapRows f = (t.mapRows f).deleteWhere fun k _ => p k := by
  apply AList.ext
  change ((t.entries.filter _).map _) = ((t.entries.map _).filter _)
  rw [List.filter_map]
  rfl

theorem mapRows_mapRows {γ : Type*} (g : β → γ) (t : Table κ α) :
    (t.mapRows f).mapRows g = t.mapRows fun v => g (f v) := by
  apply AList.ext
  change (t.entries.map _).map _ = t.entries.map _
  rw [List.map_map]
  rfl

variable [DecidableEq κ]

@[simp] theorem find?_mapRows (t : Table κ α) (k : κ) :
    (t.mapRows f).find? k = (t.find? k).map f := by
  ext v
  rw [← mem_rows, rows_mapRows, List.mem_map, Option.map_eq_some_iff]
  constructor
  · rintro ⟨r, hr, heq⟩
    obtain ⟨rfl, rfl⟩ := Prod.mk.inj heq
    exact ⟨r.2, mem_rows.mp hr, rfl⟩
  · rintro ⟨u, hu, rfl⟩
    exact ⟨(k, u), mem_rows.mpr hu, rfl⟩

theorem mapRows_upsert (t : Table κ α) (k : κ) (v : α) :
    (t.upsert k v).mapRows f = (t.mapRows f).upsert k (f v) := by
  have herase : ∀ l : List (Sigma fun _ : κ => α),
      (List.kerase k l).map (fun e => (⟨e.1, f e.2⟩ : Sigma fun _ : κ => β)) =
        List.kerase k (l.map fun e => ⟨e.1, f e.2⟩) := by
    intro l
    induction l with
    | nil => rfl
    | cons e l ih =>
      let e' : Sigma fun _ : κ => β := ⟨e.1, f e.2⟩
      by_cases hk : k = e.1
      · have hk' : k = e'.1 := hk
        rw [List.kerase_cons_eq hk, List.map_cons]
        exact (List.kerase_cons_eq hk').symm
      · have hk' : k ≠ e'.1 := hk
        rw [List.kerase_cons_ne hk, List.map_cons, List.map_cons, ih]
        exact (List.kerase_cons_ne hk').symm
  apply AList.ext
  change (t.upsert k v).entries.map (fun e => (⟨e.1, f e.2⟩ : Sigma fun _ : κ => β)) = _
  rw [upsert, upsert, AList.entries_insert, AList.entries_insert, List.map_cons, herase]
  rfl

end MapRows

end Table

end Komari
