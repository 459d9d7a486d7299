import Komari.Table.Measure
import Komari.Table.Ordered

/-!
# Rows deleted by their keys

Rows are selected in the order of their keys, and those that a limit leaves are deleted one by one.
-/

namespace Komari

variable {κ α : Type*}

section Ascending

variable [LinearOrder κ]

theorem Ascending.ext {l m : List (κ × α)} (hl : Ascending l) (hm : Ascending m)
    (h : ∀ r, r ∈ l ↔ r ∈ m) : l = m := by
  have hperm : l.Perm m :=
    (List.perm_ext_iff_of_nodup (hl.imp fun hlt heq => (heq ▸ hlt).false)
      (hm.imp fun hlt heq => (heq ▸ hlt).false)).mpr h
  exact hperm.eq_of_pairwise (fun r s _ _ hrs hsr => absurd hrs hsr.asymm) hl hm

end Ascending

namespace Table

section DeleteKeys

variable [DecidableEq κ]

/-- `DELETE FROM t WHERE key = ?` for each of some keys. -/
def deleteKeys (t : Table κ α) (keys : List κ) : Table κ α := keys.foldl erase t

@[simp] theorem deleteKeys_nil (t : Table κ α) : t.deleteKeys [] = t := rfl

@[simp] theorem deleteKeys_cons (t : Table κ α) (k : κ) (keys : List κ) :
    t.deleteKeys (k :: keys) = (t.erase k).deleteKeys keys := rfl

theorem find?_erase (t : Table κ α) (k k' : κ) :
    (t.erase k).find? k' = if k' = k then none else t.find? k' := by
  rw [erase, find?_deleteWhere]
  by_cases h : k' = k <;> cases t.find? k' <;> simp [h]

theorem find?_deleteKeys (t : Table κ α) (keys : List κ) (k : κ) :
    (t.deleteKeys keys).find? k = if k ∈ keys then none else t.find? k := by
  induction keys generalizing t with
  | nil => simp
  | cons k' keys ih =>
    rw [deleteKeys_cons, ih, find?_erase]
    by_cases hk : k = k' <;> by_cases hkeys : k ∈ keys <;> simp [hk, hkeys]

theorem rows_deleteKeys (t : Table κ α) (keys : List κ) :
    (t.deleteKeys keys).rows = t.rows.filter fun r => r.1 ∉ keys := by
  induction keys generalizing t with
  | nil => simp
  | cons k keys ih =>
    rw [deleteKeys_cons, ih, erase, rows_deleteWhere, List.filter_filter]
    refine List.filter_congr fun r _ => ?_
    by_cases hk : r.1 = k <;> simp [hk]

theorem filter_notMem_front {front back : List (κ × α)} (h : ((front ++ back).map Prod.fst).Nodup) :
    (front ++ back).filter (fun r => r.1 ∉ front.map Prod.fst) = back := by
  rw [List.map_append, List.nodup_append] at h
  rw [List.filter_append, List.filter_eq_nil_iff.mpr, List.nil_append, List.filter_eq_self.mpr]
  · intro r hr
    exact decide_eq_true fun hmem => h.2.2 r.1 hmem r.1 (List.mem_map_of_mem hr) rfl
  · intro r hr
    have hmem : r.1 ∈ front.map Prod.fst := List.mem_map_of_mem hr
    simpa only [decide_eq_true_eq, not_not] using hmem

theorem total_deleteKeys {M : Type*} [AddCommMonoid M] {w : κ → α → M} {t : Table κ α}
    {rows : List (κ × α)} (hnodup : (rows.map Prod.fst).Nodup)
    (hrows : ∀ r ∈ rows, t.find? r.1 = some r.2) :
    total w t = (rows.map fun r => w r.1 r.2).sum + total w (t.deleteKeys (rows.map Prod.fst)) := by
  induction rows generalizing t with
  | nil => simp
  | cons r rows ih =>
    obtain ⟨hr, hrows⟩ := List.forall_mem_cons.mp hrows
    rw [List.map_cons, List.nodup_cons] at hnodup
    have herase : ∀ r' ∈ rows, (t.erase r.1).find? r'.1 = some r'.2 := by
      intro r' hr'
      have hne : r'.1 ≠ r.1 := fun heq => hnodup.1 (heq ▸ List.mem_map_of_mem hr')
      rw [find?_erase, if_neg hne, hrows r' hr']
    rw [total_find? hr, ih hnodup.2 herase, List.map_cons, List.map_cons, List.sum_cons,
      deleteKeys_cons, add_assoc]

end DeleteKeys

section Select

variable [LinearOrder κ]

theorem select_deleteKeys (t : Table κ α) (keys : List κ) (p : κ → α → Bool) :
    (t.deleteKeys keys).select p = (t.select p).filter fun r => r.1 ∉ keys := by
  refine (ascending_select _ p).ext ((ascending_select t p).filter _) fun r => ?_
  rw [List.mem_filter, mem_select, mem_select, find?_deleteKeys]
  by_cases hk : r.1 ∈ keys <;> simp [hk]

/-- **A limit**: when the rows that it leaves are deleted, those behind it are left. -/
theorem select_deleteKeys_take (t : Table κ α) (p : κ → α → Bool) (n : ℕ) :
    (t.deleteKeys (((t.select p).take n).map Prod.fst)).select p = (t.select p).drop n := by
  have h := @filter_notMem_front κ α _ ((t.select p).take n) ((t.select p).drop n) (by
    rw [List.take_append_drop]
    exact (ascending_select t p).nodup_keys)
  rwa [List.take_append_drop, ← select_deleteKeys] at h

theorem select_deleteKeys_of_ne {t : Table κ α} {keys : List κ} {p : κ → α → Bool}
    (h : ∀ r ∈ t.select p, r.1 ∉ keys) : (t.deleteKeys keys).select p = t.select p := by
  rw [select_deleteKeys, List.filter_eq_self.mpr]
  simpa using h

end Select

end Table

end Komari
