import Mathlib.Data.List.AList

/-!
# Keyed tables

A database table with a primary key is modelled by an association list without duplicate keys
(`AList`), whose rows are pairs of a key and the row's data.
-/

namespace Komari

/-- A table with primary key `κ` and row data `α`: at most one row for each key. -/
abbrev Table (κ α : Type*) := AList fun _ : κ => α

namespace Table

variable {κ α : Type*}

/-- The rows of the table, in storage order. -/
def rows (t : Table κ α) : List (κ × α) :=
  t.entries.map fun e => (e.1, e.2)

/-- `DELETE FROM t WHERE p key data`. -/
def deleteWhere (t : Table κ α) (p : κ → α → Bool) : Table κ α :=
  ⟨t.entries.filter fun e => !p e.1 e.2, t.nodupKeys.sublist List.filter_sublist⟩

theorem nodup_map_fst_rows (t : Table κ α) : (t.rows.map Prod.fst).Nodup := by
  have h : t.rows.map Prod.fst = t.keys := by
    simp [rows, AList.keys, List.keys, Function.comp_def]
  rw [h]
  exact t.keys_nodup

theorem nodup_rows (t : Table κ α) : t.rows.Nodup :=
  List.Nodup.of_map _ t.nodup_map_fst_rows

theorem rows_deleteWhere (t : Table κ α) (p : κ → α → Bool) :
    (t.deleteWhere p).rows = t.rows.filter fun r => !p r.1 r.2 := by
  simp [rows, deleteWhere, List.filter_map, Function.comp_def]

variable [DecidableEq κ]

/-- The data of the row with key `k`. -/
def find? (t : Table κ α) (k : κ) : Option α := AList.lookup k t

/-- Insert a row, or replace the row that has its key. -/
def upsert (t : Table κ α) (k : κ) (v : α) : Table κ α := AList.insert k v t

/-- Upsert a list of rows, one after the other. -/
def upsertAll (t : Table κ α) (new : List (κ × α)) : Table κ α :=
  new.foldl (fun t r => t.upsert r.1 r.2) t

@[simp] theorem find?_empty (k : κ) : find? (∅ : Table κ α) k = none := rfl

variable {t : Table κ α}

/-- A row is stored exactly when its key finds its data. -/
theorem mem_rows {k : κ} {v : α} : (k, v) ∈ t.rows ↔ t.find? k = some v := by
  rw [find?, ← Option.mem_def, AList.mem_lookup_iff, rows, List.mem_map]
  constructor
  · rintro ⟨e, he, h⟩
    obtain ⟨rfl, rfl⟩ := Prod.mk.inj h
    exact he
  · intro h
    exact ⟨_, h, rfl⟩

/-- A deletion keeps exactly the rows that its condition does not select. -/
theorem find?_deleteWhere (t : Table κ α) (p : κ → α → Bool) (k : κ) :
    (t.deleteWhere p).find? k = (t.find? k).filter fun v => !p k v := by
  ext v
  rw [← mem_rows, rows_deleteWhere, List.mem_filter, mem_rows, Option.filter_eq_some_iff]

/-- A row is found after a deletion when it was there and is not selected. -/
theorem find?_deleteWhere_eq_some {p : κ → α → Bool} {k : κ} {v : α} :
    (t.deleteWhere p).find? k = some v ↔ t.find? k = some v ∧ p k v = false := by
  rw [find?_deleteWhere, Option.filter_eq_some_iff, Bool.not_eq_true']

theorem deleteWhere_comm (t : Table κ α) (p q : κ → α → Bool) :
    (t.deleteWhere p).deleteWhere q = (t.deleteWhere q).deleteWhere p :=
  AList.ext (List.filter_comm _ _ _)

@[simp] theorem find?_upsert_self (t : Table κ α) (k : κ) (v : α) :
    (t.upsert k v).find? k = some v :=
  AList.lookup_insert t

theorem find?_upsert_ne {k k' : κ} {v : α} (h : k ≠ k') : (t.upsert k' v).find? k = t.find? k :=
  AList.lookup_insert_ne h

theorem find?_upsert (t : Table κ α) (k k' : κ) (v : α) :
    (t.upsert k' v).find? k = if k = k' then some v else t.find? k := by
  by_cases h : k = k'
  · subst h
    rw [if_pos rfl, find?_upsert_self]
  · rw [if_neg h, find?_upsert_ne h]

@[simp] theorem upsertAll_nil (t : Table κ α) : t.upsertAll [] = t := rfl

@[simp] theorem upsertAll_cons (t : Table κ α) (r : κ × α) (new : List (κ × α)) :
    t.upsertAll (r :: new) = (t.upsert r.1 r.2).upsertAll new := rfl

theorem find?_upsertAll_of_notMem {new : List (κ × α)} {k : κ}
    (h : k ∉ new.map Prod.fst) : (t.upsertAll new).find? k = t.find? k := by
  induction new generalizing t with
  | nil => rfl
  | cons r new ih =>
    rw [List.map_cons, List.mem_cons, not_or] at h
    rw [upsertAll_cons, ih h.2, find?_upsert_ne h.1]

/-- A key of the new rows finds one of them after the upsert. -/
theorem exists_find?_upsertAll {new : List (κ × α)} {k : κ}
    (h : k ∈ new.map Prod.fst) : ∃ v, (k, v) ∈ new ∧ (t.upsertAll new).find? k = some v := by
  induction new generalizing t with
  | nil => cases h
  | cons r new ih =>
    rw [upsertAll_cons]
    by_cases hk : k ∈ new.map Prod.fst
    · obtain ⟨v, hv, hfind⟩ := ih (t := t.upsert r.1 r.2) hk
      exact ⟨v, List.mem_cons_of_mem _ hv, hfind⟩
    · obtain rfl : k = r.1 := (List.mem_cons.mp h).resolve_right hk
      refine ⟨r.2, List.mem_cons_self, ?_⟩
      rw [find?_upsertAll_of_notMem hk, find?_upsert_self]

/-- With one new row for each key, every new row is found after the upsert. -/
theorem find?_upsertAll_of_mem {new : List (κ × α)} {k : κ} {v : α}
    (hnd : (new.map Prod.fst).Nodup) (h : (k, v) ∈ new) :
    (t.upsertAll new).find? k = some v := by
  induction new generalizing t with
  | nil => cases h
  | cons r new ih =>
    rw [List.map_cons, List.nodup_cons] at hnd
    rw [upsertAll_cons]
    rcases List.mem_cons.mp h with rfl | h
    · rw [find?_upsertAll_of_notMem hnd.1, find?_upsert_self]
    · exact ih hnd.2 h

end Table

end Komari
