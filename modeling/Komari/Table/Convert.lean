import Komari.Codec.Result
import Komari.Table.Basic

/-!
# Converting the rows of a table

The rows of a table are converted one by one, and the results are written as a new table.
-/

namespace Komari

namespace Table

universe u

variable {κ α β : Type u} [DecidableEq κ] {t : Table κ α}

theorem mem_keys {k : κ} : k ∈ t.rows.map Prod.fst ↔ (t.find? k).isSome = true := by
  simp [Option.isSome_iff_exists, mem_rows]

/-- Tables with the same keys have as many rows. -/
theorem length_rows_congr {t' : Table κ β} (h : ∀ k, (t.find? k).isSome = (t'.find? k).isSome) :
    t.rows.length = t'.rows.length := by
  have hperm : (t.rows.map Prod.fst).Perm (t'.rows.map Prod.fst) := by
    refine (List.perm_ext_iff_of_nodup t.nodup_map_fst_rows t'.nodup_map_fst_rows).mpr fun k => ?_
    rw [mem_keys, mem_keys, h k]
  simpa using hperm.length_eq

theorem isSome_eq_of_rel {α β : Type*} {R : α → β → Prop} {x : Option α} {y : Option β}
    (h : Option.Rel R x y) : x.isSome = y.isSome := by
  cases h <;> rfl

theorem exists_mem_of_forall₂ {σ τ : Type*} {R : σ → τ → Prop} {l : List σ} {l' : List τ}
    (h : List.Forall₂ R l l') {x : σ} (hx : x ∈ l) : ∃ y ∈ l', R x y := by
  induction h with
  | nil => cases hx
  | cons hR _ ih =>
    rcases List.mem_cons.mp hx with rfl | hx
    · exact ⟨_, List.mem_cons_self, hR⟩
    · obtain ⟨y, hy, hR⟩ := ih hx
      exact ⟨y, List.mem_cons_of_mem _ hy, hR⟩

/-- Rows with the keys of a table, each related to its row. -/
theorem rel_upsertAll {R : κ → α → β → Prop} {out rows : List (κ × β)}
    (h : List.Forall₂ (fun r r' => r'.1 = r.1 ∧ R r.1 r.2 r'.2) t.rows out) (hperm : rows.Perm out) (k : κ) :
    Option.Rel (R k) (t.find? k) ((upsertAll (∅ : Table κ β) rows).find? k) := by
  have hkeys : out.map Prod.fst = t.rows.map Prod.fst := by
    have hmap : List.Forall₂ Eq (t.rows.map Prod.fst) (out.map Prod.fst) :=
      List.forall₂_map_left_iff.mpr (List.forall₂_map_right_iff.mpr (h.imp fun _ _ hr => hr.1.symm))
    rw [List.forall₂_eq_eq_eq] at hmap
    exact hmap.symm
  have hnodup : (rows.map Prod.fst).Nodup := by
    rw [(hperm.map Prod.fst).nodup_iff, hkeys]
    exact t.nodup_map_fst_rows
  cases hk : t.find? k with
  | none =>
    have hnot : k ∉ rows.map Prod.fst := by
      rw [(hperm.map Prod.fst).mem_iff, hkeys, mem_keys, hk]
      simp
    rw [find?_upsertAll_of_notMem hnot, find?_empty]
    exact .none
  | some v =>
    obtain ⟨⟨k', w⟩, hw, hrel⟩ := exists_mem_of_forall₂ h (mem_rows.mpr hk)
    obtain ⟨rfl, hR⟩ := hrel
    rw [find?_upsertAll_of_mem hnodup (hperm.mem_iff.mpr hw)]
    exact .some hR

/-- **A fallible conversion of rows** that keeps the keys. -/
theorem exists_mapM_rel {ε : Type} {f : κ × α → Except ε (κ × β)} {R : κ → α → β → Prop}
    (hkey : ∀ r r', f r = .ok r' → r'.1 = r.1) (sort : List (κ × β) → List (κ × β))
    (hsort : ∀ l, (sort l).Perm l) :
    (∃ out, t.rows.mapM f = .ok out ∧
      ∀ k, Option.Rel (R k) (t.find? k) ((upsertAll (∅ : Table κ β) (sort out)).find? k)) ↔
      ∀ k v, t.find? k = some v → ∃ r, f (k, v) = .ok r ∧ r.1 = k ∧ R k v r.2 := by
  constructor
  · rintro ⟨out, hout, hrel⟩ k v hk
    obtain ⟨r, hr⟩ := exists_mapM_eq_ok.mp ⟨out, hout⟩ (k, v) (mem_rows.mpr hk)
    have hmem := (mem_of_mapM_eq_ok hout r).mpr ⟨(k, v), mem_rows.mpr hk, hr⟩
    have hnodup : ((sort out).map Prod.fst).Nodup := by
      rw [((hsort out).map Prod.fst).nodup_iff, map_of_mapM_eq_ok hkey hout]
      exact t.nodup_map_fst_rows
    obtain ⟨k', w⟩ := r
    obtain rfl : k' = k := hkey _ _ hr
    have hfind := find?_upsertAll_of_mem (t := ∅) hnodup ((hsort out).mem_iff.mpr hmem)
    have hR := hrel k'
    rw [hk, hfind] at hR
    cases hR with
    | some hR => exact ⟨_, hr, rfl, hR⟩
  · intro h
    have hrows : ∀ r ∈ t.rows, ∃ r', f r = .ok r' ∧ r'.1 = r.1 ∧ R r.1 r.2 r'.2 :=
      fun r hr => h r.1 r.2 (mem_rows.mp hr)
    obtain ⟨out, hout, hall⟩ := exists_mapM_forall₂.mpr hrows
    exact ⟨out, hout, rel_upsertAll hall (hsort out)⟩

end Table

end Komari
