import Mathlib.Data.List.Sort
import Mathlib.Data.List.Range
import Mathlib.Order.Interval.Set.Basic
import Komari.Table.Basic

/-!
# Rows in the order of their keys

An ordered query returns the selected rows of a table in ascending order of the key.
-/

namespace Komari

variable {κ α : Type*}

/-! ### The first and the last key -/

/-- The first row of the list has the key `lo` and its last row the key `hi`. -/
def KeysSpan (lo hi : κ) (l : List (κ × α)) : Prop :=
  l.head?.map Prod.fst = some lo ∧ l.getLast?.map Prod.fst = some hi

instance [DecidableEq κ] (lo hi : κ) (l : List (κ × α)) : Decidable (KeysSpan lo hi l) :=
  inferInstanceAs (Decidable (_ ∧ _))

variable {l : List (κ × α)}

theorem KeysSpan.congr {β : Type*} {lo hi : κ} {m : List (κ × β)}
    (hkeys : m.map Prod.fst = l.map Prod.fst) (h : KeysSpan lo hi l) : KeysSpan lo hi m := by
  unfold KeysSpan at *
  rw [← List.head?_map, ← List.getLast?_map] at *
  rwa [hkeys]

theorem KeysSpan.of_ne_nil (h : l ≠ []) : ∃ lo hi, KeysSpan lo hi l := by
  refine ⟨(l.head h).1, (l.getLast h).1, ?_, ?_⟩
  · rw [List.head?_eq_some_head h, Option.map_some]
  · rw [List.getLast?_eq_some_getLast h, Option.map_some]

theorem KeysSpan.exists_first {lo hi : κ} (h : KeysSpan lo hi l) : ∃ r ∈ l, r.1 = lo := by
  obtain ⟨a, ha, hlo⟩ := Option.map_eq_some_iff.mp h.1
  exact ⟨a, List.mem_of_mem_head? ha, hlo⟩

theorem KeysSpan.exists_last {lo hi : κ} (h : KeysSpan lo hi l) : ∃ r ∈ l, r.1 = hi := by
  obtain ⟨a, ha, hhi⟩ := Option.map_eq_some_iff.mp h.2
  exact ⟨a, List.mem_of_getLast? ha, hhi⟩

/-! ### Ascending rows -/

section Ascending

variable [LinearOrder κ]

/-- The keys of the rows increase strictly. -/
def Ascending (l : List (κ × α)) : Prop := l.Pairwise fun r s => r.1 < s.1

instance (l : List (κ × α)) : Decidable (Ascending l) :=
  inferInstanceAs (Decidable (List.Pairwise _ l))

variable {l : List (κ × α)}

theorem ascending_iff_keys : Ascending l ↔ (l.map Prod.fst).Pairwise (· < ·) := by
  rw [Ascending, List.pairwise_map]

theorem Ascending.nodup_keys (h : Ascending l) : (l.map Prod.fst).Nodup :=
  (ascending_iff_keys.mp h).imp fun hlt => hlt.ne

/-- A key has at most one row in an ascending list. -/
theorem Ascending.eq_of_mem (h : Ascending l) {k : κ} {v w : α}
    (hv : (k, v) ∈ l) (hw : (k, w) ∈ l) : v = w := by
  have hinj := List.inj_on_of_nodup_map h.nodup_keys hv hw rfl
  exact congrArg Prod.snd hinj

/-- Two lists with the same keys are both ascending or neither is. -/
theorem Ascending.congr {β : Type*} {m : List (κ × β)}
    (hkeys : m.map Prod.fst = l.map Prod.fst) (h : Ascending l) : Ascending m := by
  rw [ascending_iff_keys, hkeys]
  exact ascending_iff_keys.mp h

/-- The rows of an ascending list lie between its first and its last key. -/
theorem Ascending.mem_Icc {lo hi : κ} (h : Ascending l)
    (hspan : KeysSpan lo hi l) {r : κ × α} (hr : r ∈ l) : r.1 ∈ Set.Icc lo hi := by
  obtain ⟨hlo, hhi⟩ := hspan
  obtain ⟨a, ha, rfl⟩ := Option.map_eq_some_iff.mp hlo
  obtain ⟨b, hb, rfl⟩ := Option.map_eq_some_iff.mp hhi
  constructor
  · obtain ⟨t, rfl⟩ := List.head?_eq_some_iff.mp ha
    rcases List.mem_cons.mp hr with rfl | hr
    · exact le_rfl
    · exact ((List.pairwise_cons.mp h).1 r hr).le
  · obtain ⟨t, rfl⟩ := List.getLast?_eq_some_iff.mp hb
    rcases List.mem_append.mp hr with hr | hr
    · exact ((List.pairwise_append.mp h).2.2 r hr b (List.mem_singleton_self b)).le
    · rw [List.mem_singleton.mp hr]

/-- The rows that a limit leaves are those up to the last one of them. -/
theorem Ascending.mem_take {n : ℕ} {lo hi : κ} (h : Ascending l)
    (hspan : KeysSpan lo hi (l.take n)) {r : κ × α} : r ∈ l.take n ↔ r ∈ l ∧ r.1 ≤ hi := by
  rw [← List.take_append_drop n l] at h
  obtain ⟨htake, -, hlt⟩ := List.pairwise_append.mp h
  constructor
  · intro hr
    exact ⟨List.mem_of_mem_take hr, (Ascending.mem_Icc htake hspan hr).2⟩
  · rintro ⟨hr, hle⟩
    rw [← List.take_append_drop n l, List.mem_append] at hr
    refine hr.resolve_right fun hdrop => ?_
    obtain ⟨q, hq, rfl⟩ := hspan.exists_last
    exact absurd (hlt q hq r hdrop) hle.not_gt

theorem Ascending.exists_Icc [Inhabited κ] (h : Ascending l) :
    ∃ lo hi, ∀ r ∈ l, r.1 ∈ Set.Icc lo hi := by
  rcases eq_or_ne l [] with rfl | hne
  · exact ⟨default, default, fun r hr => absurd hr List.not_mem_nil⟩
  · obtain ⟨lo, hi, hspan⟩ := KeysSpan.of_ne_nil hne
    exact ⟨lo, hi, fun r hr => h.mem_Icc hspan hr⟩

/-! ### Sorting -/

/-- Rows sorted by key. -/
def sortByKey (l : List (κ × α)) : List (κ × α) := l.insertionSort fun r s => r.1 ≤ s.1

theorem sortByKey_perm (l : List (κ × α)) : (sortByKey l).Perm l :=
  List.perm_insertionSort _ l

@[simp] theorem mem_sortByKey {l : List (κ × α)} {r : κ × α} : r ∈ sortByKey l ↔ r ∈ l :=
  (sortByKey_perm l).mem_iff

theorem ascending_sortByKey (h : (l.map Prod.fst).Nodup) : Ascending (sortByKey l) := by
  have : IsTrans (κ × α) fun r s => r.1 ≤ s.1 := ⟨fun _ _ _ h₁ h₂ => h₁.trans h₂⟩
  have : Std.Total fun r s : κ × α => r.1 ≤ s.1 := ⟨fun r s => le_total r.1 s.1⟩
  have hle : (sortByKey l).Pairwise fun r s => r.1 ≤ s.1 := List.pairwise_insertionSort _ l
  have hne : (sortByKey l).Pairwise fun r s => r.1 ≠ s.1 := by
    have hnd : ((sortByKey l).map Prod.fst).Nodup := ((sortByKey_perm l).map Prod.fst).nodup_iff.mpr h
    exact List.pairwise_map.mp hnd
  exact hle.imp₂ (fun _ _ h₁ h₂ => lt_of_le_of_ne h₁ h₂) hne

theorem sortByKey_eq (h : Ascending l) : sortByKey l = l :=
  List.Pairwise.insertionSort_eq (h.imp fun hlt => hlt.le)

section SortOn

variable {ι : Type*} [LinearOrder ι]

/-- `ORDER BY f`: the rows sorted by a function of them. -/
def sortOn (f : α → ι) (l : List α) : List α := l.insertionSort fun a b => f a ≤ f b

theorem sortOn_perm (f : α → ι) (l : List α) : (sortOn f l).Perm l :=
  List.perm_insertionSort _ l

@[simp] theorem mem_sortOn {f : α → ι} {l : List α} {a : α} : a ∈ sortOn f l ↔ a ∈ l :=
  (sortOn_perm f l).mem_iff

@[simp] theorem sortOn_nil (f : α → ι) : sortOn f [] = [] := rfl

/-- Sorting commutes with a map that keeps the sort key. -/
theorem sortOn_map {β : Type*} {f : α → ι} {g : β → ι} {h : α → β} (hkey : ∀ a, g (h a) = f a)
    (l : List α) : sortOn g (l.map h) = (sortOn f l).map h := by
  unfold sortOn
  exact (List.map_insertionSort _ _ h l fun a _ b _ => by rw [hkey, hkey]).symm

theorem filter_orderedInsert (f : α → ι) (p : α → Bool) (a : α) {l : List α}
    (h : l.Pairwise fun a b => f a ≤ f b) :
    (l.orderedInsert (fun a b => f a ≤ f b) a).filter p =
      if p a then (l.filter p).orderedInsert (fun a b => f a ≤ f b) a else l.filter p := by
  induction l with
  | nil => cases hp : p a <;> simp [hp]
  | cons b l ih =>
    obtain ⟨hb, hl⟩ := List.pairwise_cons.mp h
    rw [List.orderedInsert_cons]
    by_cases hle : f a ≤ f b
    · -- the new element comes first, and first of those that are left
      have hfirst : ((b :: l).filter p).orderedInsert (fun a b => f a ≤ f b) a = a :: (b :: l).filter p := by
        cases hfilter : (b :: l).filter p with
        | nil => rfl
        | cons c m =>
          have hc : c ∈ b :: l := (List.mem_filter.mp (hfilter ▸ List.mem_cons_self : c ∈ (b :: l).filter p)).1
          have hbc : f b ≤ f c := by
            rcases List.mem_cons.mp hc with rfl | hc
            · exact le_rfl
            · exact hb c hc
          exact List.orderedInsert_cons_of_le _ _ (hle.trans hbc)
      rw [if_pos hle, hfirst]
      cases hp : p a <;> simp [hp]
    · rw [if_neg hle]
      cases hpb : p b with
      | true =>
        rw [List.filter_cons_of_pos hpb, List.filter_cons_of_pos hpb, ih hl]
        split_ifs
        · rw [List.orderedInsert_cons, if_neg hle]
        · rfl
      | false => rw [List.filter_cons_of_neg (by simp [hpb]), List.filter_cons_of_neg (by simp [hpb]), ih hl]

/-- **Sorting commutes with a selection.** -/
theorem filter_sortOn (f : α → ι) (p : α → Bool) (l : List α) :
    (sortOn f l).filter p = sortOn f (l.filter p) := by
  induction l with
  | nil => rfl
  | cons a l ih =>
    have hsorted : (sortOn f l).Pairwise fun a b => f a ≤ f b := List.pairwise_insertionSort _ l
    have hcons : sortOn f (a :: l) = (sortOn f l).orderedInsert (fun a b => f a ≤ f b) a := rfl
    rw [hcons, filter_orderedInsert f p a hsorted, ih]
    cases hp : p a with
    | true => rw [List.filter_cons_of_pos hp]; rfl
    | false => rw [List.filter_cons_of_neg (by simp [hp])]; rfl

end SortOn

/-! ### Ordered selection -/

/-- `SELECT * FROM t WHERE p ORDER BY key`. -/
def Table.select (t : Table κ α) (p : κ → α → Bool) : List (κ × α) :=
  sortByKey (t.rows.filter fun r => p r.1 r.2)

theorem Table.mem_select {t : Table κ α} {p : κ → α → Bool} {k : κ} {v : α} :
    (k, v) ∈ t.select p ↔ t.find? k = some v ∧ p k v = true := by
  rw [Table.select, mem_sortByKey, List.mem_filter, Table.mem_rows]

theorem Table.ascending_select (t : Table κ α) (p : κ → α → Bool) : Ascending (t.select p) :=
  ascending_sortByKey (t.nodup_map_fst_rows.sublist (List.filter_sublist.map _))

end Ascending

/-! ### Cutting a list into pieces -/

/-- The pieces of length `n` (the last one may be shorter) of a list. -/
def chunks (n : ℕ) (l : List α) : List (List α) :=
  (List.range ((l.length + n - 1) / n)).map fun i => (l.drop (i * n)).take n

private theorem flatten_chunks_range (n k : ℕ) (l : List α) :
    ((List.range k).map fun i => (l.drop (i * n)).take n).flatten = l.take (k * n) := by
  induction k with
  | zero => simp
  | succ k ih =>
    rw [List.range_succ, List.map_append, List.flatten_append, ih, Nat.succ_mul, List.take_add]
    simp

theorem flatten_chunks {n : ℕ} (hn : 0 < n) (l : List α) : (chunks n l).flatten = l := by
  rw [chunks, flatten_chunks_range]
  refine List.take_of_length_le ?_
  have h := Nat.lt_div_mul_add hn (a := l.length + n - 1)
  omega

theorem length_le_of_mem_chunks {n : ℕ} {l c : List α} (h : c ∈ chunks n l) : c.length ≤ n := by
  obtain ⟨i, -, rfl⟩ := List.mem_map.mp h
  exact List.length_take_le _ _

theorem ne_nil_of_mem_chunks {n : ℕ} (hn : 0 < n) {l c : List α} (h : c ∈ chunks n l) :
    c ≠ [] := by
  obtain ⟨i, hi, rfl⟩ := List.mem_map.mp h
  have hlt : i * n < l.length := by
    have h₁ := (Nat.le_div_iff_mul_le hn).mp (Nat.succ_le_of_lt (List.mem_range.mp hi))
    rw [Nat.succ_mul] at h₁
    omega
  rw [← List.length_pos_iff, List.length_take, List.length_drop]
  omega

end Komari
