import Mathlib.Data.List.Basic
import Mathlib.Algebra.Order.Group.Nat

/-!
# Numbered streams

A stream numbers its items 1, 2, 3, …, and keeps those of the end that were not released yet.
-/

namespace Komari

namespace Run

variable {α : Type*} (seq : α → ℕ)

/-- The items have the numbers 1, 2, 3, …. -/
def Numbered (log : List α) : Prop := log.map seq = List.range' 1 log.length

variable {seq} {log : List α}

theorem numbered_nil : Numbered seq [] := rfl

theorem Numbered.append (h : Numbered seq log) {a : α} (ha : seq a = log.length + 1) :
    Numbered seq (log ++ [a]) := by
  unfold Numbered at h ⊢
  rw [List.map_append, h, List.length_append, List.length_singleton, List.range'_1_concat, List.map_singleton,
    ha, Nat.add_comm 1]

theorem Numbered.seq_getElem (h : Numbered seq log) {i : ℕ} (hi : i < log.length) :
    seq log[i] = i + 1 := by
  have hmap := List.getElem_of_eq h (i := i) (by simpa using hi)
  rw [List.getElem_map, List.getElem_range'] at hmap
  omega

theorem Numbered.seq_of_mem_take (h : Numbered seq log) {n : ℕ} {a : α} (ha : a ∈ log.take n) :
    seq a ≤ n := by
  obtain ⟨i, hi, rfl⟩ := List.mem_take_iff_getElem.mp ha
  rw [h.seq_getElem (by omega)]
  omega

theorem Numbered.seq_of_mem_drop (h : Numbered seq log) {n : ℕ} {a : α} (ha : a ∈ log.drop n) :
    n < seq a := by
  obtain ⟨i, hi, rfl⟩ := List.mem_drop_iff_getElem.mp ha
  rw [h.seq_getElem (by omega)]
  omega

/-- The items after a number are those behind so many. -/
theorem Numbered.filter (h : Numbered seq log) (n : ℕ) :
    log.filter (fun a => decide (n < seq a)) = log.drop n := by
  conv_lhs => rw [← List.take_append_drop n log]
  rw [List.filter_append]
  have htake : (log.take n).filter (fun a => decide (n < seq a)) = [] :=
    List.filter_eq_nil_iff.mpr fun a ha => by simpa using h.seq_of_mem_take ha
  have hdrop : (log.drop n).filter (fun a => decide (n < seq a)) = log.drop n :=
    List.filter_eq_self.mpr fun a ha => by simpa using h.seq_of_mem_drop ha
  rw [htake, hdrop, List.nil_append]

/-! ### Buffers -/

/-- The buffer holds the items of the end that were not released. -/
def Buffers (log buffer : List α) : Prop := ∃ released, buffer = log.drop released

theorem buffers_nil : Buffers log [] := ⟨log.length, (List.drop_length).symm⟩

variable {buffer : List α}

theorem Buffers.append (h : Buffers log buffer) (a : α) : Buffers (log ++ [a]) (buffer ++ [a]) := by
  obtain ⟨released, rfl⟩ := h
  refine ⟨min released log.length, ?_⟩
  rw [List.drop_append_of_le_length (min_le_right _ _)]
  congr 1
  rcases Nat.le_total released log.length with hle | hle
  · rw [min_eq_left hle]
  · rw [min_eq_right hle, List.drop_eq_nil_of_le hle, List.drop_length]

theorem filter_drop (h : Numbered seq log) (released n : ℕ) :
    (log.drop released).filter (fun a => decide (n < seq a)) = log.drop (max released n) := by
  rw [← h.filter released, List.filter_filter, ← h.filter (max released n)]
  refine List.filter_congr fun a _ => ?_
  simp [Bool.and_comm]

theorem Buffers.filter (h : Buffers log buffer) (hlog : Numbered seq log) (n : ℕ) :
    Buffers log (buffer.filter fun a => decide (n < seq a)) := by
  obtain ⟨released, rfl⟩ := h
  exact ⟨max released n, filter_drop hlog released n⟩

theorem find?_drop (h : Numbered seq log) (released after : ℕ) :
    (log.drop released).find? (fun a => decide (after < seq a)) = log[max released after]? := by
  rw [← List.head?_filter, filter_drop h, List.head?_drop]

/-! ### Readers -/

/-- The number of the last item of a reader. -/
def cursor (seq : α → ℕ) (seen : List α) : ℕ := (seen.getLast?.map seq).getD 0

@[simp] theorem cursor_append (seen : List α) (a : α) : cursor seq (seen ++ [a]) = seq a := by
  simp [cursor]

/-- The reader got items of the stream in their order, each at most once. -/
structure Follows (seq : α → ℕ) (log seen : List α) : Prop where
  sublist : seen.Sublist (log.take (cursor seq seen))
  bound : cursor seq seen ≤ log.length

theorem follows_nil : Follows seq log [] := ⟨List.nil_sublist _, Nat.zero_le _⟩

variable {seen : List α}

theorem Follows.append (h : Follows seq log seen) (a : α) : Follows seq (log ++ [a]) seen := by
  refine ⟨?_, h.bound.trans (by simp)⟩
  rw [List.take_append_of_le_length h.bound]
  exact h.sublist

/-- The reader gets the first item of the buffer after its last one. -/
theorem Follows.see (h : Follows seq log seen) (hlog : Numbered seq log)
    (hbuffer : Buffers log buffer) {a : α}
    (ha : buffer.find? (fun a => decide (cursor seq seen < seq a)) = some a) :
    Follows seq log (seen ++ [a]) := by
  obtain ⟨released, rfl⟩ := hbuffer
  rw [find?_drop hlog, List.getElem?_eq_some_iff] at ha
  obtain ⟨hlt, rfl⟩ := ha
  have hseq := hlog.seq_getElem hlt
  constructor
  · rw [cursor_append, hseq, List.take_succ_eq_append_getElem hlt]
    refine List.Sublist.append (h.sublist.trans ?_) (List.Sublist.refl _)
    exact (List.take_prefix_take_left (le_max_right _ _)).sublist
  · rw [cursor_append, hseq]
    exact hlt

/-- The reader got all items up to its last one. -/
def Complete (seq : α → ℕ) (log seen : List α) : Prop :=
  seen = log.take (cursor seq seen) ∧ cursor seq seen ≤ log.length

theorem complete_nil : Complete seq log [] := ⟨rfl, Nat.zero_le _⟩

theorem Complete.append (h : Complete seq log seen) (a : α) : Complete seq (log ++ [a]) seen := by
  refine ⟨?_, h.2.trans (by simp)⟩
  rw [List.take_append_of_le_length h.2]
  exact h.1

/-- Nothing was released that the reader did not get. -/
def Retains (seq : α → ℕ) (log buffer seen : List α) : Prop :=
  ∃ released ≤ cursor seq seen, buffer = log.drop released

section

variable (h : Retains seq log buffer seen)

include h

theorem Retains.append
    (hseen : Complete seq log seen) (a : α) : Retains seq (log ++ [a]) (buffer ++ [a]) seen := by
  obtain ⟨released, hreleased, rfl⟩ := h
  exact ⟨released, hreleased, (List.drop_append_of_le_length (hreleased.trans hseen.2)).symm⟩

theorem Retains.filter (hlog : Numbered seq log) {n : ℕ} (hn : n ≤ cursor seq seen) :
    Retains seq log (buffer.filter fun a => decide (n < seq a)) seen := by
  obtain ⟨released, hreleased, rfl⟩ := h
  exact ⟨max released n, max_le hreleased hn, filter_drop hlog released n⟩

/-- The reader gets the item after its last one. -/
theorem Retains.find? (hseen : Complete seq log seen) (hlog : Numbered seq log) :
    buffer.find? (fun a => decide (cursor seq seen < seq a)) = log[seen.length]? := by
  obtain ⟨released, hreleased, rfl⟩ := h
  have hlength : seen.length = cursor seq seen := by
    conv_lhs => rw [hseen.1]
    rw [List.length_take, min_eq_left hseen.2]
  rw [find?_drop hlog, max_eq_right hreleased, hlength]

theorem Retains.see (hseen : Complete seq log seen) (hlog : Numbered seq log) {a : α}
    (ha : buffer.find? (fun a => decide (cursor seq seen < seq a)) = some a) :
    Complete seq log (seen ++ [a]) ∧ Retains seq log buffer (seen ++ [a]) := by
  obtain ⟨released, hreleased, rfl⟩ := h
  rw [find?_drop hlog, max_eq_right hreleased, List.getElem?_eq_some_iff] at ha
  obtain ⟨hlt, rfl⟩ := ha
  have hseq := hlog.seq_getElem hlt
  refine ⟨⟨?_, ?_⟩, released, ?_, rfl⟩
  · rw [cursor_append, hseq, List.take_succ_eq_append_getElem hlt, ← hseen.1]
  · rw [cursor_append, hseq]
    exact hlt
  · rw [cursor_append, hseq]
    omega

end

end Run

end Komari
