import Komari.Run.Climb
import Komari.TrafficReset.Partition

/-!
# The resets of a window

Walking a schedule from reset to reset meets the resets of a window of time, one after the other, as
long as the schedule is in order there.
-/

namespace Komari

namespace TrafficReset

namespace Schedule

variable [TimezoneDatabase]

/-- The instant is a reset of the schedule. -/
def IsReset (s : Schedule) (t : ℤ) : Prop := ∃ month, t = s.boundary month

/-- From the cycle of `since` up to `stop`, the schedule goes from each reset to the one after it. -/
structure InOrder (s : Schedule) (since stop : ℤ) : Prop where
  reached : since < s.next (s.last since)
  first : ∀ t, s.IsReset t → since < s.next t → s.last since ≤ t
  advances : ∀ t, s.IsReset t → s.last since ≤ t → t < stop → t < s.next t
  consecutive : ∀ t t', s.IsReset t → s.IsReset t' → s.last since ≤ t → t < t' → t' < stop →
    s.next t ≤ t'

/-- The resets of the walk before an instant. -/
def resetsBefore (s : Schedule) (since t : ℤ) : Set ℤ :=
  {x | s.IsReset x ∧ s.last since ≤ x ∧ x < t}

variable {s : Schedule}

theorem isReset_last (hs : s.active = true) (t : ℤ) : s.IsReset (s.last t) := last_mem hs t

theorem isReset_next (hs : s.active = true) (t : ℤ) : s.IsReset (s.next t) := next_mem hs t

theorem isReset_iterate (hs : s.active = true) (since : ℤ) (n : ℕ) :
    s.IsReset (s.next^[n] (s.last since)) := by
  cases n with
  | zero => exact isReset_last hs since
  | succ n =>
    rw [Function.iterate_succ_apply']
    exact isReset_next hs _

theorem Partitions.last_eq_self (h : s.Partitions) {t : ℤ} (ht : s.IsReset t) : s.last t = t := by
  obtain ⟨month, rfl⟩ := ht
  by_contra hne
  exact h.consecutive (s.boundary month) month ⟨lt_of_le_of_ne (h.last_le _) hne, h.lt_next _⟩

/-- **A schedule that partitions the time line is in order.** -/
theorem inOrder_of_partitions (hs : s.active = true) (h : s.Partitions) (since stop : ℤ) :
    s.InOrder since stop := by
  constructor
  · rw [h.next_last]
    exact h.lt_next since
  · intro t ht hnext
    obtain ⟨month, hmonth⟩ := isReset_last hs since
    by_contra hlt
    have hle := h.last_le since
    refine h.consecutive t month ⟨?_, ?_⟩
    · rw [h.last_eq_self ht]
      omega
    · omega
  · exact fun t _ _ _ => h.lt_next t
  · rintro t t' ht ⟨month, rfl⟩ - hlt -
    by_contra hgt
    refine h.consecutive t month ⟨?_, not_le.mp hgt⟩
    rwa [h.last_eq_self ht]

namespace InOrder

variable {since stop : ℤ}

/-- **Iterating the next reset reaches every reset of the window.** -/
theorem exists_climb (hs : s.active = true) (h : s.InOrder since stop) {t : ℤ} (ht : s.IsReset t)
    (hle : s.last since ≤ t) (hlt : t < stop) :
    ∃ n, Climbs s.next (s.last since) n ∧ s.next^[n] (s.last since) = t := by
  refine Komari.exists_climb (p := fun x => s.IsReset x ∧ s.last since ≤ x) ?_
    ⟨isReset_last hs since, le_rfl⟩ hle
  rintro x ⟨hx, hlow⟩ hxt
  have hadvance := h.advances x hx hlow (hxt.trans hlt)
  exact ⟨⟨isReset_next hs x, hlow.trans hadvance.le⟩, hadvance,
    h.consecutive x t hx ht hlow hxt hlt⟩

/-- A walk that stays before `stop` climbs. -/
theorem climbs (hs : s.active = true) (h : s.InOrder since stop) {n : ℕ}
    (hstop : ∀ i ≤ n, s.next^[i] (s.last since) < stop) : Climbs s.next (s.last since) n := by
  induction n with
  | zero => exact fun i hi => absurd hi (by omega)
  | succ n ih =>
    have hclimb := ih fun i hi => hstop i (by omega)
    intro i hi
    rcases Nat.lt_succ_iff_lt_or_eq.mp hi with hlt | rfl
    · exact hclimb i hlt
    · rw [Function.iterate_succ_apply']
      exact h.advances _ (isReset_iterate hs since i) (hclimb.le (Nat.zero_le i) le_rfl)
        (hstop i (by omega))

/-- **As many resets lie before a reset of the walk as there are steps to it.** -/
theorem ncard_resetsBefore (hs : s.active = true) (h : s.InOrder since stop) {n : ℕ}
    (hclimb : Climbs s.next (s.last since) n) (hlt : s.next^[n] (s.last since) < stop) :
    (s.resetsBefore since (s.next^[n] (s.last since))).ncard = n := by
  have hset : s.resetsBefore since (s.next^[n] (s.last since)) =
      (fun i => s.next^[i] (s.last since)) '' Set.Iio n := by
    ext t
    constructor
    · rintro ⟨ht, hlow, hhigh⟩
      obtain ⟨k, hk, rfl⟩ := h.exists_climb hs ht hlow (hhigh.trans hlt)
      refine ⟨k, ?_, rfl⟩
      -- a later step of the walk would not lie before the reset
      by_contra hle
      exact absurd hhigh (not_lt.mpr (hk.le (not_lt.mp hle) le_rfl))
    · rintro ⟨i, hi, rfl⟩
      exact ⟨isReset_iterate hs since i, hclimb.le (Nat.zero_le i) (Set.mem_Iio.mp hi).le,
        hclimb.lt (Set.mem_Iio.mp hi) le_rfl⟩
  rw [hset, hclimb.ncard_image]

end InOrder

end Schedule

end TrafficReset

end Komari
