import Komari.Expiry.Advance
import Mathlib.Tactic.Ring

/-!
# Gaps

Where a zone moves its clock forward, the wall clocks in between are not shown.  Wall clocks are
nanoseconds here, as `civilUTC` gives them.
-/

namespace Komari

namespace Expiry

open Calendar TrafficReset

/-! ### Wall clocks -/

/-- The wall clock in nanoseconds. -/
def wallNanos (z : Zone) (t : ℤ) : ℤ := t + offsetNanos z t

/-- Some instant shows the wall clock. -/
def Shown (z : Zone) (w : ℤ) : Prop := ∃ t, wallNanos z t = w

/-- How far the clock is moved forward at a second. -/
def jumpAt (z : Zone) (sec : ℤ) : ℤ := z.offset sec - z.offset (sec - 1)

/-- At the second the clock is moved forward over a wall clock. -/
def Skips (z : Zone) (w sec : ℤ) : Prop :=
  nanosPerSecond * (sec + z.offset (sec - 1)) ≤ w ∧ w < nanosPerSecond * (sec + z.offset sec)

/-- The wall clock that stands for `w`: `w` where it is shown, and else `w` moved by a gap over it. -/
def Settles (z : Zone) (w k : ℤ) : Prop :=
  (Shown z w ∧ k = w) ∨
    (¬Shown z w ∧ ∃ sec, Skips z w sec ∧ k = w + nanosPerSecond * jumpAt z sec)

/-- The wall clock that is looked up for `w`: the gap is the first one of two seconds or more. -/
def Settled (z : Zone) (w k : ℤ) : Prop :=
  (Shown z w ∧ k = w) ∨
    (¬Shown z w ∧ ∃ sec, IsLeast {s | Skips z w s ∧ 2 ≤ jumpAt z s} sec ∧
      k = w + nanosPerSecond * jumpAt z sec)

@[simp] theorem localTime_eq_iff {z : Zone} {t w : ℤ} :
    localTime z t = utcTime w ↔ wallNanos z t = w :=
  utcTime_injective.eq_iff

@[simp] theorem civilFromLocal_eq (z : Zone) (t : ℤ) : civilFromLocal z t = wallNanos z t :=
  civilUTC_utcTime _

/-- The wall clock of an instant `nano` nanoseconds after a second. -/
theorem wallNanos_add {z : Zone} {sec nano : ℤ} (hlow : 0 ≤ nano) (hhigh : nano < nanosPerSecond) :
    wallNanos z (nanosPerSecond * sec + nano) = nanosPerSecond * (sec + z.offset sec) + nano := by
  have hsec : (nanosPerSecond * sec + nano) / nanosPerSecond = sec := by
    unfold nanosPerSecond at *
    omega
  rw [wallNanos, offsetNanos, hsec, Int.mul_add]
  omega

theorem wallNanos_mul (z : Zone) (sec : ℤ) :
    wallNanos z (nanosPerSecond * sec) = nanosPerSecond * (sec + z.offset sec) := by
  have h := @wallNanos_add z sec 0 le_rfl (by decide)
  rwa [add_zero, add_zero] at h

/-- A wall clock is shown when an instant with the offset lies where it should. -/
theorem shown_of_offset {z : Zone} {w offset : ℤ}
    (h : z.offset ((w - nanosPerSecond * offset) / nanosPerSecond) = offset) : Shown z w := by
  refine ⟨w - nanosPerSecond * offset, ?_⟩
  rw [wallNanos, offsetNanos, h]
  omega

theorem Settled.settles {z : Zone} {w k : ℤ} (h : Settled z w k) : Settles z w k := by
  rcases h with h | ⟨hshown, sec, hleast, hk⟩
  · exact Or.inl h
  · exact Or.inr ⟨hshown, sec, hleast.1.1, hk⟩

theorem Settled.unique {z : Zone} {w k k' : ℤ} (h : Settled z w k) (h' : Settled z w k') : k = k' := by
  rcases h with ⟨hshown, rfl⟩ | ⟨hshown, sec, hleast, rfl⟩
  · rcases h' with ⟨-, rfl⟩ | ⟨hnot, -⟩
    · rfl
    · exact absurd hshown hnot
  · rcases h' with ⟨hyes, -⟩ | ⟨-, sec', hleast', rfl⟩
    · exact absurd hyes hshown
    · rw [hleast.unique hleast']

theorem Settles.le {z : Zone} {w k : ℤ} (h : Settles z w k) : w ≤ k := by
  rcases h with ⟨-, rfl⟩ | ⟨-, sec, ⟨hlow, hhigh⟩, rfl⟩
  · exact le_rfl
  · have hlt := hlow.trans_lt hhigh
    unfold jumpAt nanosPerSecond at *
    omega

/-! ### The scan -/

section Scan

variable {table : ZoneTable} {w : ℤ}

/-- The clock is moved forward over the wall clock in the minute from an instant. -/
def JumpsFrom (z : Zone) (w p : ℤ) : Prop :=
  minuteNanos + nanosPerSecond < wallNanos z (p + minuteNanos) - wallNanos z p ∧
    wallNanos z p < w ∧ w < wallNanos z (p + minuteNanos)

theorem gapOver_of_jump {z : Zone} {prev : ℤ} (h : JumpsFrom z w prev) (probes : List ℤ) :
    gapOver z w prev ((prev + minuteNanos) :: probes) =
      some (wallNanos z (prev + minuteNanos) - wallNanos z prev - minuteNanos) := by
  simp only [gapOver, civilFromLocal_eq]
  exact if_pos h

theorem gapOver_of_not_jump {z : Zone} {prev : ℤ} (h : ¬JumpsFrom z w prev) (probes : List ℤ) :
    gapOver z w prev ((prev + minuteNanos) :: probes) = gapOver z w (prev + minuteNanos) probes := by
  simp only [gapOver, civilFromLocal_eq]
  exact if_neg h

/-- The scan finds the first minute in which the clock is moved forward over the wall clock. -/
theorem gapOver_range (z : Zone) (w prev gap : ℤ) (n : ℕ) :
    gapOver z w prev ((List.range n).map fun k : ℕ => prev + minuteNanos + minuteNanos * k) = some gap ↔
      ∃ k < n, JumpsFrom z w (prev + minuteNanos * k) ∧
        gap = wallNanos z (prev + minuteNanos * k + minuteNanos) -
          wallNanos z (prev + minuteNanos * k) - minuteNanos ∧
        ∀ j < k, ¬JumpsFrom z w (prev + minuteNanos * j) := by
  induction n generalizing prev with
  | zero => simp [gapOver]
  | succ n ih =>
    have htail : ((List.range n).map Nat.succ).map
        (fun k : ℕ => prev + minuteNanos + minuteNanos * k) =
          (List.range n).map fun k : ℕ => prev + minuteNanos + minuteNanos + minuteNanos * k := by
      rw [List.map_map]
      refine List.map_congr_left fun k _ => ?_
      simp only [Function.comp_apply, Nat.succ_eq_add_one]
      push_cast
      ring
    have hzero : prev + minuteNanos + minuteNanos * ((0 : ℕ) : ℤ) = prev + minuteNanos := by simp
    have hshift : ∀ k : ℕ, prev + minuteNanos * ((k + 1 : ℕ) : ℤ) =
        prev + minuteNanos + minuteNanos * k := fun k => by
      push_cast
      ring
    rw [List.range_succ_eq_map, List.map_cons, htail, hzero]
    by_cases hjump : JumpsFrom z w prev
    · rw [gapOver_of_jump hjump, Option.some_inj]
      constructor
      · rintro rfl
        exact ⟨0, Nat.succ_pos n, by simpa using hjump, by simp, fun j hj => absurd hj (Nat.not_lt_zero j)⟩
      · rintro ⟨k, -, -, rfl, hfirst⟩
        cases k with
        | zero => simp
        | succ k => exact absurd (by simpa using hjump) (hfirst 0 (Nat.succ_pos k))
    · rw [gapOver_of_not_jump hjump, ih]
      constructor
      · rintro ⟨k, hk, hjumps, hgap, hfirst⟩
        refine ⟨k + 1, by omega, by rwa [hshift], by rwa [hshift], fun j hj => ?_⟩
        cases j with
        | zero => simpa using hjump
        | succ j =>
          rw [hshift]
          exact hfirst j (by omega)
      · rintro ⟨k, hk, hjumps, hgap, hfirst⟩
        cases k with
        | zero => exact absurd (by simpa using hjumps) hjump
        | succ k =>
          rw [hshift] at hjumps hgap
          refine ⟨k, by omega, hjumps, hgap, fun j hj => ?_⟩
          rw [← hshift]
          exact hfirst (j + 1) (by omega)

/-- Where the offsets before a change are equal and those behind it, the clock is moved there only. -/
theorem eq_of_jumpAt_ne_zero {z : Zone} {first last at' sec : ℤ}
    (hbefore : ∀ s, first ≤ s → s < at' → z.offset s = z.offset first)
    (hafter : ∀ s, at' ≤ s → s ≤ last → z.offset s = z.offset last)
    (hsec : first < sec ∧ sec ≤ last) (hjump : jumpAt z sec ≠ 0) : sec = at' := by
  unfold jumpAt at hjump
  rcases lt_trichotomy sec at' with hlt | heq | hgt
  · rw [hbefore sec (by omega) hlt, hbefore (sec - 1) (by omega) (by omega), sub_self] at hjump
    exact absurd rfl hjump
  · exact heq
  · rw [hafter sec (by omega) (by omega), hafter (sec - 1) (by omega) (by omega), sub_self] at hjump
    exact absurd rfl hjump

/-- In a minute the clock is moved once at most. -/
theorem change_unique {first s s' : ℤ} (hs : first < s ∧ s ≤ first + 60)
    (hs' : first < s' ∧ s' ≤ first + 60) (hjump : jumpAt table.zone s ≠ 0)
    (hjump' : jumpAt table.zone s' ≠ 0) : s = s' := by
  rcases table.exists_change (show first + 60 < first + 3600 by omega) with
    hconst | ⟨at', hat, hbefore, hafter⟩
  · rw [jumpAt, hconst s (by omega) (by omega), hconst (s - 1) (by omega) (by omega), sub_self] at hjump
    exact absurd rfl hjump
  · rw [eq_of_jumpAt_ne_zero hbefore hafter hs hjump, eq_of_jumpAt_ne_zero hbefore hafter hs' hjump']

theorem mul_add_minute (first : ℤ) :
    nanosPerSecond * first + minuteNanos = nanosPerSecond * (first + 60) := by
  unfold minuteNanos
  ring

/-- A minute in which the clock is moved is longer or shorter by that on the wall clock. -/
theorem minute_jump {first sec : ℤ} (hsec : first < sec ∧ sec ≤ first + 60)
    (hjump : jumpAt table.zone sec ≠ 0) :
    wallNanos table.zone (nanosPerSecond * first + minuteNanos) -
      wallNanos table.zone (nanosPerSecond * first) - minuteNanos =
        nanosPerSecond * jumpAt table.zone sec := by
  rw [mul_add_minute, wallNanos_mul, wallNanos_mul]
  rcases table.exists_change (show first + 60 < first + 3600 by omega) with
    hconst | ⟨at', hat, hbefore, hafter⟩
  · rw [jumpAt, hconst sec (by omega) (by omega), hconst (sec - 1) (by omega) (by omega)] at hjump
    omega
  · obtain rfl := eq_of_jumpAt_ne_zero hbefore hafter hsec hjump
    rw [jumpAt, hafter sec le_rfl hat.2, hbefore (sec - 1) (by omega) (by omega)]
    unfold minuteNanos
    ring

/-- **What a minute shows of a gap.**  The clock is moved over a wall clock that is not shown when a
second of the minute skips it, by two seconds or more. -/
theorem jumpsFrom_iff (hw : ¬Shown table.zone w) (first : ℤ) :
    JumpsFrom table.zone w (nanosPerSecond * first) ↔
      ∃ sec, (first < sec ∧ sec ≤ first + 60) ∧ Skips table.zone w sec ∧ 2 ≤ jumpAt table.zone sec := by
  rw [JumpsFrom, mul_add_minute, wallNanos_mul, wallNanos_mul]
  rcases table.exists_change (show first + 60 < first + 3600 by omega) with
    hconst | ⟨at', hat, hbefore, hafter⟩
  · -- without a change the minute passes as a minute
    rw [hconst (first + 60) (by omega) le_rfl]
    constructor
    · rintro ⟨hjump, -⟩
      unfold minuteNanos nanosPerSecond at hjump
      omega
    · rintro ⟨sec, hsec, -, hjump⟩
      rw [jumpAt, hconst sec (by omega) (by omega), hconst (sec - 1) (by omega) (by omega)] at hjump
      omega
  · have hjumpAt : jumpAt table.zone at' = table.zone.offset (first + 60) - table.zone.offset first := by
      rw [jumpAt, hafter at' le_rfl hat.2, hbefore (at' - 1) (by omega) (by omega)]
    have hskips : Skips table.zone w at' ↔ nanosPerSecond * (at' + table.zone.offset first) ≤ w ∧
        w < nanosPerSecond * (at' + table.zone.offset (first + 60)) := by
      rw [Skips, hafter at' le_rfl hat.2, hbefore (at' - 1) (by omega) (by omega)]
    constructor
    · rintro ⟨hjump, hlow, hhigh⟩
      refine ⟨at', hat, hskips.mpr ⟨?_, ?_⟩, ?_⟩
      · -- a wall clock before the change would be shown
        refine not_lt.mp fun hlt => hw (shown_of_offset (hbefore _ ?_ ?_)) <;>
          unfold nanosPerSecond at * <;> omega
      · -- and so would one behind it
        refine not_le.mp fun hle => hw (shown_of_offset (hafter _ ?_ ?_)) <;>
          unfold nanosPerSecond at * <;> omega
      · rw [hjumpAt]
        unfold minuteNanos nanosPerSecond at *
        omega
    · rintro ⟨sec, hsec, hskip, hjump⟩
      obtain rfl := eq_of_jumpAt_ne_zero hbefore hafter hsec (by omega)
      obtain ⟨hlow, hhigh⟩ := hskips.mp hskip
      rw [hjumpAt] at hjump
      unfold minuteNanos nanosPerSecond at *
      omega

/-- The window of a wall clock begins a day before its midnight, on a whole second. -/
theorem scanWindow_utcTime (w : ℤ) : ∃ first : ℤ,
    scanWindow (utcTime w) =
      (nanosPerSecond * first, nanosPerSecond * first + 72 * hourNanos) ∧
      nanosPerSecond * first + 24 * hourNanos ≤ w ∧ w < nanosPerSecond * first + 48 * hourNanos := by
  obtain ⟨midnight, hmidnight, hlow, hhigh⟩ := midnight_le (rfl : utcTime w = utcTime w)
  refine ⟨midnight - 24 * 3600, ?_, ?_, ?_⟩
  · rw [scanWindow, hmidnight]
    refine Prod.ext ?_ ?_ <;> simp only [hourNanos] <;> ring
  · unfold hourNanos at *
    linarith
  · unfold hourNanos at *
    linarith

/-- **The scan finds the first gap** of two seconds or more over a wall clock that is not shown. -/
theorem dstForwardGapContaining_some (hw : ¬Shown table.zone w) (gap : ℤ) :
    dstForwardGapContaining table.zone (utcTime w) = some gap ↔
      ∃ sec, IsLeast {s | Skips table.zone w s ∧ 2 ≤ jumpAt table.zone s} sec ∧
        gap = nanosPerSecond * jumpAt table.zone sec := by
  obtain ⟨first, hwindow, hlow, hhigh⟩ := scanWindow_utcTime w
  have hprobes : every (nanosPerSecond * first + minuteNanos)
      (nanosPerSecond * first + 72 * hourNanos - 1) minuteNanos =
        (List.range 4319).map fun k : ℕ =>
          nanosPerSecond * first + minuteNanos + minuteNanos * k := by
    have hcount : (nanosPerSecond * first + 72 * hourNanos - 1 -
        (nanosPerSecond * first + minuteNanos)) / minuteNanos + 1 = 4319 := by
      unfold hourNanos minuteNanos nanosPerSecond
      omega
    rw [every, hcount]
    rfl
  have hminute : ∀ k : ℕ, nanosPerSecond * first + minuteNanos * k =
      nanosPerSecond * (first + 60 * k) := fun k => by
    unfold minuteNanos
    ring
  -- a second that skips the wall clock lies in a minute of the window
  have hin : ∀ s, Skips table.zone w s → 2 ≤ jumpAt table.zone s →
      ∃ k : ℕ, k < 4319 ∧ first + 60 * k < s ∧ s ≤ first + 60 * k + 60 := by
    rintro s ⟨hslow, hshigh⟩ -
    have h₁ := table.offset_zone_lt s
    have h₂ := table.offset_zone_lt (s - 1)
    refine ⟨((s - first - 1) / 60).toNat, ?_⟩
    unfold hourNanos nanosPerSecond at *
    omega
  rw [dstForwardGapContaining, hwindow, civilUTC_utcTime]
  simp only [hprobes, gapOver_range, hminute, jumpsFrom_iff hw]
  constructor
  · rintro ⟨k, hk, ⟨sec, hsec, hskips, hjump⟩, rfl, hfirst⟩
    refine ⟨sec, ⟨⟨hskips, hjump⟩, ?_⟩, minute_jump hsec (by omega)⟩
    rintro s ⟨hskips', hjump'⟩
    obtain ⟨j, hj, hs⟩ := hin s hskips' hjump'
    rcases lt_trichotomy j k with hjk | rfl | hjk
    · exact absurd ⟨s, hs, hskips', hjump'⟩ (hfirst j hjk)
    · have hne : jumpAt table.zone sec ≠ 0 := by omega
      have hne' : jumpAt table.zone s ≠ 0 := by omega
      exact (change_unique hsec hs hne hne').le
    · omega
  · rintro ⟨sec, ⟨⟨hskips, hjump⟩, hleast⟩, rfl⟩
    obtain ⟨k, hk, hsec⟩ := hin sec hskips hjump
    refine ⟨k, hk, ⟨sec, hsec, hskips, hjump⟩, (minute_jump hsec (by omega)).symm, fun j hj => ?_⟩
    rintro ⟨s, hs, hskips', hjump'⟩
    have := hleast ⟨hskips', hjump'⟩
    omega

/-! ### What is resolved -/

theorem matchingWallTimes_eq_nil : matchingWallTimes table.zone (utcTime w) = [] ↔
    ¬Shown table.zone w := by
  simp only [List.eq_nil_iff_forall_not_mem, mem_matchingWallTimes, localTime_eq_iff, Shown, not_exists]

theorem isLeast_of_matchingWallTimes {t : ℤ} {rest : List ℤ}
    (h : matchingWallTimes table.zone (utcTime w) = t :: rest) :
    IsLeast {u | wallNanos table.zone u = w} t := by
  simpa only [localTime_eq_iff] using isLeast_head h

/-- **What is resolved**: the first instant of the wall clock that is looked up. -/
theorem resolveWallTime_ok (name : String) (t : ℤ) :
    resolveWallTime table.zone name (utcTime w) = .ok t ↔
      ∃ k, Settled table.zone w k ∧ IsLeast {u | wallNanos table.zone u = k} t := by
  unfold resolveWallTime
  cases hmatches : matchingWallTimes table.zone (utcTime w) with
  | cons first rest =>
    have hleast := isLeast_of_matchingWallTimes hmatches
    have hshown : Shown table.zone w := ⟨first, hleast.1⟩
    rw [Except.ok.injEq]
    constructor
    · rintro rfl
      exact ⟨w, Or.inl ⟨hshown, rfl⟩, hleast⟩
    · rintro ⟨k, hsettled, hk⟩
      obtain rfl := hsettled.unique (Or.inl ⟨hshown, rfl⟩)
      exact hleast.unique hk
  | nil =>
    have hw := matchingWallTimes_eq_nil.mp hmatches
    have hscan := dstForwardGapContaining_some hw
    simp only [civilUTC_utcTime]
    cases hgap : dstForwardGapContaining table.zone (utcTime w) with
    | none =>
      refine ⟨nofun, ?_⟩
      rintro ⟨k, ⟨hshown, -⟩ | ⟨-, sec, hleast, rfl⟩, -⟩
      · exact absurd hshown hw
      · exact absurd ((hscan _).mpr ⟨sec, hleast, rfl⟩) (by rw [hgap]; simp)
    | some gap =>
      obtain ⟨sec, hleast, rfl⟩ := (hscan gap).mp hgap
      have hsettled : Settled table.zone w (w + nanosPerSecond * jumpAt table.zone sec) :=
        Or.inr ⟨hw, sec, hleast, rfl⟩
      have hpos : ¬nanosPerSecond * jumpAt table.zone sec ≤ 0 := by
        have := hleast.1.2
        unfold nanosPerSecond
        omega
      simp only [if_neg hpos]
      cases hshifted : matchingWallTimes table.zone
          (utcTime (w + nanosPerSecond * jumpAt table.zone sec)) with
      | cons first rest =>
        have hfirst := isLeast_of_matchingWallTimes hshifted
        rw [Except.ok.injEq]
        constructor
        · rintro rfl
          exact ⟨_, hsettled, hfirst⟩
        · rintro ⟨k, hsettled', hk⟩
          obtain rfl := hsettled.unique hsettled'
          exact hfirst.unique hk
      | nil =>
        refine ⟨nofun, ?_⟩
        rintro ⟨k, hsettled', hk⟩
        obtain rfl := hsettled.unique hsettled'
        exact absurd ⟨t, hk.1⟩ (matchingWallTimes_eq_nil.mp hshifted)

end Scan

end Expiry

end Komari
