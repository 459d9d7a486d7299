import Komari.Run.Along
import Mathlib.Algebra.Order.Floor.Ring
import Mathlib.Tactic.Linarith
import Mathlib.Tactic.Ring

/-!
# Token buckets

A bucket fills up at a rate, holds at most a burst, and gives a token to a request if it has a whole one.  A
bucket that is not kept is full.
-/

namespace Komari

namespace TokenBucket

/-- What was in a bucket, and when. -/
structure Bucket (K : Type*) where
  tokens : K
  seen : K
deriving DecidableEq

/-- A request, or the loss of the bucket. -/
inductive Event (K : Type*)
  | call (now : K)
  | drop
deriving DecidableEq

variable {K : Type*} [Field K] [LinearOrder K]

/-- The tokens at an instant. -/
def level (rate burst : K) : Option (Bucket K) → K → K
  | none, _ => burst
  | some b, now => min burst (b.tokens + (now - b.seen) * rate)

/-- A request is admitted if there is a whole token. -/
def admits (rate burst : K) (b : Option (Bucket K)) (now : K) : Bool := decide (1 ≤ level rate burst b now)

/-- A request that is admitted takes a token. -/
def spend (rate burst : K) (b : Option (Bucket K)) (now : K) : Bucket K :=
  ⟨if 1 ≤ level rate burst b now then level rate burst b now - 1 else level rate burst b now, now⟩

/-- The bucket after an event. -/
def next (rate burst : K) (b : Option (Bucket K)) : Event K → Option (Bucket K)
  | .call now => some (spend rate burst b now)
  | .drop => none

/-- The answers to the requests of a list. -/
def decisions (rate burst : K) : Option (Bucket K) → List (Event K) → List Bool
  | _, [] => []
  | b, .call now :: events =>
    admits rate burst b now :: decisions rate burst (next rate burst b (.call now)) events
  | b, .drop :: events => decisions rate burst (next rate burst b .drop) events

/-- The number of requests of an interval that are admitted. -/
def admittedWithin (rate burst a z : K) : Option (Bucket K) → List (Event K) → ℕ
  | _, [] => 0
  | b, .call now :: events =>
    (if a ≤ now ∧ now ≤ z ∧ admits rate burst b now = true then 1 else 0) +
      admittedWithin rate burst a z (next rate burst b (.call now)) events
  | b, .drop :: events => admittedWithin rate burst a z (next rate burst b .drop) events

/-- The requests come one after the other. -/
def InOrder (t : K) : List (Event K) → Prop
  | [] => True
  | .call now :: events => t ≤ now ∧ InOrder now events
  | .drop :: events => InOrder t events

/-- A bucket that is kept holds what it may, and was counted before. -/
def Kept (burst t : K) (b : Option (Bucket K)) : Prop :=
  ∀ x, b = some x → 0 ≤ x.tokens ∧ x.tokens ≤ burst ∧ x.seen ≤ t

/-! ### One request -/

section

variable [IsStrictOrderedRing K] {rate burst : K} {b b' : Option (Bucket K)} {t now : K}

omit [IsStrictOrderedRing K] in
theorem level_le (rate burst : K) (b : Option (Bucket K)) (now : K) : level rate burst b now ≤ burst := by
  cases b with
  | none => exact le_rfl
  | some x => exact min_le_left _ _

omit [IsStrictOrderedRing K] in
theorem Kept.mono (h : Kept burst t b) (hle : t ≤ now) : Kept burst now b :=
  fun x hx => ⟨(h x hx).1, (h x hx).2.1, (h x hx).2.2.trans hle⟩

omit [IsStrictOrderedRing K] in
theorem kept_none : Kept burst t none := fun _ hx => nomatch hx

theorem Kept.level_nonneg (h : Kept burst t b) (hrate : 0 ≤ rate) (hburst : 0 ≤ burst) (hle : t ≤ now) :
    0 ≤ level rate burst b now := by
  cases b with
  | none => exact hburst
  | some x =>
    obtain ⟨hpos, -, hseen⟩ := h x rfl
    have hdt : 0 ≤ (now - x.seen) * rate := mul_nonneg (by linarith) hrate
    exact le_min hburst (by linarith)

theorem Kept.spend (h : Kept burst t b) (hrate : 0 ≤ rate) (hburst : 0 ≤ burst) (hle : t ≤ now) :
    Kept burst now (some (spend rate burst b now)) := by
  rintro x hx
  obtain rfl := Option.some.inj hx
  have hnonneg := h.level_nonneg hrate hburst hle
  have hlevel := level_le rate burst b now
  refine ⟨?_, ?_, le_rfl⟩
  · simp only [TokenBucket.spend]
    split_ifs with hone
    · linarith
    · exact hnonneg
  · simp only [TokenBucket.spend]
    split_ifs with hone
    · linarith
    · exact hlevel

variable {events : List (Event K)}

theorem Kept.foldl_next (h : Kept burst t b) (hrate : 0 ≤ rate) (hburst : 0 ≤ burst) {z : K}
    (hevents : InOrder t events) (hz : t ≤ z) (hle : ∀ now, .call now ∈ events → now ≤ z) :
    Kept burst z (events.foldl (next rate burst) b) := by
  induction events generalizing b t with
  | nil => exact h.mono hz
  | cons e events ih =>
    have hrest : ∀ now, .call now ∈ events → now ≤ z := fun now hmem => hle now (List.mem_cons_of_mem _ hmem)
    cases e with
    | call now => exact ih (h.spend hrate hburst hevents.1) hevents.2 (hle now List.mem_cons_self) hrest
    | drop => exact ih kept_none hevents hz hrest

omit [Field K] [IsStrictOrderedRing K] in
theorem InOrder.mono (h : InOrder now events) (hle : t ≤ now) : InOrder t events := by
  induction events with
  | nil => trivial
  | cons e events ih =>
    cases e with
    | call now' => exact ⟨hle.trans h.1, h.2⟩
    | drop => exact ih h

/-! ### Intervals -/

theorem admittedWithin_eq_zero {a z : K} (hlt : z < t) (hevents : InOrder t events) :
    admittedWithin rate burst a z b events = 0 := by
  induction events generalizing b t with
  | nil => rfl
  | cons e events ih =>
    cases e with
    | call now =>
      obtain ⟨hle, hevents⟩ := hevents
      have hnot : ¬(a ≤ now ∧ now ≤ z ∧ admits rate burst b now = true) := fun h => by linarith [h.2.1]
      rw [admittedWithin, if_neg hnot, ih (hlt.trans_le hle) hevents]
    | drop => exact ih hlt hevents

/-- Within the interval, what is admitted was in the bucket, or came in since. -/
theorem admittedWithin_le_tokens {a z : K} (hrate : 0 ≤ rate) (hburst : 0 ≤ burst)
    {x : Bucket K} (hx : 0 ≤ x.tokens) (hle : x.seen ≤ z) (hevents : InOrder x.seen events)
    (hdrop : .drop ∉ events) :
    (admittedWithin rate burst a z (some x) events : K) ≤ x.tokens + (z - x.seen) * rate := by
  induction events generalizing x with
  | nil =>
    have hdt : 0 ≤ (z - x.seen) * rate := mul_nonneg (by linarith) hrate
    rw [admittedWithin, Nat.cast_zero]
    linarith
  | cons e events ih =>
    cases e with
    | drop => exact absurd List.mem_cons_self hdrop
    | call now =>
      rw [List.mem_cons, not_or] at hdrop
      obtain ⟨hseen, hevents⟩ := hevents
      by_cases hz : now ≤ z
      · have hlevel : level rate burst (some x) now ≤ x.tokens + (now - x.seen) * rate := min_le_right _ _
        have hdt : 0 ≤ (now - x.seen) * rate := mul_nonneg (by linarith) hrate
        have hnonneg : 0 ≤ level rate burst (some x) now := le_min hburst (by linarith)
        have hrest : ∀ y : Bucket K, y.seen = now → 0 ≤ y.tokens →
            (admittedWithin rate burst a z (some y) events : K) ≤ y.tokens + (z - now) * rate := by
          rintro y rfl hy
          exact ih hy hz hevents hdrop.2
        have hspend := hrest (TokenBucket.spend rate burst (some x) now) rfl (by
          simp only [TokenBucket.spend]
          split_ifs <;> linarith)
        have hsum : (now - x.seen) * rate + (z - now) * rate = (z - x.seen) * rate := by ring
        rw [admittedWithin, Nat.cast_add]
        simp only [next]
        by_cases hone : 1 ≤ level rate burst (some x) now
        · have htokens : (TokenBucket.spend rate burst (some x) now).tokens =
              level rate burst (some x) now - 1 := if_pos hone
          rw [htokens] at hspend
          split_ifs with hcond
          · rw [Nat.cast_one]
            linarith
          · rw [Nat.cast_zero]
            linarith
        · have htokens : (TokenBucket.spend rate burst (some x) now).tokens =
              level rate burst (some x) now := if_neg hone
          rw [htokens] at hspend
          have hnot : ¬(a ≤ now ∧ now ≤ z ∧ admits rate burst (some x) now = true) :=
            fun h => hone (of_decide_eq_true h.2.2)
          rw [if_neg hnot, Nat.cast_zero]
          linarith
      · have hnot : ¬(a ≤ now ∧ now ≤ z ∧ admits rate burst (some x) now = true) := fun h => hz h.2.1
        have hdt : 0 ≤ (z - x.seen) * rate := mul_nonneg (by linarith) hrate
        rw [admittedWithin, if_neg hnot, admittedWithin_eq_zero (not_le.mp hz) hevents, Nat.cast_zero]
        linarith

/-- **In an interval at most a burst and what comes in are admitted**, as long as the bucket is kept. -/
theorem admittedWithin_le {a z : K} (hrate : 0 ≤ rate) (hburst : 0 ≤ burst)
    (haz : a ≤ z) (h : Kept burst t b) (hevents : InOrder t events) (hdrop : .drop ∉ events) :
    (admittedWithin rate burst a z b events : K) ≤ burst + (z - a) * rate := by
  have hdt : 0 ≤ (z - a) * rate := mul_nonneg (by linarith) hrate
  induction events generalizing b t with
  | nil =>
    rw [admittedWithin, Nat.cast_zero]
    linarith
  | cons e events ih =>
    cases e with
    | drop => exact absurd List.mem_cons_self hdrop
    | call now =>
      rw [List.mem_cons, not_or] at hdrop
      obtain ⟨hle, hevents⟩ := hevents
      have hkept := h.spend hrate hburst hle
      rw [admittedWithin, Nat.cast_add]
      by_cases ha : a ≤ now
      · by_cases hz : now ≤ z
        · have hrest := @admittedWithin_le_tokens K _ _ _ rate burst events a z hrate hburst
            (TokenBucket.spend rate burst b now) (hkept _ rfl).1 hz hevents hdrop.2
          have hlevel := level_le rate burst b now
          have hseen : (TokenBucket.spend rate burst b now).seen = now := rfl
          have hrate' : (z - now) * rate ≤ (z - a) * rate := mul_le_mul_of_nonneg_right (by linarith) hrate
          rw [hseen] at hrest
          simp only [next]
          by_cases hone : 1 ≤ level rate burst b now
          · have htokens : (TokenBucket.spend rate burst b now).tokens = level rate burst b now - 1 := if_pos hone
            rw [htokens] at hrest
            split_ifs
            · rw [Nat.cast_one]
              linarith
            · rw [Nat.cast_zero]
              linarith
          · have hnot : ¬(a ≤ now ∧ now ≤ z ∧ admits rate burst b now = true) :=
              fun h => hone (of_decide_eq_true h.2.2)
            have htokens : (TokenBucket.spend rate burst b now).tokens = level rate burst b now := if_neg hone
            rw [htokens] at hrest
            rw [if_neg hnot, Nat.cast_zero]
            linarith
        · have hnot : ¬(a ≤ now ∧ now ≤ z ∧ admits rate burst b now = true) := fun h => hz h.2.1
          rw [if_neg hnot, admittedWithin_eq_zero (not_le.mp hz) hevents, Nat.cast_zero]
          linarith
      · have hnot : ¬(a ≤ now ∧ now ≤ z ∧ admits rate burst b now = true) := fun h => ha h.1
        rw [if_neg hnot, Nat.cast_zero, zero_add]
        exact ih hkept hevents hdrop.2

/-! ### Runs -/

omit [IsStrictOrderedRing K] in
theorem decisions_append (events events' : List (Event K)) :
    decisions rate burst b (events ++ events') =
      decisions rate burst b events ++ decisions rate burst (events.foldl (next rate burst) b) events' := by
  induction events generalizing b with
  | nil => rfl
  | cons e events ih =>
    cases e with
    | call now => rw [List.cons_append, decisions, decisions, ih, List.cons_append, List.foldl_cons]
    | drop => rw [List.cons_append, decisions, decisions, ih, List.foldl_cons]

omit [IsStrictOrderedRing K] in
theorem admittedWithin_append {a z : K} (events events' : List (Event K)) :
    admittedWithin rate burst a z b (events ++ events') =
      admittedWithin rate burst a z b events +
        admittedWithin rate burst a z (events.foldl (next rate burst) b) events' := by
  induction events generalizing b with
  | nil => exact (Nat.zero_add _).symm
  | cons e events ih =>
    cases e with
    | call now => rw [List.cons_append, admittedWithin, admittedWithin, ih, List.foldl_cons, Nat.add_assoc]
    | drop => rw [List.cons_append, admittedWithin, admittedWithin, ih, List.foldl_cons]

omit [IsStrictOrderedRing K] in
/-- Without requests a bucket is kept as it is, or dropped. -/
theorem foldl_next_of_notCall (h : ∀ now, .call now ∉ events) :
    events.foldl (next rate burst) b = b ∨ events.foldl (next rate burst) b = none := by
  induction events generalizing b with
  | nil => exact .inl rfl
  | cons e events ih =>
    have hrest : ∀ now, .call now ∉ events := fun now hmem => h now (List.mem_cons_of_mem _ hmem)
    cases e with
    | call now => exact absurd List.mem_cons_self (h now)
    | drop => exact .inr ((@ih none hrest).elim id id)

/-! ### Buckets that are not kept -/

omit [IsStrictOrderedRing K] in
/-- The answers depend on what the bucket holds from now on. -/
theorem decisions_congr
    (h : ∀ now, t ≤ now → level rate burst b now = level rate burst b' now) (hevents : InOrder t events) :
    decisions rate burst b events = decisions rate burst b' events := by
  induction events generalizing b b' t with
  | nil => rfl
  | cons e events ih =>
    cases e with
    | drop => rfl
    | call now =>
      have hlevel := h now hevents.1
      have hspend : TokenBucket.spend rate burst b now = TokenBucket.spend rate burst b' now := by
        rw [TokenBucket.spend, TokenBucket.spend, hlevel]
      rw [decisions, decisions, admits, admits, hlevel, next, next, hspend]

/-- **A bucket that has filled up need not be kept.** -/
theorem decisions_eq_of_full {x : Bucket K} (hrate : 0 ≤ rate)
    (hfull : burst ≤ x.tokens + (t - x.seen) * rate) (hevents : InOrder t events) :
    decisions rate burst (some x) events = decisions rate burst none events := by
  refine decisions_congr (fun now hle => ?_) hevents
  have hmul : (t - x.seen) * rate ≤ (now - x.seen) * rate := mul_le_mul_of_nonneg_right (by linarith) hrate
  exact min_eq_left (by linarith)

/-- A bucket holds at most `k` tokens more than the other, from a time on. -/
def AheadBy (rate burst : K) (k : ℕ) (t : K) (b b' : Option (Bucket K)) : Prop :=
  ∀ now, t ≤ now → level rate burst b now ≤ level rate burst b' now + k

omit [IsStrictOrderedRing K] in
theorem aheadBy_none (t : K) (b : Option (Bucket K)) : AheadBy rate burst 0 t b none := by
  intro now _
  rw [Nat.cast_zero, add_zero]
  exact level_le rate burst b now

/-- Buckets that were counted at the same time keep their distance. -/
theorem aheadBy_some {k : ℕ} {x x' : Bucket K} (hseen : x.seen = x'.seen) (htokens : x.tokens ≤ x'.tokens + k) :
    AheadBy rate burst k t (some x) (some x') := by
  intro now _
  have hk : (0 : K) ≤ k := Nat.cast_nonneg k
  simp only [level, hseen]
  rw [← min_add_add_right]
  refine le_min ((min_le_left _ _).trans (by linarith)) ((min_le_right _ _).trans ?_)
  linarith

/-- A request takes a token from both buckets, or moves them by one token. -/
theorem AheadBy.spend {k : ℕ} (h : AheadBy rate burst k t b b') (hle : t ≤ now) :
    ∃ k' : ℕ, AheadBy rate burst k' now (some (spend rate burst b now)) (some (spend rate burst b' now)) ∧
      (if 1 ≤ level rate burst b now then 1 else 0) + k' = (if 1 ≤ level rate burst b' now then 1 else 0) + k := by
  have hlevel := h now hle
  by_cases hone : 1 ≤ level rate burst b now
  · by_cases hone' : 1 ≤ level rate burst b' now
    · refine ⟨k, aheadBy_some rfl ?_, by rw [if_pos hone, if_pos hone']⟩
      simp only [TokenBucket.spend, if_pos hone, if_pos hone']
      linarith
    · obtain ⟨j, rfl⟩ : ∃ j, k = j + 1 := by
        refine Nat.exists_eq_succ_of_ne_zero fun hzero => hone' ?_
        rw [hzero, Nat.cast_zero, add_zero] at hlevel
        exact hone.trans hlevel
      refine ⟨j, aheadBy_some rfl ?_, by rw [if_pos hone, if_neg hone', Nat.zero_add, Nat.add_comm]⟩
      rw [Nat.cast_add, Nat.cast_one] at hlevel
      simp only [TokenBucket.spend, if_pos hone, if_neg hone']
      linarith
  · by_cases hone' : 1 ≤ level rate burst b' now
    · refine ⟨k + 1, aheadBy_some rfl ?_, by rw [if_neg hone, if_pos hone', Nat.zero_add, Nat.add_comm]⟩
      rw [Nat.cast_add, Nat.cast_one]
      simp only [TokenBucket.spend, if_neg hone, if_pos hone']
      linarith
    · refine ⟨k, aheadBy_some rfl ?_, by rw [if_neg hone, if_neg hone']⟩
      simp only [TokenBucket.spend, if_neg hone, if_neg hone']
      exact hlevel

omit [IsStrictOrderedRing K] in
theorem count_take_decisions (now : K) (events : List (Event K)) (n : ℕ) :
    ((decisions rate burst b (.call now :: events)).take (n + 1)).count true =
      (if 1 ≤ level rate burst b now then 1 else 0) +
        ((decisions rate burst (some (spend rate burst b now)) events).take n).count true := by
  rw [decisions, List.take_succ_cons, List.count_cons, Nat.add_comm]
  simp [admits, next]

/-- **Who loses the bucket has never fewer requests admitted**, by any request. -/
theorem count_decisions_le {k : ℕ} (h : AheadBy rate burst k t b b')
    (hevents : InOrder t events) (n : ℕ) :
    ((decisions rate burst b events).take n).count true ≤
      ((decisions rate burst b' events).take n).count true + k := by
  induction events generalizing b b' t k n with
  | nil => simp [decisions]
  | cons e events ih =>
    cases e with
    | drop => exact Nat.le_add_right _ _
    | call now =>
      cases n with
      | zero => simp
      | succ n =>
        obtain ⟨k', hahead, hsum⟩ := h.spend hevents.1
        have hrest := ih hahead hevents.2 n
        rw [count_take_decisions, count_take_decisions]
        omega

/-- A request that only the second of two buckets admits finds a whole token more in it. -/
def NoFraction (rate burst : K) (p : Option (Bucket K) × Option (Bucket K)) : Event K → Prop
  | .call now => level rate burst p.1 now < 1 → 1 ≤ level rate burst p.2 now →
      level rate burst p.1 now + 1 ≤ level rate burst p.2 now
  | .drop => True

/-- A bucket that is lost, beside one that is kept. -/
def nextPair (rate burst : K) (p : Option (Bucket K) × Option (Bucket K)) (e : Event K) :
    Option (Bucket K) × Option (Bucket K) :=
  (next rate burst p.1 e, next rate burst p.2 e)

theorem AheadBy.spend_of_noFraction (h : AheadBy rate burst 0 t b b') (hle : t ≤ now)
    (hgood : NoFraction rate burst (b, b') (.call now)) :
    AheadBy rate burst 0 now (some (TokenBucket.spend rate burst b now))
      (some (TokenBucket.spend rate burst b' now)) := by
  have hlevel := h now hle
  refine aheadBy_some rfl ?_
  rw [Nat.cast_zero, add_zero] at hlevel ⊢
  simp only [TokenBucket.spend]
  split_ifs with hone hone' hone'
  · linarith
  · exact absurd (hone.trans hlevel) hone'
  · have hmore := hgood (not_le.mp hone) hone'
    simp only at hmore
    linarith
  · exact hlevel

/-- **Each request that is admitted stays admitted when the bucket is lost**, as long as no fraction is lost
with it. -/
theorem forall₂_decisions (h : AheadBy rate burst 0 t b b') (hevents : InOrder t events)
    (hgood : Run.Along (nextPair rate burst) (NoFraction rate burst) (b, b') events) :
    List.Forall₂ (fun kept lost => kept = true → lost = true) (decisions rate burst b events)
      (decisions rate burst b' events) := by
  induction events generalizing b b' t with
  | nil => exact .nil
  | cons e events ih =>
    obtain ⟨hfst, hrest⟩ := hgood
    cases e with
    | drop => exact ih (aheadBy_none t none) hevents hrest
    | call now =>
      refine .cons (fun hkept => ?_) (ih (h.spend_of_noFraction hevents.1 hfst) hevents.2 hrest)
      have hlevel := h now hevents.1
      rw [Nat.cast_zero, add_zero] at hlevel
      exact decide_eq_true ((of_decide_eq_true hkept).trans hlevel)

/-! ### Waiting -/

/-- After a wait that brings in what is missing, a request is admitted. -/
theorem admits_of_wait {x : Bucket K} {wait : K} (hrate : 0 ≤ rate) (hburst : 1 ≤ burst)
    (hwait : 1 ≤ x.tokens + wait * rate) (hle : x.seen + wait ≤ now) :
    admits rate burst (some x) now = true := by
  have hmul : wait * rate ≤ (now - x.seen) * rate := mul_le_mul_of_nonneg_right (by linarith) hrate
  exact decide_eq_true (le_min hburst (by linarith))

omit [IsStrictOrderedRing K] in
theorem admits_none (hburst : 1 ≤ burst) (now : K) : admits rate burst none now = true := decide_eq_true hburst

end

end TokenBucket

end Komari
