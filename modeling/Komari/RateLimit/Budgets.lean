import Komari.RateLimit.Controller
import Mathlib

/-!
# Budgets of callers

Each caller has a key and a budget.  `Limits` is what the controller guarantees over whole runs.

* `limits_of_noFractionLost` : it does as long as buckets are dropped at whole tokens.
* `count_admitted_le` : in every case, who loses the bucket has never fewer requests admitted.
-/

namespace Komari

namespace RateLimit

open TokenBucket

/-- What `keyAndBudget` reads of a request. -/
structure Request where
  role : String
  clientIP : String
  /-- `client_uuid`. -/
  clientUUID : String
  uuid : String
  path : List Char

/-- The methods that read history. -/
def isHistoricalReadPath (path : List Char) : Bool :=
  ["/QueryMetrics", "/GetPingStats", "/GetDashboardCharts", "/GetDashboardSummary", "/GetTrafficTrend"].any
    fun suffix => suffix.toList.isSuffixOf path

/-- Who asks. -/
def identity (c : Request) : String :=
  if c.clientUUID ≠ "" then "client:" ++ c.clientUUID
  else if c.uuid ≠ "" ∧ c.uuid ≠ "00000000-0000-0000-0000-000000000000" then "user:" ++ c.uuid
  else c.clientIP

/-- The key and the budget of a request. -/
def keyAndBudget (c : Request) : String × ℚ × ℚ :=
  if "/api/login".toList.isPrefixOf c.path then ("login:" ++ identity c, 1 / 5, 5)
  else if c.role = "client" ∨ "/report".toList <:+: c.path ∨ "/upload".toList <:+: c.path then
    ("ingest:" ++ identity c, 20, 40)
  else if isHistoricalReadPath c.path then ("history:" ++ identity c, 20, 120)
  else ("read:" ++ identity c, 40, 160)

/-- The budgets, with the beginnings of their keys. -/
def budgets : List (String × ℚ × ℚ) :=
  [("login:", 1 / 5, 5), ("ingest:", 20, 40), ("history:", 20, 120), ("read:", 40, 160)]

theorem keyAndBudget_mem (c : Request) :
    ∃ b ∈ budgets, keyAndBudget c = (b.1 ++ identity c, b.2) := by
  rw [keyAndBudget]
  split_ifs
  · exact ⟨_, List.mem_cons_self, rfl⟩
  · exact ⟨("ingest:", 20, 40), by simp [budgets], rfl⟩
  · exact ⟨("history:", 20, 120), by simp [budgets], rfl⟩
  · exact ⟨("read:", 40, 160), by simp [budgets], rfl⟩

theorem keyAndBudget_fills (c : Request) :
    0 < (keyAndBudget c).2.1 ∧ 1 ≤ (keyAndBudget c).2.2 ∧
      (keyAndBudget c).2.2 ≤ rateLimitCleanupAge * (keyAndBudget c).2.1 := by
  obtain ⟨b, hb, heq⟩ := keyAndBudget_mem c
  have hall : ∀ b ∈ budgets, 0 < b.2.1 ∧ 1 ≤ b.2.2 ∧ b.2.2 ≤ rateLimitCleanupAge * b.2.1 := by decide +kernel
  rw [heq]
  exact hall b hb

/-- The controller after some steps. -/
def after (budget : String → ℚ × ℚ) (enabled : Bool) (steps : List Step) : Controller :=
  steps.foldl (Controller.step budget) (newRateLimitController enabled)

/-- The controller is enabled, and the bucket of a key is not dropped. -/
def Undisturbed (key : String) (ctrl : Controller) (s : Step) : Prop :=
  ctrl.enabled = true ∧ drops key ctrl s = false

/-- Budgets are kept in a run, and by the requests of a key that follow it when its bucket is dropped. -/
structure Limits (budget : String → ℚ × ℚ) (enabled : Bool) (steps : List Step) (key : String)
    (later : List (Event ℚ)) : Prop where
  /-- Between two evictions of a key, its admitted requests of an interval are at most the burst and what comes
  in. -/
  interval : ∀ before during rest, steps = before ++ during ++ rest → ∀ key,
    Run.Along (Controller.step budget) (Undisturbed key) (after budget enabled before) during →
    ∀ a z, a ≤ z → (admittedOf budget key a z (after budget enabled before) during : ℚ) ≤
      (budget key).2 + (budget key).1 * (z - a)
  /-- Tokens are within their bounds. -/
  tokens : ∀ before rest, steps = before ++ rest → ∀ key bucket,
    (after budget enabled before).buckets.find? key = some bucket →
      0 ≤ bucket.tokens ∧ bucket.tokens ≤ (budget key).2
  /-- The table does not grow past its bound. -/
  table : ∀ before rest, steps = before ++ rest →
    (after budget enabled before).buckets.rows.length ≤ rateLimitMaxEntries
  /-- Without an idle bucket, later requests are answered alike. -/
  idle : ∀ before rest, steps = before ++ rest → ∀ c bucket now, (keyAndBudget c).2 = budget (keyAndBudget c).1 →
    (after budget enabled before).buckets.find? (keyAndBudget c).1 = some bucket →
      rateLimitCleanupAge < now - bucket.seen → ∀ events, InOrder now events →
        decisions (keyAndBudget c).2.1 (keyAndBudget c).2.2 (some bucket) events =
          decisions (keyAndBudget c).2.1 (keyAndBudget c).2.2 none events
  /-- A caller that comes back in time is admitted. -/
  retry : ∀ before choices key now during choices' now' rest,
    steps = before ++ .allow choices key now :: (during ++ .allow choices' key now' :: rest) → ∀ wait,
      (allow choices (after budget enabled before) key (budget key).1 (budget key).2 now).1 = (false, wait) →
        (∀ choices now, .allow choices key now ∉ during) → now + wait ≤ now' →
          (allow choices' (after budget enabled (before ++ .allow choices key now :: during)) key (budget key).1
            (budget key).2 now').1.1 = true
  /-- Without its bucket, each later request of a key that was admitted is admitted. -/
  eviction : ∀ bucket, (after budget enabled steps).buckets.find? key = some bucket →
    List.Forall₂ (fun kept lost => kept = true → lost = true)
      (decisions (budget key).1 (budget key).2 (some bucket) later)
      (decisions (budget key).1 (budget key).2 none later)

/-- A request that is rejected with the bucket and admitted without it finds a whole token more without it. -/
def NoFractionLost (budget : String → ℚ × ℚ) (enabled : Bool) (steps : List Step) (key : String)
    (later : List (Event ℚ)) : Prop :=
  ∀ bucket, (after budget enabled steps).buckets.find? key = some bucket →
    Run.Along (nextPair (budget key).1 (budget key).2) (NoFraction (budget key).1 (budget key).2)
      (some bucket, none) later

variable {budget : String → ℚ × ℚ} {enabled : Bool}

theorem timed_append {t : ℚ} {steps steps' : List Step} :
    Timed t (steps ++ steps') ↔ Timed t steps ∧ Timed (endTime t steps) steps' := by
  induction steps generalizing t with
  | nil => exact (and_iff_right trivial).symm
  | cons s steps ih =>
    rw [List.cons_append, timed_cons, ih, @timed_cons s t steps, and_assoc]
    rfl

theorem after_append (before during : List Step) :
    after budget enabled (before ++ during) =
      during.foldl (Controller.step budget) (after budget enabled before) := List.foldl_append

theorem sound_after (hbudget : ∀ key, 0 < (budget key).1 ∧ 1 ≤ (budget key).2) {steps : List Step}
    (hsteps : Timed 0 steps) : Sound budget (endTime 0 steps) (after budget enabled steps) :=
  (sound_new enabled).run hbudget hsteps

/-- What is not dropped on the way is not dropped in the history. -/
theorem drop_notMem_history {key : String} {ctrl : Controller} {during : List Step}
    (h : Run.Along (Controller.step budget) (Undisturbed key) ctrl during) :
    .drop ∉ history budget key ctrl during := by
  induction during generalizing ctrl with
  | nil => exact List.not_mem_nil
  | cons s during ih =>
    rw [history, List.mem_append, drop_mem_events, h.1.2]
    exact fun hmem => hmem.elim Bool.false_ne_true (ih h.2)

theorem call_mem_history {key : String} {ctrl : Controller} {steps : List Step} {now : ℚ}
    (h : .call now ∈ history budget key ctrl steps) : ∃ choices, .allow choices key now ∈ steps := by
  induction steps generalizing ctrl with
  | nil => cases h
  | cons s steps ih =>
    rw [history, List.mem_append, call_mem_events] at h
    rcases h with hcall | hrest
    · cases s with
      | allow choices incoming now' =>
        rw [calls] at hcall
        split_ifs at hcall with hcond
        obtain rfl := Option.some.inj hcall
        exact ⟨choices, hcond.2 ▸ List.mem_cons_self⟩
      | update enabled => cases hcall
    · obtain ⟨choices, hmem⟩ := ih hrest
      exact ⟨choices, List.mem_cons_of_mem _ hmem⟩

/-- After the time that it is told to wait, a whole token is there. -/
theorem wait_retryAfterFor {tokens rate : ℚ} (hrate : 0 < rate) :
    1 ≤ tokens + retryAfterFor tokens rate * rate := by
  have hmissing : 1 - tokens ≤ ⌈(1 - tokens) / rate⌉ * rate := (div_le_iff₀ hrate).mp (Int.le_ceil _)
  rw [retryAfterFor, if_neg (not_le.mpr hrate)]
  simp only
  split_ifs with hnone hsmall
  · linarith
  · have hone : (⌈(1 - tokens) / rate⌉ : ℚ) ≤ 1 := by exact_mod_cast hsmall.le
    have hle : (⌈(1 - tokens) / rate⌉ : ℚ) * rate ≤ 1 * rate := mul_le_mul_of_nonneg_right hone hrate.le
    linarith
  · linarith

/-- The answer to a request that is rejected tells when the bucket that is put back has a whole token. -/
theorem charge_rejected {rate burst now wait : ℚ} {bucket : Option RateLimitBucket}
    (h : (charge rate burst bucket now).1 = (false, wait)) :
    wait = retryAfterFor (charge rate burst bucket now).2.tokens rate ∧
      (charge rate burst bucket now).2.seen = now := by
  simp only [charge] at h ⊢
  split_ifs at h ⊢
  all_goals first
    | exact ⟨(Prod.mk.inj h).2.symm, rfl⟩
    | exact absurd (Prod.mk.inj h).1 (by decide)

/-- A caller that comes back in time is admitted. -/
theorem admitted_of_retry {ctrl ctrl' : Controller} {rate burst now now' wait : ℚ} {key : String}
    {choices choices' : List String} (hrate : 0 < rate) (hburst : 1 ≤ burst) (hstamped : Stamped ctrl')
    (hreject : (allow choices ctrl key rate burst now).1 = (false, wait))
    (hkeep : ctrl'.buckets.find? key = (allow choices ctrl key rate burst now).2.buckets.find? key ∨
      ctrl'.buckets.find? key = none)
    (hle : now + wait ≤ now') : (allow choices' ctrl' key rate burst now').1.1 = true := by
  rw [allow] at hreject hkeep ⊢
  have henabled : ctrl.enabled = true := by
    by_contra hnot
    rw [if_neg hnot] at hreject
    cases hreject
  rw [if_pos henabled] at hreject hkeep
  by_cases henabled' : ctrl'.enabled = true
  · rw [if_pos henabled']
    simp only [Table.find?_upsert_self] at hreject hkeep ⊢
    obtain ⟨rfl, hseen⟩ := charge_rejected hreject
    rw [(charge_eq (stamped_evictLocked hstamped choices' key now' key)).1]
    have hsame : (evictLocked choices' ctrl' key now').buckets.find? key =
          some (charge rate burst ((evictLocked choices ctrl key now).buckets.find? key) now).2 ∨
        (evictLocked choices' ctrl' key now').buckets.find? key = none := by
      rcases find?_evictLocked choices' ctrl' key key now' with heq | hnone
      · rw [heq]
        exact hkeep
      · exact .inr hnone
    rcases hsame with heq | hnone
    · rw [heq]
      refine admits_of_wait hrate.le hburst (wait_retryAfterFor hrate) ?_
      rw [hseen]
      exact hle
    · rw [hnone]
      exact admits_none hburst now'
  · rw [if_neg henabled']

/-- **Budgets are kept as long as no fraction of a token is lost with a bucket**; only `eviction` needs this. -/
theorem limits_of_noFractionLost (budget : String → ℚ × ℚ)
    (hbudget : ∀ key, 0 < (budget key).1 ∧ 1 ≤ (budget key).2) (enabled : Bool) (steps : List Step)
    (hsteps : Timed 0 steps) (key : String) (later : List (Event ℚ))
    (hlater : InOrder (endTime 0 steps) later) (hgood : NoFractionLost budget enabled steps key later) :
    Limits budget enabled steps key later where
  interval := by
    rintro before during rest rfl key hduring a z haz
    obtain ⟨hbefore, -⟩ := timed_append.mp hsteps
    obtain ⟨hbefore, hsteps'⟩ := timed_append.mp hbefore
    have hsound := @sound_after budget enabled hbudget before hbefore
    rw [admittedOf_eq hsound.stamped hsteps', mul_comm]
    exact admittedWithin_le (hbudget key).1.le (zero_le_one.trans (hbudget key).2) haz (hsound.kept key)
      (inOrder_history hsteps' key) (drop_notMem_history hduring)
  tokens := by
    rintro before rest rfl key bucket hfind
    obtain ⟨hbefore, -⟩ := timed_append.mp hsteps
    obtain ⟨hpos, hle, -⟩ := (@sound_after budget enabled hbudget before hbefore).kept key bucket hfind
    exact ⟨hpos, hle⟩
  table := by
    rintro before rest rfl
    exact (sound_after hbudget (timed_append.mp hsteps).1).length_le
  idle := by
    rintro before rest rfl c bucket now hbudget_eq hfind hidle events hevents
    obtain ⟨hbefore, -⟩ := timed_append.mp hsteps
    obtain ⟨hrate, -, hfills⟩ := keyAndBudget_fills c
    have hpos := ((@sound_after budget enabled hbudget before hbefore).kept _ bucket hfind).1
    have hmul : rateLimitCleanupAge * (keyAndBudget c).2.1 ≤ (now - bucket.seen) * (keyAndBudget c).2.1 :=
      mul_le_mul_of_nonneg_right hidle.le hrate.le
    exact decisions_eq_of_full hrate.le (by linarith) hevents
  retry := by
    rintro before choices key now during choices' now' rest rfl wait hreject hduring hle
    obtain ⟨hbefore, hrest⟩ := timed_append.mp hsteps
    obtain ⟨hfst, hrest⟩ := timed_cons.mp hrest
    obtain ⟨hduring', -⟩ := timed_append.mp hrest
    have hsound := @sound_after budget enabled hbudget before hbefore
    have hstep := hsound.step hbudget hfst
    have hrun := hstep.run hbudget hduring'
    rw [after_append, List.foldl_cons]
    refine admitted_of_retry (hbudget key).1 (hbudget key).2 hrun.stamped hreject ?_ hle
    rw [find?_foldl_step hstep.stamped hduring']
    refine foldl_next_of_notCall fun now hmem => ?_
    obtain ⟨choices, hmem⟩ := call_mem_history hmem
    exact hduring choices now hmem
  eviction := fun bucket hfind =>
    forall₂_decisions (aheadBy_none (endTime 0 steps) (some bucket)) hlater (hgood bucket hfind)

/-- **Who loses the bucket has never fewer requests admitted**, by any later request. -/
theorem count_admitted_le (rate burst : ℚ) {t : ℚ} {later : List (Event ℚ)} (hlater : InOrder t later)
    (bucket : RateLimitBucket) (n : ℕ) :
    ((decisions rate burst (some bucket) later).take n).count true ≤
      ((decisions rate burst none later).take n).count true :=
  count_decisions_le (aheadBy_none t (some bucket)) hlater n

theorem count_admitted_le_one :
    ((decisions 1 2 (some (⟨0, 1⟩ : RateLimitBucket)) [.call 1, .call 2]).take 2).count true ≤
      ((decisions 1 2 (none : Option RateLimitBucket) [.call 1, .call 2]).take 2).count true :=
  count_admitted_le 1 2 (t := 1) (by norm_num [InOrder]) ⟨0, 1⟩ 2

/-- Five requests that empty a bucket, and one that comes when it holds nine tenths of a token. -/
def emptied : List Step :=
  (List.replicate 5 (.allow [] "login:198.51.100.7" 1)) ++ [.allow [] "login:198.51.100.7" (11 / 2)]

/-- Five requests at once, and one half a second later. -/
def returning : List (Event ℚ) := List.replicate 5 (.call (11 / 2)) ++ [.call 6]

theorem find?_emptied : (after (fun _ => (1 / 5, 5)) true emptied).buckets.find? "login:198.51.100.7" =
    some ⟨9 / 10, 11 / 2⟩ := by
  decide +kernel

/-- Budgets are kept when the next request comes at a whole token. -/
theorem limits_emptied : Limits (fun _ => (1 / 5, 5)) true emptied "login:198.51.100.7" [.call 6] := by
  refine limits_of_noFractionLost (fun _ => (1 / 5, 5)) (fun _ => by norm_num) true emptied ?_ _ _ ?_ ?_
  · norm_num [emptied, Timed, List.replicate]
  · norm_num [emptied, endTime, stepTime, InOrder, List.replicate]
  · intro bucket hfind
    obtain rfl := Option.some.inj (hfind.symm.trans find?_emptied)
    refine ⟨fun hlt => ?_, trivial⟩
    norm_num [level] at hlt

/-- Without the bucket the first five requests are admitted, and the last is rejected. -/
theorem not_limits_emptied : ¬Limits (fun _ => (1 / 5, 5)) true emptied "login:198.51.100.7" returning := by
  intro h
  have hkept : decisions (1 / 5) 5 (some (⟨9 / 10, 11 / 2⟩ : RateLimitBucket)) returning =
      [false, false, false, false, false, true] := by decide +kernel
  have hlost : decisions (1 / 5) 5 (none : Option RateLimitBucket) returning =
      [true, true, true, true, true, false] := by decide +kernel
  have hall := h.eviction _ find?_emptied
  rw [hkept, hlost] at hall
  simp at hall

end RateLimit

end Komari
