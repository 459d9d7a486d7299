import Komari.Table.Keys
import Komari.TokenBucket.Level
import Mathlib.Data.Rat.Floor

/-!
# The rate limit controller

A table of token buckets, one for each caller.  It never grows past a bound: idle buckets are swept, and if
there are none, some bucket is dropped.

* `find?_foldl_step`, `answers_eq`, `admitted_eq` : the controller does to it what a token bucket does.
-/

namespace Komari

namespace RateLimit

open TokenBucket

/-- The number of buckets that are kept. -/
def rateLimitMaxEntries : ℕ := 4096

/-- `rateLimitCleanupAge`, in seconds. -/
def rateLimitCleanupAge : ℚ := 10 * 60

/-- `rateLimitSweepInterval`, in seconds. -/
def rateLimitSweepInterval : ℚ := 30

/-- `rateLimitBucket`: times are seconds since the zero time. -/
abbrev RateLimitBucket := Bucket ℚ

/-- `RateLimitController`. -/
structure Controller where
  enabled : Bool
  buckets : Table String RateLimitBucket
  lastSweep : ℚ

/-- No bucket is kept. -/
def newRateLimitController (enabled : Bool) : Controller := ⟨enabled, ∅, 0⟩

/-- `Update`, with the new value if it is changed. -/
def Controller.update (ctrl : Controller) : Option Bool → Controller
  | none => ctrl
  | some enabled => { ctrl with enabled := enabled, buckets := if enabled then ctrl.buckets else ∅ }

/-- The seconds until a token is there. -/
def retryAfterFor (tokens rate : ℚ) : ℚ :=
  if rate ≤ 0 then 1
  else
    let missing := 1 - tokens
    if missing ≤ 0 then 1
    else
      let seconds := ⌈missing / rate⌉
      if seconds < 1 then 1 else seconds

/-- The key that is dropped: the first in the order of enumeration, `incoming` apart. -/
def victim (incoming : String) (choice : Option String) (keys : List String) : Option String :=
  match choice.filter fun key => key ≠ incoming ∧ key ∈ keys with
  | some key => some key
  | none => keys.find? fun key => key ≠ incoming

/-- The last loop of `evictLocked`: each round enumerates the table, in an order that puts a choice first. -/
def shed (incoming : String) : ℕ → List String → Table String RateLimitBucket → Table String RateLimitBucket
  | 0, _, buckets => buckets
  | rounds + 1, choices, buckets =>
    if buckets.rows.length < rateLimitMaxEntries then buckets
    else
      match victim incoming choices.head? (buckets.rows.map Prod.fst) with
      | none => buckets
      | some key => shed incoming rounds choices.tail (buckets.erase key)

/-- The sweep of `evictLocked`. -/
def sweep (ctrl : Controller) (now : ℚ) : Controller :=
  if rateLimitSweepInterval ≤ now - ctrl.lastSweep then
    { ctrl with
      lastSweep := now
      buckets := ctrl.buckets.deleteWhere fun _ bucket => rateLimitCleanupAge < now - bucket.seen }
  else ctrl

/-- Makes room for a bucket. -/
def evictLocked (choices : List String) (ctrl : Controller) (incoming : String) (now : ℚ) : Controller :=
  if ctrl.buckets.rows.length < rateLimitMaxEntries then ctrl
  else
    let ctrl := sweep ctrl now
    { ctrl with buckets := shed incoming ctrl.buckets.rows.length choices ctrl.buckets }

/-- The answer of `allow`, and the bucket that it puts back; a bucket that is missing is read as zero. -/
def charge (rate burst : ℚ) (bucket : Option RateLimitBucket) (now : ℚ) : (Bool × ℚ) × RateLimitBucket :=
  let bucket := bucket.getD ⟨0, 0⟩
  let tokens :=
    if bucket.seen = 0 then burst
    else
      let tokens := bucket.tokens + (now - bucket.seen) * rate
      if burst < tokens then burst else tokens
  if tokens < 1 then ((false, retryAfterFor tokens rate), ⟨tokens, now⟩)
  else ((true, 0), ⟨tokens - 1, now⟩)

/-- One request. -/
def allow (choices : List String) (ctrl : Controller) (key : String) (rate burst now : ℚ) :
    (Bool × ℚ) × Controller :=
  if ctrl.enabled then
    let ctrl := evictLocked choices ctrl key now
    let charged := charge rate burst (ctrl.buckets.find? key) now
    (charged.1, { ctrl with buckets := ctrl.buckets.upsert key charged.2 })
  else ((true, 0), ctrl)

/-- A request, or a switch of the limits. -/
inductive Step
  /-- A request, with the choices of its eviction. -/
  | allow (choices : List String) (key : String) (now : ℚ)
  | update (enabled : Option Bool)

/-- The controller after a step, with a rate and a burst for each key. -/
def Controller.step (budget : String → ℚ × ℚ) (ctrl : Controller) : Step → Controller
  | .allow choices key now => (RateLimit.allow choices ctrl key (budget key).1 (budget key).2 now).2
  | .update enabled => ctrl.update enabled

/-- A step drops the bucket of a key. -/
def drops (key : String) (ctrl : Controller) : Step → Bool
  | .allow choices incoming now =>
    ctrl.enabled && (ctrl.buckets.find? key).isSome &&
      ((evictLocked choices ctrl incoming now).buckets.find? key).isNone
  | .update enabled => enabled == some false

/-- A step is a request of a key that is looked at. -/
def calls (key : String) (ctrl : Controller) : Step → Option ℚ
  | .allow _ incoming now => if ctrl.enabled = true ∧ incoming = key then some now else none
  | .update _ => none

/-- What a step does to the bucket of a key. -/
def events (key : String) (ctrl : Controller) (s : Step) : List (Event ℚ) :=
  (if drops key ctrl s then [.drop] else []) ++ (calls key ctrl s).toList.map .call

/-- What a run does to the bucket of a key. -/
def history (budget : String → ℚ × ℚ) (key : String) : Controller → List Step → List (Event ℚ)
  | _, [] => []
  | ctrl, s :: steps => events key ctrl s ++ history budget key (ctrl.step budget s) steps

/-- A step that is a request is admitted. -/
def admitted (budget : String → ℚ × ℚ) (ctrl : Controller) : Step → Bool
  | .allow choices key now => (RateLimit.allow choices ctrl key (budget key).1 (budget key).2 now).1.1
  | .update _ => false

/-- The answers to the requests of a key that are looked at. -/
def answers (budget : String → ℚ × ℚ) (key : String) : Controller → List Step → List Bool
  | _, [] => []
  | ctrl, s :: steps =>
    (calls key ctrl s).toList.map (fun _ => admitted budget ctrl s) ++
      answers budget key (ctrl.step budget s) steps

/-- The number of requests of a key in an interval that are looked at and admitted. -/
def admittedOf (budget : String → ℚ × ℚ) (key : String) (a z : ℚ) : Controller → List Step → ℕ
  | _, [] => 0
  | ctrl, s :: steps =>
    (if ∃ now ∈ calls key ctrl s, a ≤ now ∧ now ≤ z ∧ admitted budget ctrl s = true then 1 else 0) +
      admittedOf budget key a z (ctrl.step budget s) steps

/-- The times of the requests do not decrease, and come after the zero time. -/
def Timed (t : ℚ) : List Step → Prop
  | [] => True
  | .allow _ _ now :: steps => t ≤ now ∧ 0 < now ∧ Timed now steps
  | .update _ :: steps => Timed t steps

/-! ### What is dropped -/

variable {key : String}

theorem victim_mem {incoming : String} {choice : Option String} {keys : List String}
    (h : victim incoming choice keys = some key) : key ≠ incoming ∧ key ∈ keys := by
  rw [victim] at h
  split at h
  case h_1 key' hfilter =>
    obtain rfl := Option.some.inj h
    have hmem := (Option.filter_eq_some_iff.mp hfilter).2
    exact of_decide_eq_true hmem
  case h_2 =>
    have hne := List.find?_some h
    exact ⟨of_decide_eq_true hne, List.mem_of_find?_eq_some h⟩

theorem victim_eq_none {incoming : String} {choice : Option String} {keys : List String}
    (h : victim incoming choice keys = none) : ∀ key ∈ keys, key = incoming := by
  rw [victim] at h
  split at h
  case h_1 => cases h
  case h_2 =>
    intro key hmem
    by_contra hne
    exact absurd (List.find?_eq_none.mp h key hmem) (by simp [hne])

variable {buckets : Table String RateLimitBucket}

theorem find?_erase_or (key key' : String) :
    (buckets.erase key').find? key = buckets.find? key ∨ (buckets.erase key').find? key = none := by
  rw [Table.find?_erase]
  split_ifs
  · exact .inr rfl
  · exact .inl rfl

theorem find?_shed (incoming key : String) (rounds : ℕ) (choices : List String)
    (buckets : Table String RateLimitBucket) :
    (shed incoming rounds choices buckets).find? key = buckets.find? key ∨
      (shed incoming rounds choices buckets).find? key = none := by
  induction rounds generalizing choices buckets with
  | zero => exact .inl rfl
  | succ rounds ih =>
    rw [shed]
    split_ifs
    · exact .inl rfl
    · split
      · exact .inl rfl
      case h_2 key' _ =>
        rcases ih choices.tail (buckets.erase key') with hkeep | hnone
        · rw [hkeep]
          exact find?_erase_or key key'
        · exact .inr hnone

theorem length_rows_erase
    (h : key ∈ buckets.rows.map Prod.fst) : (buckets.erase key).rows.length + 1 = buckets.rows.length := by
  obtain ⟨⟨k, bucket⟩, hmem, rfl⟩ := List.mem_map.mp h
  rw [(Table.rows_perm_of_find? (Table.mem_rows.mp hmem)).length_eq, List.length_cons]

theorem length_rows_erase_le (buckets : Table String RateLimitBucket) (key : String) :
    (buckets.erase key).rows.length ≤ buckets.rows.length := by
  rw [Table.erase, Table.rows_deleteWhere]
  exact List.length_filter_le _ _

/-- The loop ends with room in the table, or with `incoming` alone in it. -/
theorem shed_spec (incoming : String) {rounds : ℕ} (choices : List String)
    (hrounds : buckets.rows.length ≤ rounds) :
    (shed incoming rounds choices buckets).rows.length < rateLimitMaxEntries ∨
      ∀ key ∈ (shed incoming rounds choices buckets).rows.map Prod.fst, key = incoming := by
  induction rounds generalizing choices buckets with
  | zero =>
    refine .inl ?_
    rw [shed, Nat.le_zero.mp hrounds]
    decide
  | succ rounds ih =>
    rw [shed]
    split_ifs with hlt
    · exact .inl hlt
    · split
      case h_1 hnone => exact .inr (victim_eq_none hnone)
      case h_2 key hvictim =>
        have hlength := length_rows_erase (victim_mem hvictim).2
        exact ih choices.tail (by omega)

/-- There is room for `incoming`. -/
theorem length_upsert_shed (incoming : String) (choices : List String)
    (buckets : Table String RateLimitBucket) (bucket : RateLimitBucket) :
    ((shed incoming buckets.rows.length choices buckets).upsert incoming bucket).rows.length ≤
      rateLimitMaxEntries := by
  rw [(Table.rows_upsert_perm _ incoming bucket).length_eq, List.length_cons]
  rcases shed_spec incoming choices (le_refl buckets.rows.length) with hlt | hall
  · exact (Nat.succ_le_succ (length_rows_erase_le _ _)).trans hlt
  · have hnil : ((shed incoming buckets.rows.length choices buckets).erase incoming).rows = [] := by
      rw [Table.erase, Table.rows_deleteWhere, List.filter_eq_nil_iff]
      intro r hr
      simp [hall r.1 (List.mem_map_of_mem hr)]
    rw [hnil]
    decide

variable {budget : String → ℚ × ℚ} {ctrl : Controller}

theorem find?_evictLocked (choices : List String) (ctrl : Controller) (incoming key : String) (now : ℚ) :
    (evictLocked choices ctrl incoming now).buckets.find? key = ctrl.buckets.find? key ∨
      (evictLocked choices ctrl incoming now).buckets.find? key = none := by
  rw [evictLocked]
  split_ifs
  · exact .inl rfl
  · have hsweep : (sweep ctrl now).buckets.find? key = ctrl.buckets.find? key ∨
        (sweep ctrl now).buckets.find? key = none := by
      rw [sweep]
      split_ifs
      · simp only [Table.find?_deleteWhere]
        cases hfind : ctrl.buckets.find? key with
        | none => exact .inl rfl
        | some bucket =>
          rw [Option.filter_some]
          split_ifs
          · exact .inl rfl
          · exact .inr rfl
      · exact .inl rfl
    rcases find?_shed incoming key (sweep ctrl now).buckets.rows.length choices (sweep ctrl now).buckets with
      hkeep | hnone
    · exact hsweep.imp hkeep.trans hkeep.trans
    · exact .inr hnone

theorem length_upsert_evictLocked (choices : List String) (ctrl : Controller) (incoming : String) (now : ℚ)
    (bucket : RateLimitBucket) :
    ((evictLocked choices ctrl incoming now).buckets.upsert incoming bucket).rows.length ≤
      rateLimitMaxEntries := by
  rw [evictLocked]
  split_ifs with hlt
  · rw [(Table.rows_upsert_perm _ incoming bucket).length_eq, List.length_cons]
    exact (Nat.succ_le_succ (length_rows_erase_le _ _)).trans hlt
  · exact length_upsert_shed incoming choices _ bucket

/-! ### One step -/

/-- Buckets that are kept are told from those that are missing. -/
def Stamped (ctrl : Controller) : Prop := ∀ key bucket, ctrl.buckets.find? key = some bucket → 0 < bucket.seen

/-- A request is charged as a token bucket charges it. -/
theorem charge_eq {rate burst now : ℚ} {bucket : Option RateLimitBucket}
    (h : ∀ x, bucket = some x → 0 < x.seen) :
    (charge rate burst bucket now).1.1 = admits rate burst bucket now ∧
      (charge rate burst bucket now).2 = spend rate burst bucket now := by
  have htokens : (if (bucket.getD ⟨0, 0⟩).seen = 0 then burst
      else if burst < (bucket.getD ⟨0, 0⟩).tokens + (now - (bucket.getD ⟨0, 0⟩).seen) * rate then burst
        else (bucket.getD ⟨0, 0⟩).tokens + (now - (bucket.getD ⟨0, 0⟩).seen) * rate) =
      level rate burst bucket now := by
    cases bucket with
    | none => rfl
    | some x =>
      rw [Option.getD_some, if_neg (h x rfl).ne', level]
      split_ifs with hlt
      · exact (min_eq_left hlt.le).symm
      · exact (min_eq_right (not_lt.mp hlt)).symm
  simp only [charge, htokens, admits, spend]
  split_ifs with hlt hone hone
  · exact absurd hone (not_le.mpr hlt)
  · exact ⟨(decide_eq_false hone).symm, rfl⟩
  · exact ⟨(decide_eq_true hone).symm, rfl⟩
  · exact absurd (not_lt.mp hlt) hone

theorem stamped_evictLocked (h : Stamped ctrl) (choices : List String) (incoming : String) (now : ℚ) :
    Stamped (evictLocked choices ctrl incoming now) := by
  intro key bucket hfind
  rcases find?_evictLocked choices ctrl incoming key now with hkeep | hnone
  · exact h key bucket (hkeep.symm.trans hfind)
  · rw [hnone] at hfind
    cases hfind

theorem foldl_drops {rate burst : ℚ} (henabled : ctrl.enabled = true) (key incoming : String)
    (choices : List String) (now : ℚ) :
    (if drops key ctrl (.allow choices incoming now) = true then [Event.drop] else []).foldl (next rate burst)
        (ctrl.buckets.find? key) =
      (evictLocked choices ctrl incoming now).buckets.find? key := by
  have hkeep := find?_evictLocked choices ctrl incoming key now
  by_cases hdrop : drops key ctrl (.allow choices incoming now) = true
  · rw [if_pos hdrop]
    rw [drops, Bool.and_eq_true, Option.isNone_iff_eq_none] at hdrop
    exact hdrop.2.symm
  · rw [if_neg hdrop]
    refine hkeep.elim Eq.symm fun hnone => ?_
    rw [drops, hnone, henabled] at hdrop
    cases hfind : ctrl.buckets.find? key with
    | none => exact hnone.symm
    | some bucket =>
      rw [hfind] at hdrop
      exact absurd rfl hdrop

/-- **A step does to a bucket what the token bucket does.** -/
theorem find?_step (h : Stamped ctrl) (key : String) (s : Step) :
    (ctrl.step budget s).buckets.find? key =
      (events key ctrl s).foldl (next (budget key).1 (budget key).2) (ctrl.buckets.find? key) := by
  cases s with
  | allow choices incoming now =>
    rw [Controller.step, allow, events, calls]
    by_cases henabled : ctrl.enabled = true
    · rw [if_pos henabled, List.foldl_append, foldl_drops henabled]
      simp only [Table.find?_upsert]
      by_cases hkey : key = incoming
      · subst hkey
        rw [if_pos rfl, if_pos ⟨henabled, rfl⟩]
        exact congrArg some (charge_eq (stamped_evictLocked h choices key now key)).2
      · rw [if_neg hkey, if_neg fun hcall => hkey hcall.2.symm]
        rfl
    · have hdrop : drops key ctrl (.allow choices incoming now) = false := by simp [drops, henabled]
      simp [hdrop, henabled]
  | update enabled =>
    cases enabled with
    | none => rfl
    | some enabled => cases enabled <;> rfl

variable {s : Step}

/-- **A request is answered as the token bucket answers it.** -/
theorem admitted_eq (h : Stamped ctrl) {now : ℚ} (hcall : calls key ctrl s = some now) :
    admitted budget ctrl s =
      admits (budget key).1 (budget key).2
        ((if drops key ctrl s = true then [Event.drop] else []).foldl (next (budget key).1 (budget key).2)
          (ctrl.buckets.find? key)) now := by
  cases s with
  | allow choices incoming now' =>
    rw [calls] at hcall
    split_ifs at hcall with hcond
    obtain rfl := Option.some.inj hcall
    obtain ⟨henabled, rfl⟩ := hcond
    rw [foldl_drops henabled, admitted, allow, if_pos henabled]
    exact (charge_eq (stamped_evictLocked h choices incoming now' incoming)).1
  | update enabled => cases hcall

theorem answers_step (h : Stamped ctrl) (key : String) (s : Step) :
    decisions (budget key).1 (budget key).2 (ctrl.buckets.find? key) (events key ctrl s) =
      (calls key ctrl s).toList.map fun _ => admitted budget ctrl s := by
  have hdrops : ∀ b, decisions (budget key).1 (budget key).2 b
      (if drops key ctrl s = true then [Event.drop] else []) = [] := by
    intro b
    split_ifs <;> rfl
  rw [events, decisions_append, hdrops, List.nil_append]
  cases hcall : calls key ctrl s with
  | none => rfl
  | some now =>
    rw [admitted_eq h hcall]
    rfl

theorem admittedOf_step (h : Stamped ctrl) (key : String) (a z : ℚ) (s : Step) :
    admittedWithin (budget key).1 (budget key).2 a z (ctrl.buckets.find? key) (events key ctrl s) =
      if ∃ now ∈ calls key ctrl s, a ≤ now ∧ now ≤ z ∧ admitted budget ctrl s = true then 1 else 0 := by
  have hdrops : ∀ b, admittedWithin (budget key).1 (budget key).2 a z b
      (if drops key ctrl s = true then [Event.drop] else []) = 0 := by
    intro b
    split_ifs <;> rfl
  rw [events, admittedWithin_append, hdrops, Nat.zero_add]
  cases hcall : calls key ctrl s with
  | none => simp [admittedWithin]
  | some now =>
    rw [admitted_eq h hcall]
    simp [admittedWithin]

/-! ### Runs -/

variable {t : ℚ}

theorem stamped_step (h : Stamped ctrl) (hs : Timed t [s]) : Stamped (ctrl.step budget s) := by
  intro key bucket hfind
  rw [find?_step h, events, List.foldl_append] at hfind
  cases hcall : calls key ctrl s with
  | none =>
    rw [hcall] at hfind
    split_ifs at hfind
    · cases hfind
    · exact h key bucket hfind
  | some now =>
    rw [hcall] at hfind
    obtain rfl := Option.some.inj hfind
    cases s with
    | allow choices incoming now' =>
      rw [calls] at hcall
      split_ifs at hcall
      obtain rfl := Option.some.inj hcall
      exact hs.2.1
    | update enabled => cases hcall

/-- When the step was taken. -/
def stepTime (t : ℚ) : Step → ℚ
  | .allow _ _ now => now
  | .update _ => t

variable {steps : List Step}

theorem timed_cons : Timed t (s :: steps) ↔ Timed t [s] ∧ Timed (stepTime t s) steps := by
  cases s with
  | allow choices incoming now => simp [Timed, stepTime, and_assoc]
  | update enabled => simp [Timed, stepTime]

theorem Timed.le_stepTime (h : Timed t [s]) : t ≤ stepTime t s := by
  cases s with
  | allow choices incoming now => exact h.1
  | update enabled => exact le_rfl

theorem calls_eq_stepTime {now : ℚ} (h : calls key ctrl s = some now) (t : ℚ) :
    stepTime t s = now := by
  cases s with
  | allow choices incoming now' =>
    rw [calls] at h
    split_ifs at h
    exact Option.some.inj h
  | update enabled => cases h

theorem call_mem_events {now : ℚ} :
    .call now ∈ events key ctrl s ↔ calls key ctrl s = some now := by
  rw [events, List.mem_append]
  constructor
  · rintro (hmem | hmem)
    · split_ifs at hmem <;> simp at hmem
    · simpa using hmem
  · intro hcall
    exact .inr (by simp [hcall])

theorem drop_mem_events : .drop ∈ events key ctrl s ↔ drops key ctrl s = true := by
  rw [events, List.mem_append]
  constructor
  · rintro (hmem | hmem)
    · split_ifs at hmem with hdrop
      · exact hdrop
      · cases hmem
    · simp at hmem
  · intro hdrop
    exact .inl (by simp [hdrop])

theorem inOrder_events_append (h : Timed t [s]) (key : String) {rest : List (Event ℚ)}
    (hrest : InOrder (stepTime t s) rest) : InOrder t (events key ctrl s ++ rest) := by
  have hle := h.le_stepTime
  have hcalls : InOrder t ((calls key ctrl s).toList.map .call ++ rest) := by
    cases hcall : calls key ctrl s with
    | none => exact hrest.mono hle
    | some now =>
      rw [calls_eq_stepTime hcall t] at hle hrest
      exact ⟨hle, hrest⟩
  rw [events, List.append_assoc]
  split_ifs
  · exact hcalls
  · exact hcalls

theorem inOrder_history (h : Timed t steps) (key : String) :
    InOrder t (history budget key ctrl steps) := by
  induction steps generalizing ctrl t with
  | nil => trivial
  | cons s steps ih =>
    obtain ⟨hs, hsteps⟩ := timed_cons.mp h
    exact inOrder_events_append hs key (ih hsteps)

/-- Each bucket is the one of its calls alone. -/
structure Sound (budget : String → ℚ × ℚ) (t : ℚ) (ctrl : Controller) : Prop where
  stamped : Stamped ctrl
  /-- The buckets hold what they may. -/
  kept : ∀ key, Kept (budget key).2 t (ctrl.buckets.find? key)
  /-- There are not too many of them. -/
  length_le : ctrl.buckets.rows.length ≤ rateLimitMaxEntries

theorem sound_new (enabled : Bool) : Sound budget 0 (newRateLimitController enabled) where
  stamped := fun _ _ hfind => nomatch hfind
  kept := fun _ => kept_none
  length_le := Nat.zero_le _

theorem Sound.step (h : Sound budget t ctrl) (hbudget : ∀ key, 0 < (budget key).1 ∧ 1 ≤ (budget key).2)
    (hs : Timed t [s]) : Sound budget (stepTime t s) (ctrl.step budget s) where
  stamped := stamped_step h.stamped hs
  kept := by
    intro key
    rw [find?_step h.stamped]
    have hevents := @inOrder_events_append ctrl s t hs key [] trivial
    rw [List.append_nil] at hevents
    refine (h.kept key).foldl_next (hbudget key).1.le (zero_le_one.trans (hbudget key).2) hevents hs.le_stepTime
      fun now hmem => ?_
    exact (calls_eq_stepTime (call_mem_events.mp hmem) t).ge
  length_le := by
    cases s with
    | allow choices incoming now =>
      rw [Controller.step, allow]
      split_ifs
      · exact length_upsert_evictLocked choices ctrl incoming now _
      · exact h.length_le
    | update enabled =>
      cases enabled with
      | none => exact h.length_le
      | some enabled =>
        cases enabled with
        | false => exact Nat.zero_le _
        | true => exact h.length_le

/-- When the last step was taken. -/
def endTime (t : ℚ) (steps : List Step) : ℚ := steps.foldl stepTime t

theorem Sound.run (h : Sound budget t ctrl) (hbudget : ∀ key, 0 < (budget key).1 ∧ 1 ≤ (budget key).2)
    (hsteps : Timed t steps) :
    Sound budget (endTime t steps) (steps.foldl (Controller.step budget) ctrl) := by
  induction steps generalizing ctrl t with
  | nil => exact h
  | cons s steps ih =>
    obtain ⟨hs, hrest⟩ := timed_cons.mp hsteps
    exact ih (h.step hbudget hs) hrest

/-- **A run does to a bucket what the token bucket does.** -/
theorem find?_foldl_step (h : Stamped ctrl) (hsteps : Timed t steps) (key : String) :
    (steps.foldl (Controller.step budget) ctrl).buckets.find? key =
      (history budget key ctrl steps).foldl (next (budget key).1 (budget key).2) (ctrl.buckets.find? key) := by
  induction steps generalizing ctrl t with
  | nil => rfl
  | cons s steps ih =>
    obtain ⟨hs, hrest⟩ := timed_cons.mp hsteps
    rw [List.foldl_cons, ih (stamped_step h hs) hrest, find?_step h, history, List.foldl_append]

/-- **The requests of a key are answered as the token bucket answers them.** -/
theorem answers_eq (h : Stamped ctrl) {t : ℚ} {steps : List Step} (hsteps : Timed t steps) (key : String) :
    answers budget key ctrl steps =
      decisions (budget key).1 (budget key).2 (ctrl.buckets.find? key) (history budget key ctrl steps) := by
  induction steps generalizing ctrl t with
  | nil => rfl
  | cons s steps ih =>
    obtain ⟨hs, hrest⟩ := timed_cons.mp hsteps
    rw [answers, history, decisions_append, answers_step h, ih (stamped_step h hs) hrest, find?_step h]

/-- Two keys ask; between the requests of the one the limits are switched off and on. -/
def twoCallers : List Step :=
  [.allow [] "a" 1, .allow [] "b" 2, .update (some false), .update (some true), .allow [] "a" 3]

theorem answers_twoCallers :
    history (fun _ => (1, 2)) "a" (newRateLimitController true) twoCallers = [.call 1, .drop, .call 3] ∧
      answers (fun _ => (1, 2)) "a" (newRateLimitController true) twoCallers =
        decisions 1 2 none (history (fun _ => (1, 2)) "a" (newRateLimitController true) twoCallers) :=
  ⟨by decide +kernel, answers_eq (fun _ _ h => absurd h (by simp [newRateLimitController])) (t := 0)
    (by norm_num [twoCallers, Timed]) "a"⟩

theorem admittedOf_eq (h : Stamped ctrl) (hsteps : Timed t steps) (key : String)
    (a z : ℚ) : admittedOf budget key a z ctrl steps =
      admittedWithin (budget key).1 (budget key).2 a z (ctrl.buckets.find? key) (history budget key ctrl steps) := by
  induction steps generalizing ctrl t with
  | nil => rfl
  | cons s steps ih =>
    obtain ⟨hs, hrest⟩ := timed_cons.mp hsteps
    rw [admittedOf, history, admittedWithin_append, admittedOf_step h, ih (stamped_step h hs) hrest, find?_step h]

end RateLimit

end Komari
