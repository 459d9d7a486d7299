import Mathlib.Tactic.SplitIfs
import Komari.Run.Along

/-!
# Jobs that are awaited with a budget

A caller runs a list of hooks. It queues the job of each on the event loop of its owner and waits for it,
but no longer than the budget of the hook. A job that it gives up on keeps running: it goes on reading and
writing the shared variables at any later moment.
-/

namespace Komari

namespace Await

variable {σ : Type*}

/-! ### Jobs -/

/-- How a job ended. -/
inductive Verdict where
  | ok | failed | stop
  deriving DecidableEq

/-- A job: each step writes the shared variables and goes on with what it has read of them. -/
inductive Job (σ : Type*) where
  | done (v : Verdict)
  | step (write : σ → σ) (next : σ → Job σ)

/-- The job alone, without a stop. -/
def Job.exec : Job σ → σ → σ × Verdict
  | done v, s => (s, v)
  | step write next, s => (next s).exec (write s)

/-- No step is left. -/
def Job.isDone : Job σ → Bool
  | done _ => true
  | step _ _ => false

@[simp] theorem Job.exec_done (v : Verdict) (s : σ) : (Job.done v).exec s = (s, v) := rfl

@[simp] theorem Job.exec_step (write : σ → σ) (next : σ → Job σ) (s : σ) :
    (Job.step write next).exec s = (next s).exec (write s) := rfl

/-- A hook: the loop on which its job is queued. -/
structure Hook (σ : Type*) where
  loop : ℕ
  job : Job σ

/-- Some hooks, one after the other, up to one that stops. -/
def sequential : List (Hook σ) → σ → σ × Bool
  | [], s => (s, false)
  | h :: rest, s =>
    match h.job.exec s with
    | (s', .stop) => (s', true)
    | (s', _) => sequential rest s'

variable {hooks : List (Hook σ)}

theorem sequential_append {s s' : σ} (h : sequential hooks s = (s', false))
    (more : List (Hook σ)) : sequential (hooks ++ more) s = sequential more s' := by
  induction hooks generalizing s with
  | nil =>
    cases h
    rfl
  | cons hook rest ih =>
    rw [List.cons_append, sequential]
    rw [sequential] at h
    cases hexec : hook.job.exec s with
    | mk t v =>
      rw [hexec] at h
      cases v with
      | stop => cases h
      | ok => exact ih h
      | failed => exact ih h

/-! ### The caller and the loops -/

/-- The loop over the hooks. -/
inductive Waiter (σ : Type*) where
  | ready (rest : List (Hook σ))
  /-- The job that is awaited, and what the variables were when it was queued. -/
  | waiting (hook : Hook σ) (job : Job σ) (base : σ) (rest : List (Hook σ))
  | returned (result : σ) (stopped : Bool)

/-- The shared variables, the caller, the jobs that it has given up on, in the order in which they were
queued, and the hooks whose jobs it has waited for to their end and that did not fail. -/
structure State (σ : Type*) where
  shared : σ
  waiter : Waiter σ
  late : List (Hook σ)
  kept : List (Hook σ)

/-- What happens next. -/
inductive Action where
  | queue
  | refuse
  | work
  | workLate (i : ℕ)
  | finish
  | timeOut
  | giveBack
  deriving DecidableEq

/-- No unfinished job is in front of one on its loop. -/
def free (loop : ℕ) (queued : List (Hook σ)) : Bool := queued.all fun h => h.loop ≠ loop || h.job.isDone

/-- One step; what cannot happen changes nothing. A caller whose job is refused leaves at once or goes on. -/
def step (leaves : Bool) (s : State σ) : Action → State σ
  | .queue =>
    match s.waiter with
    | .ready (h :: rest) => { s with waiter := .waiting h h.job s.shared rest }
    | _ => s
  | .refuse =>
    match s.waiter with
    | .ready (_ :: rest) => { s with waiter := if leaves then .returned s.shared false else .ready rest }
    | _ => s
  | .work =>
    match s.waiter with
    | .waiting h (.step write next) base rest =>
      if free h.loop s.late then
        { s with shared := write s.shared, waiter := .waiting h (next s.shared) base rest }
      else s
    | _ => s
  | .workLate i =>
    match s.late[i]? with
    | some ⟨loop, .step write next⟩ =>
      if free loop (s.late.take i) then
        { s with shared := write s.shared, late := s.late.set i ⟨loop, next s.shared⟩ }
      else s
    | _ => s
  | .finish =>
    match s.waiter with
    | .waiting h (.done .ok) _ rest => { s with waiter := .ready rest, kept := s.kept ++ [h] }
    | .waiting _ (.done .failed) _ rest => { s with waiter := .ready rest }
    | .waiting h (.done .stop) _ _ => { s with waiter := .returned s.shared true, kept := s.kept ++ [h] }
    | _ => s
  | .timeOut =>
    match s.waiter with
    | .waiting h job _ rest => { s with waiter := .ready rest, late := s.late ++ [⟨h.loop, job⟩] }
    | _ => s
  | .giveBack =>
    match s.waiter with
    | .ready [] => { s with waiter := .returned s.shared false }
    | _ => s

/-- No hook was called yet. -/
def start (hooks : List (Hook σ)) (s : σ) : State σ := ⟨s, .ready hooks, [], []⟩

/-! ### Quiet steps -/

/-- Before the caller has returned, a late job leaves the variables as they are; and neither a job that the
caller gives up on nor one that has failed has changed them. -/
def Quiet (s : State σ) : Action → Prop
  | .workLate i => ∀ loop write next, s.late[i]? = some ⟨loop, .step write next⟩ →
      (∃ result stopped, s.waiter = .returned result stopped) ∨ write s.shared = s.shared
  | .timeOut => ∀ h job base rest, s.waiter = .waiting h job base rest → s.shared = base
  | .finish => ∀ h base rest, s.waiter = .waiting h (.done .failed) base rest → s.shared = base
  | _ => True

/-- What the caller has got comes from the hooks that it kept. -/
def Held (initial : σ) (s : State σ) : Prop :=
  match s.waiter with
  | .ready _ => sequential s.kept initial = (s.shared, false)
  | .waiting h job base _ => sequential s.kept initial = (base, false) ∧ job.exec s.shared = h.job.exec base
  | .returned result stopped => sequential s.kept initial = (result, stopped)

theorem held_start (hooks : List (Hook σ)) (s : σ) : Held s (start hooks s) := rfl

theorem sequential_keep {initial base s : σ} {v : Verdict} {h : Hook σ}
    (hheld : sequential hooks initial = (base, false)) (hexec : h.job.exec base = (s, v)) :
    sequential (hooks ++ [h]) initial = (s, decide (v = .stop)) := by
  rw [sequential_append hheld, sequential, hexec]
  cases v <;> rfl

variable {initial : σ} {leaves : Bool} {s : State σ}

section

variable (h : Held initial s)

include h

theorem held_queue : Held initial (step leaves s .queue) := by
  cases hw : s.waiter with
  | ready rest =>
    rw [Held, hw] at h
    cases rest with
    | nil => simpa [step, Held, hw] using h
    | cons hook rest => simpa [step, Held, hw] using h
  | waiting hook job base rest => simpa [step, hw] using h
  | returned result stopped => simpa [step, hw] using h

theorem held_refuse : Held initial (step leaves s .refuse) := by
  cases hw : s.waiter with
  | ready rest =>
    rw [Held, hw] at h
    cases rest with
    | nil => simpa [step, Held, hw] using h
    | cons hook rest =>
      cases leaves <;> simpa [step, Held, hw] using h
  | waiting hook job base rest => simpa [step, hw] using h
  | returned result stopped => simpa [step, hw] using h

theorem held_giveBack : Held initial (step leaves s .giveBack) := by
  cases hw : s.waiter with
  | ready rest =>
    rw [Held, hw] at h
    cases rest <;> simpa [step, Held, hw] using h
  | waiting hook job base rest => simpa [step, hw] using h
  | returned result stopped => simpa [step, hw] using h

/-- The awaited job has as much to do as before it began. -/
theorem held_work : Held initial (step leaves s .work) := by
  cases hw : s.waiter with
  | ready rest => simpa [step, hw] using h
  | returned result stopped => simpa [step, hw] using h
  | waiting hook job base rest =>
    cases job with
    | done v => simpa [step, hw] using h
    | step write next =>
      by_cases hfree : free hook.loop s.late = true
      · rw [Held, hw] at h
        simpa [step, Held, hw, hfree] using h
      · simpa [step, hw, hfree] using h

/-- A late job that leaves the variables as they are does not matter, and after the return none does. -/
theorem held_workLate {i : ℕ} (hquiet : Quiet s (.workLate i)) :
    Held initial (step leaves s (.workLate i)) := by
  rw [step]
  split
  · rename_i loop write next hlate
    split_ifs
    · rcases hquiet loop write next hlate with ⟨result, stopped, hw⟩ | hsame
      · rw [Held, hw] at h
        simpa [Held, hw] using h
      · cases hw : s.waiter with
        | ready rest => simpa [Held, hw, hsame] using h
        | waiting hook job base rest => simpa [Held, hw, hsame] using h
        | returned result stopped => simpa [Held, hw] using h
    · exact h
  · exact h

theorem held_finish (hquiet : Quiet s .finish) : Held initial (step leaves s .finish) := by
  cases hw : s.waiter with
  | ready rest => simpa [step, hw] using h
  | returned result stopped => simpa [step, hw] using h
  | waiting hook job base rest =>
    cases job with
    | step write next => simpa [step, hw] using h
    | done v =>
      have hbase := hquiet hook base rest
      rw [hw] at hbase
      rw [Held, hw] at h
      obtain ⟨hkept, hexec⟩ := h
      cases v with
      | ok => simpa [step, Held, hw] using sequential_keep hkept hexec.symm
      | stop => simpa [step, Held, hw] using sequential_keep hkept hexec.symm
      | failed => simpa [step, Held, hw, hbase rfl] using hkept

theorem held_timeOut (hquiet : Quiet s .timeOut) : Held initial (step leaves s .timeOut) := by
  cases hw : s.waiter with
  | ready rest => simpa [step, hw] using h
  | returned result stopped => simpa [step, hw] using h
  | waiting hook job base rest =>
    have hbase := hquiet hook job base rest hw
    rw [Held, hw] at h
    simpa [step, Held, hw, hbase] using h.1

theorem held_step {a : Action} (hquiet : Quiet s a) : Held initial (step leaves s a) := by
  cases a with
  | queue => exact held_queue h
  | refuse => exact held_refuse h
  | work => exact held_work h
  | workLate i => exact held_workLate h hquiet
  | finish => exact held_finish h hquiet
  | timeOut => exact held_timeOut h hquiet
  | giveBack => exact held_giveBack h

end

/-- **After quiet steps, what the caller has got comes from the hooks that it kept.** -/
theorem held_of_quiet {actions : List Action}
    (h : Run.Along (step leaves) Quiet (start hooks initial) actions) :
    Held initial (actions.foldl (step leaves) (start hooks initial)) :=
  h.invariant (fun _ _ h hquiet => held_step h hquiet) (held_start hooks initial)

/-! ### The order of the hooks -/

/-- The hooks that the caller has not got over yet. -/
def Waiter.remaining : Waiter σ → List (Hook σ)
  | ready rest => rest
  | waiting h _ _ rest => h :: rest
  | returned _ _ => []

/-- The hooks that were kept and those to come are some of all, in their order. -/
def InOrder (hooks : List (Hook σ)) (s : State σ) : Prop :=
  (s.kept ++ s.waiter.remaining).Sublist hooks

theorem inOrder_of_sublist {s s' : State σ} (h : InOrder hooks s)
    (hs : (s'.kept ++ s'.waiter.remaining).Sublist (s.kept ++ s.waiter.remaining)) : InOrder hooks s' :=
  hs.trans h

theorem remaining_step (leaves : Bool) (s : State σ) (a : Action) :
    ((step leaves s a).kept ++ (step leaves s a).waiter.remaining).Sublist
      (s.kept ++ s.waiter.remaining) := by
  cases a with
  | workLate i =>
    rw [step]
    split
    · split_ifs <;> exact List.Sublist.refl _
    · exact List.Sublist.refl _
  | _ =>
    simp only [step]
    split <;> rename_i hw <;> (try split_ifs) <;>
      simp [hw, Waiter.remaining, List.append_assoc]

theorem inOrder_foldl {s : State σ} (h : InOrder hooks s) (actions : List Action) :
    InOrder hooks (actions.foldl (step leaves) s) := by
  induction actions generalizing s with
  | nil => exact h
  | cons a actions ih => exact ih (inOrder_of_sublist h (remaining_step leaves s a))

end Await

end Komari
