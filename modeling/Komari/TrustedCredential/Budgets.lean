import Komari.TrustedCredential.Trace

/-!
# Budgets

Every attempt is charged to a user before it is made, and refunded when it was successful.  A budget
counts the attempts of one window; windows of a user do not come again.
-/

namespace Komari

namespace TrustedCredential

open Run

/-- The budgets, beside the events: those of other windows are settled or over. -/
structure BudgetInv (attempts : Table String AttemptBudget) (clock : ℤ) (log : List Event) : Prop where
  /-- A budget counts what was charged and not refunded. -/
  opened : ∀ user budget, attempts.find? user = some budget →
    charges user budget.expires log = refunds user budget.expires log + budget.count ∧
      budget.count ≤ maxUserAttempts
  others : ∀ user window, (∀ budget, attempts.find? user = some budget → budget.expires ≠ window) →
    refunds user window log ≤ charges user window log ∧
      charges user window log ≤ refunds user window log + maxUserAttempts ∧
        (charges user window log = refunds user window log ∨ window ≤ clock)

theorem BudgetInv.bounded {attempts : Table String AttemptBudget} {clock : ℤ} {log : List Event}
    (h : BudgetInv attempts clock log) (user : String) (window : ℤ) :
    refunds user window log ≤ charges user window log ∧
      charges user window log ≤ refunds user window log + maxUserAttempts := by
  by_cases hopen : ∃ budget, attempts.find? user = some budget ∧ budget.expires = window
  · obtain ⟨budget, hfind, rfl⟩ := hopen
    have := h.opened user budget hfind
    omega
  · have := h.others user window fun budget hfind heq => hopen ⟨budget, hfind, heq⟩
    omega

@[simp] theorem charges_charged (user user' : String) (window window' : ℤ) (log : List Event) :
    charges user window (.charged user' window' :: log) =
      charges user window log + if user' = user ∧ window' = window then 1 else 0 := by
  simp [charges, List.countP_cons]

@[simp] theorem refunds_refunded (user user' : String) (window window' : ℤ) (log : List Event) :
    refunds user window (.refunded user' window' :: log) =
      refunds user window log + if user' = user ∧ window' = window then 1 else 0 := by
  simp [refunds, List.countP_cons]

theorem charges_cons_of_ne {e : Event} (he : ∀ user window, e ≠ .charged user window) (user : String)
    (window : ℤ) (log : List Event) : charges user window (e :: log) = charges user window log := by
  simp [charges, he]

theorem refunds_cons_of_ne {e : Event} (he : ∀ user window, e ≠ .refunded user window) (user : String)
    (window : ℤ) (log : List Event) : refunds user window (e :: log) = refunds user window log := by
  simp [refunds, he]

section Steps

variable {attempts : Table String AttemptBudget} {clock : ℤ} {log : List Event}

section

variable (h : BudgetInv attempts clock log)

include h

theorem BudgetInv.wait {now : ℤ} (hnow : clock ≤ now) : BudgetInv attempts now log where
  opened := h.opened
  others user window hnone := by
    obtain ⟨hle, hbound, hsettled⟩ := h.others user window hnone
    exact ⟨hle, hbound, hsettled.imp_right fun hpast => hpast.trans hnow⟩

theorem BudgetInv.aside {e : Event} (hcharged : ∀ user window, e ≠ .charged user window)
    (hrefunded : ∀ user window, e ≠ .refunded user window) : BudgetInv attempts clock (e :: log) where
  opened user budget hfind := by
    rw [charges_cons_of_ne hcharged, refunds_cons_of_ne hrefunded]
    exact h.opened user budget hfind
  others user window hnone := by
    rw [charges_cons_of_ne hcharged, refunds_cons_of_ne hrefunded]
    exact h.others user window hnone

theorem BudgetInv.prune {now : ℤ} (hnow : clock ≤ now) :
    BudgetInv (attempts.deleteWhere fun _ budget => decide (budget.expires ≤ now)) now log where
  opened user budget hfind := h.opened user budget (Table.find?_deleteWhere_eq_some.mp hfind).1
  others user window hnone := by
    by_cases hopen : ∃ budget, attempts.find? user = some budget ∧ budget.expires = window
    · obtain ⟨budget, hfind, rfl⟩ := hopen
      have hcount := h.opened user budget hfind
      -- the budget was pruned, since it is not there any more
      have hover : budget.expires ≤ now := by
        by_contra hlater
        refine hnone budget (Table.find?_deleteWhere_eq_some.mpr ⟨hfind, ?_⟩) rfl
        simpa using hlater
      exact ⟨by omega, by omega, Or.inr hover⟩
    · exact (h.wait hnow).others user window fun budget hfind heq => hopen ⟨budget, hfind, heq⟩

theorem BudgetInv.upsert_charged {user : String}
    {budget : AttemptBudget} (hcount : charges user budget.expires log + 1 =
      refunds user budget.expires log + budget.count) (hmax : budget.count ≤ maxUserAttempts)
    (hold : ∀ old, attempts.find? user = some old → old.expires = budget.expires) :
    BudgetInv (attempts.upsert user budget) clock (.charged user budget.expires :: log) where
  opened user' budget' hfind := by
    rw [charges_charged, refunds_cons_of_ne (by simp)]
    rw [Table.find?_upsert] at hfind
    split_ifs at hfind with heq
    · cases hfind
      subst heq
      simp only [and_self, if_true]
      omega
    · rw [if_neg fun h => heq h.1.symm]
      exact h.opened user' budget' hfind
  others user' window hnone := by
    rw [charges_charged, refunds_cons_of_ne (by simp)]
    by_cases heq : user' = user
    · subst heq
      have hne : budget.expires ≠ window := hnone budget (Table.find?_upsert_self _ _ _)
      rw [if_neg fun h => hne h.2]
      exact h.others user' window fun old hfind => by rwa [hold old hfind]
    · rw [if_neg fun h => heq h.1.symm]
      exact h.others user' window fun old hfind => hnone old ((Table.find?_upsert_ne heq).trans hfind)

end

end Steps

section Service

variable {Digest : Type} {s s' : Service Digest} {user : String} {now window clock : ℤ}
  {log : List Event}

/-- **An attempt is charged**: there was room in the budget. -/
theorem BudgetInv.charge (h : BudgetInv s.attempts now log) (hs : s.charge user now = .ok s') :
    ∃ budget, s'.attempts.find? user = some budget ∧ s' = { s with attempts := s'.attempts } ∧
      charges user budget.expires log < refunds user budget.expires log + maxUserAttempts ∧
        BudgetInv s'.attempts now (.charged user budget.expires :: log) := by
  unfold Service.charge at hs
  cases hfind : s.attempts.find? user with
  | some budget =>
    simp only [hfind] at hs
    split_ifs at hs with hfull
    cases hs
    have hcount := h.opened user budget hfind
    refine ⟨{ budget with count := budget.count + 1 }, Table.find?_upsert_self _ _ _, rfl, ?_,
      h.upsert_charged ?_ (Nat.lt_of_not_le hfull) ?_⟩
    · show charges user budget.expires log < refunds user budget.expires log + maxUserAttempts
      omega
    · show charges user budget.expires log + 1 = refunds user budget.expires log + (budget.count + 1)
      omega
    · intro old hold
      obtain rfl : budget = old := Option.some.inj (hfind.symm.trans hold)
      rfl
  | none =>
    simp only [hfind] at hs
    split_ifs at hs
    cases hs
    -- a window that begins now is not over, so that nothing is open in it
    have hsettled := (h.others user (now + attemptWindow) fun _ hb => by
      rw [hfind] at hb
      cases hb).2.2.resolve_right (by unfold attemptWindow TrafficReset.nanosPerSecond; omega)
    refine ⟨⟨1, now + attemptWindow⟩, Table.find?_upsert_self _ _ _, rfl, ?_,
      h.upsert_charged ?_ (show 1 ≤ maxUserAttempts by decide) ?_⟩
    · rw [hsettled]
      exact Nat.lt_add_of_pos_right (by decide)
    · rw [hsettled]
    · intro old hold
      rw [hfind] at hold
      cases hold

/-- **An attempt is refunded** that was charged in the window of the budget. -/
theorem BudgetInv.refund (h : BudgetInv s.attempts clock log) (hs : s.Refundable user window) :
    refunds user window log < charges user window log ∧
      BudgetInv (s.refund user window).attempts clock (.refunded user window :: log) := by
  obtain ⟨budget, hfind, rfl, hpos⟩ := hs
  have hcount := h.opened user budget hfind
  refine ⟨by omega, ?_⟩
  simp only [Service.refund, Option.mem_def.mp hfind, hpos, and_self, if_true]
  -- the budgets of other users and windows stay as they are
  have hothers : ∀ {attempts : Table String AttemptBudget} {user' : String} {window : ℤ},
      (∀ user', user' ≠ user → attempts.find? user' = s.attempts.find? user') →
        (∀ b, attempts.find? user' = some b → b.expires ≠ window) →
          ¬(user' = user ∧ budget.expires = window) →
            refunds user' window log ≤ charges user' window log ∧
              charges user' window log ≤ refunds user' window log + maxUserAttempts ∧
                (charges user' window log = refunds user' window log ∨ window ≤ clock) := by
    intro attempts user' window hsame hnone hne
    refine h.others user' window fun b hb => ?_
    by_cases heq : user' = user
    · subst heq
      obtain rfl : budget = b := Option.some.inj ((Option.mem_def.mp hfind).symm.trans hb)
      exact fun hw => hne ⟨rfl, hw⟩
    · exact hnone b ((hsame user' heq).trans hb)
  split_ifs with hzero
  · have hsame : ∀ user', user' ≠ user → (s.attempts.deleteWhere fun user' _ =>
        decide (user' = user)).find? user' = s.attempts.find? user' := by
      intro user' hne
      rw [Table.find?_deleteWhere]
      cases s.attempts.find? user' <;> simp [hne]
    refine ⟨fun user' b hb => ?_, fun user' window hnone => ?_⟩
    · obtain ⟨hb, hne⟩ := Table.find?_deleteWhere_eq_some.mp hb
      rw [charges_cons_of_ne (by simp), refunds_refunded, if_neg fun h => by simp [h.1] at hne]
      exact h.opened user' b hb
    · rw [charges_cons_of_ne (by simp), refunds_refunded]
      by_cases heq : user' = user ∧ budget.expires = window
      · obtain ⟨rfl, rfl⟩ := heq
        simp only [and_self, if_true]
        exact ⟨by omega, by omega, Or.inl (by omega)⟩
      · rw [if_neg fun h => heq ⟨h.1.symm, h.2⟩]
        exact hothers hsame hnone heq
  · refine ⟨fun user' b hb => ?_, fun user' window hnone => ?_⟩
    · rw [charges_cons_of_ne (by simp), refunds_refunded]
      change (s.attempts.upsert user _).find? user' = some b at hb
      rw [Table.find?_upsert] at hb
      split_ifs at hb with heq
      · cases hb
        subst heq
        simp only [and_self, if_true]
        omega
      · rw [if_neg fun h => heq h.1.symm]
        exact h.opened user' b hb
    · rw [charges_cons_of_ne (by simp), refunds_refunded]
      have hne : ¬(user' = user ∧ budget.expires = window) := by
        rintro ⟨rfl, rfl⟩
        exact hnone _ (Table.find?_upsert_self _ _ _) rfl
      rw [if_neg fun h => hne ⟨h.1.symm, h.2⟩]
      exact hothers (fun user' hne => Table.find?_upsert_ne hne) hnone hne

theorem refund_eq (s : Service Digest) (user : String) (window : ℤ) :
    s.refund user window = { s with attempts := (s.refund user window).attempts } := by
  unfold Service.refund
  cases s.attempts.find? user with
  | none => rfl
  | some budget =>
    dsimp only
    split_ifs <;> rfl

theorem refund_of_not_refundable (h : ¬s.Refundable user window) : s.refund user window = s := by
  unfold Service.refund
  cases hfind : s.attempts.find? user with
  | none => rfl
  | some budget => exact if_neg fun hcond => h ⟨budget, hfind, hcond.1, hcond.2⟩

end Service

end TrustedCredential

end Komari
