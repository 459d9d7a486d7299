import Komari.TrustedCredential.Budgets
import Komari.TrustedCredential.Calls
import Komari.TrustedCredential.Live

/-!
# Authorizations are for one use

Every run of the credential service is sound: a token that is consumed was issued for a live challenge of
the same binding, purpose and resource, verifications are bounded and run one at a time, and so are the
charges of a user.

* `authorizations_single_use` : the events of every run are sound, and no token is consumed twice.
-/

namespace Komari

namespace TrustedCredential

open Run

variable {Digest : Type} [DecidableEq Digest] [Sha256 Digest]

/-- The invariant of a run whose tokens are among some texts. -/
structure Inv (T : Set String) (t : Trace Digest) : Prop where
  live : LiveInv t.service t.log
  calls : CallInv t.service.challenges t.service.pending t.completes t.log
  budgets : BudgetInv t.service.attempts t.clock t.log
  tokens : ∀ ref call token expires, .issued ref call token expires ∈ t.log → token ∈ T
  /-- What must have happened before an event has. -/
  sound : Justified Event.Sound t.log

theorem inv_start (T : Set String) (clock : ℤ) : Inv T (Trace.start Digest clock) where
  live := ⟨nofun, nofun, nofun⟩
  calls := ⟨nofun, nofun, nofun, fun _ _ => ⟨rfl, nofun⟩, nofun, nofun, nofun, nofun, nofun⟩
  budgets := ⟨nofun, fun _ _ _ => ⟨le_rfl, Nat.zero_le _, Or.inl rfl⟩⟩
  tokens := nofun
  sound := trivial

/-! ### Parts of sections -/

section Parts

variable {T : Set String} {t : Trace Digest}

theorem Inv.tokens_cons (h : Inv T t) {e : Event}
    (he : ∀ ref call token expires, .issued ref call token expires ≠ e) (ref call : ℕ) (token : String)
    (expires : ℤ) (hmem : .issued ref call token expires ∈ e :: t.log) : token ∈ T :=
  h.tokens ref call token expires ((List.mem_cons.mp hmem).resolve_left (he ref call token expires))

theorem Inv.wait (h : Inv T t) {now : ℤ} (hnow : t.clock ≤ now) : Inv T { t with clock := now } :=
  { h with budgets := h.budgets.wait hnow }

theorem Inv.prune (h : Inv T t) {now : ℤ} (hnow : t.clock ≤ now) :
    Inv T { t with service := t.service.prune now, clock := now } where
  live := h.live.drops (drops_prune _ _)
  calls := h.calls.drops (drops_prune t.service now).pending
  budgets := h.budgets.prune hnow
  tokens := h.tokens
  sound := h.sound

theorem Inv.removePending (h : Inv T t) (id : String) :
    Inv T { t with service := t.service.removePending id } where
  live := h.live.drops (drops_removePending _ _)
  calls := h.calls.drops (drops_removePending t.service id).pending
  budgets := h.budgets
  tokens := h.tokens
  sound := h.sound

theorem Inv.begins (h : Inv T t) (begins : List BeginCall) : Inv T { t with begins := begins } :=
  { h with }

theorem Inv.charge (h : Inv T t) {user : String} {s : Service Digest}
    (hs : t.service.charge user t.clock = .ok s) :
    Inv T { t with service := s,
                   log := .charged user (((s.attempts.find? user).map AttemptBudget.expires).getD 0) ::
                     t.log } := by
  obtain ⟨budget, hfind, heq, hroom, hbudgets⟩ := h.budgets.charge hs
  rw [hfind, Option.map_some, Option.getD_some]
  have hdrops : Drops t.service s := by
    rw [heq]
    exact { Drops.refl t.service with }
  have hcalls : s.challenges = t.service.challenges ∧ s.pending = t.service.pending := by
    rw [heq]
    exact ⟨rfl, rfl⟩
  exact
    { live := (h.live.drops hdrops).quiet (quiet_charged _ _)
      calls := by
        rw [show _ = _ from hcalls.1, show _ = _ from hcalls.2]
        exact h.calls.aside ⟨by simp, by simp, fun _ _ => rfl⟩
      budgets := hbudgets
      tokens := h.tokens_cons (by simp)
      sound := ⟨hroom, h.sound⟩ }

/-- `verify` is called for a challenge that is not busy. -/
theorem Inv.verifying (h : Inv T t) {id : String} {ref : ℕ} {p : Pending}
    (hid : t.service.pending.find? id = some ref) (hp : t.service.challenges[ref]? = some p)
    (hbusy : p.busy = false) (window : ℤ) :
    Inv T { t with service := t.service.updatePending ref fun p =>
                     { p with busy := true, attempts := p.attempts + 1 },
                   completes := t.completes ++ [⟨id, ref, p.binding, window, .verifying⟩],
                   log := .verifying t.completes.length ref :: t.log } where
  live :=
    (h.live.drops (drops_updatePending t.service ref
      (f := fun p => { p with busy := true, attempts := p.attempts + 1 })
      fun _ => ⟨rfl, rfl, rfl, rfl⟩)).quiet (quiet_verifying _ _)
  calls := h.calls.verifying hid hp hbusy window
  budgets := h.budgets.aside (by simp) (by simp)
  tokens := h.tokens_cons (by simp)
  sound := by
    obtain ⟨hroom, hdone⟩ := h.calls.idle id ref p hid hp hbusy
    refine ⟨⟨(h.calls.attempts ref p hp).1 ▸ hroom, fun call hrunning => ?_⟩, h.sound⟩
    obtain ⟨c, hc, href, hphase⟩ := h.calls.running call ref hrunning
    rw [hdone call c hc href] at hphase
    cases hphase

end Parts

/-! ### The end of a call -/

section Finish

variable {s : Service Digest} {id : String} {ref : ℕ} {p : Pending}

/-- What the last section of `Complete` leaves when it fails: the challenge is not pending for the call, or
is removed, or has attempts left. -/
def Failed (s s' : Service Digest) (id : String) (ref : ℕ) (p : Pending) : Prop :=
  s' = s ∨
    (s.pending.find? id = some ref ∧
      s' = (s.updatePending ref fun p => { p with busy := false }).removePending id) ∨
    (p.attempts < maxAttempts ∧ s' = s.updatePending ref fun p => { p with busy := false })

omit [DecidableEq Digest] [Sha256 Digest] in
theorem finish_cases (hp : s.challenges[ref]? = some p)
    {bindingErr contextErr verifyErr : Option CredentialError} {now : ℤ}
    {r : Except CredentialError Unit × Service Digest}
    (h : s.finish id ref bindingErr contextErr verifyErr now = r) :
    (∃ e, r.1 = .error e ∧ Failed s r.2 id ref p) ∨
      (r = (.ok (), s.updatePending ref fun p => { p with busy := false }) ∧ verifyErr = none ∧
        s.pending.find? id = some ref) := by
  subst h
  simp only [Service.finish, hp]
  by_cases hstale : s.pending.find? id ≠ some ref ∨ s.current p.entry = false
  · rw [if_pos hstale]
    exact Or.inl ⟨_, rfl, Or.inl rfl⟩
  · have hid : s.pending.find? id = some ref := by
      by_contra hne
      exact hstale (Or.inl hne)
    rw [if_neg hstale]
    cases bindingErr with
    | some e => exact Or.inl ⟨e, rfl, Or.inr (Or.inl ⟨hid, rfl⟩)⟩
    | none =>
      dsimp only
      by_cases hnow : now < p.expires
      · rw [if_neg (not_not.mpr hnow)]
        -- the attempts that are spent matter only to a verification that has failed
        have hspent : Failed s (if maxAttempts ≤ p.attempts
            then (s.updatePending ref fun p => { p with busy := false }).removePending id
            else s.updatePending ref fun p => { p with busy := false }) id ref p := by
          by_cases hmax : maxAttempts ≤ p.attempts
          · rw [if_pos hmax]
            exact Or.inr (Or.inl ⟨hid, rfl⟩)
          · rw [if_neg hmax]
            exact Or.inr (Or.inr ⟨Nat.lt_of_not_le hmax, rfl⟩)
        cases contextErr with
        | some e => exact Or.inl ⟨e, rfl, hspent⟩
        | none =>
          cases verifyErr with
          | none => exact Or.inr ⟨rfl, rfl, hid⟩
          | some e => cases e <;> exact Or.inl ⟨_, rfl, hspent⟩
      · rw [if_pos hnow]
        exact Or.inl ⟨_, rfl, Or.inr (Or.inl ⟨hid, rfl⟩)⟩

/-- What `Complete` does when its verification is accepted: the challenge is removed. -/
theorem issue_cases (hp : s.challenges[ref]? = some p) (id : String) (binding : Binding) (token : Option String)
    (pruned now : ℤ) :
    (∃ e, s.issue id ref binding token pruned now = (.error e, (s.prune pruned).removePending id)) ∨
      ∃ text, token = some text ∧ s.issue id ref binding token pruned now =
        (.ok (text, now + authorizationLifetime), Service.removePending
          { s.prune pruned with
            grants := (s.prune pruned).grants.upsert (Sha256.sum text)
              ⟨binding, p.entry, p.purpose, p.resource, now + authorizationLifetime⟩ } id) := by
  have hp' : (s.prune pruned).challenges[ref]? = some p := hp
  simp only [Service.issue, hp']
  by_cases hlimit : maxAuthorizations ≤ (s.prune pruned).grants.rows.length ∨
      maxPerSession ≤ (s.prune pruned).grantCount binding false ∨
        maxPerUser ≤ (s.prune pruned).grantCount binding true
  · simp only [if_pos hlimit]
    exact Or.inl ⟨_, rfl⟩
  · simp only [if_neg hlimit]
    cases token with
    | none => exact Or.inl ⟨_, rfl⟩
    | some text =>
      by_cases hused : ((s.prune pruned).grants.find? (Sha256.sum text)).isSome = true
      · simp only [if_pos hused]
        exact Or.inl ⟨_, rfl⟩
      · simp only [if_neg hused]
        exact Or.inr ⟨text, rfl, rfl⟩

omit [DecidableEq Digest] [Sha256 Digest] in
theorem refund_removePending (user : String) (window : ℤ) :
    (s.removePending id).refund user window = (s.refund user window).removePending id := by
  simp only [Service.refund, Service.removePending]
  cases s.attempts.find? user with
  | none => rfl
  | some budget =>
    dsimp only
    split_ifs <;> rfl

omit [DecidableEq Digest] [Sha256 Digest] in
theorem prune_removePending (now : ℤ) :
    (s.removePending id).prune now = (s.prune now).removePending id := by
  simp only [Service.prune, Service.removePending, Service.removePendingWhere,
    Service.removeGrantsWhere]
  rw [Table.deleteWhere_comm]

section Calls

variable {T : Set String} {t : Trace Digest}

/-- A call of `Complete` fails. -/
theorem Inv.failed (h : Inv T t) {call : ℕ} {c : CompleteCall} {err : Option CredentialError}
    (hc : t.completes[call]? = some c) (hphase : c.phase = .verified err)
    (hp : t.service.challenges[c.ref]? = some p) (hs : Failed t.service s id c.ref p) :
    Inv T { t with service := s, completes := t.completes.set call { c with phase := .done } } := by
  have hdrops : Drops t.service (t.service.updatePending c.ref fun p => { p with busy := false }) :=
    drops_updatePending t.service c.ref fun _ => ⟨rfl, rfl, rfl, rfl⟩
  rcases hs with rfl | ⟨hid, rfl⟩ | ⟨hroom, rfl⟩
  · exact { h with calls := h.calls.closed hc hphase }
  · exact
      { h with
        live := (h.live.drops hdrops).drops (drops_removePending _ id)
        calls := h.calls.finished hc hphase
          (fun _ _ hfind => (Table.find?_deleteWhere_eq_some.mp hfind).1)
          fun id' p' hfind _ => by
            -- the challenge is pending under one id
            obtain ⟨hfind, hne⟩ := Table.find?_deleteWhere_eq_some.mp hfind
            exact absurd (h.calls.inj id' id c.ref hfind hid) (by simpa using hne) }
  · exact
      { h with
        live := h.live.drops hdrops
        calls := h.calls.finished hc hphase (fun _ _ hfind => hfind) fun _ p' _ hp' => by
          rwa [← Option.some.inj (hp.symm.trans hp')] }

theorem Inv.refund (h : Inv T t) (user : String) (window : ℤ) :
    Inv T { t with service := t.service.refund user window,
                   log := if t.service.Refundable user window then .refunded user window :: t.log
                     else t.log } := by
  by_cases hrefund : t.service.Refundable user window
  · rw [if_pos hrefund]
    obtain ⟨hsound, hbudgets⟩ := h.budgets.refund hrefund
    have heq := refund_eq t.service user window
    have hdrops : Drops t.service (t.service.refund user window) := by
      rw [heq]
      exact { Drops.refl t.service with }
    exact
      { live := (h.live.drops hdrops).quiet (quiet_refunded _ _)
        calls := by
          rw [heq]
          exact h.calls.aside ⟨by simp, by simp, fun _ _ => rfl⟩
        budgets := hbudgets
        tokens := h.tokens_cons (by simp)
        sound := ⟨hsound, h.sound⟩ }
  · rw [if_neg hrefund, refund_of_not_refundable hrefund]
    exact h

/-- A token is issued for a challenge whose verification was accepted. -/
theorem Inv.issued (h : Inv T t) {ref call : ℕ} {token : String} {g : Authorization}
    (htoken : token ∈ T) (hlive : Live t.service t.log ref g.binding g.entry g.purpose g.resource)
    (haccepted : .verified call ref true ∈ t.log) :
    Inv T { t with service := { t.service with grants := t.service.grants.upsert (Sha256.sum token) g },
                   log := .issued ref call token g.expires :: t.log } where
  live := h.live.issued call token hlive
  calls := h.calls.aside ⟨by simp, by simp, fun _ _ => rfl⟩
  budgets := h.budgets.aside (by simp) (by simp)
  tokens ref' call' token' expires hmem := by
    rcases List.mem_cons.mp hmem with heq | hmem
    · cases heq
      exact htoken
    · exact h.tokens ref' call' token' expires hmem
  sound := ⟨haccepted, h.sound⟩

end Calls

end Finish

/-! ### Sections -/

theorem le_add_nat (clock : ℤ) (d : ℕ) : clock ≤ clock + d := by
  omega

section Sections

variable {T : Set String} {t : Trace Digest}

section

variable (h : Inv T t)

include h

theorem Inv.register (d : Descriptor) : Inv T (t.step (.register d)) := by
  simp only [Trace.step_register, Service.register]
  by_cases hvalid : d.Valid
  · simp only [hvalid, not_true_eq_false, if_false]
    cases hfind : t.service.providers.find? d.id with
    | some entry => exact h
    | none =>
      exact
        { live := h.live.register hfind
          calls := h.calls.aside ⟨by simp, by simp, fun _ _ => rfl⟩
          budgets := h.budgets.aside (by simp) (by simp)
          tokens := h.tokens_cons (by simp)
          sound := ⟨trivial, h.sound⟩ }
  · simp only [hvalid, not_false_eq_true, if_true]
    exact h

theorem Inv.unregister (id : String) : Inv T (t.step (.unregister id)) where
  live := h.live.unregister id
  calls := CallInv.aside (e := .unregistered id)
    (h.calls.drops fun _ _ hfind => (Table.find?_deleteWhere_eq_some.mp hfind).1)
    ⟨by simp, by simp, fun _ _ => rfl⟩
  budgets := BudgetInv.aside (e := .unregistered id) h.budgets (by simp) (by simp)
  tokens := Inv.tokens_cons (e := .unregistered id) h (by simp)
  sound := ⟨trivial, h.sound⟩

theorem Inv.revokeUser (user : String) : Inv T (t.step (.revokeUser user)) where
  live := h.live.revokeUser user
  calls := CallInv.aside (e := .revokedUser user)
    (h.calls.drops fun _ _ hfind => (Table.find?_deleteWhere_eq_some.mp hfind).1)
    ⟨by simp, by simp, fun _ _ => rfl⟩
  budgets := BudgetInv.aside (e := .revokedUser user) h.budgets (by simp) (by simp)
  tokens := Inv.tokens_cons (e := .revokedUser user) h (by simp)
  sound := ⟨trivial, h.sound⟩

theorem Inv.revokeBinding (binding : Binding) : Inv T (t.step (.revokeBinding binding)) where
  live := h.live.revokeBinding binding
  calls := CallInv.aside (e := .revokedBinding binding)
    (h.calls.drops fun _ _ hfind => (Table.find?_deleteWhere_eq_some.mp hfind).1)
    ⟨by simp, by simp, fun _ _ => rfl⟩
  budgets := BudgetInv.aside (e := .revokedBinding binding) h.budgets (by simp) (by simp)
  tokens := Inv.tokens_cons (e := .revokedBinding binding) h (by simp)
  sound := ⟨trivial, h.sound⟩

theorem Inv.beginFirst (check : Option CredentialError) (binding : Binding)
    (request : Request) (token : Option String) (d₁ d₂ : ℕ) :
    Inv T (t.step (.beginFirst check binding request token d₁ d₂)) := by
  have hwait : Inv T { t with clock := t.clock + d₁ + d₂ } := h.wait (by omega)
  have hpruned : Inv T { t with service := t.service.prune (t.clock + d₁), clock := t.clock + d₁ + d₂ } :=
    (h.prune (le_add_nat t.clock d₁)).wait (le_add_nat (t.clock + d₁) d₂)
  simp only [Trace.step, Service.beginFirst]
  cases checkBinding binding check with
  | some e => exact hwait
  | none =>
    dsimp only
    by_cases hvalid : request.Valid
    · simp only [hvalid, not_true_eq_false, if_false]
      cases hentry : (t.service.prune (t.clock + d₁)).providers.find? request.providerID with
      | none => exact hpruned
      | some entry =>
        dsimp only
        by_cases hoffers : ((t.service.prune (t.clock + d₁)).entries[entry]?).any
            (fun d => d.purposes.contains request.purpose) = true
        · simp only [hoffers, not_true_eq_false, if_false]
          split_ifs with hattempts hroom
          · exact hpruned
          · exact hpruned
          · cases token with
            | none => exact hpruned
            | some id =>
              dsimp only
              split_ifs with hid
              · exact hpruned
              · -- a new challenge
                have hnone := Option.not_isSome_iff_eq_none.mp hid
                exact
                  { live := hpruned.live.began hentry
                    calls := hpruned.calls.began rfl hnone _ _ _ _
                    budgets := hpruned.budgets.aside (by simp) (by simp)
                    tokens := hpruned.tokens_cons (by simp)
                    sound := ⟨(hpruned.calls.fresh _ le_rfl).2, hpruned.sound⟩ }
        · simp only [hoffers]
          exact hpruned
    · simp only [hvalid, not_false_eq_true, if_true]
      exact hwait

theorem Inv.beginLast (call d : ℕ) : Inv T (t.step (.beginLast call d)) := by
  have hwait : Inv T { t with clock := t.clock + d } := h.wait (by omega)
  simp only [Trace.step]
  split
  · rename_i id ref _
    simp only [Service.beginLast]
    cases hp : t.service.challenges[ref]? with
    | none => exact hwait.begins _
    | some p =>
      dsimp only
      split_ifs
      · exact hwait.begins _
      · exact
          { live := h.live.drops (drops_updatePending _ ref fun _ => ⟨rfl, rfl, rfl, rfl⟩)
            calls := h.calls.prepared ref
            budgets := hwait.budgets
            tokens := h.tokens
            sound := h.sound }
  · exact h

theorem Inv.beginFail (call : ℕ) : Inv T (t.step (.beginFail call)) := by
  simp only [Trace.step]
  split
  · exact h
  · rename_i id ref _ _ _
    unfold Service.beginFail
    split_ifs
    · exact (h.removePending id).begins _
    · exact h.begins _
  · exact h

theorem Inv.chargeAttempt (check : Option CredentialError) (binding : Binding)
    (d₁ d₂ : ℕ) : Inv T (t.step (.chargeAttempt check binding d₁ d₂)) := by
  have hpruned : Inv T { t with service := t.service.prune (t.clock + d₁), clock := t.clock + d₁ + d₂ } :=
    (h.prune (le_add_nat t.clock d₁)).wait (le_add_nat (t.clock + d₁) d₂)
  simp only [Trace.step, Service.chargeAttempt]
  cases checkBinding binding check with
  | some e => exact h.wait (by omega : t.clock ≤ t.clock + d₁ + d₂)
  | none =>
    dsimp only
    cases hcharge : (t.service.prune (t.clock + d₁)).charge binding.userID (t.clock + d₁ + d₂) with
    | error e => exact hpruned
    | ok s => exact hpruned.charge hcharge

theorem Inv.cancel (check : Option CredentialError) (binding : Binding) (id : String)
    (d : ℕ) : Inv T (t.step (.cancel check binding id d)) := by
  have hwait : Inv T { t with clock := t.clock + d } := h.wait (by omega)
  have hpruned := h.prune (le_add_nat t.clock d)
  simp only [Trace.step, Service.cancel]
  cases checkBinding binding check with
  | some e => exact hwait
  | none =>
    dsimp only
    split_ifs
    · exact hwait
    · split
      · exact hpruned
      · split_ifs
        · exact hpruned
        · exact hpruned.removePending id

theorem Inv.completeFirst (check : Option CredentialError) (binding : Binding)
    (id : String) (validProof : Bool) (d₁ d₂ : ℕ) :
    Inv T (t.step (.completeFirst check binding id validProof d₁ d₂)) := by
  have hwait : Inv T { t with clock := t.clock + d₁ + d₂ } := h.wait (by omega)
  have hpruned : Inv T { t with service := t.service.prune (t.clock + d₁), clock := t.clock + d₁ + d₂ } :=
    (h.prune (le_add_nat t.clock d₁)).wait (le_add_nat (t.clock + d₁) d₂)
  simp only [Trace.step, Service.completeFirst]
  cases checkBinding binding check with
  | some e => exact hwait
  | none =>
    dsimp only
    split_ifs with hargs
    · exact hwait
    · cases hid : (t.service.prune (t.clock + d₁)).pending.find? id with
      | none => exact hpruned
      | some ref =>
        dsimp only
        cases hp : (t.service.prune (t.clock + d₁)).challenges[ref]? with
        | none => exact hpruned
        | some p =>
          dsimp only
          split_ifs with hbinding hbusy
          · exact hpruned
          · exact hpruned
          · cases hcharge : (t.service.prune (t.clock + d₁)).charge binding.userID
                (t.clock + d₁ + d₂) with
            | error e => exact hpruned
            | ok s =>
              have hcharged := hpruned.charge hcharge
              obtain ⟨_, _, heq, _⟩ := hpruned.budgets.charge hcharge
              have hid' : s.pending.find? id = some ref := by
                rw [heq]
                exact hid
              have hp' : s.challenges[ref]? = some p := by
                rw [heq]
                exact hp
              obtain rfl := not_not.mp hbinding
              exact hcharged.verifying hid' hp' (by simpa using mt Or.inl hbusy) _

theorem Inv.verified (call : ℕ) (err : Option CredentialError) :
    Inv T (t.step (.verified call err)) := by
  simp only [Trace.step]
  split
  · rename_i id ref binding window hc
    exact
      { live := h.live.quiet (quiet_verified _ _ _)
        calls := h.calls.verified hc rfl err
        budgets := h.budgets.aside (by simp) (by simp)
        tokens := h.tokens_cons (by simp)
        sound := ⟨trivial, h.sound⟩ }
  · exact h

theorem Inv.consume (hT : T.InjOn (Sha256.sum : String → Digest))
    (check : Option CredentialError) (binding : Binding) {token : String} (htoken : token ∈ T)
    (purpose : Purpose) (resource : String) (d : ℕ) :
    Inv T (t.step (.consume check binding token purpose resource d)) := by
  have hwait : Inv T { t with clock := t.clock + d } := h.wait (by omega)
  have hpruned := h.prune (le_add_nat t.clock d)
  simp only [Trace.step, Service.consume]
  cases checkBinding binding check with
  | some e => exact hwait
  | none =>
    dsimp only
    split_ifs
    · exact hwait
    · cases hfind : (t.service.prune (t.clock + d)).grants.find? (Sha256.sum token) with
      | none => exact hpruned
      | some g =>
        dsimp only
        split_ifs with hmatch
        · exact hpruned
        · simp only [not_or, not_not, Bool.not_eq_false] at hmatch
          obtain ⟨rfl, rfl, rfl, -⟩ := hmatch
          obtain ⟨ref, call, token', hsum, hissued, d', -, -, hbegan⟩ := hpruned.live.grants _ g hfind
          -- the digests of tokens do not collide
          obtain ⟨_, hmem, rfl⟩ := hissued.exists_mem
          obtain rfl := hT (h.tokens _ _ _ _ hmem) htoken hsum
          have hlive : t.clock + d < g.expires := by
            simpa using (Table.find?_deleteWhere_eq_some.mp hfind).2
          exact
            { live := hpruned.live.consumed _ _ _ _ _
              calls := hpruned.calls.aside ⟨by simp, by simp, fun _ _ => rfl⟩
              budgets := hpruned.budgets.aside (by simp) (by simp)
              tokens := hpruned.tokens_cons (by simp)
              sound := ⟨⟨ref, call, g.expires, d'.id, hlive, hissued, hbegan⟩, h.sound⟩ }

theorem Inv.completeLast (call : ℕ) (bindingErr contextErr : Option CredentialError)
    {token : Option String} (htoken : ∀ text ∈ token, text ∈ T) (d₁ d₂ d₃ : ℕ) :
    Inv T (t.step (.completeLast call bindingErr contextErr token d₁ d₂ d₃)) := by
  simp only [Trace.step]
  split
  · rename_i id ref binding window err hc
    obtain ⟨p, hp, hbinding⟩ := h.calls.binding call _ hc
    split
    · -- the call fails
      rename_i e s hfinish
      rcases finish_cases hp hfinish with ⟨_, -, hfailed⟩ | ⟨hok, -⟩
      · have hwait := (h.failed hc rfl hp hfailed).wait (le_add_nat t.clock (d₁ + d₂ + d₃))
        simpa only [Nat.cast_add, ← add_assoc] using hwait
      · cases hok
    · rename_i s hfinish
      rcases finish_cases hp hfinish with ⟨_, herr, -⟩ | ⟨hok, rfl, hid⟩
      · cases herr
      · obtain rfl : s = t.service.updatePending ref fun p => { p with busy := false } :=
          congrArg Prod.snd hok
        have hremoved := h.failed hc rfl hp (Or.inr (Or.inl ⟨hid, rfl⟩))
        have hpruned := ((hremoved.refund binding.userID window).wait (le_add_nat t.clock d₁)).prune
          (le_add_nat (t.clock + d₁) d₂)
        dsimp only at hpruned
        rw [refund_removePending, prune_removePending] at hpruned
        have hp₁ : ((t.service.updatePending ref fun p => { p with busy := false }).refund
            binding.userID window).challenges[ref]? = some { p with busy := false } := by
          rw [refund_eq]
          simp [Service.updatePending, hp]
        obtain ⟨e, hissue⟩ | ⟨text, rfl, hissue⟩ := issue_cases hp₁ id binding token
          (t.clock + d₁ + d₂) (t.clock + d₁ + d₂ + d₃)
        · rw [hissue]
          exact hpruned.wait (le_add_nat _ d₃)
        · rw [hissue]
          have haccepted := h.calls.accepted call _ hc rfl
          have hlive : Live t.service t.log ref binding p.entry p.purpose p.resource := by
            obtain ⟨p', hp', hlive⟩ := h.live.pending id ref hid
            obtain rfl : p = p' := Option.some.inj (hp.symm.trans hp')
            rwa [show p.binding = binding from hbinding] at hlive
          refine (hpruned.wait (le_add_nat _ d₃)).issued (g := ⟨binding, p.entry, p.purpose, p.resource,
            t.clock + d₁ + d₂ + d₃ + authorizationLifetime⟩) (htoken text rfl) ?_ ?_
          · refine Live.of_eq (s := t.service) ?_ ?_ ?_
            · split_ifs
              · exact hlive.quiet (quiet_refunded _ _)
              · exact hlive
            · rw [refund_eq]
              rfl
            · rw [refund_eq]
              rfl
          · split_ifs
            · exact List.mem_cons_of_mem _ haccepted
            · exact haccepted
  · exact h

end

end Sections

/-! ### Runs -/

/-- The texts that an operation generates or presents as a token of an authorization. -/
def CredentialOp.tokens : CredentialOp → List String
  | .completeLast _ _ _ token _ _ _ => token.toList
  | .consume _ _ token _ _ _ => [token]
  | _ => []

section Runs

variable {T : Set String}

/-- **Every critical section keeps the invariant.** -/
theorem Inv.step {t : Trace Digest} (h : Inv T t) (hT : T.InjOn (Sha256.sum : String → Digest))
    (op : CredentialOp) (hop : ∀ token ∈ op.tokens, token ∈ T) : Inv T (t.step op) := by
  cases op with
  | register d => exact h.register d
  | unregister id => exact h.unregister id
  | beginFirst check binding request token d₁ d₂ => exact h.beginFirst check binding request token d₁ d₂
  | beginLast call d => exact h.beginLast call d
  | beginFail call => exact h.beginFail call
  | completeFirst check binding id validProof d₁ d₂ =>
    exact h.completeFirst check binding id validProof d₁ d₂
  | verified call err => exact h.verified call err
  | completeLast call bindingErr contextErr token d₁ d₂ d₃ =>
    exact h.completeLast call bindingErr contextErr (fun text htext => hop text (by
      simpa [CredentialOp.tokens] using htext)) d₁ d₂ d₃
  | consume check binding token purpose resource d =>
    exact h.consume hT check binding (hop token (by simp [CredentialOp.tokens])) purpose resource d
  | cancel check binding id d => exact h.cancel check binding id d
  | revokeUser user => exact h.revokeUser user
  | revokeBinding binding => exact h.revokeBinding binding
  | chargeAttempt check binding d₁ d₂ => exact h.chargeAttempt check binding d₁ d₂

theorem inv_foldl (hT : T.InjOn (Sha256.sum : String → Digest)) {ops : List CredentialOp}
    (hops : ∀ op ∈ ops, ∀ token ∈ op.tokens, token ∈ T) {t : Trace Digest} (h : Inv T t) :
    Inv T (ops.foldl Trace.step t) := by
  induction ops generalizing t with
  | nil => exact h
  | cons op ops ih =>
    obtain ⟨hop, hops⟩ := List.forall_mem_cons.mp hops
    exact ih hops (h.step hT op hop)

end Runs

/-- **Authorizations are bound, live and for one use.**  Where the digests of the tokens of a run do not
collide, every event has been preceded by what it needs, a token is not consumed more often than it was
issued, a challenge is not verified more than `MaxAttempts` times, and not more than `MaxUserAttempts`
charges of a user are outstanding in a window. -/
theorem authorizations_single_use (clock : ℤ) (ops : List CredentialOp)
    (hsum : {token | ∃ op ∈ ops, token ∈ op.tokens}.InjOn (Sha256.sum : String → Digest)) :
    (∀ later e earlier, (Trace.run clock ops : Trace Digest).log = later ++ e :: earlier →
      e.Sound earlier) ∧
    (∀ token, (Trace.run clock ops : Trace Digest).log.countP (Event.consumes token) ≤
      (Trace.run clock ops : Trace Digest).log.countP (Event.issues token)) ∧
    (∀ ref, (Trace.run clock ops : Trace Digest).log.countP (Event.verifies ref) ≤ maxAttempts) ∧
    ∀ user window, charges user window (Trace.run clock ops : Trace Digest).log ≤
      refunds user window (Trace.run clock ops : Trace Digest).log + maxUserAttempts := by
  have h : Inv {token | ∃ op ∈ ops, token ∈ op.tokens} (Trace.run clock ops : Trace Digest) :=
    inv_foldl hsum (fun op hop token htoken => ⟨op, hop, htoken⟩) (inv_start _ clock)
  refine ⟨justified_iff.mp h.sound, fun token => ?_, fun ref => ?_, fun user window => ?_⟩
  · refine countP_le_of_since (fun e => ?_) (justified_iff.mpr fun later e earlier heq hconsumes => ?_)
    · cases e <;> simp [Event.issues, Event.consumes]
    · have hsound := justified_iff.mp h.sound later e earlier heq
      cases e with
      | consumed token' binding purpose resource time =>
        obtain rfl : token' = token := by simpa [Event.consumes] using hconsumes
        obtain ⟨ref, call, expires, provider, -, hissued, -⟩ := hsound
        exact hissued.imp fun e he => by simp [he, Event.issues]
      | _ => simp [Event.consumes] at hconsumes
  · cases hp : (Trace.run clock ops : Trace Digest).service.challenges[ref]? with
    | none => exact (h.calls.fresh ref (List.getElem?_eq_none_iff.mp hp)).1 ▸ Nat.zero_le _
    | some p =>
      obtain ⟨hcount, hle⟩ := h.calls.attempts ref p hp
      exact hcount ▸ hle
  · exact (h.budgets.bounded user window).2

/-- Digests that do not collide: the texts themselves. -/
abbrev plainDigest : Sha256 String := ⟨id⟩

/-- A run in which a user verifies a challenge of a provider and consumes the authorization. -/
def consumedOnce (binding : Binding) (token : String) : List CredentialOp :=
  [.register ⟨"mail", "Mail", "email_otp", [.loginSettings]⟩,
    .beginFirst none binding ⟨"mail", .loginSettings, "settings", true⟩ (some token) 0 0,
    .beginLast 0 0, .completeFirst none binding token true 0 0, .verified 0 none,
    .completeLast 0 none none (some token) 0 0 0,
    .consume none binding token .loginSettings "settings" 0]

theorem authorizations_single_use_consumed :
    (@Trace.run String _ plainDigest 0 (consumedOnce ⟨"u", "s", "v"⟩
      "0123456789abcdef0123456789abcdef0123456789abcdef0123456789abcdef")).log.countP
        (Event.consumes "0123456789abcdef0123456789abcdef0123456789abcdef0123456789abcdef") = 1 ∧
    (@Trace.run String _ plainDigest 0 (consumedOnce ⟨"u", "s", "v"⟩
      "0123456789abcdef0123456789abcdef0123456789abcdef0123456789abcdef")).log.countP
        (Event.consumes "0123456789abcdef0123456789abcdef0123456789abcdef0123456789abcdef") ≤
    (@Trace.run String _ plainDigest 0 (consumedOnce ⟨"u", "s", "v"⟩
      "0123456789abcdef0123456789abcdef0123456789abcdef0123456789abcdef")).log.countP
        (Event.issues "0123456789abcdef0123456789abcdef0123456789abcdef0123456789abcdef") :=
  ⟨by decide +kernel,
    (@authorizations_single_use String _ plainDigest 0 _ Function.injective_id.injOn).2.1 _⟩

end TrustedCredential

end Komari
