import Komari.Run.Past
import Komari.TrustedCredential.Service

/-!
# Runs of the credential service

Calls come at the same time.  `Begin` and `Complete` have two critical sections, around the callbacks of
the provider; whatever these answer is part of the operation that follows.  The clock does not go back.
-/

namespace Komari

namespace TrustedCredential

open Run

/-! ### Operations and events -/

/-- Where a call of `Begin` is. -/
inductive BeginPhase
  /-- The provider prepares the verification. -/
  | preparing
  | failed
  | done
deriving DecidableEq

/-- A call of `Begin` that has made a challenge. -/
structure BeginCall where
  id : String
  ref : ℕ
  phase : BeginPhase
deriving DecidableEq

/-- Where a call of `Complete` is. -/
inductive CompletePhase
  /-- `verify` runs. -/
  | verifying
  /-- `verify` has returned. -/
  | verified (err : Option CredentialError)
  | done
deriving DecidableEq

/-- A call of `Complete` that verifies a challenge. -/
structure CompleteCall where
  id : String
  ref : ℕ
  binding : Binding
  window : ℤ
  phase : CompletePhase
deriving DecidableEq

/-- What happens to the service; a number is the time that passes before the clock is read. -/
inductive CredentialOp
  | register (d : Descriptor)
  | unregister (id : String)
  /-- The first section of `Begin`. -/
  | beginFirst (check : Option CredentialError) (binding : Binding) (request : Request)
      (token : Option String) (d₁ d₂ : ℕ)
  /-- The last section of a `Begin` whose callbacks were successful. -/
  | beginLast (call d : ℕ)
  /-- The deferred section of a `Begin` that has failed. -/
  | beginFail (call : ℕ)
  /-- The first section of `Complete`. -/
  | completeFirst (check : Option CredentialError) (binding : Binding) (id : String)
      (validProof : Bool) (d₁ d₂ : ℕ)
  /-- `verify` returns. -/
  | verified (call : ℕ) (err : Option CredentialError)
  /-- The last section of `Complete`. -/
  | completeLast (call : ℕ) (bindingErr contextErr : Option CredentialError) (token : Option String)
      (d₁ d₂ d₃ : ℕ)
  | consume (check : Option CredentialError) (binding : Binding) (token : String) (purpose : Purpose)
      (resource : String) (d : ℕ)
  | cancel (check : Option CredentialError) (binding : Binding) (id : String) (d : ℕ)
  | revokeUser (user : String)
  | revokeBinding (binding : Binding)
  | chargeAttempt (check : Option CredentialError) (binding : Binding) (d₁ d₂ : ℕ)

/-- What happened to a token, or to its user. -/
inductive Event
  | registered (provider : String)
  | unregistered (provider : String)
  | revokedUser (user : String)
  | revokedBinding (binding : Binding)
  | began (ref : ℕ) (binding : Binding) (provider : String) (purpose : Purpose) (resource : String)
  /-- `verify` of a challenge was called. -/
  | verifying (call ref : ℕ)
  /-- `verify` of a challenge returned. -/
  | verified (call ref : ℕ) (accepted : Bool)
  /-- A token was issued for a challenge. -/
  | issued (ref call : ℕ) (token : String) (expires : ℤ)
  | consumed (token : String) (binding : Binding) (purpose : Purpose) (resource : String) (time : ℤ)
  /-- An attempt was charged to a user. -/
  | charged (user : String) (window : ℤ)
  | refunded (user : String) (window : ℤ)
deriving DecidableEq

/-- The service, the calls on their way, and the events up to now. -/
structure Trace (Digest : Type) where
  service : Service Digest
  clock : ℤ
  /-- The calls of `Begin` that have made challenges. -/
  begins : List BeginCall
  /-- The calls of `Complete` that verify challenges. -/
  completes : List CompleteCall
  log : List Event

namespace Trace

/-- Nothing has happened. -/
def start (Digest : Type) (clock : ℤ) : Trace Digest := ⟨Service.new Digest, clock, [], [], []⟩

variable {Digest : Type} [DecidableEq Digest] [Sha256 Digest]

/-- What they do, and the events that are recorded, the newest first. -/
def step (t : Trace Digest) : CredentialOp → Trace Digest
  | .register d =>
    match t.service.register d with
    | (.error _, s) => { t with service := s }
    | (.ok _, s) => { t with service := s, log := .registered d.id :: t.log }
  | .unregister id =>
    { t with service := t.service.unregister id, log := .unregistered id :: t.log }
  | .beginFirst check binding request token d₁ d₂ =>
    let pruned := t.clock + d₁
    let now := pruned + d₂
    match t.service.beginFirst check binding request token pruned now with
    | (.error _, s) => { t with service := s, clock := now }
    | (.ok ref, s) =>
      { t with service := s, clock := now, begins := t.begins ++ [⟨token.getD "", ref, .preparing⟩],
               log := .began ref binding request.providerID request.purpose request.resource :: t.log }
  | .beginLast call d =>
    let now := t.clock + d
    match t.begins[call]? with
    | some ⟨id, ref, .preparing⟩ =>
      match t.service.beginLast id ref now with
      | (.error _, s) =>
        { t with service := s, clock := now, begins := t.begins.set call ⟨id, ref, .failed⟩ }
      | (.ok _, s) =>
        { t with service := s, clock := now, begins := t.begins.set call ⟨id, ref, .done⟩ }
    | _ => t
  | .beginFail call =>
    match t.begins[call]? with
    | some ⟨_, _, .done⟩ => t
    | some ⟨id, ref, _⟩ =>
      { t with service := t.service.beginFail id ref, begins := t.begins.set call ⟨id, ref, .done⟩ }
    | none => t
  | .completeFirst check binding id validProof d₁ d₂ =>
    let pruned := t.clock + d₁
    let now := pruned + d₂
    match t.service.completeFirst check binding id validProof pruned now with
    | (.error _, s) => { t with service := s, clock := now }
    | (.ok (ref, window), s) =>
      { t with service := s, clock := now,
               completes := t.completes ++ [⟨id, ref, binding, window, .verifying⟩],
               log := .verifying t.completes.length ref :: .charged binding.userID window :: t.log }
  | .verified call err =>
    match t.completes[call]? with
    | some ⟨id, ref, binding, window, .verifying⟩ =>
      { t with completes := t.completes.set call ⟨id, ref, binding, window, .verified err⟩,
               log := .verified call ref err.isNone :: t.log }
    | _ => t
  | .completeLast call bindingErr contextErr token d₁ d₂ d₃ =>
    let now := t.clock + d₁
    let pruned := now + d₂
    let stamp := pruned + d₃
    match t.completes[call]? with
    | some ⟨id, ref, binding, window, .verified err⟩ =>
      let completes := t.completes.set call ⟨id, ref, binding, window, .done⟩
      match t.service.finish id ref bindingErr contextErr err now with
      | (.error _, s) => { t with service := s, clock := stamp, completes := completes }
      | (.ok _, s) =>
        let log := if s.Refundable binding.userID window then .refunded binding.userID window :: t.log
          else t.log
        match (s.refund binding.userID window).issue id ref binding token pruned stamp with
        | (.error _, s) => { t with service := s, clock := stamp, completes := completes, log := log }
        | (.ok (token, expires), s) =>
          { t with service := s, clock := stamp, completes := completes,
                   log := .issued ref call token expires :: log }
    | _ => t
  | .consume check binding token purpose resource d =>
    let pruned := t.clock + d
    match t.service.consume check binding token purpose resource pruned with
    | (.error _, s) => { t with service := s, clock := pruned }
    | (.ok _, s) =>
      { t with service := s, clock := pruned,
               log := .consumed token binding purpose resource pruned :: t.log }
  | .cancel check binding id d =>
    let pruned := t.clock + d
    { t with service := (t.service.cancel check binding id pruned).2, clock := pruned }
  | .revokeUser user =>
    { t with service := t.service.revokeUser user, log := .revokedUser user :: t.log }
  | .revokeBinding binding =>
    { t with service := t.service.revokeBinding binding, log := .revokedBinding binding :: t.log }
  | .chargeAttempt check binding d₁ d₂ =>
    let pruned := t.clock + d₁
    let now := pruned + d₂
    match t.service.chargeAttempt check binding pruned now with
    | (.error _, s) => { t with service := s, clock := now }
    | (.ok _, s) =>
      let window := ((s.attempts.find? binding.userID).map AttemptBudget.expires).getD 0
      { t with service := s, clock := now, log := .charged binding.userID window :: t.log }

theorem step_register (t : Trace Digest) (d : Descriptor) :
    t.step (.register d) = match t.service.register d with
      | (.error _, s) => { t with service := s }
      | (.ok _, s) => { t with service := s, log := .registered d.id :: t.log } := by
  simp only [step]

/-- The trace of some sections. -/
def run (clock : ℤ) (ops : List CredentialOp) : Trace Digest := ops.foldl step (start Digest clock)

end Trace

/-! ### What must have happened -/

/-- The event revokes the challenges and the authorizations of a binding through a provider. -/
def Revokes (binding : Binding) (provider : String) (e : Event) : Prop :=
  e = .revokedUser binding.userID ∨ e = .revokedBinding binding ∨ e = .unregistered provider ∨
    e = .registered provider

/-- It uses the token up. -/
def Event.consumes (token : String) : Event → Bool
  | .consumed token' _ _ _ _ => token' = token
  | _ => false

/-- It issues the token. -/
def Event.issues (token : String) : Event → Bool
  | .issued _ _ token' _ => token' = token
  | _ => false

/-- `verify` of the challenge was called. -/
def Event.verifies (ref : ℕ) : Event → Bool
  | .verifying _ ref' => ref' = ref
  | _ => false

/-- `verify` of the challenge returned to the call. -/
def Event.returns (call ref : ℕ) : Event → Bool
  | .verified call' ref' _ => call' = call && ref' = ref
  | _ => false

/-- The attempts that were charged to a user in a window. -/
def charges (user : String) (window : ℤ) (log : List Event) : ℕ :=
  log.countP fun e => e = .charged user window

/-- The attempts that were refunded to a user in a window. -/
def refunds (user : String) (window : ℤ) (log : List Event) : ℕ :=
  log.countP fun e => e = .refunded user window

/-- What must have happened before an event. -/
def Event.Sound : Event → List Event → Prop
  -- a token is consumed that was issued, and not consumed since, for a challenge of the same binding,
  -- purpose and resource, which nothing has revoked since it began
  | .consumed token binding purpose resource time, log =>
    ∃ ref call expires provider, time < expires ∧
      Since (· = .issued ref call token expires) (Event.consumes token · = true) log ∧
        Since (· = .began ref binding provider purpose resource) (Revokes binding provider) log
  -- a token is issued by a call to which `verify` has returned no error
  | .issued ref call _ _, log => .verified call ref true ∈ log
  -- a challenge begins once
  | .began ref _ _ _ _, log => ∀ binding provider purpose resource,
      .began ref binding provider purpose resource ∉ log
  -- `verify` has not run too often, and does not run
  | .verifying _ ref, log => log.countP (Event.verifies ref) < maxAttempts ∧
      ∀ call, ¬Since (· = .verifying call ref) (Event.returns call ref · = true) log
  -- there is room in the budget of the user
  | .charged user window, log => charges user window log < refunds user window log + maxUserAttempts
  | .refunded user window, log => refunds user window log < charges user window log
  | _, _ => True

end TrustedCredential

end Komari
