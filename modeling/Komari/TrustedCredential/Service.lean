import Komari.Table.Basic
import Komari.TrafficReset.Schedule

/-!
# Verification challenges and authorizations

A provider verifies a challenge, and the service then grants an authorization for one use.  Entries of
providers and pending challenges are named by their places among all that were made: the service compares
their pointers.
-/

namespace Komari

namespace TrustedCredential

open TrafficReset (trimSpace nanosPerSecond)

/-! ### Data -/

/-- What a credential is asked for. -/
inductive Purpose
  | bindContact
  | manageCredentials
  | unlockWorkspace
  | loginSettings
  | sensitiveOperation
  | passwordLogin
  | other (text : String)
deriving DecidableEq

/-- `validPurpose`. -/
def Purpose.valid : Purpose → Bool
  | .other _ => false
  | _ => true

def challengeLifetime : ℤ := 3 * 60 * nanosPerSecond

def authorizationLifetime : ℤ := 60 * nanosPerSecond

def maxAttempts : ℕ := 5

def maxUserAttempts : ℕ := 10

def attemptWindow : ℤ := 15 * 60 * nanosPerSecond

def maxAttemptBuckets : ℕ := 1024

def maxChallenges : ℕ := 256

def maxAuthorizations : ℕ := 256

def maxPerSession : ℕ := 4

def maxPerUser : ℕ := 8

/-- The errors of the package. -/
inductive CredentialError
  /-- `ErrUnauthenticated` -/
  | unauthenticated
  /-- `ErrInvalidArgument` -/
  | invalidArgument
  /-- `ErrProviderUnavailable` -/
  | providerUnavailable
  /-- `ErrVerificationFailed` -/
  | verificationFailed
  /-- `ErrNotFound` -/
  | notFound
  /-- `ErrBusy` -/
  | busy
  /-- `ErrLimit` -/
  | limit
  /-- `ErrAttemptLimit` -/
  | attemptLimit
  /-- The error of a context. -/
  | context
deriving DecidableEq

/-- A user, in one session. -/
structure Binding where
  userID : String
  sessionDigest : String
  securityVersion : String
deriving DecidableEq

/-- What a provider says about itself. -/
structure Descriptor where
  id : String
  displayName : String
  kind : String
  purposes : List Purpose
deriving DecidableEq

/-- What `Begin` is asked. -/
structure Request where
  providerID : String
  purpose : Purpose
  resource : String
  /-- The parameters are a JSON object of bounded size. -/
  validParameters : Bool
deriving DecidableEq

/-- A challenge that waits for its answer. -/
structure Pending where
  binding : Binding
  entry : ℕ
  purpose : Purpose
  resource : String
  expires : ℤ
  verify : Bool
  attempts : ℕ
  busy : Bool
deriving DecidableEq

/-- A token that may be used once. -/
structure Authorization where
  binding : Binding
  entry : ℕ
  purpose : Purpose
  resource : String
  expires : ℤ
deriving DecidableEq

/-- The attempts in a window. -/
structure AttemptBudget where
  count : ℕ
  expires : ℤ
deriving DecidableEq

/-- `sha256.Sum256`. -/
class Sha256 (Digest : Type) where
  sum : String → Digest

/-- Providers, challenges and tokens. -/
structure Service (Digest : Type) where
  /-- All entries of providers that were made. -/
  entries : List Descriptor
  providers : Table String ℕ
  challenges : List Pending
  pending : Table String ℕ
  /-- The authorizations, by the digests of their tokens. -/
  grants : Table Digest Authorization
  attempts : Table String AttemptBudget

/-- Nothing is registered. -/
def Service.new (Digest : Type) : Service Digest := ⟨[], ∅, [], ∅, ∅, ∅⟩

/-! ### Checks -/

/-- `providerIDPattern`: `^[a-z][a-z0-9:._-]{1,95}$`. -/
def validProviderID (id : String) : Bool :=
  match id.toList with
  | [] => false
  | c :: rest => c.isLower && decide (1 ≤ rest.length ∧ rest.length ≤ 95) &&
      rest.all fun c => c.isLower || c.isDigit || ":._-".toList.contains c

/-- The checks of `Register`. -/
def Descriptor.Valid (d : Descriptor) : Prop :=
  validProviderID d.id = true ∧ trimSpace d.displayName ≠ "" ∧ d.displayName.utf8ByteSize ≤ 128 ∧
    d.purposes ≠ [] ∧ d.purposes.length ≤ 6 ∧
      d.kind ∈ ["legacy_totp", "email_otp", "telegram_otp", "plugin"] ∧
        (d.purposes.all Purpose.valid = true ∧ d.purposes.Nodup)

instance (d : Descriptor) : Decidable d.Valid := inferInstanceAs (Decidable (_ ∧ _))

/-- The checks of `Begin` on its request. -/
def Request.Valid (r : Request) : Prop :=
  r.purpose.valid = true ∧ trimSpace r.resource ≠ "" ∧ r.resource.utf8ByteSize ≤ 2048 ∧
    r.validParameters = true

instance (r : Request) : Decidable r.Valid := inferInstanceAs (Decidable (_ ∧ _))

/-- `validToken`: 64 hexadecimal digits. -/
def validToken (token : String) : Bool :=
  token.utf8ByteSize == 64 && token.toList.all fun c =>
    c.isDigit || ('a' ≤ c && c ≤ 'f') || ('A' ≤ c && c ≤ 'F')

/-- `checkBinding`, where the context and `validate` answer `check`. -/
def checkBinding (b : Binding) (check : Option CredentialError) : Option CredentialError :=
  if b.userID = "" ∨ b.sessionDigest = "" ∨ b.securityVersion = "" then some .unauthenticated
  else check

namespace Service

section Counts

variable {Digest : Type} (s : Service Digest)

/-- The entry of a challenge or of an authorization is still registered:
`s.providers[entry.descriptor.ID] == entry`. -/
def current (entry : ℕ) : Bool :=
  match s.entries[entry]? with
  | none => false
  | some d => s.providers.find? d.id = some entry

/-- `pendingCountLocked`. -/
def pendingCount (b : Binding) (user : Bool) : ℕ :=
  s.pending.rows.countP fun row => (s.challenges[row.2]?).any fun p =>
    decide (p.binding = b) || (user && decide (p.binding.userID = b.userID))

/-- `grantCountLocked`. -/
def grantCount (b : Binding) (user : Bool) : ℕ :=
  s.grants.rows.countP fun row =>
    decide (row.2.binding = b) || (user && decide (row.2.binding.userID = b.userID))

/-- The pending challenges that a condition selects are removed. -/
def removePendingWhere (p : Pending → Bool) : Service Digest :=
  { s with pending := s.pending.deleteWhere fun _ ref => (s.challenges[ref]?).any p }

/-- The authorizations that a condition selects are removed. -/
def removeGrantsWhere (p : Authorization → Bool) : Service Digest :=
  { s with grants := s.grants.deleteWhere fun _ g => p g }

/-- `removePendingLocked`: the context of the verification is cancelled as well. -/
def removePending (id : String) : Service Digest :=
  { s with pending := s.pending.deleteWhere fun id' _ => decide (id' = id) }

/-- Changes a challenge. -/
def updatePending (ref : ℕ) (f : Pending → Pending) : Service Digest :=
  { s with challenges := s.challenges.modify ref f }

/-- `pruneLocked`. -/
def prune (now : ℤ) : Service Digest :=
  let s := { s with attempts := s.attempts.deleteWhere fun _ budget => decide (budget.expires ≤ now) }
  let s := s.removePendingWhere fun p => decide (p.expires ≤ now)
  s.removeGrantsWhere fun g => decide (g.expires ≤ now)

end Counts

/-! ### Operations -/

variable {Digest : Type} [DecidableEq Digest] [Sha256 Digest]

/-- `Register`, of a provider with a descriptor. -/
def register (d : Descriptor) (s : Service Digest) : Except CredentialError Unit × Service Digest :=
  if ¬d.Valid then (.error .invalidArgument, s)
  else if (s.providers.find? d.id).isSome then (.error .invalidArgument, s)
  else
    (.ok (), { s with entries := s.entries ++ [d],
                      providers := s.providers.upsert d.id s.entries.length })

/-- A provider goes, with its challenges. -/
def unregister (id : String) (s : Service Digest) : Service Digest :=
  let entry := s.providers.find? id
  let s := { s with providers := s.providers.deleteWhere fun id' _ => decide (id' = id) }
  let s := s.removePendingWhere fun p => decide (some p.entry = entry)
  s.removeGrantsWhere fun g => decide (some g.entry = entry)

/-- The first critical section of `Begin`: the place of the new challenge. -/
def beginFirst (check : Option CredentialError) (binding : Binding) (request : Request)
    (token : Option String) (pruned now : ℤ) (s : Service Digest) :
    Except CredentialError ℕ × Service Digest :=
  match checkBinding binding check with
  | some e => (.error e, s)
  | none =>
    if ¬request.Valid then (.error .invalidArgument, s)
    else
      let s := s.prune pruned
      match s.providers.find? request.providerID with
      | none => (.error .providerUnavailable, s)
      | some entry =>
        if ¬(s.entries[entry]?).any (fun d => d.purposes.contains request.purpose) then
          (.error .providerUnavailable, s)
        else if maxUserAttempts ≤ ((s.attempts.find? binding.userID).map AttemptBudget.count).getD 0 then
          (.error .attemptLimit, s)
        else if maxChallenges ≤ s.pending.rows.length ∨ maxPerSession ≤ s.pendingCount binding false ∨
            maxPerUser ≤ s.pendingCount binding true then
          (.error .limit, s)
        else
          match token with
          | none => (.error .providerUnavailable, s)
          | some id =>
            if (s.pending.find? id).isSome then (.error .limit, s)
            else
              (.ok s.challenges.length,
                { s with
                  challenges := s.challenges ++ [⟨binding, entry, request.purpose, request.resource,
                    now + challengeLifetime, false, 0, false⟩],
                  pending := s.pending.upsert id s.challenges.length })

/-- The last critical section of `Begin`. -/
def beginLast (id : String) (ref : ℕ) (now : ℤ) (s : Service Digest) :
    Except CredentialError Unit × Service Digest :=
  match s.challenges[ref]? with
  | none => (.error .notFound, s)
  | some p =>
    if s.pending.find? id ≠ some ref ∨ s.current p.entry = false ∨ ¬now < p.expires then
      (.error .notFound, s)
    else (.ok (), s.updatePending ref fun p => { p with verify := true })

/-- The deferred section of a `Begin` that has failed. -/
def beginFail (id : String) (ref : ℕ) (s : Service Digest) : Service Digest :=
  if s.pending.find? id = some ref then s.removePending id else s

/-- `chargeAttemptLocked`. -/
def charge (user : String) (now : ℤ) (s : Service Digest) : Except CredentialError (Service Digest) :=
  match s.attempts.find? user with
  | some budget =>
    if maxUserAttempts ≤ budget.count then .error .attemptLimit
    else .ok { s with attempts := s.attempts.upsert user { budget with count := budget.count + 1 } }
  | none =>
    if maxAttemptBuckets ≤ s.attempts.rows.length then .error .limit
    else .ok { s with attempts := s.attempts.upsert user ⟨1, now + attemptWindow⟩ }

/-- The first critical section of `Complete`: the challenge, and the window of the attempt. -/
def completeFirst (check : Option CredentialError) (binding : Binding) (id : String) (validProof : Bool)
    (pruned now : ℤ) (s : Service Digest) : Except CredentialError (ℕ × ℤ) × Service Digest :=
  match checkBinding binding check with
  | some e => (.error e, s)
  | none =>
    if validToken id = false ∨ validProof = false then (.error .invalidArgument, s)
    else
      let s := s.prune pruned
      match s.pending.find? id with
      | none => (.error .notFound, s)
      | some ref =>
        match s.challenges[ref]? with
        | none => (.error .notFound, s)
        | some p =>
          if p.binding ≠ binding then (.error .notFound, s)
          else if p.busy = true ∨ p.verify = false then (.error .busy, s)
          else
            match s.charge binding.userID now with
            | .error e => (.error e, s)
            | .ok s =>
              let window := ((s.attempts.find? binding.userID).map AttemptBudget.expires).getD 0
              (.ok (ref, window),
                s.updatePending ref fun p => { p with busy := true, attempts := p.attempts + 1 })

/-- The last critical section of `Complete`, up to where the verification is accepted: the errors are
those of the binding, of the context and of the verification. -/
def finish (id : String) (ref : ℕ) (bindingErr contextErr verifyErr : Option CredentialError) (now : ℤ)
    (s : Service Digest) : Except CredentialError Unit × Service Digest :=
  match s.challenges[ref]? with
  | none => (.error .notFound, s)
  | some p =>
    if s.pending.find? id ≠ some ref ∨ s.current p.entry = false then (.error .notFound, s)
    else
      let s := s.updatePending ref fun p => { p with busy := false }
      match bindingErr with
      | some e => (.error e, s.removePending id)
      | none =>
        if ¬now < p.expires then (.error .notFound, s.removePending id)
        else
          let spent := if maxAttempts ≤ p.attempts then s.removePending id else s
          match contextErr, verifyErr with
          | some e, _ => (.error e, spent)
          | none, some .providerUnavailable => (.error .providerUnavailable, spent)
          | none, some _ => (.error .verificationFailed, spent)
          | none, none => (.ok (), s)

/-- The attempt is of the window that the budget counts. -/
def Refundable (user : String) (window : ℤ) (s : Service Digest) : Prop :=
  ∃ budget ∈ s.attempts.find? user, budget.expires = window ∧ 0 < budget.count

instance (user : String) (window : ℤ) (s : Service Digest) : Decidable (s.Refundable user window) :=
  match h : s.attempts.find? user with
  | none => .isFalse fun ⟨_, hmem, _⟩ => by rw [h] at hmem; cases hmem
  | some budget =>
    decidable_of_iff (budget.expires = window ∧ 0 < budget.count) (by simp [Refundable, h])

/-- The refund of an attempt that was successful. -/
def refund (user : String) (window : ℤ) (s : Service Digest) : Service Digest :=
  match s.attempts.find? user with
  | none => s
  | some budget =>
    if budget.expires = window ∧ 0 < budget.count then
      if budget.count - 1 = 0 then
        { s with attempts := s.attempts.deleteWhere fun user' _ => decide (user' = user) }
      else { s with attempts := s.attempts.upsert user { budget with count := budget.count - 1 } }
    else s

/-- The rest of `Complete`: the authorization. -/
def issue (id : String) (ref : ℕ) (binding : Binding) (token : Option String) (pruned now : ℤ)
    (s : Service Digest) : Except CredentialError (String × ℤ) × Service Digest :=
  let s := s.prune pruned
  match s.challenges[ref]? with
  | none => (.error .notFound, s)
  | some p =>
    if maxAuthorizations ≤ s.grants.rows.length ∨ maxPerSession ≤ s.grantCount binding false ∨
        maxPerUser ≤ s.grantCount binding true then
      (.error .limit, s.removePending id)
    else
      match token with
      | none => (.error .providerUnavailable, s.removePending id)
      | some token =>
        if (s.grants.find? (Sha256.sum token)).isSome then (.error .limit, s.removePending id)
        else
          let expires := now + authorizationLifetime
          let grant : Authorization := ⟨binding, p.entry, p.purpose, p.resource, expires⟩
          let s := { s with grants := s.grants.upsert (Sha256.sum token) grant }
          (.ok (token, expires), s.removePending id)

/-- A token is used up. -/
def consume (check : Option CredentialError) (binding : Binding) (token : String) (purpose : Purpose)
    (resource : String) (pruned : ℤ) (s : Service Digest) :
    Except CredentialError Authorization × Service Digest :=
  match checkBinding binding check with
  | some e => (.error e, s)
  | none =>
    if validToken token = false ∨ purpose.valid = false then (.error .invalidArgument, s)
    else
      let s := s.prune pruned
      match s.grants.find? (Sha256.sum token) with
      | none => (.error .notFound, s)
      | some g =>
        if g.binding ≠ binding ∨ g.purpose ≠ purpose ∨ g.resource ≠ resource ∨
            s.current g.entry = false then
          (.error .notFound, s)
        else
          (.ok g, { s with grants := s.grants.deleteWhere fun key _ => decide (key = Sha256.sum token) })

/-- A challenge is given up. -/
def cancel (check : Option CredentialError) (binding : Binding) (id : String) (pruned : ℤ)
    (s : Service Digest) : Except CredentialError Bool × Service Digest :=
  match checkBinding binding check with
  | some e => (.error e, s)
  | none =>
    if validToken id = false then (.error .invalidArgument, s)
    else
      let s := s.prune pruned
      match (s.pending.find? id).bind (s.challenges[·]?) with
      | none => (.ok false, s)
      | some p => if p.binding ≠ binding then (.ok false, s) else (.ok true, s.removePending id)

/-- A user loses challenges and tokens. -/
def revokeUser (user : String) (s : Service Digest) : Service Digest :=
  (s.removePendingWhere fun p => decide (p.binding.userID = user)).removeGrantsWhere fun g =>
    decide (g.binding.userID = user)

/-- A session loses challenges and tokens. -/
def revokeBinding (binding : Binding) (s : Service Digest) : Service Digest :=
  (s.removePendingWhere fun p => decide (p.binding = binding)).removeGrantsWhere fun g =>
    decide (g.binding = binding)

/-- One attempt is counted. -/
def chargeAttempt (check : Option CredentialError) (binding : Binding) (pruned now : ℤ)
    (s : Service Digest) : Except CredentialError Unit × Service Digest :=
  match checkBinding binding check with
  | some e => (.error e, s)
  | none =>
    let s := s.prune pruned
    match s.charge binding.userID now with
    | .error e => (.error e, s)
    | .ok s => (.ok (), s)

end Service

end TrustedCredential

end Komari
