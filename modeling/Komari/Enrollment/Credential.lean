import Komari.Table.Basic
import Komari.TrafficReset.Schedule

/-!
# Machine credentials

A machine has one row of credentials, the hashes of a pair of tokens.  Refresh tokens that were consumed
leave a record.  Instants are nanoseconds.
-/

namespace Komari

namespace Enrollment

open TrafficReset (trimSpace nanosPerSecond)

/-! ### Times -/

def minute : ℤ := 60 * nanosPerSecond

def credentialDay : ℤ := 24 * 60 * minute

def accessTokenLifetime : ℤ := 60 * minute

def refreshGracePeriod : ℤ := 10 * minute

def refreshRecoveryWindow : ℤ := minute

def accessHandoffWindow : ℤ := minute

/-- The earlier one. -/
def minDeadline (a b : ℤ) : ℤ := if a < b then a else b

theorem minDeadline_eq (a b : ℤ) : minDeadline a b = min a b := by
  unfold minDeadline
  split_ifs <;> omega

/-! ### Tables -/

/-- `Issued`: a pair of tokens. -/
structure Issued where
  /-- Generation of the row; not set for an enrollment. -/
  generation : ℕ
  requestID : String
  accessToken : String
  accessTokenExpiresAt : ℤ
  refreshToken : String
  refreshTokenExpiresAt : ℤ
  /-- The deadline of the token before it. -/
  previousTokenExpires : Option ℤ
  scopes : List String
deriving DecidableEq

/-- `Issued{}`. -/
def Issued.zero : Issued := ⟨0, "", "", 0, "", 0, none, []⟩

/-- `AgentCredential`, the columns that are read or written with tokens. -/
structure AgentCredential where
  lifecycleVersion : ℕ
  enrollmentExpiresAt : Option ℤ
  /-- An old enrollment lasts at least until then. -/
  migrationGraceUntil : Option ℤ
  generation : ℕ
  refreshProtocol : ℕ
  previousAccessHash : String
  previousAccessExpires : Option ℤ
  /-- The pair in the encrypted text, unless that is empty. -/
  refreshRecoverySealed : Option Issued
  /-- Hash of the request that got it. -/
  refreshRecoveryRequest : String
  /-- The pair can be asked for again until then. -/
  refreshRecoveryUntil : Option ℤ
  accessTokenHash : String
  refreshTokenHash : String
  previousRefreshHash : String
  previousRefreshExpires : Option ℤ
  accessExpiresAt : ℤ
  refreshExpiresAt : ℤ
  agentPublicKey : String
  scopes : List String
  revokedAt : Option ℤ
  createdAt : ℤ
deriving DecidableEq

/-- `AgentRefreshUse`: a refresh token was consumed; the key is its hash. -/
structure AgentRefreshUse where
  generation : ℕ
  consumedAt : ℤ
  expiresAt : ℤ
deriving DecidableEq

/-- How long credentials last. -/
structure AgentCredentialPolicy where
  revision : ℕ
  /-- A refresh token that is not used lasts so many days. -/
  idleDays : ℤ
  absoluteDays : ℤ
  /-- An old enrollment lasts at least so many days. -/
  migrationGraceDays : ℤ
  /-- Administrators are warned so many days before. -/
  warningDays : ℤ
deriving DecidableEq

/-- The tables, for one machine. -/
structure CredentialDB where
  row : Option AgentCredential
  uses : Table String AgentRefreshUse
  /-- The policy, unless it was never read. -/
  policy : Option AgentCredentialPolicy

/-! ### Hashes -/

/-- Hashes of tokens and keys. -/
class TokenHash where
  sha256 : String → String
  /-- A hash has 64 digits. -/
  sha256_ne_empty : ∀ s, sha256 s ≠ ""
  /-- `credentialFingerprint`. -/
  fingerprint : String → String

/-- Only the hash of a token is stored. -/
def hashToken [TokenHash] (token : String) : String :=
  if trimSpace token = "" then "" else TokenHash.sha256 (trimSpace token)

/-! ### Policy -/

/-- The policy without settings. -/
def defaultCredentialPolicy : AgentCredentialPolicy := ⟨1, 7, 180, 30, 14⟩

/-- `validateCredentialPolicy`. -/
def AgentCredentialPolicy.Valid (policy : AgentCredentialPolicy) : Prop :=
  (1 ≤ policy.idleDays ∧ policy.idleDays ≤ 30) ∧
    (30 ≤ policy.absoluteDays ∧ policy.absoluteDays ≤ 365) ∧
      policy.idleDays ≤ policy.absoluteDays ∧
        (1 ≤ policy.migrationGraceDays ∧ policy.migrationGraceDays ≤ 90) ∧
          1 ≤ policy.warningDays ∧ policy.warningDays ≤ 30

instance (policy : AgentCredentialPolicy) : Decidable policy.Valid :=
  inferInstanceAs (Decidable (_ ∧ _))

theorem valid_defaultCredentialPolicy : defaultCredentialPolicy.Valid := by decide

/-- The bounds of a policy. -/
def policyError : String :=
  "idle days must be 1–30; absolute days 30–365 and >= idle; migration grace 1–90; warning 1–30"

/-- `loadCredentialPolicy`; the default is stored when there is none. -/
def loadCredentialPolicy (db : CredentialDB) :
    Except String (AgentCredentialPolicy × CredentialDB) :=
  let policy := db.policy.getD defaultCredentialPolicy
  if policy.Valid then .ok (policy, { db with policy := some policy }) else .error policyError

/-- A policy, if it is valid. -/
def saveCredentialPolicy (policy : AgentCredentialPolicy) (db : CredentialDB) : CredentialDB :=
  if policy.Valid then
    match loadCredentialPolicy db with
    | .error _ => db
    | .ok (current, db) =>
      if current.revision ≠ policy.revision then db
      else { db with policy := some { policy with revision := policy.revision + 1 } }
  else db

/-! ### Deadlines -/

/-- When a row that is not used ends. -/
def idleDeadline (row : AgentCredential) (policy : AgentCredentialPolicy) (now : ℤ) : ℤ :=
  let deadline := now + policy.idleDays * credentialDay
  let deadline := match row.migrationGraceUntil with
    | some grace => if deadline < grace then grace else deadline
    | none => deadline
  match row.enrollmentExpiresAt with
  | some enrollment => minDeadline deadline enrollment
  | none => deadline

/-- `time.Time{}` is no creation time. -/
def startedAt (row : AgentCredential) (now : ℤ) : ℤ :=
  if row.createdAt = TrafficReset.zeroTime then now else row.createdAt

/-- `migrateCredential`: a row without deadlines gets them. -/
def migrateCredential (policy : AgentCredentialPolicy) (now : ℤ) (row : AgentCredential) :
    AgentCredential :=
  if row.lifecycleVersion ≠ 0 then row
  else
    let grace := now + policy.migrationGraceDays * credentialDay
    let absolute := startedAt row now + policy.absoluteDays * credentialDay
    let absolute := if absolute < grace then grace else absolute
    let row := { row with enrollmentExpiresAt := some absolute, migrationGraceUntil := some grace,
                          lifecycleVersion := 1 }
    { row with refreshExpiresAt := if now < row.refreshExpiresAt then
        minDeadline row.refreshExpiresAt (idleDeadline row policy now) else row.refreshExpiresAt }

/-- `initializeLifecycleDB`. -/
def initializeLifecycle (now : ℤ) (db : CredentialDB) : CredentialDB :=
  match loadCredentialPolicy db with
  | .error _ => db
  | .ok (policy, db) => { db with row := db.row.map (migrateCredential policy now) }

/-- `cleanupLifecycleDB`. -/
def cleanupLifecycle (now : ℤ) (db : CredentialDB) : CredentialDB :=
  { db with
    row := db.row.map fun row =>
      if (row.refreshRecoveryUntil.any fun deadline => deadline ≤ now) ∧ row.refreshRecoverySealed ≠ none
      then { row with refreshRecoverySealed := none, refreshRecoveryRequest := "" }
      else row,
    uses := db.uses.deleteWhere fun _ use => use.expiresAt ≤ now }

/-! ### Enrollment, approval and revocation -/

section Changes

variable [TokenHash]

/-- What a new pair is made of. -/
structure Enrollee where
  publicKey : String
  scopes : List String
  accessToken : String
  refreshToken : String

/-- An enrollment gets its first pair. -/
def issueLocked (enrollee : Enrollee) (now : ℤ) (db : CredentialDB) :
    Except String (Issued × CredentialDB) :=
  if enrollee.accessToken = "" ∨ enrollee.refreshToken = "" then
    .error "failed to generate credentials"
  else do
    let (policy, db) ← loadCredentialPolicy db
    let absoluteExpiry := now + policy.absoluteDays * credentialDay
    let accessExpiry := minDeadline (now + accessTokenLifetime) absoluteExpiry
    let refreshExpiry := minDeadline (now + policy.idleDays * credentialDay) absoluteExpiry
    let graceExpiry := now + refreshGracePeriod
    match db.row with
    | some existing =>
      if existing.revokedAt ≠ none ∧ existing.agentPublicKey = enrollee.publicKey then
        .error "cannot issue credentials for a revoked agent"
      else
        let row := { existing with
          generation := existing.generation + 1, refreshProtocol := 0,
          revokedAt := none,
          lifecycleVersion := 1, enrollmentExpiresAt := some absoluteExpiry, migrationGraceUntil := none,
          refreshRecoverySealed := none, refreshRecoveryRequest := "", refreshRecoveryUntil := none,
          previousAccessHash := "", previousAccessExpires := none,
          accessTokenHash := hashToken enrollee.accessToken,
          refreshTokenHash := hashToken enrollee.refreshToken,
          previousRefreshHash := "", previousRefreshExpires := some graceExpiry,
          accessExpiresAt := accessExpiry, refreshExpiresAt := refreshExpiry,
          agentPublicKey := enrollee.publicKey, scopes := enrollee.scopes }
        return (⟨0, "", enrollee.accessToken, accessExpiry, enrollee.refreshToken, refreshExpiry,
          some graceExpiry, enrollee.scopes⟩, { db with row := some row, uses := ∅ })
    | none =>
      let row : AgentCredential := {
        lifecycleVersion := 1, enrollmentExpiresAt := some absoluteExpiry, migrationGraceUntil := none,
        generation := 0, refreshProtocol := 0, previousAccessHash := "", previousAccessExpires := none,
        refreshRecoverySealed := none, refreshRecoveryRequest := "", refreshRecoveryUntil := none,
        accessTokenHash := hashToken enrollee.accessToken,
        refreshTokenHash := hashToken enrollee.refreshToken,
        previousRefreshHash := "", previousRefreshExpires := none,
        accessExpiresAt := accessExpiry, refreshExpiresAt := refreshExpiry,
        agentPublicKey := enrollee.publicKey, scopes := enrollee.scopes,
        revokedAt := none, createdAt := now }
      return (⟨0, "", enrollee.accessToken, accessExpiry, enrollee.refreshToken, refreshExpiry, none,
        enrollee.scopes⟩, { db with row := some row })

/-- `reapproveCredentialDB`. -/
def reapproveCredential (expected : ℕ) (fingerprint : String) (now : ℤ) (db : CredentialDB) :
    Except String CredentialDB :=
  match db.row with
  | none => .error "record not found"
  | some row =>
    if row.generation ≠ expected ∨ TokenHash.fingerprint row.agentPublicKey ≠ fingerprint then
      .error "credential generation conflict"
    else if row.revokedAt ≠ none then
      .error "revoked identity requires new device enrollment and a new key"
    else if row.refreshRecoveryUntil.any fun deadline => now < deadline then
      .error "credential rotation is recovering; retry after its recovery window"
    else do
      let (policy, db) ← loadCredentialPolicy db
      let absolute := now + policy.absoluteDays * credentialDay
      let idle := minDeadline (now + policy.idleDays * credentialDay) absolute
      return { db with row := some { row with
        enrollmentExpiresAt := some absolute, refreshExpiresAt := idle, migrationGraceUntil := none,
        lifecycleVersion := 1 } }

/-- The credential is revoked. -/
def revoke (now : ℤ) (db : CredentialDB) : CredentialDB :=
  { db with row := db.row.map fun row =>
    { row with revokedAt := some now, refreshRecoverySealed := none, refreshRecoveryUntil := none,
               refreshRecoveryRequest := "" } }

end Changes

end Enrollment

end Komari
