import Komari.Codec.Result
import Komari.Enrollment.Credential

/-!
# Rotation

A machine that proves the possession of its key gets a new pair of tokens for its refresh token.
-/

namespace Komari

namespace Enrollment

/-- The errors of a rotation. -/
inductive RotateError
  /-- `ErrCredentialRejected` -/
  | rejected (reason : String)
  /-- `ErrRefreshConflict` -/
  | conflict
  /-- `ErrRefreshReuse` -/
  | reuse
  | other (text : String)
deriving DecidableEq

/-- What a machine presents. -/
structure RotateRequest where
  /-- The machine's key, as it was read for the verification. -/
  publicKey : String
  token : String
  requestID : String
  expected : Option ℕ
  protocol : ℕ
deriving DecidableEq

/-- What the clock, the random generator and the encryption give to a transaction. -/
structure RotateAnswers where
  now : ℤ
  access : String
  refresh : String
  seals : Bool
  opens : Bool

/-- What a transaction leaves. -/
structure Rotated where
  db : CredentialDB
  issued : Issued
  /-- An error that is reported after the commit. -/
  outcome : Option RotateError

section Rotation

variable [TokenHash]

/-- The pair that the last request got, if this is the same request. -/
def recoverIssued (opens : Bool) (request : RotateRequest) (cur : AgentCredential) :
    Except RotateError Issued :=
  if cur.refreshRecoveryRequest ≠ hashToken request.requestID then .error .conflict
  else
    match cur.refreshRecoverySealed with
    | none => .error (.other "refresh recovery invalid")
    | some issued =>
      if opens = false then .error (.other "refresh recovery unavailable")
      else if issued.generation ≠ cur.generation ∨
          hashToken issued.refreshToken ≠ cur.refreshTokenHash ∨
            hashToken issued.accessToken ≠ cur.accessTokenHash ∨
              issued.accessTokenExpiresAt ≠ cur.accessExpiresAt ∨
                issued.refreshTokenExpiresAt ≠ cur.refreshExpiresAt ∨
                  issued.requestID ≠ request.requestID then
        .error (.other "refresh recovery binding mismatch")
      else if request.expected.any fun expected => expected + 1 ≠ cur.generation then .error .conflict
      else .ok issued

/-- How long the pair of a request can be asked for again. -/
def recoveryWindow (protocol : ℕ) : ℤ :=
  if protocol = 1 then refreshGracePeriod else refreshRecoveryWindow

/-- The new pair. -/
def mintIssued (answers : RotateAnswers) (request : RotateRequest) (policy : AgentCredentialPolicy)
    (deadline : ℤ) (cur : AgentCredential) : Issued where
  generation := cur.generation + 1
  requestID := request.requestID
  accessToken := answers.access
  accessTokenExpiresAt := minDeadline (answers.now + accessTokenLifetime) deadline
  refreshToken := answers.refresh
  refreshTokenExpiresAt := idleDeadline cur policy answers.now
  previousTokenExpires := none
  scopes := cur.scopes

/-- The row of the new pair. -/
def mintRow (answers : RotateAnswers) (request : RotateRequest) (issued : Issued) (cur : AgentCredential) :
    AgentCredential :=
  let recovery := answers.now + recoveryWindow request.protocol
  { cur with
    generation := issued.generation, refreshProtocol := request.protocol,
    accessTokenHash := hashToken issued.accessToken, accessExpiresAt := issued.accessTokenExpiresAt,
    refreshTokenHash := hashToken issued.refreshToken,
    refreshExpiresAt := issued.refreshTokenExpiresAt,
    previousRefreshHash := hashToken request.token, previousRefreshExpires := some recovery,
    previousAccessHash := cur.accessTokenHash,
    previousAccessExpires := some (minDeadline cur.accessExpiresAt
      (answers.now + accessHandoffWindow)),
    refreshRecoveryRequest := hashToken request.requestID, refreshRecoverySealed := some issued,
    refreshRecoveryUntil := some recovery }

/-- A new pair for the current refresh token. -/
def mint (answers : RotateAnswers) (request : RotateRequest) (policy : AgentCredentialPolicy)
    (deadline : ℤ) (cur : AgentCredential) (db : CredentialDB) : Except RotateError Rotated :=
  if answers.access = "" ∨ answers.refresh = "" then
    .error (.other "credential random generation failed")
  else
    let issued := mintIssued answers request policy deadline cur
    if answers.seals = false then .error (.other "cannot seal refresh recovery")
    else if (db.uses.find? (hashToken request.token)).isSome then
      .error (.other "UNIQUE constraint failed: agent_refresh_uses.token_hash")
    else
      .ok ⟨{ db with
        row := some (mintRow answers request issued cur),
        uses := db.uses.upsert (hashToken request.token) ⟨cur.generation, answers.now, deadline⟩ },
        issued, none⟩

/-- The request presents the token before the current one, within its recovery window. -/
def Recovering (request : RotateRequest) (now : ℤ) (cur : AgentCredential) : Prop :=
  hashToken request.token = cur.previousRefreshHash ∧
    ∃ recovery, cur.refreshRecoveryUntil = some recovery ∧ now < recovery

instance (request : RotateRequest) (now : ℤ) (cur : AgentCredential) :
    Decidable (Recovering request now cur) :=
  have : Decidable (∃ recovery, cur.refreshRecoveryUntil = some recovery ∧ now < recovery) :=
    match cur.refreshRecoveryUntil with
    | none => .isFalse fun ⟨_, h, _⟩ => nomatch h
    | some recovery => decidable_of_iff (now < recovery)
        ⟨fun h => ⟨recovery, rfl, h⟩, fun ⟨_, heq, h⟩ => Option.some.inj heq ▸ h⟩
  instDecidableAnd

/-- The row of a machine whose token was used again. -/
def revokeReused (now : ℤ) (cur : AgentCredential) : AgentCredential :=
  { cur with revokedAt := some now, refreshRecoverySealed := none, refreshRecoveryUntil := none }

/-- A token that is not the current one. -/
def presentOld (answers : RotateAnswers) (request : RotateRequest) (cur : AgentCredential)
    (db : CredentialDB) (issued : Issued) : Except RotateError Rotated :=
  if Recovering request answers.now cur then do
    let issued ← recoverIssued answers.opens request cur
    return ⟨{ db with row := some cur }, issued, none⟩
  else
    match db.uses.find? (hashToken request.token) with
    | none => .error (.rejected "")
    | some _ =>
      if request.protocol < 2 then .error (.rejected "")
      else
        .ok ⟨{ db with row := some (revokeReused answers.now cur) }, issued, some .reuse⟩

/-- The transaction of `rotateVerifiedDB`. -/
def rotateLocked (answers : RotateAnswers) (request : RotateRequest) (issued : Issued)
    (db : CredentialDB) : Except RotateError Rotated :=
  match db.row with
  | none => .error (.other "record not found")
  | some cur =>
    if cur.revokedAt ≠ none then .error (.rejected "machine revoked")
    else if cur.agentPublicKey ≠ request.publicKey then .error (.rejected "")
    else if 2 ≤ cur.refreshProtocol ∧ request.protocol < 2 then
      .error (.rejected "refresh protocol downgrade")
    else do
      let (policy, db) ← (loadCredentialPolicy db).mapError RotateError.other
      let cur := migrateCredential policy answers.now cur
      match cur.enrollmentExpiresAt with
      | none => .error (.other "credential lifecycle deadline missing")
      | some deadline =>
        if ¬answers.now < deadline then
          .error (.rejected
            "enrollment authorization expired; administrator reapproval required")
        else if ¬answers.now < cur.refreshExpiresAt then .error (.rejected "refresh expired")
        else if hashToken request.token ≠ cur.refreshTokenHash then
          presentOld answers request cur db issued
        else if request.expected.any fun expected => expected ≠ cur.generation then .error .conflict
        else if request.protocol = 2 ∧ 2 ≤ cur.refreshProtocol ∧ request.expected = none then
          .error .conflict
        else mint answers request policy deadline cur db

/-! ### What a transaction can do -/

/-- The tests that every transaction passes: `cur` is the row with its deadlines. -/
structure Admits (answers : RotateAnswers) (request : RotateRequest) (db : CredentialDB)
    (policy : AgentCredentialPolicy) (cur : AgentCredential) (deadline : ℤ) : Prop where
  found : ∃ before, db.row = some before ∧ cur = migrateCredential policy answers.now before ∧
    before.revokedAt = none ∧ before.agentPublicKey = request.publicKey ∧
      ¬(2 ≤ before.refreshProtocol ∧ request.protocol < 2)
  loaded : policy = db.policy.getD defaultCredentialPolicy ∧ policy.Valid
  expires : cur.enrollmentExpiresAt = some deadline
  enrolled : answers.now < deadline
  alive : answers.now < cur.refreshExpiresAt

/-- What a transaction commits: a new pair, the last pair again, or a revocation. -/
inductive Rotates (answers : RotateAnswers) (request : RotateRequest) (db : CredentialDB) :
    Rotated → Prop
  | minted {policy : AgentCredentialPolicy} {cur : AgentCredential} {deadline : ℤ}
      (admits : Admits answers request db policy cur deadline)
      (current : hashToken request.token = cur.refreshTokenHash)
      (unused : db.uses.find? (hashToken request.token) = none) :
      Rotates answers request db ⟨⟨some (mintRow answers request
        (mintIssued answers request policy deadline cur) cur),
          db.uses.upsert (hashToken request.token) ⟨cur.generation, answers.now, deadline⟩,
            some policy⟩, mintIssued answers request policy deadline cur, none⟩
  | recovered {policy : AgentCredentialPolicy} {cur : AgentCredential} {deadline : ℤ} {issued : Issued}
      (admits : Admits answers request db policy cur deadline)
      (superseded : hashToken request.token ≠ cur.refreshTokenHash)
      (recovering : Recovering request answers.now cur)
      (recovers : recoverIssued answers.opens request cur = .ok issued) :
      Rotates answers request db ⟨⟨some cur, db.uses, some policy⟩, issued, none⟩
  | reused {policy : AgentCredentialPolicy} {cur : AgentCredential} {deadline : ℤ} {issued : Issued}
      (admits : Admits answers request db policy cur deadline)
      (superseded : hashToken request.token ≠ cur.refreshTokenHash)
      (elapsed : ¬Recovering request answers.now cur)
      (used : (db.uses.find? (hashToken request.token)).isSome) (upgraded : ¬request.protocol < 2) :
      Rotates answers request db ⟨⟨some (revokeReused answers.now cur), db.uses, some policy⟩, issued,
        some .reuse⟩

omit [TokenHash] in
theorem loadCredentialPolicy_eq_ok {db db' : CredentialDB} {policy : AgentCredentialPolicy} :
    loadCredentialPolicy db = .ok (policy, db') ↔
      policy = db.policy.getD defaultCredentialPolicy ∧ policy.Valid ∧
        db' = { db with policy := some policy } := by
  unfold loadCredentialPolicy
  dsimp only
  split_ifs with hvalid
  · constructor
    · intro h
      cases h
      exact ⟨rfl, hvalid, rfl⟩
    · rintro ⟨rfl, -, rfl⟩
      rfl
  · constructor
    · intro h
      cases h
    · rintro ⟨rfl, h, -⟩
      exact absurd h hvalid

/-- **What a transaction commits.** -/
theorem rotates_of_rotateLocked {answers : RotateAnswers} {request : RotateRequest} {issued : Issued}
    {db : CredentialDB} {rotated : Rotated}
    (h : rotateLocked answers request issued db = .ok rotated) : Rotates answers request db rotated := by
  unfold rotateLocked at h
  cases hrow : db.row with
  | none =>
    rw [hrow] at h
    cases h
  | some before =>
    rw [hrow] at h
    dsimp only at h
    split_ifs at h with hrevoked hkey hdowngrade
    obtain ⟨⟨policy, db'⟩, hload, h⟩ := bind_eq_ok.mp h
    have hload' : loadCredentialPolicy db = .ok (policy, db') := mapError_eq_ok.mp hload
    obtain ⟨hpolicy, hvalid, rfl⟩ := loadCredentialPolicy_eq_ok.mp hload'
    dsimp only at h
    generalize hcur : migrateCredential policy answers.now before = cur at h
    cases hdeadline : cur.enrollmentExpiresAt with
    | none =>
      rw [hdeadline] at h
      cases h
    | some deadline =>
      rw [hdeadline] at h
      dsimp only at h
      split_ifs at h with henrolled halive hold hexpected hunknown
      · -- a token that is not the current one
        have hadmits : Admits answers request db policy cur deadline :=
          ⟨⟨before, hrow, hcur.symm, not_not.mp hrevoked, not_not.mp hkey, hdowngrade⟩,
            ⟨hpolicy, hvalid⟩, hdeadline, henrolled, halive⟩
        unfold presentOld at h
        by_cases hrecovering : Recovering request answers.now cur
        · rw [if_pos hrecovering] at h
          obtain ⟨issued', hissued, h⟩ := bind_eq_ok.mp h
          cases h
          exact .recovered hadmits hold hrecovering hissued
        · rw [if_neg hrecovering] at h
          cases hused : db.uses.find? (hashToken request.token) with
          | none =>
            rw [hused] at h
            cases h
          | some use =>
            rw [hused] at h
            dsimp only at h
            split_ifs at h with hprotocol
            cases h
            exact .reused hadmits hold hrecovering (by rw [hused]; rfl) hprotocol
      · have hadmits : Admits answers request db policy cur deadline :=
          ⟨⟨before, hrow, hcur.symm, not_not.mp hrevoked, not_not.mp hkey, hdowngrade⟩,
            ⟨hpolicy, hvalid⟩, hdeadline, henrolled, halive⟩
        unfold mint at h
        dsimp only at h
        split_ifs at h with hrandom hseals hused
        cases h
        exact .minted hadmits (not_not.mp hold) (by simpa using hused)

/-! ### Attempts -/

/-- Where a transaction meets another one that holds the tables. -/
inductive Contention
  | absent
  /-- Before the result variable is set. -/
  | early
  /-- After it, at the latest in the commit. -/
  | late
deriving DecidableEq

/-- A request on its way: how often it was tried, and its result variable. -/
structure Flight where
  request : RotateRequest
  attempt : ℕ
  issued : Issued

/-- What `rotateVerifiedDB` returns: a pair and an error. -/
abbrev RotateReturn := Issued × Option RotateError

/-- How an attempt ends: the request returns, or is tried again. -/
inductive AttemptEnd
  | returned (result : RotateReturn)
  | retry (flight : Flight)

/-- Another attempt, up to five. -/
def retryFlight (flight : Flight) (issued : Issued) : AttemptEnd :=
  if flight.attempt = 5 then .returned (.zero, some (.other "database is locked"))
  else .retry { flight with attempt := flight.attempt + 1, issued := issued }

/-- The checks of `rotateVerifiedDB` before its first attempt. -/
def RotateRequest.Wellformed (request : RotateRequest) : Prop :=
  hashToken request.token ≠ "" ∧ request.requestID ≠ "" ∧
    (request.protocol = 1 ∨ request.protocol = 2)

instance (request : RotateRequest) : Decidable request.Wellformed :=
  inferInstanceAs (Decidable (_ ∧ _))

/-- An attempt of `rotateVerifiedDB`. -/
def rotateAttempt (answers : RotateAnswers) (contention : Contention) (flight : Flight)
    (db : CredentialDB) : AttemptEnd × CredentialDB :=
  if ¬flight.request.Wellformed then (.returned (flight.issued, some (.rejected "")), db)
  else if contention = .early then (retryFlight flight flight.issued, db)
  else
    match rotateLocked answers flight.request flight.issued db with
    | .error e => (.returned (.zero, some e), db)
    | .ok rotated =>
      if contention = .late then (retryFlight flight rotated.issued, db)
      else (.returned (rotated.issued, rotated.outcome), rotated.db)

end Rotation

end Enrollment

end Komari
