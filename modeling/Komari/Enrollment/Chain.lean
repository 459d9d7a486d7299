import Komari.Enrollment.Rotation
import Komari.Run.Along

/-!
# The chain of credentials of a machine

Requests for a rotation are on their way at the same time, and other transactions come between their
attempts.

* `one_successor` : every generation has one pair, and only the request that got it gets it again.
-/

namespace Komari

namespace Enrollment

/-! ### Deadlines of a row -/

section Migration

variable (policy : AgentCredentialPolicy) (now : ℤ) (row : AgentCredential)

@[simp] theorem generation_migrate : (migrateCredential policy now row).generation = row.generation := by
  unfold migrateCredential
  split_ifs <;> rfl

@[simp] theorem refreshProtocol_migrate :
    (migrateCredential policy now row).refreshProtocol = row.refreshProtocol := by
  unfold migrateCredential
  split_ifs <;> rfl

@[simp] theorem sealed_migrate : (migrateCredential policy now row).refreshRecoverySealed =
    row.refreshRecoverySealed := by
  unfold migrateCredential
  split_ifs <;> rfl

@[simp] theorem recoveryUntil_migrate : (migrateCredential policy now row).refreshRecoveryUntil =
    row.refreshRecoveryUntil := by
  unfold migrateCredential
  split_ifs <;> rfl

@[simp] theorem refreshTokenHash_migrate : (migrateCredential policy now row).refreshTokenHash =
    row.refreshTokenHash := by
  unfold migrateCredential
  split_ifs <;> rfl

@[simp] theorem previousRefreshHash_migrate : (migrateCredential policy now row).previousRefreshHash =
    row.previousRefreshHash := by
  unfold migrateCredential
  split_ifs <;> rfl

@[simp] theorem agentPublicKey_migrate : (migrateCredential policy now row).agentPublicKey =
    row.agentPublicKey := by
  unfold migrateCredential
  split_ifs <;> rfl

@[simp] theorem revokedAt_migrate : (migrateCredential policy now row).revokedAt = row.revokedAt := by
  unfold migrateCredential
  split_ifs <;> rfl

end Migration

theorem idleDeadline_le {row : AgentCredential} {policy : AgentCredentialPolicy} {now deadline : ℤ}
    (h : row.enrollmentExpiresAt = some deadline) : idleDeadline row policy now ≤ deadline := by
  unfold idleDeadline
  rw [h]
  exact (minDeadline_eq _ _).trans_le (min_le_right _ _)

/-- The deadlines of the tokens lie before the end of the enrollment, and the one of the access token
lies less than an hour ahead. -/
structure InTime (clock : ℤ) (row : AgentCredential) : Prop where
  versioned : row.lifecycleVersion = 0 ↔ row.enrollmentExpiresAt = none
  access : row.accessExpiresAt ≤ clock + accessTokenLifetime
  enrolled : ∀ deadline, row.enrollmentExpiresAt = some deadline →
    row.accessExpiresAt ≤ deadline ∧ row.refreshExpiresAt ≤ deadline

theorem InTime.later {clock clock' : ℤ} {row : AgentCredential} (h : InTime clock row)
    (hle : clock ≤ clock') : InTime clock' row :=
  ⟨h.versioned, by have := h.access; omega, h.enrolled⟩

/-- A day is longer than an access token lasts. -/
theorem accessTokenLifetime_le {days : ℤ} (h : 1 ≤ days) : accessTokenLifetime ≤ days * credentialDay := by
  unfold accessTokenLifetime credentialDay minute TrafficReset.nanosPerSecond
  omega

theorem InTime.migrate {clock now : ℤ} {row : AgentCredential} {policy : AgentCredentialPolicy}
    (h : InTime clock row) (hle : clock ≤ now) (hvalid : policy.Valid) :
    InTime now (migrateCredential policy now row) := by
  have hgrace := accessTokenLifetime_le hvalid.2.2.2.1.1
  have haccess := h.access
  have hpos : 0 < accessTokenLifetime := by decide
  unfold migrateCredential
  split_ifs with hversion
  · exact h.later hle
  · refine ⟨by simp, by show row.accessExpiresAt ≤ _; omega, ?_⟩
    rintro deadline ⟨⟩
    dsimp only
    generalize startedAt row now + policy.absoluteDays * credentialDay = absolute
    -- the enrollment lasts at least until the grace ends
    set final := if absolute < now + policy.migrationGraceDays * credentialDay then
      now + policy.migrationGraceDays * credentialDay else absolute with hfinal
    have hend : now + policy.migrationGraceDays * credentialDay ≤ final := by
      rw [hfinal]
      split_ifs <;> omega
    refine ⟨by omega, ?_⟩
    split_ifs with hlive
    · rw [minDeadline_eq]
      exact (min_le_right _ _).trans (idleDeadline_le rfl)
    · omega

/-! ### Runs -/

/-- A pair that a request got. -/
structure Response where
  request : RotateRequest
  issued : Issued
  time : ℤ
  minted : Bool
  row : AgentCredential

/-- The tables and the requests on their way, and what happened up to now. -/
structure CredentialRun where
  db : CredentialDB
  flights : Table ℕ Flight
  clock : ℤ
  responses : List Response
  /-- The generations of the pairs, in the order in which they were made. -/
  mints : List ℕ
  /-- Hashes of the refresh tokens that were consumed in the current enrollment. -/
  consumed : List String

/-- What changes the credentials of a machine. -/
inductive CredentialOp
  /-- A request arrives: `RotateVerified`. -/
  | rotate (id : ℕ) (request : RotateRequest)
  /-- A transaction of a request. -/
  | attempt (id : ℕ) (answers : RotateAnswers) (contention : Contention)
  | revoke (now : ℤ)
  /-- `ReapproveCredential` -/
  | reapprove (expected : ℕ) (fingerprint : String) (now : ℤ)
  /-- An enrollment: `issueLocked`. -/
  | enroll (enrollee : Enrollee) (now : ℤ)
  /-- `CleanupLifecycle` -/
  | cleanup (now : ℤ)
  /-- `InitializeLifecycle` -/
  | migrateAll (now : ℤ)
  /-- `SaveCredentialPolicy` -/
  | savePolicy (policy : AgentCredentialPolicy)

/-- When it reads the clock. -/
def CredentialOp.time : CredentialOp → Option ℤ
  | .rotate _ _ | .savePolicy _ => none
  | .attempt _ answers _ => some answers.now
  | .revoke now | .reapprove _ _ now | .enroll _ now | .cleanup now | .migrateAll now => some now

section Steps

variable [TokenHash]

/-- The generation of the row. -/
def CredentialDB.generation (db : CredentialDB) : Option ℕ := db.row.map AgentCredential.generation

/-- What a request got is put down. -/
def CredentialRun.respond (run : CredentialRun) (request : RotateRequest) (issued : Issued) (now : ℤ)
    (db : CredentialDB) : CredentialRun :=
  match db.row with
  | none => { run with db := db }
  | some row =>
    let minted := decide (run.db.generation ≠ some row.generation)
    { run with
      db := db, responses := run.responses ++ [⟨request, issued, now, minted, row⟩],
      mints := if minted then run.mints ++ [row.generation] else run.mints,
      consumed := if minted then hashToken request.token :: run.consumed else run.consumed }

/-- One attempt to rotate. -/
def CredentialRun.attempt (id : ℕ) (answers : RotateAnswers) (contention : Contention)
    (run : CredentialRun) : CredentialRun :=
  match run.flights.find? id with
  | none => run
  | some flight =>
    match rotateAttempt answers contention flight run.db with
    | (.retry flight, db) => { run with db := db, flights := run.flights.upsert id flight }
    | (.returned (issued, error), db) =>
      let landed := { run with flights := run.flights.deleteWhere fun id' _ => id' = id }
      match error with
      | none => landed.respond flight.request issued answers.now db
      | some _ => { landed with db := db }

def CredentialOp.step (run : CredentialRun) (op : CredentialOp) : CredentialRun :=
  let run := { run with clock := op.time.getD run.clock }
  match op with
  | .rotate id request =>
    if (run.flights.find? id).isSome then run
    else { run with flights := run.flights.upsert id ⟨request, 0, .zero⟩ }
  | .attempt id answers contention => run.attempt id answers contention
  | .revoke now => { run with db := Enrollment.revoke now run.db }
  | .reapprove expected fingerprint now =>
    match reapproveCredential expected fingerprint now run.db with
    | .error _ => run
    | .ok db => { run with db := db }
  | .enroll enrollee now =>
    match issueLocked enrollee now run.db with
    | .error _ => run
    | .ok (_, db) =>
      { run with db := db, mints := run.mints ++ db.generation.toList, consumed := [] }
  | .cleanup now => { run with db := cleanupLifecycle now run.db }
  | .migrateAll now => { run with db := initializeLifecycle now run.db }
  | .savePolicy policy => { run with db := saveCredentialPolicy policy run.db }

/-- The clock does not go back. -/
def Timely (run : CredentialRun) (op : CredentialOp) : Prop := run.clock ≤ op.time.getD run.clock

instance (run : CredentialRun) (op : CredentialOp) : Decidable (Timely run op) :=
  inferInstanceAs (Decidable (_ ≤ _))

/-- The tables at a time, before any request. -/
def CredentialRun.start (db : CredentialDB) (clock : ℤ) : CredentialRun := ⟨db, ∅, clock, [], [], []⟩

/-- The tables of a panel that has just been upgraded: the row, if there is one, has no deadlines and no
pair to recover yet. -/
structure Upgraded (db : CredentialDB) (clock : ℤ) : Prop where
  row : ∀ row, db.row = some row → row.lifecycleVersion = 0 ∧ row.enrollmentExpiresAt = none ∧
    row.refreshRecoverySealed = none ∧ row.accessExpiresAt ≤ clock + accessTokenLifetime
  protocol : ∀ row, db.row = some row → row.refreshProtocol ≤ 2
  policy : ∀ policy, db.policy = some policy → policy.Valid

/-! ### What was handed out -/

/-- The pair of a response is the one whose hashes the row holds. -/
structure Response.Held (r : Response) : Prop where
  generation : r.row.generation = r.issued.generation
  access : r.row.accessTokenHash = hashToken r.issued.accessToken
  refresh : r.row.refreshTokenHash = hashToken r.issued.refreshToken
  requestID : r.issued.requestID = r.request.requestID

/-- A response gives the pair of an earlier one again, to the same request, within its window. -/
structure Response.Recovers (r m : Response) : Prop where
  minted : m.minted = true
  issued : r.issued = m.issued
  requestID : r.request.requestID = m.request.requestID
  token : hashToken r.request.token = hashToken m.request.token
  earlier : m.time ≤ r.time
  within : r.time < m.time + recoveryWindow m.request.protocol

/-- The generation of a row is the last one that was handed out, and what can be recovered from the row
is the pair of a response. -/
structure Chained (responses : List Response) (row : AgentCredential) : Prop where
  bound : ∀ r ∈ responses, r.issued.generation ≤ row.generation
  recoverable : ∀ issued, row.refreshRecoverySealed = some issued → ∃ m ∈ responses,
    m.minted = true ∧ m.issued = issued ∧
      row.refreshRecoveryUntil = some (m.time + recoveryWindow m.request.protocol) ∧
        row.previousRefreshHash = hashToken m.request.token

/-- The responses are sound, and so is the row. -/
structure Sound (run : CredentialRun) : Prop where
  inTime : ∀ row, run.db.row = some row → InTime run.clock row
  chained : ∀ row, run.db.row = some row → Chained run.responses row
  empty : run.db.row = none → run.responses = [] ∧ run.mints = []
  held : ∀ r ∈ run.responses, r.Held
  past : ∀ r ∈ run.responses, r.time ≤ run.clock
  unique : ∀ r ∈ run.responses, ∀ r' ∈ run.responses,
    r.issued.generation = r'.issued.generation → r.issued = r'.issued
  recovered : ∀ r ∈ run.responses, r.minted = false → ∃ m ∈ run.responses, r.Recovers m
  increasing : run.mints.Pairwise (· < ·)
  minted : ∀ row, run.db.row = some row → ∀ generation ∈ run.mints, generation ≤ row.generation

/-- What keeps the chain of a row: the generation, and the recovery unless it is given up. -/
structure Keeps (row row' : AgentCredential) : Prop where
  generation : row'.generation = row.generation
  recovery : row'.refreshRecoverySealed = none ∨
    row'.refreshRecoverySealed = row.refreshRecoverySealed ∧
      row'.refreshRecoveryUntil = row.refreshRecoveryUntil ∧
        row'.previousRefreshHash = row.previousRefreshHash

omit [TokenHash] in
theorem Keeps.refl (row : AgentCredential) : Keeps row row := ⟨rfl, Or.inr ⟨rfl, rfl, rfl⟩⟩

variable {row : AgentCredential}

theorem Chained.keep {responses : List Response} {row' : AgentCredential}
    (h : Chained responses row) (hkeeps : Keeps row row') : Chained responses row' := by
  refine ⟨fun r hr => hkeeps.generation ▸ h.bound r hr, fun issued hsealed => ?_⟩
  rcases hkeeps.recovery with hnone | ⟨hsame, huntil, hprevious⟩
  · rw [hnone] at hsealed
    cases hsealed
  · rw [huntil, hprevious]
    exact h.recoverable issued (hsame ▸ hsealed)

variable {run : CredentialRun}

/-- **A transaction that hands out nothing.** -/
theorem Sound.keep {run' : CredentialRun} (h : Sound run) (hresponses : run'.responses = run.responses)
    (hmints : run'.mints = run.mints) (hclock : run.clock ≤ run'.clock)
    (hnone : run'.db.row = none → run.db.row = none)
    (hrow : ∀ row', run'.db.row = some row' → ∃ row, run.db.row = some row ∧ Keeps row row' ∧
      InTime run'.clock row') : Sound run' := by
  constructor
  · intro row' hrow'
    obtain ⟨row, -, -, htime⟩ := hrow row' hrow'
    exact htime
  · intro row' hrow'
    obtain ⟨row, hbefore, hkeeps, -⟩ := hrow row' hrow'
    rw [hresponses]
    exact (h.chained row hbefore).keep hkeeps
  · intro hempty
    rw [hresponses, hmints]
    exact h.empty (hnone hempty)
  · rw [hresponses]
    exact h.held
  · rw [hresponses]
    exact fun r hr => (h.past r hr).trans hclock
  · rw [hresponses]
    exact h.unique
  · rw [hresponses]
    exact h.recovered
  · rw [hmints]
    exact h.increasing
  · intro row' hrow'
    obtain ⟨row, hbefore, hkeeps, -⟩ := hrow row' hrow'
    rw [hmints, hkeeps.generation]
    exact h.minted row hbefore

theorem Sound.later (h : Sound run) {clock : ℤ} (hle : run.clock ≤ clock) :
    Sound { run with clock := clock } :=
  h.keep rfl rfl hle id fun row hrow => ⟨row, hrow, .refl row, (h.inTime row hrow).later hle⟩

/-- The same row, with other requests on their way. -/
theorem Sound.withRow {run' : CredentialRun} (h : Sound run)
    (hresponses : run'.responses = run.responses) (hmints : run'.mints = run.mints)
    (hclock : run'.clock = run.clock) (hrow : run'.db.row = run.db.row) : Sound run' :=
  h.keep hresponses hmints hclock.ge (fun hempty => hrow ▸ hempty) fun row' hrow' =>
    ⟨row', hrow ▸ hrow', .refl row', hclock ▸ h.inTime row' (hrow ▸ hrow')⟩

/-! ### The transactions -/

omit [TokenHash] in
theorem keeps_migrate (policy : AgentCredentialPolicy) (now : ℤ) (row : AgentCredential) :
    Keeps row (migrateCredential policy now row) :=
  ⟨generation_migrate _ _ _, Or.inr ⟨sealed_migrate _ _ _, recoveryUntil_migrate _ _ _,
    previousRefreshHash_migrate _ _ _⟩⟩

theorem Sound.revoke (h : Sound run) (now : ℤ) :
    Sound { run with db := Enrollment.revoke now run.db } := by
  refine h.keep rfl rfl le_rfl (fun hempty => by simpa [Enrollment.revoke] using hempty) ?_
  intro row' hrow'
  obtain ⟨row, hrow, rfl⟩ := Option.map_eq_some_iff.mp hrow'
  have htime := h.inTime row hrow
  exact ⟨row, hrow, ⟨rfl, Or.inl rfl⟩, ⟨htime.versioned, htime.access, htime.enrolled⟩⟩

theorem Sound.cleanup (h : Sound run) (now : ℤ) :
    Sound { run with db := cleanupLifecycle now run.db } := by
  refine h.keep rfl rfl le_rfl (fun hempty => by simpa [cleanupLifecycle] using hempty) ?_
  intro row' hrow'
  obtain ⟨row, hrow, rfl⟩ := Option.map_eq_some_iff.mp hrow'
  have htime := h.inTime row hrow
  split_ifs
  · exact ⟨row, hrow, ⟨rfl, Or.inl rfl⟩, ⟨htime.versioned, htime.access, htime.enrolled⟩⟩
  · exact ⟨row, hrow, .refl row, htime⟩

variable {db : CredentialDB}

variable {policy : AgentCredentialPolicy}

omit [TokenHash] in
/-- The policy that is loaded is valid, and the row stays. -/
theorem row_of_loadCredentialPolicy {db' : CredentialDB}
    (h : loadCredentialPolicy db = .ok (policy, db')) :
    policy.Valid ∧ db'.row = db.row ∧ db'.uses = db.uses := by
  obtain ⟨-, hvalid, rfl⟩ := loadCredentialPolicy_eq_ok.mp h
  exact ⟨hvalid, rfl, rfl⟩

theorem Sound.migrateAll (h : Sound run) :
    Sound { run with db := initializeLifecycle run.clock run.db } := by
  unfold initializeLifecycle
  cases hload : loadCredentialPolicy run.db with
  | error e => exact h
  | ok loaded =>
    obtain ⟨hvalid, hsame, -⟩ := row_of_loadCredentialPolicy hload
    refine h.keep rfl rfl le_rfl (fun hempty => ?_) fun row' hrow' => ?_
    · dsimp only at hempty
      rwa [hsame, Option.map_eq_none_iff] at hempty
    · dsimp only at hrow'
      rw [hsame] at hrow'
      obtain ⟨row, hrow, rfl⟩ := Option.map_eq_some_iff.mp hrow'
      exact ⟨row, hrow, keeps_migrate _ _ _, (h.inTime row hrow).migrate le_rfl hvalid⟩

omit [TokenHash] in
theorem row_saveCredentialPolicy (policy : AgentCredentialPolicy) (db : CredentialDB) :
    (saveCredentialPolicy policy db).row = db.row := by
  unfold saveCredentialPolicy
  cases hload : loadCredentialPolicy db with
  | error e =>
    dsimp only
    split_ifs <;> rfl
  | ok loaded =>
    obtain ⟨-, hsame, -⟩ := row_of_loadCredentialPolicy hload
    dsimp only
    split_ifs
    · exact hsame
    · exact hsame
    · rfl

theorem Sound.savePolicy (h : Sound run) (policy : AgentCredentialPolicy) :
    Sound { run with db := saveCredentialPolicy policy run.db } :=
  h.withRow rfl rfl rfl (row_saveCredentialPolicy policy run.db)

theorem Sound.reapprove (h : Sound run) {expected : ℕ} {fingerprint : String}
    (hok : reapproveCredential expected fingerprint run.clock run.db = .ok db) :
    Sound { run with db := db } := by
  unfold reapproveCredential at hok
  cases hrow : run.db.row with
  | none =>
    rw [hrow] at hok
    cases hok
  | some row =>
    rw [hrow] at hok
    dsimp only at hok
    split_ifs at hok
    obtain ⟨⟨policy, db'⟩, hload, hok⟩ := bind_eq_ok.mp hok
    cases hok
    obtain ⟨hvalid, -⟩ := row_of_loadCredentialPolicy hload
    refine h.keep rfl rfl le_rfl (fun hempty => by cases hempty) ?_
    rintro row' ⟨⟩
    have htime := h.inTime row hrow
    have habsolute := accessTokenLifetime_le (le_trans (by decide) hvalid.2.1.1)
    refine ⟨row, hrow, ⟨rfl, Or.inr ⟨rfl, rfl, rfl⟩⟩, by simp, htime.access, ?_⟩
    rintro deadline ⟨⟩
    have haccess := htime.access
    exact ⟨by dsimp only; omega, (minDeadline_eq _ _).trans_le (min_le_right _ _)⟩

/-- What an enrollment leaves. -/
structure Enrolls (enrollee : Enrollee) (now : ℤ) (db db' : CredentialDB) (row : AgentCredential)
    (policy : AgentCredentialPolicy) : Prop where
  stored : db'.row = some row
  kept : db'.policy = some policy
  valid : policy.Valid
  generation : row.generation = db.generation.elim 0 (· + 1)
  sealed' : row.refreshRecoverySealed = none
  version : row.lifecycleVersion = 1
  expires : row.enrollmentExpiresAt = some (now + policy.absoluteDays * credentialDay)
  access : row.accessExpiresAt =
    min (now + accessTokenLifetime) (now + policy.absoluteDays * credentialDay)
  refresh : row.refreshExpiresAt ≤ now + policy.absoluteDays * credentialDay
  token : row.refreshTokenHash = hashToken enrollee.refreshToken
  key : row.agentPublicKey = enrollee.publicKey
  protocol : row.refreshProtocol = 0
  otherKey : ∀ before, db.row = some before → before.revokedAt ≠ none →
    before.agentPublicKey ≠ enrollee.publicKey

variable {issued : Issued}

theorem issueLocked_eq_ok {enrollee : Enrollee} {now : ℤ}
    {db' : CredentialDB} (h : issueLocked enrollee now db = .ok (issued, db')) :
    ∃ row policy, Enrolls enrollee now db db' row policy := by
  unfold issueLocked at h
  by_cases hrandom : enrollee.accessToken = "" ∨ enrollee.refreshToken = ""
  · rw [if_pos hrandom] at h
    cases h
  rw [if_neg hrandom] at h
  obtain ⟨⟨policy, db''⟩, hload, h⟩ := bind_eq_ok.mp h
  obtain ⟨-, hvalid, rfl⟩ := loadCredentialPolicy_eq_ok.mp hload
  have hmin : ∀ a b : ℤ, minDeadline a b ≤ b := fun a b => (minDeadline_eq a b).trans_le (min_le_right a b)
  cases hrow : db.row with
  | none =>
    dsimp only at h
    rw [hrow] at h
    cases h
    exact ⟨_, policy, rfl, rfl, hvalid, by rw [CredentialDB.generation, hrow]; rfl, rfl, rfl, rfl,
      minDeadline_eq _ _, hmin _ _, rfl, rfl, rfl, by simp [hrow]⟩
  | some before =>
    dsimp only at h
    rw [hrow] at h
    dsimp only at h
    by_cases hrevoked : before.revokedAt ≠ none ∧ before.agentPublicKey = enrollee.publicKey
    · rw [if_pos hrevoked] at h
      cases h
    rw [if_neg hrevoked] at h
    cases h
    refine ⟨_, policy, rfl, rfl, hvalid, by rw [CredentialDB.generation, hrow]; rfl, rfl, rfl, rfl,
      minDeadline_eq _ _, hmin _ _, rfl, rfl, rfl, fun before' hbefore' hnone hkey => ?_⟩
    obtain rfl := Option.some.inj (hrow.symm.trans hbefore')
    exact hrevoked ⟨hnone, hkey⟩

theorem Sound.enroll (h : Sound run) {enrollee : Enrollee}
    (hok : issueLocked enrollee run.clock run.db = .ok (issued, db)) :
    Sound { run with db := db, mints := run.mints ++ db.generation.toList, consumed := [] } := by
  obtain ⟨row, policy, henrolls⟩ := issueLocked_eq_ok hok
  have hrow := henrolls.stored
  have hexpires := henrolls.expires
  have hmin : row.accessExpiresAt ≤ run.clock + accessTokenLifetime ∧
      row.accessExpiresAt ≤ run.clock + policy.absoluteDays * credentialDay :=
    henrolls.access ▸ ⟨min_le_left _ _, min_le_right _ _⟩
  have hdb : db.generation = some row.generation := by rw [CredentialDB.generation, hrow]; rfl
  -- the generation of the row is behind all of before
  have hbehind : (∀ r ∈ run.responses, r.issued.generation ≤ row.generation) ∧
      ∀ generation ∈ run.mints, generation < row.generation := by
    rw [henrolls.generation]
    unfold CredentialDB.generation
    cases hbefore : run.db.row with
    | none =>
      obtain ⟨hresponses, hmints⟩ := h.empty hbefore
      rw [hresponses, hmints]
      exact ⟨by simp, by simp⟩
    | some before =>
      exact ⟨fun r hr => ((h.chained before hbefore).bound r hr).trans (Nat.le_succ _),
        fun generation hmem => Nat.lt_succ_of_le (h.minted before hbefore generation hmem)⟩
  constructor
  · intro row' hrow'
    obtain rfl := Option.some.inj (hrow.symm.trans hrow')
    refine ⟨by rw [henrolls.version, hexpires]; simp, hmin.1, fun deadline hdeadline => ?_⟩
    obtain rfl := Option.some.inj (hexpires.symm.trans hdeadline)
    exact ⟨hmin.2, henrolls.refresh⟩
  · intro row' hrow'
    obtain rfl := Option.some.inj (hrow.symm.trans hrow')
    exact ⟨hbehind.1, fun issued hissued => by rw [henrolls.sealed'] at hissued; cases hissued⟩
  · intro hempty
    dsimp only at hempty
    rw [hrow] at hempty
    cases hempty
  · exact h.held
  · exact h.past
  · exact h.unique
  · exact h.recovered
  · dsimp only
    rw [hdb]
    exact List.pairwise_append.mpr ⟨h.increasing, List.pairwise_singleton _ _, fun g hg g' hg' => by
      obtain rfl := List.mem_singleton.mp hg'
      exact hbehind.2 g hg⟩
  · intro row' hrow' g hg
    obtain rfl := Option.some.inj (hrow.symm.trans hrow')
    dsimp only at hg
    rw [hdb] at hg
    rcases List.mem_append.mp hg with hg | hg
    · exact (hbehind.2 g hg).le
    · exact (List.mem_singleton.mp hg).le

variable {request : RotateRequest}

variable {answers : RotateAnswers} {cur : AgentCredential}

theorem Admits.inTime {deadline : ℤ}
    (h : Admits answers request run.db policy cur deadline) (hs : Sound run)
    (hclock : answers.now = run.clock) :
    ∃ before, run.db.row = some before ∧ cur = migrateCredential policy answers.now before ∧
      Keeps before cur ∧ InTime run.clock cur := by
  obtain ⟨before, hbefore, rfl, -⟩ := h.found
  refine ⟨before, hbefore, rfl, keeps_migrate _ _ _, ?_⟩
  rw [hclock]
  exact (hs.inTime before hbefore).migrate le_rfl h.loaded.2

theorem recoverIssued_eq_ok {opens : Bool} (h : recoverIssued opens request cur = .ok issued) :
    cur.refreshRecoverySealed = some issued ∧ issued.generation = cur.generation ∧
      hashToken issued.refreshToken = cur.refreshTokenHash ∧
        hashToken issued.accessToken = cur.accessTokenHash ∧ issued.requestID = request.requestID := by
  unfold recoverIssued at h
  by_cases hrequest : cur.refreshRecoveryRequest ≠ hashToken request.requestID
  · rw [if_pos hrequest] at h
    cases h
  rw [if_neg hrequest] at h
  cases hsealed : cur.refreshRecoverySealed with
  | none =>
    rw [hsealed] at h
    cases h
  | some pair =>
    rw [hsealed] at h
    dsimp only at h
    split_ifs at h with _ hbinding
    cases h
    simp only [ne_eq, not_or, not_not] at hbinding
    obtain ⟨hgeneration, hrefresh, haccess, -, -, hid⟩ := hbinding
    exact ⟨rfl, hgeneration, hrefresh, haccess, hid⟩

theorem Sound.append (h : Sound run) {r : Response}
    {mints : List ℕ} {consumed : List String} (hrow : db.row = some r.row)
    (htime : InTime run.clock r.row) (hchained : Chained (run.responses ++ [r]) r.row) (hheld : r.Held)
    (hpast : r.time ≤ run.clock)
    (hunique : ∀ r' ∈ run.responses, r'.issued.generation = r.issued.generation →
      r'.issued = r.issued)
    (hrecovered : r.minted = false → ∃ m ∈ run.responses, r.Recovers m)
    (hincreasing : mints.Pairwise (· < ·)) (hmints : ∀ g ∈ mints, g ≤ r.row.generation) :
    Sound { run with db := db, responses := run.responses ++ [r], mints := mints,
                     consumed := consumed } := by
  constructor
  · intro row hrow'
    obtain rfl := Option.some.inj (hrow.symm.trans hrow')
    exact htime
  · intro row hrow'
    obtain rfl := Option.some.inj (hrow.symm.trans hrow')
    exact hchained
  · intro hempty
    dsimp only at hempty
    rw [hrow] at hempty
    cases hempty
  · exact List.forall_mem_append.mpr ⟨h.held, List.forall_mem_singleton.mpr hheld⟩
  · exact List.forall_mem_append.mpr ⟨h.past, List.forall_mem_singleton.mpr hpast⟩
  · intro r₁ hr₁ r₂ hr₂ heq
    rcases List.mem_append.mp hr₁ with hold₁ | hnew₁
    · rcases List.mem_append.mp hr₂ with hold₂ | hnew₂
      · exact h.unique r₁ hold₁ r₂ hold₂ heq
      · obtain rfl := List.mem_singleton.mp hnew₂
        exact hunique r₁ hold₁ heq
    · obtain rfl := List.mem_singleton.mp hnew₁
      rcases List.mem_append.mp hr₂ with hold₂ | hnew₂
      · exact (hunique r₂ hold₂ heq.symm).symm
      · obtain rfl := List.mem_singleton.mp hnew₂
        rfl
  · intro r' hr' hagain
    rcases List.mem_append.mp hr' with hr' | hr'
    · obtain ⟨m, hm, hrecovers⟩ := h.recovered r' hr' hagain
      exact ⟨m, List.mem_append_left _ hm, hrecovers⟩
    · obtain rfl := List.mem_singleton.mp hr'
      obtain ⟨m, hm, hrecovers⟩ := hrecovered hagain
      exact ⟨m, List.mem_append_left _ hm, hrecovers⟩
  · exact hincreasing
  · intro row hrow' g hg
    obtain rfl := Option.some.inj (hrow.symm.trans hrow')
    exact hmints g hg

theorem respond_eq {now : ℤ} (hrow : db.row = some row) {minted : Bool}
    (hminted : decide (run.db.generation ≠ some row.generation) = minted) :
    run.respond request issued now db =
      { run with
        db := db, responses := run.responses ++ [⟨request, issued, now, minted, row⟩],
        mints := if minted then run.mints ++ [row.generation] else run.mints,
        consumed := if minted then hashToken request.token :: run.consumed else run.consumed } := by
  unfold CredentialRun.respond
  rw [hrow]
  dsimp only
  rw [hminted]

theorem Sound.respond_minted (h : Sound run) (hclock : answers.now = run.clock)
    {deadline : ℤ} (admits : Admits answers request run.db policy cur deadline)
    (hissued : issued = mintIssued answers request policy deadline cur)
    (hrow : db.row = some (mintRow answers request issued cur)) :
    Sound (run.respond request issued answers.now db) := by
  obtain ⟨before, hbefore, -, hkeeps, htime⟩ := admits.inTime h hclock
  have hexpires := admits.expires
  have hgeneration : (mintRow answers request issued cur).generation = cur.generation + 1 := by
    rw [hissued]
    rfl
  have hminted : decide (run.db.generation ≠ some (mintRow answers request issued cur).generation) =
      true := by
    simp [CredentialDB.generation, hbefore, hgeneration, hkeeps.generation]
  have hnew : ∀ r ∈ run.responses, r.issued.generation < cur.generation + 1 := fun r hr => by
    have := (h.chained before hbefore).bound r hr
    have := hkeeps.generation
    omega
  have hold : ∀ g ∈ run.mints, g < cur.generation + 1 := fun g hg => by
    have := h.minted before hbefore g hg
    have := hkeeps.generation
    omega
  have hpair : issued.generation = cur.generation + 1 ∧ issued.requestID = request.requestID := by
    rw [hissued]
    exact ⟨rfl, rfl⟩
  rw [respond_eq hrow hminted]
  refine h.append hrow ⟨htime.versioned, ?_, fun deadline' hdeadline' => ?_⟩ ⟨fun r hr => ?_,
    fun pair hpair' => ?_⟩ ⟨hgeneration.trans hpair.1.symm, rfl, rfl, hpair.2⟩ hclock.le ?_ ?_ ?_ ?_
  · show issued.accessTokenExpiresAt ≤ _
    rw [hissued, ← hclock]
    exact (minDeadline_eq _ _).trans_le (min_le_left _ _)
  · obtain rfl := Option.some.inj (hexpires.symm.trans hdeadline')
    show issued.accessTokenExpiresAt ≤ _ ∧ issued.refreshTokenExpiresAt ≤ _
    rw [hissued]
    exact ⟨(minDeadline_eq _ _).trans_le (min_le_right _ _), idleDeadline_le hexpires⟩
  · rw [hgeneration]
    rcases List.mem_append.mp hr with hr | hr
    · exact (hnew r hr).le
    · obtain rfl := List.mem_singleton.mp hr
      exact hpair.1.le
  · obtain rfl := Option.some.inj hpair'
    exact ⟨_, List.mem_append_right _ (List.mem_singleton_self _), rfl, rfl, rfl, rfl⟩
  · intro r hr heq
    exact absurd (heq.trans hpair.1) (hnew r hr).ne
  · intro hfalse
    cases hfalse
  · rw [if_pos rfl, hgeneration]
    exact List.pairwise_append.mpr ⟨h.increasing, List.pairwise_singleton _ _, fun g hg g' hg' => by
      obtain rfl := List.mem_singleton.mp hg'
      exact hold g hg⟩
  · rw [if_pos rfl, hgeneration]
    exact List.forall_mem_append.mpr ⟨fun g hg => (hold g hg).le, List.forall_mem_singleton.mpr le_rfl⟩

theorem Sound.respond_recovered (h : Sound run) (hclock : answers.now = run.clock)
    {deadline : ℤ} (admits : Admits answers request run.db policy cur deadline)
    (recovering : Recovering request answers.now cur)
    (recovers : recoverIssued answers.opens request cur = .ok issued)
    (hrow : db.row = some cur) : Sound (run.respond request issued answers.now db) := by
  obtain ⟨before, hbefore, -, hkeeps, htime⟩ := admits.inTime h hclock
  obtain ⟨hsealed, hgeneration, hrefresh, haccess, hid⟩ := recoverIssued_eq_ok recovers
  have hchained := (h.chained before hbefore).keep hkeeps
  obtain ⟨m, hm, hmint, hpair, huntil, hprevious⟩ := hchained.recoverable issued hsealed
  have hsame : decide (run.db.generation ≠ some cur.generation) = false := by
    simp [CredentialDB.generation, hbefore, hkeeps.generation]
  rw [respond_eq hrow hsame]
  refine h.append hrow htime ⟨fun r hr => ?_, fun pair hsealed' => ?_⟩
    ⟨hgeneration.symm, haccess.symm, hrefresh.symm, hid⟩ hclock.le ?_ ?_ h.increasing ?_
  · rcases List.mem_append.mp hr with hr | hr
    · exact hchained.bound r hr
    · obtain rfl := List.mem_singleton.mp hr
      exact hgeneration.le
  · obtain ⟨m', hm', hrest⟩ := hchained.recoverable pair hsealed'
    exact ⟨m', List.mem_append_left _ hm', hrest⟩
  · exact fun r hr heq => (h.unique r hr m hm (heq.trans (by rw [hpair]))).trans hpair
  · -- the request is the one that the pair was made for
    intro _
    obtain ⟨hprevious', recovery, hrecovery, hwithin⟩ := recovering
    have hrequest : request.requestID = m.request.requestID := by
      rw [← (h.held m hm).requestID, hpair, hid]
    refine ⟨m, hm, hmint, hpair.symm, hrequest, hprevious'.trans hprevious,
      (h.past m hm).trans hclock.ge, ?_⟩
    obtain rfl := Option.some.inj (huntil.symm.trans hrecovery)
    exact hwithin
  · intro g hg
    rw [hkeeps.generation]
    exact h.minted before hbefore g hg

/-- What an attempt does: nothing to the tables, and it gives no pair; or what a transaction commits. -/
theorem rotateAttempt_cases (answers : RotateAnswers) (contention : Contention) (flight : Flight)
    (db : CredentialDB) :
    ((rotateAttempt answers contention flight db).2 = db ∧
        ∀ issued, (rotateAttempt answers contention flight db).1 ≠ .returned (issued, none)) ∨
      ∃ rotated, flight.request.Wellformed ∧ Rotates answers flight.request db rotated ∧
        rotateAttempt answers contention flight db =
          (.returned (rotated.issued, rotated.outcome), rotated.db) := by
  have hretry : ∀ issued pair, retryFlight flight issued ≠ .returned (pair, none) := by
    intro issued pair heq
    unfold retryFlight at heq
    split_ifs at heq
    cases heq
  unfold rotateAttempt
  by_cases hwellformed : flight.request.Wellformed
  · rw [if_neg (not_not.mpr hwellformed)]
    by_cases hearly : contention = .early
    · rw [if_pos hearly]
      exact Or.inl ⟨rfl, fun issued => hretry _ _⟩
    · rw [if_neg hearly]
      cases hresult : rotateLocked answers flight.request flight.issued db with
      | error e => exact Or.inl ⟨rfl, fun issued heq => by cases heq⟩
      | ok rotated =>
        dsimp only
        by_cases hlate : contention = .late
        · rw [if_pos hlate]
          exact Or.inl ⟨rfl, fun issued => hretry _ _⟩
        · rw [if_neg hlate]
          exact Or.inr ⟨rotated, hwellformed, rotates_of_rotateLocked hresult, rfl⟩
  · rw [if_pos hwellformed]
    exact Or.inl ⟨rfl, fun issued heq => by cases heq⟩

/-- An attempt in a run: only the flights change, or what a transaction commits is reported. -/
theorem CredentialRun.attempt_cases (run : CredentialRun) (id : ℕ) (answers : RotateAnswers)
    (contention : Contention) :
    (∃ flights, run.attempt id answers contention = { run with flights := flights }) ∨
      ∃ (flight : Flight) (rotated : Rotated), flight.request.Wellformed ∧
        Rotates answers flight.request run.db rotated ∧
        run.attempt id answers contention =
          let landed := { run with flights := run.flights.deleteWhere fun id' _ => id' = id }
          match rotated.outcome with
          | none => landed.respond flight.request rotated.issued answers.now rotated.db
          | some _ => { landed with db := rotated.db } := by
  unfold CredentialRun.attempt
  cases hflight : run.flights.find? id with
  | none => exact .inl ⟨run.flights, rfl⟩
  | some flight =>
    dsimp only
    rcases rotateAttempt_cases answers contention flight run.db with
      ⟨hdb, hnone⟩ | ⟨rotated, hwellformed, hrotates, heq⟩
    · generalize rotateAttempt answers contention flight run.db = result at hdb hnone
      obtain ⟨ended, db⟩ := result
      obtain rfl : db = run.db := hdb
      cases ended with
      | retry flight => exact .inl ⟨_, rfl⟩
      | returned result =>
        obtain ⟨issued, error⟩ := result
        cases error with
        | none => exact absurd rfl (hnone issued)
        | some error => exact .inl ⟨_, rfl⟩
    · rw [heq]
      exact .inr ⟨flight, rotated, hwellformed, hrotates, rfl⟩

/-- **An attempt of a request.** -/
theorem Sound.attempt (h : Sound run) (id : ℕ)
    (contention : Contention) (hclock : answers.now = run.clock) :
    Sound (run.attempt id answers contention) := by
  rcases run.attempt_cases id answers contention with
    ⟨flights, heq⟩ | ⟨flight, rotated, -, hrotates, heq⟩
  · rw [heq]
    exact h.withRow rfl rfl rfl rfl
  · rw [heq]
    have hlanded : Sound { run with flights := run.flights.deleteWhere fun id' _ => id' = id } :=
      h.withRow rfl rfl rfl rfl
    cases hrotates with
    | minted admits current unused => exact hlanded.respond_minted hclock admits rfl rfl
    | recovered admits superseded recovering recovers =>
      exact hlanded.respond_recovered hclock admits recovering recovers rfl
    | reused admits superseded elapsed used upgraded =>
      -- the machine is revoked, and its pair cannot be recovered
      obtain ⟨before, hbefore, -, hkeeps, htime⟩ := admits.inTime h hclock
      refine h.keep rfl rfl le_rfl (fun hempty => by cases hempty) ?_
      rintro row' ⟨⟩
      exact ⟨before, hbefore, ⟨hkeeps.generation, Or.inl rfl⟩,
        ⟨htime.versioned, htime.access, htime.enrolled⟩⟩

/-- **Every transaction keeps the chain.** -/
theorem Sound.step (h : Sound run) {op : CredentialOp} (htimely : Timely run op) :
    Sound (op.step run) := by
  have hlater := h.later htimely
  unfold CredentialOp.step
  cases op with
  | rotate id request =>
    dsimp only
    split_ifs
    · exact hlater
    · exact hlater.withRow rfl rfl rfl rfl
  | attempt id answers contention => exact hlater.attempt id contention rfl
  | revoke now => exact hlater.revoke now
  | reapprove expected fingerprint now =>
    dsimp only
    cases hok : reapproveCredential expected fingerprint now run.db with
    | error e => exact hlater
    | ok db => exact hlater.reapprove hok
  | enroll enrollee now =>
    dsimp only
    cases hok : issueLocked enrollee now run.db with
    | error e => exact hlater
    | ok issued => exact hlater.enroll hok
  | cleanup now => exact hlater.cleanup now
  | migrateAll now => exact hlater.migrateAll
  | savePolicy policy => exact hlater.savePolicy policy

theorem Upgraded.sound {clock : ℤ} (h : Upgraded db clock) :
    Sound (CredentialRun.start db clock) := by
  constructor
  · intro row hrow
    obtain ⟨hversion, hexpires, -, haccess⟩ := h.row row hrow
    exact ⟨by simp [hversion, hexpires], haccess, fun deadline hdeadline => by
      rw [hexpires] at hdeadline; cases hdeadline⟩
  · intro row hrow
    obtain ⟨-, -, hsealed, -⟩ := h.row row hrow
    exact ⟨by simp [CredentialRun.start], fun issued hissued => by rw [hsealed] at hissued; cases hissued⟩
  · exact fun _ => ⟨rfl, rfl⟩
  · simp [CredentialRun.start]
  · simp [CredentialRun.start]
  · simp [CredentialRun.start]
  · simp [CredentialRun.start]
  · simp [CredentialRun.start]
  · simp [CredentialRun.start]

theorem sound_run {clock : ℤ} (hstart : Upgraded db clock)
    {ops : List CredentialOp} (htimely : Run.Along CredentialOp.step Timely (.start db clock) ops) :
    Sound (ops.foldl CredentialOp.step (.start db clock)) :=
  htimely.invariant (fun _ _ h ht => h.step ht) hstart.sound

/-! ### The rest of the row -/

/-- What a transaction that is no enrollment does to the key, the protocol and a revocation. -/
structure Succeeds (run run' : CredentialRun) (row row' : AgentCredential) : Prop where
  key : row'.agentPublicKey = row.agentPublicKey
  protocol : row'.refreshProtocol = row.refreshProtocol ∨
    (row'.refreshProtocol = 1 ∨ row'.refreshProtocol = 2) ∧
      ¬(2 ≤ row.refreshProtocol ∧ row'.refreshProtocol < 2)
  revoked : row.revokedAt ≠ none → row'.revokedAt ≠ none ∧ run'.responses = run.responses

omit [TokenHash] in
theorem Succeeds.refl (run : CredentialRun) {run' : CredentialRun} (row : AgentCredential)
    (h : run'.responses = run.responses) : Succeeds run run' row row :=
  ⟨rfl, Or.inl rfl, fun hrevoked => ⟨hrevoked, h⟩⟩

/-- **A transaction that is no enrollment.** -/
theorem step_succeeds {op : CredentialOp} (hop : ∀ enrollee now, op ≠ .enroll enrollee now)
    (hrow : run.db.row = some row) :
    ∃ row', (op.step run).db.row = some row' ∧ Succeeds run (op.step run) row row' := by
  unfold CredentialOp.step
  cases op with
  | rotate id request =>
    dsimp only
    split_ifs
    · exact ⟨row, hrow, .refl run row rfl⟩
    · exact ⟨row, hrow, .refl run row rfl⟩
  | attempt id answers contention =>
    dsimp only
    rcases CredentialRun.attempt_cases { run with clock := answers.now } id answers contention with
      ⟨flights, heq⟩ | ⟨flight, rotated, hwellformed, hrotates, heq⟩
    · exact heq ▸ ⟨row, hrow, .refl run row rfl⟩
    · refine heq ▸ ?_
      -- a transaction that commits has found a row that is not revoked
      have hfound : ∀ {policy cur deadline},
          Admits answers flight.request run.db policy cur deadline →
            cur = migrateCredential policy answers.now row ∧ row.revokedAt = none ∧
              ¬(2 ≤ row.refreshProtocol ∧ flight.request.protocol < 2) := by
        intro policy cur deadline admits
        obtain ⟨before, hbefore, hcur, hlive, -, hprotocol⟩ := admits.found
        obtain rfl := Option.some.inj (hrow.symm.trans hbefore)
        exact ⟨hcur, hlive, hprotocol⟩
      cases hrotates with
      | @minted policy cur deadline admits current unused =>
        obtain ⟨rfl, hlive, hprotocol⟩ := hfound admits
        exact ⟨_, rfl, agentPublicKey_migrate _ _ _, Or.inr ⟨hwellformed.2.2, hprotocol⟩,
          fun hrevoked => absurd hlive hrevoked⟩
      | @recovered policy cur deadline issued admits superseded recovering recovers =>
        obtain ⟨rfl, hlive, -⟩ := hfound admits
        exact ⟨_, rfl, agentPublicKey_migrate _ _ _, Or.inl (refreshProtocol_migrate _ _ _),
          fun hrevoked => absurd hlive hrevoked⟩
      | @reused policy cur deadline issued admits superseded elapsed used upgraded =>
        obtain ⟨rfl, hlive, -⟩ := hfound admits
        exact ⟨_, rfl, agentPublicKey_migrate _ _ _, Or.inl (refreshProtocol_migrate _ _ _),
          fun hrevoked => absurd hlive hrevoked⟩
  | revoke now =>
    exact ⟨_, congrArg (Option.map _) hrow, rfl, Or.inl rfl, fun _ => ⟨by simp, rfl⟩⟩
  | reapprove expected fingerprint now =>
    dsimp only
    cases hok : reapproveCredential expected fingerprint now run.db with
    | error e => exact ⟨row, hrow, .refl run row rfl⟩
    | ok db =>
      unfold reapproveCredential at hok
      rw [hrow] at hok
      dsimp only at hok
      split_ifs at hok with _ hrevoked
      obtain ⟨⟨policy, db'⟩, hload, hok⟩ := bind_eq_ok.mp hok
      cases hok
      exact ⟨_, rfl, rfl, Or.inl rfl, fun h => absurd h hrevoked⟩
  | enroll enrollee now => exact absurd rfl (hop enrollee now)
  | cleanup now =>
    refine ⟨_, congrArg (Option.map _) hrow, ?_⟩
    dsimp only
    split_ifs
    · exact ⟨rfl, Or.inl rfl, fun hrevoked => ⟨hrevoked, rfl⟩⟩
    · exact .refl run row rfl
  | migrateAll now =>
    dsimp only
    unfold initializeLifecycle
    cases hload : loadCredentialPolicy run.db with
    | error e => exact ⟨row, hrow, .refl run row rfl⟩
    | ok loaded =>
      obtain ⟨-, hsame, -⟩ := row_of_loadCredentialPolicy hload
      dsimp only
      rw [hsame, hrow]
      exact ⟨_, rfl, agentPublicKey_migrate _ _ _, Or.inl (refreshProtocol_migrate _ _ _),
        fun hrevoked => ⟨by rwa [revokedAt_migrate], rfl⟩⟩
  | savePolicy policy =>
    exact ⟨row, (row_saveCredentialPolicy policy run.db).trans hrow, .refl run row rfl⟩

/-- An enrollment sets the protocol back; one with the key of a revoked machine is refused. -/
theorem step_enroll (enrollee : Enrollee) (now : ℤ) :
    (∀ row', (CredentialOp.step run (.enroll enrollee now)).db.row = some row' →
      row'.refreshProtocol = 0 ∨ run.db.row = some row') ∧
    ∀ row, run.db.row = some row → row.revokedAt ≠ none → row.agentPublicKey = enrollee.publicKey →
      (CredentialOp.step run (.enroll enrollee now)).db = run.db ∧
        (CredentialOp.step run (.enroll enrollee now)).responses = run.responses := by
  unfold CredentialOp.step
  dsimp only
  cases hok : issueLocked enrollee now run.db with
  | error e => exact ⟨fun row' hrow' => Or.inr hrow', fun row hrow _ _ => ⟨rfl, rfl⟩⟩
  | ok issued =>
    obtain ⟨row', policy, henrolls⟩ := issueLocked_eq_ok hok
    refine ⟨fun row'' hrow'' => Or.inl ?_, fun row hrow hrevoked hkey => ?_⟩
    · obtain rfl := Option.some.inj (henrolls.stored.symm.trans hrow'')
      exact henrolls.protocol
    · exact absurd hkey (henrolls.otherKey row hrow hrevoked)

theorem step_row_none {op : CredentialOp}
    (hop : ∀ enrollee now, op ≠ .enroll enrollee now) (hnone : run.db.row = none) :
    (op.step run).db.row = none := by
  unfold CredentialOp.step
  cases op with
  | rotate id request =>
    dsimp only
    split_ifs <;> exact hnone
  | attempt id answers contention =>
    dsimp only
    rcases CredentialRun.attempt_cases { run with clock := answers.now } id answers contention with
      ⟨flights, heq⟩ | ⟨flight, rotated, -, hrotates, -⟩
    · exact heq ▸ hnone
    · have hfound : ∃ row, run.db.row = some row := by
        cases hrotates with
        | minted admits => exact ⟨_, admits.found.choose_spec.1⟩
        | recovered admits => exact ⟨_, admits.found.choose_spec.1⟩
        | reused admits => exact ⟨_, admits.found.choose_spec.1⟩
      obtain ⟨row, hrow⟩ := hfound
      rw [hnone] at hrow
      cases hrow
  | revoke now => exact congrArg (Option.map _) hnone
  | reapprove expected fingerprint now =>
    dsimp only
    unfold reapproveCredential
    rw [hnone]
    exact hnone
  | enroll enrollee now => exact absurd rfl (hop enrollee now)
  | cleanup now => exact congrArg (Option.map _) hnone
  | migrateAll now =>
    dsimp only
    unfold initializeLifecycle
    cases hload : loadCredentialPolicy run.db with
    | error e => exact hnone
    | ok loaded =>
      obtain ⟨-, hsame, -⟩ := row_of_loadCredentialPolicy hload
      dsimp only
      rw [hsame, hnone]
      rfl
  | savePolicy policy => exact (row_saveCredentialPolicy policy run.db).trans hnone

omit [TokenHash] in
theorem enroll_or_not (op : CredentialOp) :
    (∃ enrollee now, op = .enroll enrollee now) ∨ ∀ enrollee now, op ≠ .enroll enrollee now := by
  cases op <;> simp

/-- The protocol is one of those that there are. -/
theorem refreshProtocol_le
    (hstart : ∀ row, run.db.row = some row → row.refreshProtocol ≤ 2) (ops : List CredentialOp) :
    ∀ row, (ops.foldl CredentialOp.step run).db.row = some row → row.refreshProtocol ≤ 2 := by
  induction ops generalizing run with
  | nil => exact hstart
  | cons op ops ih =>
    refine ih fun row' hrow' => ?_
    rcases enroll_or_not op with ⟨enrollee, now, rfl⟩ | hop
    · rcases (step_enroll enrollee now).1 row' hrow' with hzero | hrow
      · omega
      · exact hstart row' hrow
    · cases hrow : run.db.row with
      | none =>
        rw [step_row_none hop hrow] at hrow'
        cases hrow'
      | some row =>
        obtain ⟨row'', hrow'', hsucceeds⟩ := step_succeeds hop hrow
        obtain rfl := Option.some.inj (hrow''.symm.trans hrow')
        have := hstart row hrow
        rcases hsucceeds.protocol with hsame | ⟨hnew, -⟩
        · omega
        · omega

/-- **A revoked machine gets nothing** until it enrolls with another key. -/
theorem revoked_run (hrow : run.db.row = some row)
    (hrevoked : row.revokedAt ≠ none) {ops : List CredentialOp}
    (hops : ∀ enrollee now, .enroll enrollee now ∈ ops → enrollee.publicKey = row.agentPublicKey) :
    (ops.foldl CredentialOp.step run).responses = run.responses ∧
      ∃ row', (ops.foldl CredentialOp.step run).db.row = some row' ∧ row'.revokedAt ≠ none ∧
        row'.agentPublicKey = row.agentPublicKey := by
  induction ops generalizing run row with
  | nil => exact ⟨rfl, row, hrow, hrevoked, rfl⟩
  | cons op ops ih =>
    -- the row is still revoked after the first transaction, with the same key
    have hstep : (op.step run).responses = run.responses ∧ ∃ row', (op.step run).db.row = some row' ∧
        row'.revokedAt ≠ none ∧ row'.agentPublicKey = row.agentPublicKey := by
      rcases enroll_or_not op with ⟨enrollee, now, rfl⟩ | hop
      · have hkey := hops enrollee now List.mem_cons_self
        obtain ⟨hdb, hresponses⟩ := (step_enroll enrollee now).2 row hrow hrevoked hkey.symm
        exact ⟨hresponses, row, hdb ▸ hrow, hrevoked, rfl⟩
      · obtain ⟨row', hrow', hsucceeds⟩ := step_succeeds hop hrow
        obtain ⟨hrevoked', hresponses⟩ := hsucceeds.revoked hrevoked
        exact ⟨hresponses, row', hrow', hrevoked', hsucceeds.key⟩
    obtain ⟨hresponses, row', hrow', hrevoked', hkey'⟩ := hstep
    obtain ⟨hrest, row'', hrow'', hrevoked'', hkey''⟩ := ih hrow' hrevoked' fun enrollee now hmem =>
      (hops enrollee now (List.mem_cons_of_mem _ hmem)).trans hkey'.symm
    exact ⟨hrest.trans hresponses, row'', hrow'', hrevoked'', hkey''.trans hkey'⟩

/-- A revocation marks the row that there is. -/
theorem step_revoke (hrow : run.db.row = some row) (now : ℤ) :
    (CredentialOp.step run (.revoke now)).responses = run.responses ∧
      ∃ row', (CredentialOp.step run (.revoke now)).db.row = some row' ∧ row'.revokedAt ≠ none ∧
        row'.agentPublicKey = row.agentPublicKey :=
  ⟨rfl, _, congrArg (Option.map _) hrow, by simp, rfl⟩

/-- The protocol does not go down within an enrollment. -/
theorem protocol_mono (hrow : run.db.row = some row)
    (hstart : row.refreshProtocol ≤ 2) {ops : List CredentialOp}
    (hops : ∀ enrollee now, .enroll enrollee now ∉ ops) :
    ∃ row', (ops.foldl CredentialOp.step run).db.row = some row' ∧
      row.refreshProtocol ≤ row'.refreshProtocol := by
  induction ops generalizing run row with
  | nil => exact ⟨row, hrow, le_rfl⟩
  | cons op ops ih =>
    have hop : ∀ enrollee now, op ≠ .enroll enrollee now := fun enrollee now heq =>
      hops enrollee now (heq ▸ List.mem_cons_self)
    obtain ⟨row', hrow', hsucceeds⟩ := step_succeeds hop hrow
    have hle : row.refreshProtocol ≤ row'.refreshProtocol ∧ row'.refreshProtocol ≤ 2 := by
      rcases hsucceeds.protocol with hsame | ⟨hnew, hupgraded⟩
      · omega
      · omega
    obtain ⟨row'', hrow'', hle'⟩ := ih hrow' hle.2 fun enrollee now hmem =>
      hops enrollee now (List.mem_cons_of_mem _ hmem)
    exact ⟨row'', hrow'', hle.1.trans hle'⟩

/-- **Every generation has one pair**, after every run of a panel that has just been upgraded.  It is
the pair whose hashes the row held, and only the request that got it gets it again, within its window.
The tokens do not outlast the enrollment, the protocol does not go down within one, and a machine gets
nothing after a revocation until it enrolls with another key. -/
theorem one_successor {db : CredentialDB} {clock : ℤ} (hstart : Upgraded db clock)
    {ops : List CredentialOp} (htimely : Run.Along CredentialOp.step Timely (.start db clock) ops) :
    (ops.foldl CredentialOp.step (.start db clock)).mints.Pairwise (· < ·) ∧
      (∀ r ∈ (ops.foldl CredentialOp.step (.start db clock)).responses, r.Held ∧
        (r.minted = false → ∃ m ∈ (ops.foldl CredentialOp.step (.start db clock)).responses,
          r.Recovers m) ∧
        ∀ r' ∈ (ops.foldl CredentialOp.step (.start db clock)).responses,
          r.issued.generation = r'.issued.generation → r.issued = r'.issued) ∧
      ∀ row, (ops.foldl CredentialOp.step (.start db clock)).db.row = some row →
        (∀ deadline, row.enrollmentExpiresAt = some deadline →
          row.accessExpiresAt ≤ deadline ∧ row.refreshExpiresAt ≤ deadline) ∧
        (∀ more, (∀ enrollee now, .enroll enrollee now ∉ more) →
          ∃ row', ((ops ++ more).foldl CredentialOp.step (.start db clock)).db.row = some row' ∧
            row.refreshProtocol ≤ row'.refreshProtocol) ∧
        ∀ more,
          (∀ enrollee now, .enroll enrollee now ∈ more → enrollee.publicKey = row.agentPublicKey) →
            (∀ now, ((ops ++ .revoke now :: more).foldl CredentialOp.step (.start db clock)).responses =
              (ops.foldl CredentialOp.step (.start db clock)).responses) ∧
            (row.revokedAt ≠ none →
              ((ops ++ more).foldl CredentialOp.step (.start db clock)).responses =
                (ops.foldl CredentialOp.step (.start db clock)).responses) := by
  have hsound := sound_run hstart htimely
  refine ⟨hsound.increasing, fun r hr => ⟨hsound.held r hr, hsound.recovered r hr, hsound.unique r hr⟩,
    fun row hrow => ⟨(hsound.inTime row hrow).enrolled, fun more hmore => ?_,
      fun more hmore => ⟨fun now => ?_, fun hrevoked => ?_⟩⟩⟩
  · rw [List.foldl_append]
    exact protocol_mono hrow (refreshProtocol_le hstart.protocol ops row hrow) hmore
  · -- the revocation answers nothing, and marks the row
    obtain ⟨hanswered, row', hrow', hrevoked, hkey⟩ := step_revoke hrow now
    rw [List.foldl_append, List.foldl_cons]
    exact (revoked_run hrow' hrevoked fun enrollee now hmem =>
      (hmore enrollee now hmem).trans hkey.symm).1.trans hanswered
  · rw [List.foldl_append]
    exact (revoked_run hrow hrevoked hmore).1

end Steps

/-! ### A run -/

@[reducible] def markedHash : TokenHash where
  sha256 s := "#" ++ s
  sha256_ne_empty s h := by simpa using congrArg String.length h
  fingerprint key := key

/-- The answers to a request. -/
def answersAt (now : ℤ) (access refresh : String) : RotateAnswers := ⟨now, access, refresh, true, true⟩

/-- A request of a machine for its first rotation. -/
def firstRotation : RotateRequest := ⟨"key", "r0", "q1", some 0, 2⟩

/-- A machine enrolls and rotates: the first attempt is contended, and the request is sent again. -/
def recoveringOps : List CredentialOp :=
  [.enroll ⟨"key", [], "a0", "r0"⟩ 0, .rotate 1 firstRotation, .rotate 2 firstRotation,
    .attempt 1 (answersAt 1 "a1" "r1") .late, .attempt 1 (answersAt 2 "a2" "r2") .absent,
    .attempt 2 (answersAt 3 "a3" "r3") .absent]

/-- Nothing is stored. -/
def newTables : CredentialDB := ⟨none, ∅, none⟩

theorem upgraded_newTables : Upgraded newTables 0 where
  row _ h := nomatch h
  protocol _ h := nomatch h
  policy _ h := nomatch h

/-- Then it asks for its next rotation. -/
def pendingOps : List CredentialOp := recoveringOps ++ [.rotate 3 ⟨"key", "r2", "q2", some 1, 2⟩]

/-- It enrolls with its key again, and its request is tried. -/
def revokedOps : List CredentialOp :=
  [.enroll ⟨"key", [], "a4", "r4"⟩ 5, .attempt 3 (answersAt 6 "a5" "r5") .absent]

/-- The first two requests get the pair of the second attempt; the third one, tried behind a revocation,
gets none. -/
theorem one_successor_recovering :
    (pendingOps.foldl (@CredentialOp.step markedHash) (.start newTables 0)).responses.map
        (fun r => (r.issued.accessToken, r.minted)) = [("a2", true), ("a2", false)] ∧
      (pendingOps.foldl (@CredentialOp.step markedHash) (.start newTables 0)).mints.Pairwise (· < ·) ∧
      ((pendingOps ++ .revoke 4 :: revokedOps).foldl (@CredentialOp.step markedHash)
          (.start newTables 0)).responses =
        (pendingOps.foldl (@CredentialOp.step markedHash) (.start newTables 0)).responses := by
  have htimely : Run.Along (@CredentialOp.step markedHash) Timely (.start newTables 0) pendingOps := by
    decide +kernel
  have hlaw := @one_successor markedHash newTables 0 upgraded_newTables pendingOps htimely
  have hrow : ((pendingOps.foldl (@CredentialOp.step markedHash) (.start newTables 0)).db.row.map
      AgentCredential.agentPublicKey) = some "key" := by
    decide +kernel
  obtain ⟨row, hstored, hkey⟩ := Option.map_eq_some_iff.mp hrow
  refine ⟨by decide +kernel, hlaw.1, ((hlaw.2.2 row hstored).2.2 revokedOps ?_).1 4⟩
  intro enrollee now hmem
  rw [hkey]
  simp only [revokedOps, List.mem_cons, CredentialOp.enroll.injEq, List.not_mem_nil, or_false,
    reduceCtorEq] at hmem
  rw [hmem.1]

end Enrollment

end Komari
