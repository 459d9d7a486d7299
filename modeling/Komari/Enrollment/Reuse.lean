import Komari.Enrollment.Chain

/-!
# Reuse of a refresh token

A refresh token that was consumed is known by the record of its use.  A machine that presents it again is
revoked.

* `reuse_detected` : then every reuse is detected.
* `reuse_rejected` : a record can be deleted while the machine goes on.
-/

namespace Komari

namespace Enrollment

/-! ### Records of the consumed tokens -/

section Records

/-- A cleanup deletes no record of the enrollment, unless the machine is revoked. -/
def Spares (run : CredentialRun) (now : ℤ) : Prop :=
  ∀ row ∈ run.db.row, row.revokedAt = none →
    ∀ digest ∈ run.consumed, ∀ use ∈ run.db.uses.find? digest, now < use.expiresAt

instance (run : CredentialRun) (now : ℤ) : Decidable (Spares run now) :=
  inferInstanceAs (Decidable (∀ row ∈ run.db.row, row.revokedAt = none →
    ∀ digest ∈ run.consumed, ∀ use ∈ run.db.uses.find? digest, now < use.expiresAt))

/-- The cleanups spare the records of the enrollment. -/
def SparesUses (run : CredentialRun) (op : CredentialOp) : Prop :=
  match op with
  | .cleanup now => Spares run now
  | _ => True

instance (run : CredentialRun) (op : CredentialOp) : Decidable (SparesUses run op) := by
  unfold SparesUses
  split
  · infer_instance
  · exact inferInstanceAs (Decidable True)

/-- Every token that was consumed in the enrollment has a record, unless the machine is revoked. -/
structure Recorded (run : CredentialRun) : Prop where
  policy : ∀ policy, run.db.policy = some policy → policy.Valid
  used : ∀ row, run.db.row = some row → row.revokedAt = none →
    ∀ digest ∈ run.consumed, (run.db.uses.find? digest).isSome
  superseded : ∀ row, run.db.row = some row → row.refreshTokenHash ∉ run.consumed
  nonempty : "" ∉ run.consumed

variable {run : CredentialRun}

/-- **A transaction that consumes nothing.** -/
theorem Recorded.keep {run' : CredentialRun} (h : Recorded run)
    (hconsumed : run'.consumed = run.consumed)
    (hpolicy : ∀ policy, run'.db.policy = some policy → policy.Valid)
    (hrow : ∀ row', run'.db.row = some row' → ∃ row, run.db.row = some row ∧
      row'.refreshTokenHash = row.refreshTokenHash ∧ (row'.revokedAt = none → row.revokedAt = none ∧
        ∀ digest ∈ run.consumed, (run.db.uses.find? digest).isSome →
          (run'.db.uses.find? digest).isSome)) : Recorded run' := by
  constructor
  · exact hpolicy
  · intro row' hrow' hlive digest hdigest
    rw [hconsumed] at hdigest
    obtain ⟨row, hbefore, -, huses⟩ := hrow row' hrow'
    obtain ⟨hlive, huses⟩ := huses hlive
    exact huses digest hdigest (h.used row hbefore hlive digest hdigest)
  · intro row' hrow'
    obtain ⟨row, hbefore, hsame, -⟩ := hrow row' hrow'
    rw [hconsumed, hsame]
    exact h.superseded row hbefore
  · rw [hconsumed]
    exact h.nonempty

theorem Recorded.withTables {run' : CredentialRun} (h : Recorded run)
    (hconsumed : run'.consumed = run.consumed) (hdb : run'.db = run.db) : Recorded run' :=
  h.keep hconsumed (hdb ▸ h.policy) fun row' hrow' =>
    ⟨row', hdb ▸ hrow', rfl, fun hlive => ⟨hlive, fun _ _ hused => hdb ▸ hused⟩⟩

theorem Recorded.loaded (h : Recorded run) {policy : AgentCredentialPolicy}
    {db : CredentialDB} (hload : loadCredentialPolicy run.db = .ok (policy, db)) :
    db = { run.db with policy := some policy } ∧ Recorded { run with db := db } := by
  obtain ⟨-, hvalid, rfl⟩ := loadCredentialPolicy_eq_ok.mp hload
  refine ⟨rfl, h.keep rfl (fun policy' hpolicy' => ?_) fun row hrow =>
    ⟨row, hrow, rfl, fun hlive => ⟨hlive, fun _ _ => id⟩⟩⟩
  obtain rfl := Option.some.inj hpolicy'
  exact hvalid

theorem Recorded.revoke (h : Recorded run) (now : ℤ) :
    Recorded { run with db := Enrollment.revoke now run.db } := by
  refine h.keep rfl h.policy fun row' hrow' => ?_
  obtain ⟨row, hrow, rfl⟩ := Option.map_eq_some_iff.mp hrow'
  exact ⟨row, hrow, rfl, fun hlive => by cases hlive⟩

theorem Recorded.cleanup (h : Recorded run) {now : ℤ} (hspares : Spares run now) :
    Recorded { run with db := cleanupLifecycle now run.db } := by
  refine h.keep rfl h.policy fun row' hrow' => ?_
  obtain ⟨row, hrow, rfl⟩ := Option.map_eq_some_iff.mp hrow'
  have hsame : ∀ cur : AgentCredential, cur = (if (row.refreshRecoveryUntil.any fun deadline =>
      deadline ≤ now) ∧ row.refreshRecoverySealed ≠ none then
        { row with refreshRecoverySealed := none, refreshRecoveryRequest := "" } else row) →
      cur.refreshTokenHash = row.refreshTokenHash ∧ cur.revokedAt = row.revokedAt := by
    rintro cur rfl
    split_ifs <;> exact ⟨rfl, rfl⟩
  obtain ⟨htoken, hrevoked⟩ := hsame _ rfl
  refine ⟨row, hrow, htoken, fun hlive => ?_⟩
  have hlive' : row.revokedAt = none := hrevoked.symm.trans hlive
  refine ⟨hlive', fun digest hdigest hused => ?_⟩
  -- the record of the token has not expired
  obtain ⟨use, huse⟩ := Option.isSome_iff_exists.mp hused
  have hkept := hspares row hrow hlive' digest hdigest use huse
  show ((run.db.uses.deleteWhere fun _ use => decide (use.expiresAt ≤ now)).find? digest).isSome
  rw [Table.find?_deleteWhere, huse]
  simp [Option.filter, hkept]

theorem Recorded.migrateAll (h : Recorded run) (now : ℤ) :
    Recorded { run with db := initializeLifecycle now run.db } := by
  unfold initializeLifecycle
  cases hload : loadCredentialPolicy run.db with
  | error e => exact h
  | ok loaded =>
    obtain ⟨policy, db⟩ := loaded
    obtain ⟨rfl, hloaded⟩ := h.loaded hload
    refine hloaded.keep rfl hloaded.policy fun row' hrow' => ?_
    obtain ⟨row, hrow, rfl⟩ := Option.map_eq_some_iff.mp hrow'
    exact ⟨row, hrow, refreshTokenHash_migrate _ _ _,
      fun hlive => ⟨(revokedAt_migrate _ _ _).symm.trans hlive, fun _ _ => id⟩⟩

theorem saveCredentialPolicy_eq (policy : AgentCredentialPolicy) (db : CredentialDB)
    (hvalid : ∀ policy, db.policy = some policy → policy.Valid) :
    ∃ kept, saveCredentialPolicy policy db = { db with policy := kept } ∧
      ∀ policy, kept = some policy → policy.Valid := by
  unfold saveCredentialPolicy
  by_cases hnew : policy.Valid
  · rw [if_pos hnew]
    cases hload : loadCredentialPolicy db with
    | error e => exact ⟨db.policy, rfl, hvalid⟩
    | ok loaded =>
      obtain ⟨current, db'⟩ := loaded
      obtain ⟨-, hcurrent, rfl⟩ := loadCredentialPolicy_eq_ok.mp hload
      dsimp only
      split_ifs
      · exact ⟨some current, rfl, fun _ heq => Option.some.inj heq ▸ hcurrent⟩
      · exact ⟨some { policy with revision := policy.revision + 1 }, rfl,
          fun _ heq => Option.some.inj heq ▸ hnew⟩
  · rw [if_neg hnew]
    exact ⟨db.policy, rfl, hvalid⟩

theorem Recorded.savePolicy (h : Recorded run) (policy : AgentCredentialPolicy) :
    Recorded { run with db := saveCredentialPolicy policy run.db } := by
  obtain ⟨kept, heq, hvalid⟩ := saveCredentialPolicy_eq policy run.db h.policy
  rw [heq]
  exact h.keep rfl hvalid fun row hrow => ⟨row, hrow, rfl, fun hlive => ⟨hlive, fun _ _ => id⟩⟩

theorem Recorded.load (h : Recorded run) :
    loadCredentialPolicy run.db = .ok (run.db.policy.getD defaultCredentialPolicy,
      { run.db with policy := some (run.db.policy.getD defaultCredentialPolicy) }) := by
  refine loadCredentialPolicy_eq_ok.mpr ⟨rfl, ?_, rfl⟩
  cases hpolicy : run.db.policy with
  | none => exact valid_defaultCredentialPolicy
  | some policy => exact h.policy policy hpolicy

theorem Upgraded.recorded {db : CredentialDB} {clock : ℤ} (h : Upgraded db clock) :
    Recorded (CredentialRun.start db clock) :=
  ⟨h.policy, by simp [CredentialRun.start], by simp [CredentialRun.start],
    by simp [CredentialRun.start]⟩

end Records

section Reuse

variable [TokenHash]

/-- The row of a token. -/
def lookupRefresh (db : CredentialDB) (digest : String) : Except RotateError AgentCredential :=
  if digest = "" then .error (.rejected "")
  else
    match db.row with
    | none => .error (.other "record not found")
    | some row =>
      if row.refreshTokenHash = digest ∨ row.previousRefreshHash = digest then .ok row
      else if (db.uses.find? digest).isSome then .ok row
      else .error (.other "record not found")

/-- The credentials can be rotated: the machine is not revoked, and the deadlines lie ahead. -/
structure AgentCredential.Alive (row : AgentCredential) (now : ℤ) : Prop where
  live : row.revokedAt = none
  enrolled : ∃ deadline, row.enrollmentExpiresAt = some deadline ∧ now < deadline
  refreshes : now < row.refreshExpiresAt

/-- A machine whose credentials are alive presents a token that was consumed in its enrollment, with
protocol 2 and outside the token's recovery window. -/
structure Presents (run : CredentialRun) (row : AgentCredential) (now : ℤ) (request : RotateRequest) :
    Prop where
  stored : run.db.row = some row
  alive : row.Alive now
  key : request.publicKey = row.agentPublicKey
  protocol : request.protocol = 2
  named : request.requestID ≠ ""
  consumed : hashToken request.token ∈ run.consumed
  elapsed : ¬Recovering request now row

/-- The machine is found by its token, and its credentials are revoked. -/
def ReuseDetected (run : CredentialRun) : Prop :=
  ∀ row answers flight, Presents run row answers.now flight.request →
    lookupRefresh run.db (hashToken flight.request.token) = .ok row ∧
      rotateAttempt answers .absent flight run.db =
        (.returned (flight.issued, some .reuse),
          { run.db with row := some (revokeReused answers.now row),
                        policy := some (run.db.policy.getD defaultCredentialPolicy) })

/-- A random refresh token is neither the current one nor one that was consumed. -/
def Fresh (run : CredentialRun) (answers : RotateAnswers) : Prop :=
  hashToken answers.refresh ∉ run.consumed ∧
    ∀ row ∈ run.db.row, row.refreshTokenHash ≠ hashToken answers.refresh

instance (run : CredentialRun) (answers : RotateAnswers) : Decidable (Fresh run answers) :=
  inferInstanceAs (Decidable (_ ∧ _))

/-- The clock does not go back, and random tokens are new. -/
def Regular (run : CredentialRun) (op : CredentialOp) : Prop :=
  Timely run op ∧
    match op with
    | .attempt _ answers _ => Fresh run answers
    | _ => True

instance (run : CredentialRun) (op : CredentialOp) : Decidable (Regular run op) := by
  unfold Regular
  cases op <;> exact inferInstanceAs (Decidable (_ ∧ _))

variable {run : CredentialRun}

theorem Recorded.reapprove (h : Recorded run) {expected : ℕ}
    {fingerprint : String} {now : ℤ} {db : CredentialDB}
    (hok : reapproveCredential expected fingerprint now run.db = .ok db) :
    Recorded { run with db := db } := by
  unfold reapproveCredential at hok
  cases hrow : run.db.row with
  | none =>
    rw [hrow] at hok
    cases hok
  | some row =>
    rw [hrow] at hok
    dsimp only at hok
    split_ifs at hok
    obtain ⟨⟨policy, db'⟩, hload, hok⟩ := bind_eq_ok.mp hok
    obtain ⟨rfl, hloaded⟩ := h.loaded hload
    cases hok
    refine hloaded.keep rfl hloaded.policy ?_
    rintro row' ⟨⟩
    exact ⟨row, hrow, rfl, fun hlive => ⟨hlive, fun _ _ => id⟩⟩

theorem Recorded.enroll {enrollee : Enrollee} {now : ℤ} {issued : Issued}
    {db : CredentialDB} (hok : issueLocked enrollee now run.db = .ok (issued, db)) (mints : List ℕ) :
    Recorded { run with db := db, mints := mints, consumed := [] } := by
  obtain ⟨row, policy, henrolls⟩ := issueLocked_eq_ok hok
  refine ⟨fun policy' hpolicy' => ?_, by simp, by simp, by simp⟩
  obtain rfl := Option.some.inj (henrolls.kept.symm.trans hpolicy')
  exact henrolls.valid

variable {answers : RotateAnswers}

variable {policy : AgentCredentialPolicy}

omit [TokenHash] in
/-- The row of a transaction that commits, and the policy that it loads. -/
theorem Admits.before {request : RotateRequest} {db : CredentialDB}
    {cur : AgentCredential} {deadline : ℤ} (h : Admits answers request db policy cur deadline) :
    policy.Valid ∧ ∃ before, db.row = some before ∧ before.revokedAt = none ∧
      cur.generation = before.generation ∧ cur.refreshTokenHash = before.refreshTokenHash := by
  obtain ⟨before, hbefore, rfl, hlive, -⟩ := h.found
  exact ⟨h.loaded.2, before, hbefore, hlive, generation_migrate _ _ _, refreshTokenHash_migrate _ _ _⟩

/-- A new pair leaves a record of the token that it was made for. -/
theorem Recorded.respond_minted (h : Recorded run)
    {request : RotateRequest} (hfresh : Fresh run answers) (hwellformed : request.Wellformed)
    {cur : AgentCredential} {deadline : ℤ}
    (admits : Admits answers request run.db policy cur deadline)
    (current : hashToken request.token = cur.refreshTokenHash) (use : AgentRefreshUse) :
    Recorded (run.respond request (mintIssued answers request policy deadline cur) answers.now
      ⟨some (mintRow answers request (mintIssued answers request policy deadline cur) cur),
        run.db.uses.upsert (hashToken request.token) use, some policy⟩) := by
  obtain ⟨hvalid, before, hbefore, hlive, hgeneration, htoken⟩ := admits.before
  have hminted : decide (run.db.generation ≠ some (mintRow answers request
      (mintIssued answers request policy deadline cur) cur).generation) = true := by
    simp [CredentialDB.generation, hbefore, mintRow, mintIssued, hgeneration]
  rw [respond_eq rfl hminted]
  refine ⟨fun policy' hpolicy' => ?_, fun row' hrow' _ digest hdigest => ?_, fun row' hrow' => ?_, ?_⟩
  · exact Option.some.inj hpolicy' ▸ hvalid
  · -- the new record is there, and so are the old ones
    show ((run.db.uses.upsert _ _).find? digest).isSome
    rw [Table.find?_upsert]
    rcases List.mem_cons.mp hdigest with rfl | hdigest
    · simp
    · have hused := h.used before hbefore hlive digest hdigest
      split_ifs
      · rfl
      · exact hused
  · obtain rfl := Option.some.inj hrow'
    refine List.not_mem_cons_of_ne_of_not_mem ?_ hfresh.1
    show hashToken answers.refresh ≠ _
    rw [current, htoken]
    exact (hfresh.2 before hbefore).symm
  · exact List.not_mem_cons_of_ne_of_not_mem hwellformed.1.symm h.nonempty

theorem Recorded.respond_recovered (h : Recorded run)
    {request : RotateRequest} {cur : AgentCredential} {deadline : ℤ}
    (admits : Admits answers request run.db policy cur deadline) (issued : Issued) :
    Recorded (run.respond request issued answers.now ⟨some cur, run.db.uses, some policy⟩) := by
  obtain ⟨hvalid, before, hbefore, hlive, hgeneration, htoken⟩ := admits.before
  have hsame : decide (run.db.generation ≠ some cur.generation) = false := by
    simp [CredentialDB.generation, hbefore, hgeneration]
  rw [respond_eq rfl hsame]
  refine h.keep rfl (fun policy' hpolicy' => Option.some.inj hpolicy' ▸ hvalid) ?_
  rintro row' ⟨⟩
  exact ⟨before, hbefore, htoken, fun _ => ⟨hlive, fun _ _ hused => hused⟩⟩

/-- **An attempt of a request** records the token that it consumes. -/
theorem Recorded.attempt (h : Recorded run) (id : ℕ)
    (contention : Contention) (hfresh : Fresh run answers) :
    Recorded (run.attempt id answers contention) := by
  rcases run.attempt_cases id answers contention with
    ⟨flights, heq⟩ | ⟨flight, rotated, hwellformed, hrotates, heq⟩
  · rw [heq]
    exact h.withTables rfl rfl
  · rw [heq]
    have hlanded : Recorded { run with flights := run.flights.deleteWhere fun id' _ => id' = id } :=
      h.withTables rfl rfl
    cases hrotates with
    | minted admits current unused =>
      exact hlanded.respond_minted hfresh hwellformed admits current _
    | recovered admits superseded recovering recovers => exact hlanded.respond_recovered admits _
    | reused admits superseded elapsed used upgraded =>
      obtain ⟨hvalid, before, hbefore, -, -, htoken⟩ := admits.before
      refine h.keep rfl (fun policy' hpolicy' => Option.some.inj hpolicy' ▸ hvalid) ?_
      rintro row' ⟨⟩
      exact ⟨before, hbefore, htoken, fun hlive => by cases hlive⟩

/-- **Every transaction keeps the records.** -/
theorem Recorded.step (h : Recorded run) {op : CredentialOp}
    (hregular : Regular run op) (hspares : SparesUses run op) : Recorded (op.step run) := by
  have hlater : Recorded { run with clock := op.time.getD run.clock } := h.withTables rfl rfl
  unfold CredentialOp.step
  cases op with
  | rotate id request =>
    dsimp only
    split_ifs
    · exact hlater
    · exact hlater.withTables rfl rfl
  | attempt id answers contention => exact hlater.attempt id contention hregular.2
  | revoke now => exact hlater.revoke now
  | reapprove expected fingerprint now =>
    dsimp only
    cases hok : reapproveCredential expected fingerprint now run.db with
    | error e => exact hlater
    | ok db => exact hlater.reapprove hok
  | enroll enrollee now =>
    dsimp only
    cases hok : issueLocked enrollee now run.db with
    | error e => exact hlater
    | ok issued => exact @Recorded.enroll _ { run with clock := now } _ _ _ _ hok _
  | cleanup now => exact hlater.cleanup hspares
  | migrateAll now => exact hlater.migrateAll now
  | savePolicy policy => exact hlater.savePolicy policy

/-! ### Presenting a token -/

/-- **The records let a reuse be detected.** -/
theorem Recorded.detects (h : Recorded run) (hsound : Sound run) : ReuseDetected run := by
  intro row answers flight hpresents
  obtain ⟨deadline, hdeadline, henrolled⟩ := hpresents.alive.enrolled
  have hused := h.used row hpresents.stored hpresents.alive.live _ hpresents.consumed
  have hne : hashToken flight.request.token ≠ "" := fun heq => h.nonempty (heq ▸ hpresents.consumed)
  have hold : hashToken flight.request.token ≠ row.refreshTokenHash := fun heq =>
    h.superseded row hpresents.stored (heq ▸ hpresents.consumed)
  -- the row has its deadlines
  have hmigrated : ∀ policy, migrateCredential policy answers.now row = row := fun policy => by
    have hversion : row.lifecycleVersion ≠ 0 := fun hzero => by
      rw [((hsound.inTime row hpresents.stored).versioned).mp hzero] at hdeadline
      cases hdeadline
    exact if_pos hversion
  constructor
  · unfold lookupRefresh
    rw [if_neg hne, hpresents.stored]
    dsimp only
    rw [if_pos hused]
    split_ifs <;> rfl
  · obtain ⟨use, huse⟩ := Option.isSome_iff_exists.mp hused
    have hrotate : rotateLocked answers flight.request flight.issued run.db = .ok
        ⟨{ run.db with row := some (revokeReused answers.now row),
                       policy := some (run.db.policy.getD defaultCredentialPolicy) },
          flight.issued, some .reuse⟩ := by
      unfold rotateLocked presentOld
      rw [hpresents.stored]
      have hprotocol : ¬(2 ≤ row.refreshProtocol ∧ flight.request.protocol < 2) := by
        have := hpresents.protocol
        omega
      dsimp only
      rw [if_neg (not_not.mpr hpresents.alive.live), if_neg (not_not.mpr hpresents.key.symm),
        if_neg hprotocol, h.load]
      dsimp only [Except.mapError, bind, Except.bind]
      rw [hmigrated, hdeadline]
      dsimp only
      rw [if_neg (not_not.mpr henrolled), if_neg (not_not.mpr hpresents.alive.refreshes), if_pos hold,
        if_neg hpresents.elapsed, huse]
      dsimp only
      rw [if_neg hpresents.protocol.ge.not_gt]
    unfold rotateAttempt
    rw [if_neg (not_not.mpr ⟨hne, hpresents.named, Or.inr hpresents.protocol⟩),
      if_neg (by decide), hrotate]
    rfl

/-- **Reuse of a consumed token is detected** in every run whose cleanups spare the records of the
enrollment. -/
theorem reuse_detected {db : CredentialDB} {clock : ℤ} (hstart : Upgraded db clock)
    {ops : List CredentialOp} (hregular : Run.Along CredentialOp.step Regular (.start db clock) ops)
    (hspares : Run.Along CredentialOp.step SparesUses (.start db clock) ops) :
    ReuseDetected (ops.foldl CredentialOp.step (.start db clock)) := by
  have hrecorded : Recorded (ops.foldl CredentialOp.step (.start db clock)) :=
    (hregular.and hspares).invariant (fun _ _ h hgood => h.step hgood.1 hgood.2) hstart.recorded
  exact hrecorded.detects (sound_run hstart (hregular.mono fun _ _ h => h.1))

end Reuse

/-! ### Reapproval -/

/-- A machine rotates and is approved again on its last days. -/
def reapprovedOps : List CredentialOp :=
  [.enroll ⟨"key", [], "a0", "r0"⟩ 0, .rotate 1 firstRotation,
    .attempt 1 (answersAt 1 "a1" "r1") .absent, .reapprove 1 "key" (179 * credentialDay)]

/-- The tables after a cleanup on a day. -/
def cleanedRun (day : ℤ) : CredentialRun :=
  (reapprovedOps ++ [CredentialOp.cleanup (day * credentialDay)]).foldl (@CredentialOp.step markedHash)
    (.start newTables 0)

/-- The machine presents the token of its enrollment. -/
def replayed : Flight := ⟨{ firstRotation with requestID := "q2" }, 0, .zero⟩

theorem reuse_detected_reapproved : (cleanedRun 179).db.row.isSome = true ∧
    (cleanedRun 179).consumed = ["#r0"] ∧ @ReuseDetected markedHash (cleanedRun 179) :=
  ⟨by decide +kernel, by decide +kernel, @reuse_detected markedHash newTables 0 upgraded_newTables
    (reapprovedOps ++ [CredentialOp.cleanup (179 * credentialDay)]) (by decide +kernel) (by decide +kernel)⟩

/-- The error of a request that returns. -/
def AttemptEnd.error : AttemptEnd → Option RotateError
  | .returned (_, error) => error
  | .retry _ => none

/-- **The record of a use is deleted on the 180th day of an enrollment that was prolonged**: the token is
then rejected as unknown, and the machine goes on. -/
theorem reuse_rejected : Upgraded newTables 0 ∧
    Run.Along (@CredentialOp.step markedHash) (@Regular markedHash) (.start newTables 0)
      (reapprovedOps ++ [.cleanup (181 * credentialDay)]) ∧
    ¬@ReuseDetected markedHash (cleanedRun 181) := by
  refine ⟨upgraded_newTables, by decide +kernel, fun hdetected => ?_⟩
  obtain ⟨row, hrow⟩ := Option.isSome_iff_exists.mp
    (show (cleanedRun 181).db.row.isSome = true by decide +kernel)
  -- the enrollment now lasts 359 days, and the refresh token 186
  have hfacts : (cleanedRun 181).db.row.all (fun row => decide (row.revokedAt = none ∧
      row.enrollmentExpiresAt = some (359 * credentialDay) ∧
        182 * credentialDay < row.refreshExpiresAt ∧ "key" = row.agentPublicKey ∧
          ¬@Recovering markedHash replayed.request (182 * credentialDay) row)) = true := by
    decide +kernel
  rw [hrow, Option.all_some, decide_eq_true_eq] at hfacts
  obtain ⟨hlive, henrolled, hrefreshes, hkey, helapsed⟩ := hfacts
  have hpresents : @Presents markedHash (cleanedRun 181) row (182 * credentialDay) replayed.request :=
    @Presents.mk markedHash _ _ _ _ hrow ⟨hlive, ⟨_, henrolled, by decide⟩, hrefreshes⟩ hkey rfl
      (by decide) (by decide +kernel) helapsed
  have hreuse : (@rotateAttempt markedHash (answersAt (182 * credentialDay) "a2" "r2") .absent replayed
      (cleanedRun 181).db).1.error = some .reuse := by
    rw [(hdetected row (answersAt (182 * credentialDay) "a2" "r2") replayed hpresents).2]
    rfl
  exact absurd hreuse (by decide +kernel)

end Enrollment

end Komari
