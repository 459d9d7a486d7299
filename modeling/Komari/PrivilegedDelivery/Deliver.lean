import Komari.PrivilegedDelivery.Model

/-!
# Transactions of the privileged delivery

Every call is one transaction: when it fails, the tables stay as they are.  The clock of a call answers its
readings of the time, the first one at `0`.
-/

namespace Komari

namespace PrivilegedDelivery

open TrafficReset (trimSpace nanosPerSecond)

variable (env : Env) (clock : ℕ → ℤ)

/-- A nonce is good so long. -/
def nonceLifetime : ℤ := 30 * 60 * nanosPerSecond

/-- A host has so long for an operation. -/
def operationLease : ℤ := 10 * 60 * nanosPerSecond

/-- How far an observation may be ahead of the panel. -/
def observationSkew : ℤ := 5 * 60 * nanosPerSecond

/-- `truncate`: a text is cut by its bytes. -/
def truncate (value : String) (limit : ℕ) : List UInt8 := (trimSpace value).toUTF8.data.toList.take limit

/-! ### Revisions -/

/-- `InstalledPrivilegeModeWithDB`. -/
def installedPrivilegeMode (id : String) (db : Db) : ℤ × Db :=
  match db.states.find? id with
  | some state =>
    if state.protocolVersion = 2 ∧ state.privilegeMode ≠ 0 then (state.privilegeMode, db)
    else profileMode
  | none => profileMode
where
  /-- The identity of the deployment profile. -/
  profileMode : ℤ × Db :=
    match db.clients.find? id with
    | none => (0, db)
    | some client =>
      match env.deploymentProfile client (db.profiles.find? id) with
      | .error _ | .ok (_, none) => (0, db)
      | .ok (profile, some row) =>
        let db := { db with profiles := db.profiles.upsert id row }
        let windows := profile.platform.toLower = "windows"
        if profile.runtimeIdentity = "service-account" then (if windows then 4 else 2, db)
        else (if windows then 3 else 1, db)

/-- Whether settings need a confirmation. -/
def classify (id : String) (settings : Settings) (db : Db) : UpgradeClass × ℤ × ℤ × Db :=
  let (mode, db) := installedPrivilegeMode env id db
  let target := if settings.requiredPrivilegeMode = 0 then mode else settings.requiredPrivilegeMode
  if target ≠ mode ∨ settings.rescueHelperEnabled then (.manualPrivileged, mode, target, db)
  else (.manualConfirm, mode, target, db)

/-- The revisions of a machine that are open are replaced. -/
def supersede (id : String) (now : ℤ) (sequence : ℕ) (db : Db) : Db :=
  let opened := db.revisions.rows.filter fun row => decide (row.1.1 = id ∧ row.2.state ∈
    [.needsConfirmation, .needsManualAuthorization, .awaitingAgent, .applying, .expired])
  { db with revisions := db.revisions.upsertAll (opened.map fun row => (row.1,
      { row.2 with state := .superseded, supersededAt := some now, nonce := "",
                   updateSequence := sequence, updatedAt := now })) }

/-- `SaveWithDB`. -/
def save (id : String) (settings : Settings) (expectedRevision : ℕ) (db : Db) :
    Except String (RevisionRow × Db) := do
  let (state, db) ← lockState (clock 0) id db
  refuse (expectedRevision ≠ state.desiredRevision)
    s!"privileged configuration conflict: expected {expectedRevision}, current {state.desiredRevision}"
  refuse ((settings.webSSHEnabled ∨ settings.executionEnabled) ∧ ¬settings.remoteControlEnabled)
    "webssh and execution require remote control"
  refuse (settings.requiredPrivilegeMode < 0 ∨ 5 < settings.requiredPrivilegeMode)
    "unsupported privilege mode"
  let (mode, db) :=
    if settings.requiredPrivilegeMode = 0 then installedPrivilegeMode env id db
    else (settings.requiredPrivilegeMode, db)
  refuse (mode = 0) "actual service identity must be negotiated before saving privileged configuration"
  let settings := { settings with requiredPrivilegeMode := mode }
  let (upgrade, current, target, db) := classify env id settings db
  let now := clock 1
  let db := supersede id now (state.updateSequence + 1) db
  let revision := state.desiredRevision + 1
  refuse ((db.revisions.find? (id, revision)).isSome) "UNIQUE constraint failed"
  let row : RevisionRow :=
    { installationBaseline := false, config := settings, upgradeClass := upgrade
      fromPrivilegeMode := current, toPrivilegeMode := target, state := .needsConfirmation
      protocolVersion := 2, configHash := env.settingsHash settings, authorization := none
      approvalGeneration := 0, confirmedBy := "", receivedAt := none
      updateSequence := state.updateSequence + 1, supersededAt := none, taskID := "", nonce := ""
      nonceExpires := none, nonceUsedAt := none, activePrivilegeMode := 0, errorDetail := []
      previousRevision := state.appliedRevision, confirmedAt := none, finishedAt := none
      savedAt := now, updatedAt := now }
  let state := { state with desiredRevision := revision, updateSequence := state.updateSequence + 1
                            updatedAt := now }
  return (row, { db with revisions := db.revisions.upsert (id, revision) row
                         states := db.states.upsert id state })

/-- The actions that lead to a revision. -/
def requiredActions (state : StateRow) (row : RevisionRow) : List ℤ :=
  let installed := (state.observation.map DaemonObservation.helperInstalled).getD false
  (if row.toPrivilegeMode ≠ state.privilegeMode then [1] else []) ++
    (if row.config.rescueHelperEnabled ∧ ¬installed then [2] else []) ++
      (if ¬row.config.rescueHelperEnabled ∧ installed then [3] else [])

/-- `ConfirmWithDB`, where the random source answers `taskID` and `nonce`. -/
def confirm (id : String) (revision : ℕ) (user taskID nonce : String) (db : Db) :
    Except String (RevisionRow × Db) := do
  let (state, db) ← lockState (clock 0) id db
  let row ← lockRevision id revision db
  refuse (state.desiredRevision ≠ revision ∨ row.supersededAt ≠ none) "revision has been superseded"
  refuse (row.protocolVersion ≠ 2) "legacy task must be superseded by a v2 revision"
  refuse (trimSpace user = "") "an approving user is required"
  let now := clock 1
  if row.state = .delivered then .ok (row, db)
  else if row.confirmedAt ≠ none ∧ row.nonceExpires.any (fun t => decide (now < t)) ∧
      row.state ∈ [.needsManualAuthorization, .awaitingAgent, .applying, .delivered] then .ok (row, db)
  else do
    refuse (row.state ∉ [.needsConfirmation, .expired, .needsManualAuthorization, .awaitingAgent])
      "revision cannot be confirmed in its current state"
    refuse (state.protocolVersion ≠ 2 ∨ state.serviceID = "")
      "agent must negotiate privileged_delivery_v2 before approval"
    let actions := requiredActions state row
    refuse (supportsActions state actions = false) "host does not support a required administrative action"
    let expiry := now + nonceLifetime
    let generation := row.approvalGeneration + 1
    let row :=
      { row with
        state := if actions ≠ [] then .needsManualAuthorization else .awaitingAgent
        upgradeClass := if actions ≠ [] then .manualPrivileged else .manualConfirm
        confirmedAt := some now, confirmedBy := user, approvalGeneration := generation
        taskID := taskID, nonce := nonce, nonceUsedAt := none, nonceExpires := some expiry
        authorization := some ⟨id, revision, row.configHash, generation, state.serviceID,
          row.toPrivilegeMode, nonce, actions, now, some expiry, user⟩ }
    let (_, row, db) := advance (clock 2) id revision state row db
    return (row, db)

/-- `ReportWithDB`. -/
def reportReceived (id : String) (revision : ℕ) (event : ℤ) (db : Db) :
    Except String (RevisionRow × Db) := do
  let (state, db) ← lockState (clock 0) id db
  let row ← lockRevision id revision db
  refuse (event ≠ 1 ∧ event ≠ 2) "legacy terminal reports are disabled; upgrade to privileged_delivery_v2"
  refuse (row.state = .superseded) "revision has been superseded"
  if row.receivedAt = none then
    let (_, row, db) := advance (clock 2) id revision state { row with receivedAt := some (clock 1) } db
    return (row, db)
  else return (row, db)

/-- What a machine that connects is to do. -/
def negotiate (id service startup : String) (mode : ℤ) (actions : List ℤ) (db : Db) :
    Except String (StateRow × Db) := do
  refuse (trimSpace service = "" ∨ 255 < service.utf8ByteSize ∨ trimSpace startup = "" ∨
      128 < startup.utf8ByteSize ∨ mode < 1 ∨ 5 < mode)
    "valid service, startup ID and actual mode are required"
  refuse (actions.any fun a => a < 1 ∨ 3 < a) "unsupported host action"
  let (state, db) ← lockState (clock 0) id db
  refuse (state.serviceID ≠ "" ∧ state.serviceID ≠ service)
    "service identity binding cannot be changed by negotiation"
  let state := { state with protocolVersion := 2, serviceID := service, startupID := startup
                            privilegeMode := mode, supportedActions := actions
                            updateSequence := state.updateSequence + 1, updatedAt := clock 1 }
  return (state, { db with states := db.states.upsert id state })

/-- An approval that nothing has claimed expires. -/
def expire (now stamp : ℤ) (id : String) (revision : ℕ) (state : StateRow) (row : RevisionRow) (db : Db) :
    StateRow × RevisionRow × Db :=
  if revision = state.desiredRevision ∧ row.confirmedAt ≠ none ∧
      row.nonceExpires.any (fun t => decide (t ≤ now)) ∧
        row.state ∈ [.needsManualAuthorization, .awaitingAgent] then
    advance stamp id revision state { row with state := .expired } db
  else (state, row, db)

/-- One of the two revisions of `getStateTransactional`. -/
def stateEntry (now stamp : ℤ) (id : String) (revision : ℕ) (state : StateRow) (db : Db) :
    Except String (Option RevisionRow × StateRow × Db) := do
  if revision = 0 then .ok (none, state, db)
  else
    let row ← lockRevision id revision db
    let (state, row, db) := expire now stamp id revision state row db
    return (some row, state, db)

/-- What `GetState` answers. -/
structure Snapshot where
  desired : Option RevisionRow
  applied : Option RevisionRow
  state : StateRow
  /-- The last operation for the newest revision. -/
  operation : Option HostOperation

/-- `getStateTransactional`; `GetStateWithDB` reads only, or calls it. -/
def getState (id : String) (db : Db) : Except String (Snapshot × Db) := do
  let (locked, db) ← lockState (clock 0) id db
  let (desired, state, db) ← stateEntry (clock 1) (clock 2) id locked.desiredRevision locked db
  let (applied, state, db) ← stateEntry (clock 3) (clock 4) id locked.appliedRevision state db
  let operations := db.operations.rows.filter fun row =>
    decide (row.1.1 = id ∧ row.2.revision = state.desiredRevision)
  return (⟨desired, applied, state, (operations.map Prod.snd).maxOn? HostOperation.createdAt⟩, db)

/-- The privileged settings of an `InitializeNodeConfigRequest`. -/
structure BaselineSettings where
  requiredPrivilegeMode : ℤ
  remoteControlEnabled : Option Bool
  websshEnabled : Option Bool
  executionEnabled : Option Bool
  enableGpu : Option Bool
  rescueHelperEnabled : Option Bool
deriving DecidableEq

/-- `InitializeNodeConfigRequest`. -/
structure InitializeRequest where
  agentId : String
  serviceId : String
  runtime : Bool
  privileged : Option BaselineSettings
  policyHash : String
  /-- The runtime configuration of the machine stays. -/
  preserveRuntime : Bool
  /-- The hash of the request, unless it cannot be encoded. -/
  hash : Option String

/-- How `InitializeBaseline` ended. -/
inductive BaselineResult
  | initialized (privileged : RevisionRow)
  /-- `SkippedReason` -/
  | skipped (reason : String)

/-- The profile that an installation asks for. -/
def installationProfile (r : InitializeRequest) (settings : Settings) (mode : ℤ)
    (profile : DeploymentProfile) : DeploymentProfile :=
  { profile with
    privilegedDeliveryVersion := 2, serviceName := r.serviceId, enableGPU := settings.enableGPU
    remoteControlEnabled := settings.remoteControlEnabled
    runtimeIdentity := if mode = 1 ∨ mode = 3 then "root-or-administrator" else profile.runtimeIdentity }

/-- The first revision of a machine. -/
def initializeBaseline (r : InitializeRequest) (profile : DeploymentProfile) (db : Db) :
    Except String (BaselineResult × Db) := do
  refuse (r.runtime = false ∨ r.policyHash.utf8ByteSize ≠ 64)
    "runtime, privileged settings and policy hash are required"
  let privileged ← found r.privileged "runtime, privileged settings and policy hash are required"
  let hash ← found r.hash "request cannot be encoded"
  let (state, db) ← lockState (clock 0) r.agentId db
  match db.baselines.find? r.agentId with
  | some old =>
    refuse (old.requestHash ≠ hash) "installation baseline retry changed its immutable request"
    let row ← lockRevision r.agentId 1 db
    return (.initialized row, db)
  | none =>
    let client ← found (db.clients.find? r.agentId) "record not found"
    let existing := db.profiles.find? r.agentId
    if client.configBaselineEligible = false ∧ r.preserveRuntime = false then
      .ok (.skipped "existing node requires preserve_runtime for a deny-only privileged baseline", db)
    else if (db.revisions.rows.any fun row => row.1.1 = r.agentId) ∨ state.desiredRevision ≠ 0 ∨
        state.appliedRevision ≠ 0 then
      .ok (.skipped "privileged configuration history already exists", db)
    else if r.preserveRuntime = false ∧
        existing.any (fun row => decide (row.revision ≠ 0 ∨ row.appliedRevision ≠ 0)) then
      .ok (.skipped "ordinary configuration history must be preserved", db)
    else do
      refuse (state.protocolVersion ≠ 2 ∨ state.serviceID ≠ r.serviceId ∨
          state.privilegeMode ≠ privileged.requiredPrivilegeMode)
        "baseline does not match negotiated service identity"
      refuse (privileged.rescueHelperEnabled = some true)
        "first-install baseline cannot install a rescue helper"
      let settings : Settings :=
        { remoteControlEnabled := privileged.remoteControlEnabled.getD false
          webSSHEnabled := privileged.websshEnabled.getD false
          executionEnabled := privileged.executionEnabled.getD false
          enableGPU := privileged.enableGpu.getD false
          rescueHelperEnabled := false
          requiredPrivilegeMode := privileged.requiredPrivilegeMode }
      refuse (r.preserveRuntime ∧ (settings.remoteControlEnabled ∨ settings.webSSHEnabled ∨
          settings.executionEnabled ∨ settings.enableGPU))
        "migration baseline must deny all optional privileged capabilities"
      refuse (¬settings.remoteControlEnabled ∧ (settings.webSSHEnabled ∨ settings.executionEnabled))
        "baseline child capability requires master authorization"
      let now := clock 1
      let configHash := env.settingsHash settings
      let row : RevisionRow :=
        { installationBaseline := true, config := settings, upgradeClass := .manualConfirm
          fromPrivilegeMode := state.privilegeMode, toPrivilegeMode := state.privilegeMode
          state := .awaitingAgent, protocolVersion := 2, configHash := configHash
          authorization := some ⟨r.agentId, 1, configHash, 1, r.serviceId, state.privilegeMode, "", [],
            now, none, "local-installation"⟩
          approvalGeneration := 1, confirmedBy := "local-installation", receivedAt := none
          updateSequence := 0, supersededAt := none, taskID := "", nonce := "", nonceExpires := none
          nonceUsedAt := none, activePrivilegeMode := 0, errorDetail := [], previousRevision := 0
          confirmedAt := some now, finishedAt := none, savedAt := now, updatedAt := now }
      let (_, row, db) := advance (clock 2) r.agentId 1 { state with desiredRevision := 1 } row db
      let db := { db with baselines := db.baselines.upsert r.agentId ⟨hash, now⟩ }
      if r.preserveRuntime then
        return (.initialized row, { db with
          clients := db.clients.upsert r.agentId { client with configBaselineEligible := false } })
      else
        let profile := installationProfile r settings state.privilegeMode profile
        let resetDay := if profile.enableMonthRotate then profile.monthRotate else 0
        return (.initialized row, { db with
          profiles := db.profiles.upsert r.agentId ⟨profile, 1, 0⟩
          clients := db.clients.upsert r.agentId ⟨false, resetDay⟩ })

/-! ### Operations of hosts -/

/-- A host begins an operation. -/
def prepareOperation (r : PrepareRequest) (db : Db) : Except String (HostOperation × Db) := do
  refuse (trimSpace r.operationId = "" ∨ 128 < r.operationId.utf8ByteSize)
    "operation ID is required (max 128 bytes)"
  let (state, db) ← lockState (clock 0) r.agentId db
  let row ← lockRevision r.agentId r.revision db
  validateCurrent state r.revision row
  refuse (r.approvalGeneration ≠ row.approvalGeneration ∨ r.configHash ≠ row.configHash ∨ r.nonce = "" ∨
      r.nonce ≠ row.nonce)
    "approval generation, hash or nonce mismatch"
  match db.operations.find? (r.agentId, r.operationId) with
  | some existing =>
    refuse (existing.revision ≠ r.revision ∨ existing.approvalGeneration ≠ r.approvalGeneration)
      "operation ID reused for a different approval"
    return (existing, db)
  | none =>
    let now := clock 1
    let expires ← found row.nonceExpires "approval is not executable, expired or already claimed"
    refuse (row.state ≠ .needsManualAuthorization ∨ row.nonceUsedAt ≠ none ∨ ¬now < expires)
      "approval is not executable, expired or already claimed"
    let authorization ← found row.authorization "missing signed authorization"
    refuse (supportsActions state authorization.actions = false)
      "required host action support has been withdrawn"
    refuse (authorization.serviceId ≠ state.serviceID) "service binding mismatch"
    let lease := min (now + operationLease) expires
    let op : HostOperation :=
      { revision := r.revision, approvalGeneration := row.approvalGeneration
        authorization := row.authorization, phase := 1, leaseExpiresAt := lease
        priorStartupID := state.startupID, error := "", localAuthentication := "", operator := ""
        createdAt := now, updatedAt := now }
    let db := { db with operations := db.operations.upsert (r.agentId, r.operationId) op }
    let (_, _, db) := advance (clock 2) r.agentId r.revision state
      { row with nonceUsedAt := some now, state := .applying } db
    return (op, db)

/-- The transition of an operation is illegal. -/
def IllegalTransition (op : HostOperation) (phase : ℤ) (state : DeliveryState) : Prop :=
  4 ≤ op.phase ∨ (op.phase = 3 ∧ phase < 4) ∨ phase < 2 ∨ 5 < phase ∨ phase < op.phase ∨
    (state = .delivered ∧ phase ≠ 5) ∨ (state = .failed ∧ phase ≤ 3)

instance (op : HostOperation) (phase : ℤ) (state : DeliveryState) :
    Decidable (IllegalTransition op phase state) :=
  inferInstanceAs (Decidable (_ ∨ _))

/-- A host says how it went. -/
def reportOperation (r : ReportRequest) (db : Db) : Except String (HostOperation × Db) := do
  refuse (4096 < r.error.utf8ByteSize ∨ 128 < r.operator.utf8ByteSize ∨
      64 < r.localAuthentication.utf8ByteSize)
    "host report exceeds size limit"
  let (state, db) ← lockState (clock 0) r.agentId db
  let op ← found (db.operations.find? (r.agentId, r.operationId)) "record not found"
  let (duplicate, db) ← receipt env (clock 1) r.agentId r.receiptId (.report r) db
  if duplicate then .ok (op, db)
  else do
    let row ← lockRevision r.agentId op.revision db
    let current := Current state op.revision row ∧ row.approvalGeneration = op.approvalGeneration
    refuse (r.phase ≤ 3 ∧ ¬current) "host operation approval has been replaced"
    refuse (IllegalTransition op r.phase row.state) "illegal host operation transition"
    refuse (r.phase ≤ 3 ∧ ¬clock 2 < op.leaseExpiresAt) "host execution lease has expired"
    refuse (r.phase = 3 ∧ (trimSpace r.operator = "" ∨ trimSpace r.localAuthentication = ""))
      "local OS authentication audit metadata is required"
    let op := { op with phase := r.phase, error := r.error, localAuthentication := r.localAuthentication
                        operator := r.operator, updatedAt := clock 3 }
    let db := { db with operations := db.operations.upsert (r.agentId, r.operationId) op }
    if ¬current then .ok (op, db)
    else
      let row := if 4 ≤ r.phase then
          { row with state := .failed, errorDetail := truncate r.error 512, finishedAt := some (clock 4) }
        else row
      let (_, _, db) := advance (clock 5) r.agentId op.revision state row db
      .ok (op, db)

/-- The capability is there. -/
def available (capability : Option Bool) : Bool := capability = some true

/-- `UpdateAppliedPrivilegedProfileWithDB`. -/
def updateAppliedProfile (id : String) (settings : Settings) (mode : ℤ) (db : Db) :
    Except String Db := do
  let client ← found (db.clients.find? id) "record not found"
  let (profile, row) ← env.deploymentProfile client (db.profiles.find? id)
  match row with
  | none => .ok db
  | some row =>
    let profile := { profile with
      privilegedDeliveryVersion := 2, remoteControlEnabled := settings.remoteControlEnabled
      enableGPU := settings.enableGPU, rescueEnabled := settings.rescueHelperEnabled
      runtimeIdentity := if mode = 1 ∨ mode = 3 then "root-or-administrator" else "service-account" }
    .ok { db with profiles := db.profiles.upsert id { row with config := profile } }

/-- The checks of `Observe` on the operation of an approval. -/
def checkOperation (id : String) (revision : ℕ) (row : RevisionRow) (authorization : HostAuthorization)
    (o : DaemonObservation) (db : Db) : Except String Unit := do
  if authorization.actions ≠ [] then do
    let op ← found (db.operations.find? (id, o.operationId)) "matching host operation is required"
    refuse (op.revision ≠ revision ∨ op.approvalGeneration ≠ row.approvalGeneration ∨ op.phase ≠ 3)
      "host operation has not completed locally"
    refuse (1 ∈ authorization.actions ∧ o.startupId = op.priorStartupID)
      "identity conversion requires a restarted daemon"
  else
    refuse (row.installationBaseline = false ∧ ¬row.nonceExpires.any (fun t => decide (clock 3 < t)))
      "approval has expired"

/-- The checks of `Observe` on what the daemon can do. -/
def checkCapabilities (settings : Settings) (o : DaemonObservation) : Except String Unit := do
  let c ← found o.effectiveCapabilities "effective capabilities are required"
  refuse (c.privilegeMode ≠ o.privilegeMode) "effective capabilities are required"
  refuse (available c.remoteControl ≠ settings.remoteControlEnabled ∨
      available c.webssh ≠ (settings.remoteControlEnabled && settings.webSSHEnabled) ∨
      available c.execution ≠ (settings.remoteControlEnabled && settings.executionEnabled))
    "effective remote capabilities do not match approved settings"
  refuse (settings.enableGPU = false ∧ (available c.gpu ∨ available c.detailedGpu))
    "GPU collection exceeds approval"
  refuse (available c.rescueHelper ≠ settings.rescueHelperEnabled)
    "effective helper capability does not match target"
  refuse (o.helperAuthorized ≠ settings.rescueHelperEnabled ∨
      o.helperInstalled ≠ settings.rescueHelperEnabled ∨
      (settings.rescueHelperEnabled ∧ (o.helperRunning = false ∨ o.helperLeaseReady = false)) ∨
      (settings.rescueHelperEnabled = false ∧ (o.helperRunning ∨ o.helperLeaseReady)))
    "helper installation/authorization does not match target"

/-- What the daemon says that it runs. -/
def observe (id key : String) (observation : Option DaemonObservation) (db : Db) :
    Except String (RevisionRow × Db) := do
  let o ← found observation "daemon startup identity is required"
  refuse (128 < o.startupId.utf8ByteSize ∨ trimSpace o.startupId = "")
    "daemon startup identity is required"
  let (state, db) ← lockState (clock 0) id db
  let (duplicate, db) ← receipt env (clock 1) id key (.observation o) db
  let row ← lockRevision id o.revision db
  if duplicate then .ok (row, db)
  else do
    validateCurrent state o.revision row
    refuse (row.state ∉ [.applying, .awaitingAgent, .delivered])
      "revision is not awaiting a daemon apply acknowledgement"
    refuse (o.configHash ≠ row.configHash ∨ o.approvalGeneration ≠ row.approvalGeneration ∨
        o.serviceId ≠ state.serviceID)
      "observation does not match approval"
    let observedAt ← found o.observedAt "invalid observation time"
    refuse (¬observedAt.Valid ∨ row.confirmedAt.any (fun t => decide (observedAt.asTime < t)) ∨
        clock 2 + observationSkew < observedAt.asTime)
      "invalid observation time"
    refuse (o.privilegeMode ≠ row.toPrivilegeMode) "daemon identity does not match target"
    let authorization ← found row.authorization "missing authorization"
    checkOperation clock id o.revision row authorization o db
    checkCapabilities row.config o
    refuse (((state.observation.bind DaemonObservation.observedAt).any fun previous =>
        decide (observedAt.asTime < previous.asTime)) = true)
      "stale daemon observation"
    let db ← updateAppliedProfile env id row.config o.privilegeMode db
    let (_, row, db) := advance (clock 5) id o.revision
      { state with appliedRevision := o.revision, observation := some o
                   privilegeMode := o.privilegeMode, startupID := o.startupId }
      { row with state := .delivered, activePrivilegeMode := o.privilegeMode, errorDetail := []
                 finishedAt := some (clock 4) } db
    .ok (row, db)

/-- The daemon could not apply a revision. -/
def failApply (id : String) (revision : ℕ) (key hash : String) (generation : ℕ) (detail : String)
    (db : Db) : Except String (RevisionRow × Db) := do
  let (state, db) ← lockState (clock 0) id db
  let (duplicate, db) ← receipt env (clock 1) id key (.failure id revision hash generation key detail) db
  let row ← lockRevision id revision db
  if duplicate then .ok (row, db)
  else do
    validateCurrent state revision row
    refuse (hash ≠ row.configHash ∨ generation ≠ row.approvalGeneration) "failure does not match approval"
    refuse (row.state ∉ [.awaitingAgent, .applying, .needsManualAuthorization])
      "terminal revision cannot be changed by a failure report"
    refuse (trimSpace detail = "") "application failure needs an error detail"
    let (_, row, db) := advance (clock 3) id revision state
      { row with state := .failed, errorDetail := truncate detail 512, finishedAt := some (clock 2) } db
    .ok (row, db)

/-! ### Calls -/

/-- A message of a machine with a receipt. -/
inductive Message
  /-- `ReportOperation` -/
  | report (r : ReportRequest)
  | observe (id key : String) (observation : Option DaemonObservation)
  | failApply (id : String) (revision : ℕ) (key hash : String) (generation : ℕ) (detail : String)

/-- The machine and the id of the receipt of a message. -/
def Message.receiptKey : Message → String × String
  | .report r => (r.agentId, r.receiptId)
  | .observe id key _ => (id, key)
  | .failApply id _ key _ _ _ => (id, key)

/-- What the receipt of a message is written for. -/
def Message.payload : Message → Option Payload
  | .report r => some (.report r)
  | .observe _ _ observation => observation.map .observation
  | .failApply id revision key hash generation detail =>
    some (.failure id revision hash generation key detail)

/-- A message is handled. -/
def Message.deliver (db : Db) : Message → Except String Db
  | .report r => (PrivilegedDelivery.reportOperation env clock r db).map Prod.snd
  | .observe id key observation => (PrivilegedDelivery.observe env clock id key observation db).map Prod.snd
  | .failApply id revision key hash generation detail =>
    (PrivilegedDelivery.failApply env clock id revision key hash generation detail db).map Prod.snd

/-- The calls of the service. -/
inductive Call
  | save (id : String) (settings : Settings) (expectedRevision : ℕ)
  | confirm (id : String) (revision : ℕ) (user taskID nonce : String)
  /-- `Report` -/
  | reportReceived (id : String) (revision : ℕ) (event : ℤ)
  | negotiate (id service startup : String) (mode : ℤ) (actions : List ℤ)
  | getState (id : String)
  | initializeBaseline (r : InitializeRequest) (profile : DeploymentProfile)
  /-- `PrepareOperation` -/
  | prepare (r : PrepareRequest)
  /-- A message of a machine. -/
  | message (m : Message)

/-- One call, without its transaction. -/
def Call.exec (db : Db) : Call → Except String Db
  | .save id settings expectedRevision => (PrivilegedDelivery.save env clock id settings expectedRevision db).map Prod.snd
  | .confirm id revision user taskID nonce =>
    (PrivilegedDelivery.confirm clock id revision user taskID nonce db).map Prod.snd
  | .reportReceived id revision event => (PrivilegedDelivery.reportReceived clock id revision event db).map Prod.snd
  | .negotiate id service startup mode actions =>
    (PrivilegedDelivery.negotiate clock id service startup mode actions db).map Prod.snd
  | .getState id => (PrivilegedDelivery.getState clock id db).map Prod.snd
  | .initializeBaseline r profile => (PrivilegedDelivery.initializeBaseline env clock r profile db).map Prod.snd
  | .prepare r => (prepareOperation clock r db).map Prod.snd
  | .message m => m.deliver env clock db

/-- A call with the times that it reads; when its transaction fails, nothing changes. -/
def Db.step (db : Db) (call : Call × (ℕ → ℤ)) : Db :=
  match call.1.exec env call.2 db with
  | .ok db' => db'
  | .error _ => db

/-- Calls one after the other. -/
def run (db : Db) (calls : List (Call × (ℕ → ℤ))) : Db := calls.foldl (Db.step env) db

end PrivilegedDelivery

end Komari
