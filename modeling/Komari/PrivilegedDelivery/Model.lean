import Komari.Codec.Result
import Komari.Table.Basic
import Komari.TrafficReset.Schedule

/-!
# Privileged delivery

Revisions of the privileged settings of a machine, the approvals that administrators give to them, and the
operations that a host carries out for an approval.

* `refuse`, `found` : the checks of a transaction; `refuse_eq_ok`, `found_eq_ok`.
-/

namespace Komari

namespace PrivilegedDelivery

open TrafficReset (trimSpace nanosPerSecond)

/-! ### Data -/

/-- The states of a machine. -/
inductive DeliveryState
  /-- `StateUnspecified` -/
  | unspecified
  /-- `StateNeedsConfirmation` -/
  | needsConfirmation
  /-- `StateNeedsManualAuthorization` -/
  | needsManualAuthorization
  /-- `StateDelivered` -/
  | delivered
  /-- `StateRolledBack` -/
  | rolledBack
  /-- `StateFailed` -/
  | failed
  /-- `StateAwaitingAgent` -/
  | awaitingAgent
  /-- `StateApplying` -/
  | applying
  /-- `StateSuperseded` -/
  | superseded
  /-- `StateExpired` -/
  | expired
deriving DecidableEq

/-- Who may apply a revision. -/
inductive UpgradeClass
  /-- `ClassUnspecified` -/
  | unspecified
  /-- `ClassAutomatic` -/
  | automatic
  /-- `ClassManualConfirm` -/
  | manualConfirm
  /-- `ClassManualPrivileged` -/
  | manualPrivileged
deriving DecidableEq

/-- The settings of a revision. -/
structure Settings where
  remoteControlEnabled : Bool
  webSSHEnabled : Bool
  executionEnabled : Bool
  enableGPU : Bool
  rescueHelperEnabled : Bool
  requiredPrivilegeMode : ℤ
deriving DecidableEq

/-- What a host may do. -/
structure HostAuthorization where
  agentId : String
  revision : ℕ
  configHash : String
  approvalGeneration : ℕ
  serviceId : String
  targetPrivilegeMode : ℤ
  nonce : String
  actions : List ℤ
  issuedAt : ℤ
  expiresAt : Option ℤ
  approvedBy : String
deriving DecidableEq

/-- `timestamppb.Timestamp`. -/
structure Timestamp where
  seconds : ℤ
  nanos : ℤ
deriving DecidableEq

/-- `CheckValid`. -/
def Timestamp.Valid (t : Timestamp) : Prop :=
  -62135596800 ≤ t.seconds ∧ t.seconds ≤ 253402300799 ∧ 0 ≤ t.nanos ∧ t.nanos < nanosPerSecond

instance (t : Timestamp) : Decidable t.Valid := inferInstanceAs (Decidable (_ ∧ _))

/-- In nanoseconds. -/
def Timestamp.asTime (t : Timestamp) : ℤ := t.seconds * nanosPerSecond + t.nanos

/-- `AgentCapabilities`: a capability is missing, or is available or not. -/
structure AgentCapabilities where
  privilegeMode : ℤ
  remoteControl : Option Bool
  webssh : Option Bool
  execution : Option Bool
  gpu : Option Bool
  detailedGpu : Option Bool
  rescueHelper : Option Bool
deriving DecidableEq

/-- What a daemon runs. -/
structure DaemonObservation where
  revision : ℕ
  configHash : String
  approvalGeneration : ℕ
  serviceId : String
  startupId : String
  privilegeMode : ℤ
  observedAt : Option Timestamp
  operationId : String
  effectiveCapabilities : Option AgentCapabilities
  helperAuthorized : Bool
  helperInstalled : Bool
  helperRunning : Bool
  helperLeaseReady : Bool
  other : String
deriving DecidableEq

/-- `PrepareHostOperationRequest`. -/
structure PrepareRequest where
  agentId : String
  operationId : String
  revision : ℕ
  approvalGeneration : ℕ
  configHash : String
  nonce : String
deriving DecidableEq

/-- `ReportHostOperationRequest`. -/
structure ReportRequest where
  agentId : String
  operationId : String
  receiptId : String
  phase : ℤ
  error : String
  localAuthentication : String
  operator : String
  other : String
deriving DecidableEq

/-- A message that a receipt is written for. -/
inductive Payload
  /-- `ReportHostOperationRequest` -/
  | report (r : ReportRequest)
  /-- `DaemonObservation` -/
  | observation (o : DaemonObservation)
  /-- `ReportPrivilegedDeliveryRequest`, as `FailApply` makes it. -/
  | failure (agentId : String) (revision : ℕ) (configHash : String) (approvalGeneration : ℕ)
      (receiptId detail : String)
deriving DecidableEq

/-! ### Tables -/

/-- `models.Client`. -/
structure Client where
  configBaselineEligible : Bool
  trafficResetDay : ℤ
deriving DecidableEq

/-- How a machine was installed. -/
structure DeploymentProfile where
  platform : String
  runtimeIdentity : String
  privilegedDeliveryVersion : ℕ
  serviceName : String
  enableGPU : Bool
  remoteControlEnabled : Bool
  rescueEnabled : Bool
  enableMonthRotate : Bool
  monthRotate : ℤ
deriving DecidableEq

/-- `models.ClientDeploymentProfile`. -/
structure ProfileRow where
  config : DeploymentProfile
  revision : ℕ
  appliedRevision : ℕ
deriving DecidableEq

/-- `models.ClientPrivilegedRevision`. -/
structure RevisionRow where
  installationBaseline : Bool
  config : Settings
  upgradeClass : UpgradeClass
  fromPrivilegeMode : ℤ
  toPrivilegeMode : ℤ
  state : DeliveryState
  protocolVersion : ℕ
  configHash : String
  authorization : Option HostAuthorization
  approvalGeneration : ℕ
  confirmedBy : String
  receivedAt : Option ℤ
  updateSequence : ℕ
  supersededAt : Option ℤ
  taskID : String
  nonce : String
  nonceExpires : Option ℤ
  nonceUsedAt : Option ℤ
  activePrivilegeMode : ℤ
  errorDetail : List UInt8
  previousRevision : ℕ
  confirmedAt : Option ℤ
  finishedAt : Option ℤ
  savedAt : ℤ
  updatedAt : ℤ
deriving DecidableEq

/-- `models.ClientPrivilegedState`. -/
structure StateRow where
  desiredRevision : ℕ
  appliedRevision : ℕ
  updateSequence : ℕ
  protocolVersion : ℕ
  serviceID : String
  supportedActions : List ℤ
  privilegeMode : ℤ
  startupID : String
  observation : Option DaemonObservation
  updatedAt : ℤ
deriving DecidableEq

/-- `models.ClientHostOperation`. -/
structure HostOperation where
  revision : ℕ
  approvalGeneration : ℕ
  authorization : Option HostAuthorization
  /-- Phase: 1 `PREPARED`, 2 running, 3 `LOCAL_APPLIED`, 4 failed, 5 `RESTORED`. -/
  phase : ℤ
  leaseExpiresAt : ℤ
  priorStartupID : String
  error : String
  localAuthentication : String
  operator : String
  createdAt : ℤ
  updatedAt : ℤ
deriving DecidableEq

/-- `models.ClientPrivilegedReceipt`. -/
structure Receipt where
  payloadHash : String
  createdAt : ℤ
deriving DecidableEq

/-- `models.ClientConfigBaseline`. -/
structure BaselineRow where
  requestHash : String
  createdAt : ℤ
deriving DecidableEq

/-- The tables of the delivery. -/
structure Db where
  clients : Table String Client
  profiles : Table String ProfileRow
  states : Table String StateRow
  revisions : Table (String × ℕ) RevisionRow
  operations : Table (String × String) HostOperation
  receipts : Table (String × String) Receipt
  baselines : Table String BaselineRow

/-- Hashes, clocks and names from outside. -/
structure Env where
  /-- The hash of a message and of its name, in hexadecimal digits, unless the message cannot be
  encoded. -/
  payloadHash : Payload → Option String
  settingsHash : Settings → String
  /-- `GetDeploymentProfileWithDB`: the profile, and the row that it leaves after a repair of the day. -/
  deploymentProfile : Client → Option ProfileRow → Except String (DeploymentProfile × Option ProfileRow)

/-! ### Checks -/

/-- A check of a transaction. -/
def refuse (p : Prop) [Decidable p] (text : String) : Except String Unit :=
  if p then .error text else .ok ()

@[simp] theorem refuse_eq_ok {p : Prop} [Decidable p] {text : String} {u : Unit} :
    refuse p text = .ok u ↔ ¬p := by
  unfold refuse
  split_ifs with h <;> simp [h]

/-- A transaction fails when something is not found. -/
def found {α : Type} (o : Option α) (text : String) : Except String α :=
  o.elim (.error text) .ok

@[simp] theorem found_eq_ok {α : Type} {o : Option α} {text : String} {a : α} :
    found o text = .ok a ↔ o = some a := by
  cases o <;> simp [found]

/-! ### What the transactions share -/

/-- The number of the last revision. -/
def Db.latest (db : Db) (id : String) : ℕ :=
  (db.revisions.rows.filter fun row => row.1.1 = id).foldl (fun n row => max n row.1.2) 0

/-- The row of a machine, new if it has none. -/
def lockState (clock : ℤ) (id : String) (db : Db) : Except String (StateRow × Db) := do
  refuse (trimSpace id = "") "agent ID is required"
  let _ ← found (db.clients.find? id) "record not found"
  match db.states.find? id with
  | some state => .ok (state, db)
  | none =>
    let state : StateRow := ⟨db.latest id, 0, 0, 1, "", [], 0, "", none, clock⟩
    .ok (state, { db with states := db.states.upsert id state })

/-- The row of a revision. -/
def lockRevision (id : String) (revision : ℕ) (db : Db) : Except String RevisionRow :=
  found (db.revisions.find? (id, revision)) s!"privileged revision {revision} was not found for this machine"

/-- A revision becomes the applied one. -/
def advance (now : ℤ) (id : String) (revision : ℕ) (state : StateRow) (row : RevisionRow) (db : Db) :
    StateRow × RevisionRow × Db :=
  let state := { state with updateSequence := state.updateSequence + 1, updatedAt := now }
  let row := { row with updateSequence := state.updateSequence, updatedAt := now }
  (state, row, { db with revisions := db.revisions.upsert (id, revision) row,
                         states := db.states.upsert id state })

/-- The machine knows the actions. -/
def supportsActions (state : StateRow) (required : List ℤ) : Bool :=
  required.all state.supportedActions.contains

/-- `receipt`: the message is a duplicate. -/
def receipt (env : Env) (now : ℤ) (id key : String) (payload : Payload) (db : Db) :
    Except String (Bool × Db) := do
  refuse (trimSpace key = "" ∨ 128 < key.utf8ByteSize) "receipt ID is required (max 128 bytes)"
  let hash ← found (env.payloadHash payload) "message cannot be encoded"
  match db.receipts.find? (id, key) with
  | some old =>
    if old.payloadHash ≠ hash then .error "receipt ID reused with different content" else .ok (true, db)
  | none => .ok (false, { db with receipts := db.receipts.upsert (id, key) ⟨hash, now⟩ })

/-- The revision is the one that is delivered. -/
def validateCurrent (state : StateRow) (revision : ℕ) (row : RevisionRow) : Except String Unit := do
  refuse (row.protocolVersion ≠ 2 ∨ state.protocolVersion ≠ 2) "privileged_delivery_v2 is required"
  refuse (state.desiredRevision ≠ revision ∨ row.supersededAt ≠ none ∨ row.state = .superseded)
    "revision has been superseded"
  refuse (row.confirmedAt = none ∨ row.approvalGeneration = 0) "revision is awaiting panel confirmation"

/-- `validateCurrent` accepts a revision. -/
def Current (state : StateRow) (revision : ℕ) (row : RevisionRow) : Prop :=
  row.protocolVersion = 2 ∧ state.protocolVersion = 2 ∧ state.desiredRevision = revision ∧
    row.supersededAt = none ∧ row.state ≠ .superseded ∧ row.confirmedAt ≠ none ∧
      row.approvalGeneration ≠ 0

instance (state : StateRow) (revision : ℕ) (row : RevisionRow) : Decidable (Current state revision row) :=
  inferInstanceAs (Decidable (_ ∧ _))

end PrivilegedDelivery

end Komari
