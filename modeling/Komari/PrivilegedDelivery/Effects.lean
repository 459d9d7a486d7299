import Komari.PrivilegedDelivery.Deliver

/-!
# What the transactions write
-/

namespace Komari

namespace PrivilegedDelivery

open TrafficReset (trimSpace nanosPerSecond)

variable {env : Env} {clock : ℕ → ℤ} {db db₁ db₂ db' : Db} {id : String}

theorem map_snd_eq_ok {α : Type} {x : Except String (α × Db)} :
    x.map Prod.snd = .ok db ↔ ∃ a, x = .ok (a, db) := by
  cases x with
  | error e => simp [Except.map]
  | ok result =>
    obtain ⟨a, db'⟩ := result
    simp [Except.map]

/-! ### Transactions that leave operations and receipts -/

/-- Operations and receipts stay, and so do the states of machines. -/
structure Quiet (db db' : Db) : Prop where
  operations : db'.operations = db.operations
  receipts : db'.receipts = db.receipts
  states : ∀ id, (db.states.find? id).isSome → (db'.states.find? id).isSome

theorem Quiet.refl (db : Db) : Quiet db db := ⟨rfl, rfl, fun _ => id⟩

theorem Quiet.trans (h : Quiet db db₁) (h' : Quiet db₁ db₂) : Quiet db db₂ :=
  ⟨h'.operations.trans h.operations, h'.receipts.trans h.receipts, fun id hid => h'.states id (h.states id hid)⟩

theorem Quiet.of_eq (hoperations : db'.operations = db.operations) (hreceipts : db'.receipts = db.receipts)
    (hstates : db'.states = db.states) : Quiet db db' :=
  ⟨hoperations, hreceipts, fun _ hid => hstates ▸ hid⟩

theorem Quiet.written {state : StateRow} (hoperations : db'.operations = db.operations)
    (hreceipts : db'.receipts = db.receipts) (hstates : db'.states = db.states.upsert id state) :
    Quiet db db' where
  operations := hoperations
  receipts := hreceipts
  states id' hid := by
    rw [hstates, Table.find?_upsert]
    split_ifs
    · rfl
    · exact hid

/-- What `lockState` does. -/
structure Locked (id : String) (db : Db) (state : StateRow) (db' : Db) : Prop where
  quiet : Quiet db db'
  found : db'.states.find? id = some state
  /-- Nothing changes when it was there. -/
  same : (db.states.find? id).isSome → db' = db

theorem lockState_spec {now : ℤ} {state : StateRow} (h : lockState now id db = .ok (state, db')) :
    Locked id db state db' := by
  simp only [lockState, bind_eq_ok, refuse_eq_ok, found_eq_ok, exists_const] at h
  obtain ⟨-, -, -, h⟩ := h
  cases hfind : db.states.find? id with
  | some old =>
    simp only [hfind, Except.ok.injEq, Prod.mk.injEq] at h
    obtain ⟨rfl, rfl⟩ := h
    exact ⟨Quiet.refl _, hfind, fun _ => rfl⟩
  | none =>
    simp only [hfind, Except.ok.injEq, Prod.mk.injEq] at h
    obtain ⟨rfl, rfl⟩ := h
    exact ⟨Quiet.written rfl rfl rfl, Table.find?_upsert_self _ _ _, fun hsome => by
      rw [hfind] at hsome
      cases hsome⟩

theorem advance_quiet (now : ℤ) (id : String) (revision : ℕ) (state : StateRow) (row : RevisionRow)
    (db : Db) : Quiet db (advance now id revision state row db).2.2 :=
  Quiet.written rfl rfl rfl

theorem installedPrivilegeMode_quiet (id : String) (db : Db) :
    Quiet db (installedPrivilegeMode env id db).2 := by
  have hprofile : Quiet db (installedPrivilegeMode.profileMode env id db).2 := by
    unfold installedPrivilegeMode.profileMode
    cases db.clients.find? id with
    | none => exact Quiet.refl db
    | some client =>
      dsimp only
      split
      · exact Quiet.refl db
      · exact Quiet.refl db
      · split_ifs <;> exact Quiet.of_eq rfl rfl rfl
  unfold installedPrivilegeMode
  cases db.states.find? id with
  | none => exact hprofile
  | some state =>
    dsimp only
    split_ifs
    · exact Quiet.refl db
    · exact hprofile

theorem classify_quiet (id : String) (settings : Settings) (db : Db) :
    Quiet db (classify env id settings db).2.2.2 := by
  simp only [classify]
  split_ifs <;> exact installedPrivilegeMode_quiet id db

variable {row : RevisionRow}

theorem save_quiet {settings : Settings} {expectedRevision : ℕ}
    (h : save env clock id settings expectedRevision db = .ok (row, db')) : Quiet db db' := by
  simp only [save, bind_eq_ok, refuse_eq_ok, exists_const, Prod.exists] at h
  obtain ⟨state, db₁, hlock, -, -, -, -, -, h⟩ := h
  simp only [pure, Except.pure, Except.ok.injEq, Prod.mk.injEq] at h
  obtain ⟨-, rfl⟩ := h
  have hmode : Quiet db₁ (if settings.requiredPrivilegeMode = 0 then installedPrivilegeMode env id db₁
      else (settings.requiredPrivilegeMode, db₁)).2 := by
    split_ifs
    · exact installedPrivilegeMode_quiet id db₁
    · exact Quiet.refl db₁
  exact (((lockState_spec hlock).quiet.trans hmode).trans (classify_quiet id _ _)).trans
    (Quiet.written rfl rfl rfl)

theorem confirm_quiet {revision : ℕ} {user taskID nonce : String}
    (h : confirm clock id revision user taskID nonce db = .ok (row, db')) : Quiet db db' := by
  simp only [confirm, bind_eq_ok, refuse_eq_ok, exists_const, Prod.exists] at h
  obtain ⟨state, db₁, hlock, row', -, -, -, -, h⟩ := h
  refine (lockState_spec hlock).quiet.trans ?_
  split at h
  · cases h
    exact Quiet.refl _
  split at h
  · cases h
    exact Quiet.refl _
  · simp only [bind_eq_ok, refuse_eq_ok, exists_const] at h
    obtain ⟨-, -, -, h⟩ := h
    cases h
    exact advance_quiet _ _ _ _ _ _

theorem reportReceived_quiet {revision : ℕ} {event : ℤ}
    (h : reportReceived clock id revision event db = .ok (row, db')) : Quiet db db' := by
  simp only [reportReceived, bind_eq_ok, refuse_eq_ok, exists_const, Prod.exists] at h
  obtain ⟨state, db₁, hlock, row', -, -, -, h⟩ := h
  refine (lockState_spec hlock).quiet.trans ?_
  split_ifs at h
  · cases h
    exact advance_quiet _ _ _ _ _ _
  · cases h
    exact Quiet.refl _

theorem negotiate_quiet {service startup : String} {mode : ℤ} {actions : List ℤ} {state : StateRow}
    (h : negotiate clock id service startup mode actions db = .ok (state, db')) : Quiet db db' := by
  simp only [negotiate, bind_eq_ok, refuse_eq_ok, exists_const, Prod.exists] at h
  obtain ⟨-, -, state', db₁, hlock, -, h⟩ := h
  cases h
  exact (lockState_spec hlock).quiet.trans (Quiet.written rfl rfl rfl)

theorem stateEntry_quiet {now stamp : ℤ} {revision : ℕ} {state state' : StateRow}
    {row : Option RevisionRow}
    (h : stateEntry now stamp id revision state db = .ok (row, state', db')) : Quiet db db' := by
  simp only [stateEntry] at h
  split_ifs at h
  · cases h
    exact Quiet.refl _
  · simp only [bind_eq_ok] at h
    obtain ⟨row', -, h⟩ := h
    cases h
    unfold expire
    split_ifs
    · exact advance_quiet _ _ _ _ _ _
    · exact Quiet.refl _

theorem getState_quiet {snapshot : Snapshot} (h : getState clock id db = .ok (snapshot, db')) :
    Quiet db db' := by
  simp only [getState, bind_eq_ok, Prod.exists] at h
  obtain ⟨locked, db₁, hlock, desired, state, db₂, hdesired, applied, state', db₃, happlied, h⟩ := h
  cases h
  exact ((lockState_spec hlock).quiet.trans (stateEntry_quiet hdesired)).trans (stateEntry_quiet happlied)

theorem initializeBaseline_quiet {r : InitializeRequest} {profile : DeploymentProfile}
    {result : BaselineResult}
    (h : initializeBaseline env clock r profile db = .ok (result, db')) : Quiet db db' := by
  simp only [initializeBaseline, bind_eq_ok, refuse_eq_ok, found_eq_ok, exists_const, Prod.exists] at h
  obtain ⟨-, privileged, -, hash, -, state, db₁, hlock, h⟩ := h
  refine (lockState_spec hlock).quiet.trans ?_
  cases hbaseline : db₁.baselines.find? r.agentId with
  | some old =>
    simp only [hbaseline, bind_eq_ok] at h
    obtain ⟨-, -, row, -, h⟩ := h
    cases h
    exact Quiet.refl _
  | none =>
    simp only [hbaseline, bind_eq_ok, found_eq_ok] at h
    obtain ⟨client, -, h⟩ := h
    split at h
    · cases h
      exact Quiet.refl _
    split at h
    · cases h
      exact Quiet.refl _
    split at h
    · cases h
      exact Quiet.refl _
    · simp only [bind_eq_ok] at h
      obtain ⟨-, -, -, -, -, -, -, -, h⟩ := h
      split at h
      · cases h
        exact Quiet.written rfl rfl rfl
      · cases h
        exact Quiet.written rfl rfl rfl

/-! ### Receipts -/

/-- What `receipt` does: the receipt of the message is there afterwards. -/
theorem receipt_spec {now : ℤ} {key : String} {payload : Payload} {duplicate : Bool}
    (h : receipt env now id key payload db = .ok (duplicate, db')) :
    ∃ hash, env.payloadHash payload = some hash ∧
      ((duplicate = true ∧ db' = db ∧ ∃ old, db.receipts.find? (id, key) = some old ∧
          old.payloadHash = hash) ∨
        (duplicate = false ∧ db.receipts.find? (id, key) = none ∧
          db' = { db with receipts := db.receipts.upsert (id, key) ⟨hash, now⟩ })) := by
  simp only [receipt, bind_eq_ok, found_eq_ok] at h
  obtain ⟨-, -, hash, hhash, h⟩ := h
  refine ⟨hash, hhash, ?_⟩
  cases hfind : db.receipts.find? (id, key) with
  | some old =>
    simp only [hfind] at h
    split_ifs at h with hne
    cases h
    exact Or.inl ⟨rfl, rfl, old, rfl, not_not.mp hne⟩
  | none =>
    simp only [hfind, Except.ok.injEq, Prod.mk.injEq] at h
    obtain ⟨rfl, rfl⟩ := h
    exact Or.inr ⟨rfl, rfl, rfl⟩

/-! ### Operations -/

/-- The approval of an operation is the current one, beside the state and the revision that are stored. -/
def OfCurrent (state : StateRow) (row : RevisionRow) (op : HostOperation) : Prop :=
  Current state op.revision row ∧ row.approvalGeneration = op.approvalGeneration

/-- The record of an operation after a report. -/
def HostOperation.reported (op : HostOperation) (r : ReportRequest) (now : ℤ) : HostOperation :=
  { op with phase := r.phase, error := r.error, localAuthentication := r.localAuthentication
            operator := r.operator, updatedAt := now }

/-- What `ReportOperation` does with a message that is not a duplicate, in tables that have the state of the
machine. -/
structure Reported (clock : ℕ → ℤ) (r : ReportRequest) (state : StateRow) (row : RevisionRow)
    (op : HostOperation) (db db' : Db) : Prop where
  storedState : db.states.find? r.agentId = some state
  /-- The revision of the operation. -/
  storedRow : db.revisions.find? (r.agentId, op.revision) = some row
  storedOp : db.operations.find? (r.agentId, r.operationId) = some op
  operations : db'.operations =
    db.operations.upsert (r.agentId, r.operationId) (op.reported r (clock 3))
  legal : ¬IllegalTransition op r.phase row.state
  /-- A phase before the end is for a current approval, and in the lease. -/
  current : r.phase ≤ 3 → OfCurrent state row op ∧ clock 2 < op.leaseExpiresAt
  /-- Success has a local authentication. -/
  authenticated : r.phase = 3 → trimSpace r.operator ≠ "" ∧ trimSpace r.localAuthentication ≠ ""
  /-- When the approval was replaced, only the record is written. -/
  stale : ¬OfCurrent state row op → db' = { db with
    operations := db.operations.upsert (r.agentId, r.operationId) (op.reported r (clock 3)) }

/-- What a message does before it is looked at: the state is locked, and the receipt is written. -/
structure Received (env : Env) (clock : ℕ → ℤ) (id key : String) (payload : Payload) (state : StateRow)
    (duplicate : Bool) (db db' : Db) : Prop where
  locked : ∃ db₁, Locked id db state db₁ ∧ receipt env (clock 1) id key payload db₁ = .ok (duplicate, db')

theorem reportOperation_spec {r : ReportRequest} {op' : HostOperation}
    (h : reportOperation env clock r db = .ok (op', db')) :
    ∃ state duplicate db₁, Received env clock r.agentId r.receiptId (.report r) state duplicate db db₁ ∧
      ((duplicate = true ∧ db' = db₁) ∨ (duplicate = false ∧ db'.receipts = db₁.receipts ∧
        (∀ id, (db₁.states.find? id).isSome → (db'.states.find? id).isSome) ∧
          ∃ row op, Reported clock r state row op db₁ db')) := by
  simp only [reportOperation, bind_eq_ok, refuse_eq_ok, found_eq_ok, exists_const, Prod.exists] at h
  obtain ⟨-, state, db₁, hlock, op, hop, duplicate, db₂, hreceipt, h⟩ := h
  have hlocked := lockState_spec hlock
  refine ⟨state, duplicate, db₂, ⟨db₁, hlocked, hreceipt⟩, ?_⟩
  obtain ⟨hash, -, ⟨rfl, rfl, -⟩ | ⟨rfl, -, rfl⟩⟩ := receipt_spec hreceipt
  · simp only [if_true, Except.ok.injEq, Prod.mk.injEq] at h
    exact Or.inl ⟨rfl, h.2.symm⟩
  · right
    simp only [Bool.false_eq_true, if_false, bind_eq_ok, refuse_eq_ok, exists_const] at h
    obtain ⟨row, hrow, hreplaced, hlegal, hlease, hauth, h⟩ := h
    simp only [lockRevision, found_eq_ok] at hrow
    have hcurrent : r.phase ≤ 3 → OfCurrent state row op ∧ clock 2 < op.leaseExpiresAt := fun hphase =>
      ⟨not_not.mp fun hnot => hreplaced ⟨hphase, hnot⟩, not_not.mp fun hnot => hlease ⟨hphase, hnot⟩⟩
    have hauthenticated : r.phase = 3 → trimSpace r.operator ≠ "" ∧ trimSpace r.localAuthentication ≠ "" :=
      fun hphase => not_or.mp fun hnot => hauth ⟨hphase, hnot⟩
    split at h
    · cases h
      exact ⟨rfl, rfl, fun _ hid => hid, row, op, ⟨hlocked.found, hrow, hop, rfl, hlegal, hcurrent,
        hauthenticated, fun _ => rfl⟩⟩
    · rename_i hof
      cases h
      exact ⟨rfl, rfl, fun id hid => (advance_quiet _ _ _ _ _ _).states id hid, row, op,
        ⟨hlocked.found, hrow, hop, rfl, hlegal, hcurrent, hauthenticated,
          fun hnot => absurd (not_not.mp hof) hnot⟩⟩

theorem updateAppliedProfile_quiet {settings : Settings} {mode : ℤ}
    (h : updateAppliedProfile env id settings mode db = .ok db') : Quiet db db' := by
  simp only [updateAppliedProfile, bind_eq_ok, found_eq_ok, Prod.exists] at h
  obtain ⟨client, -, profile, row, -, h⟩ := h
  cases row with
  | none =>
    cases h
    exact Quiet.refl _
  | some row =>
    cases h
    exact Quiet.of_eq rfl rfl rfl

theorem observe_spec {key : String} {observation : Option DaemonObservation}
    (h : observe env clock id key observation db = .ok (row, db')) :
    ∃ o state duplicate db₁, observation = some o ∧
      Received env clock id key (.observation o) state duplicate db db₁ ∧
        ((duplicate = true ∧ db' = db₁) ∨ (duplicate = false ∧ Quiet db₁ db')) := by
  simp only [observe, bind_eq_ok, refuse_eq_ok, found_eq_ok, exists_const, Prod.exists] at h
  obtain ⟨o, ho, -, state, db₁, hlock, duplicate, db₂, hreceipt, row', -, h⟩ := h
  refine ⟨o, state, duplicate, db₂, ho, ⟨db₁, lockState_spec hlock, hreceipt⟩, ?_⟩
  cases duplicate with
  | true =>
    simp only [if_true, Except.ok.injEq, Prod.mk.injEq] at h
    exact Or.inl ⟨rfl, h.2.symm⟩
  | false =>
    simp only [Bool.false_eq_true, if_false, bind_eq_ok] at h
    obtain ⟨-, -, -, -, -, -, at', -, -, -, -, -, authorization, -, -, -, -, -, -, -, db₃, hprofile, h⟩ := h
    simp only [Except.ok.injEq, Prod.mk.injEq] at h
    obtain ⟨-, rfl⟩ := h
    exact Or.inr ⟨rfl, (updateAppliedProfile_quiet hprofile).trans (advance_quiet _ _ _ _ _ _)⟩

theorem failApply_spec {revision generation : ℕ} {key hash detail : String}
    (h : failApply env clock id revision key hash generation detail db = .ok (row, db')) :
    ∃ state duplicate db₁, Received env clock id key (.failure id revision hash generation key detail)
        state duplicate db db₁ ∧
      ((duplicate = true ∧ db' = db₁) ∨ (duplicate = false ∧ Quiet db₁ db')) := by
  simp only [failApply, bind_eq_ok, Prod.exists] at h
  obtain ⟨state, db₁, hlock, duplicate, db₂, hreceipt, row', -, h⟩ := h
  refine ⟨state, duplicate, db₂, ⟨db₁, lockState_spec hlock, hreceipt⟩, ?_⟩
  cases duplicate with
  | true =>
    simp only [if_true, Except.ok.injEq, Prod.mk.injEq] at h
    exact Or.inl ⟨rfl, h.2.symm⟩
  | false =>
    simp only [Bool.false_eq_true, if_false, bind_eq_ok] at h
    obtain ⟨-, -, -, -, -, -, -, -, h⟩ := h
    simp only [Except.ok.injEq, Prod.mk.injEq] at h
    obtain ⟨-, rfl⟩ := h
    exact Or.inr ⟨rfl, advance_quiet _ _ _ _ _ _⟩

theorem prepareOperation_spec {r : PrepareRequest} {op : HostOperation}
    (h : prepareOperation clock r db = .ok (op, db')) :
    ∃ state db₁, Locked r.agentId db state db₁ ∧
      (db' = db₁ ∨ (db₁.operations.find? (r.agentId, r.operationId) = none ∧ op.phase = 1 ∧
        db'.operations = db₁.operations.upsert (r.agentId, r.operationId) op ∧
          db'.receipts = db₁.receipts ∧
            ∀ id, (db₁.states.find? id).isSome → (db'.states.find? id).isSome)) := by
  simp only [prepareOperation, bind_eq_ok, refuse_eq_ok, exists_const, Prod.exists] at h
  obtain ⟨-, state, db₁, hlock, row, -, -, -, -, h⟩ := h
  refine ⟨state, db₁, lockState_spec hlock, ?_⟩
  cases hfind : db₁.operations.find? (r.agentId, r.operationId) with
  | some existing =>
    simp only [hfind, bind_eq_ok] at h
    obtain ⟨-, -, h⟩ := h
    cases h
    exact Or.inl rfl
  | none =>
    simp only [hfind, bind_eq_ok] at h
    obtain ⟨expires, -, -, -, authorization, -, -, -, -, -, h⟩ := h
    cases h
    exact Or.inr ⟨rfl, rfl, rfl, rfl, fun id hid => (advance_quiet _ _ _ _ _ _).states id hid⟩

end PrivilegedDelivery

end Komari
