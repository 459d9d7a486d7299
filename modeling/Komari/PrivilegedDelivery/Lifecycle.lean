import Komari.PrivilegedDelivery.Effects

/-!
# The life of a host operation

* `host_operation_lifecycle` : what holds in every run.
-/

namespace Komari

namespace PrivilegedDelivery

open TrafficReset (trimSpace)

variable {env : Env} {clock : ℕ → ℤ} {db db₁ db' : Db}

/-! ### What every call keeps -/

/-- Operations and receipts belong to machines with a state. -/
structure Rooted (db : Db) : Prop where
  operations : ∀ key op, db.operations.find? key = some op → (db.states.find? key.1).isSome
  receipts : ∀ key old, db.receipts.find? key = some old → (db.states.find? key.1).isSome

/-- What every call keeps of operations and receipts. -/
structure Grows (db db' : Db) : Prop where
  states : ∀ id, (db.states.find? id).isSome → (db'.states.find? id).isSome
  /-- Receipts stay as they are. -/
  receipts : ∀ key old, db.receipts.find? key = some old → db'.receipts.find? key = some old
  /-- New receipts belong to machines with a state. -/
  freshReceipts : ∀ key new, db'.receipts.find? key = some new →
    db.receipts.find? key = some new ∨ (db'.states.find? key.1).isSome
  /-- New operations belong to machines with a state. -/
  freshOperations : ∀ key op, db'.operations.find? key = some op →
    (∃ old, db.operations.find? key = some old) ∨ (db'.states.find? key.1).isSome

theorem Grows.refl (db : Db) : Grows db db :=
  ⟨fun _ => id, fun _ _ => id, fun _ _ => Or.inl, fun _ op h => Or.inl ⟨op, h⟩⟩

theorem Rooted.grows (h : Rooted db) (hgrows : Grows db db') : Rooted db' where
  operations key op hop := by
    rcases hgrows.freshOperations key op hop with ⟨old, hold⟩ | hstate
    · exact hgrows.states key.1 (h.operations key old hold)
    · exact hstate
  receipts key new hnew := by
    rcases hgrows.freshReceipts key new hnew with hold | hstate
    · exact hgrows.states key.1 (h.receipts key new hold)
    · exact hstate

theorem Quiet.grows (h : Quiet db db') : Grows db db' where
  states := h.states
  receipts _ _ hold := h.receipts ▸ hold
  freshReceipts _ _ hnew := Or.inl (h.receipts ▸ hnew)
  freshOperations _ op hop := Or.inl ⟨op, h.operations ▸ hop⟩

theorem Grows.trans {db₂ : Db} (h : Grows db db₁) (h' : Grows db₁ db₂) : Grows db db₂ where
  states id hid := h'.states id (h.states id hid)
  receipts key old hold := h'.receipts key old (h.receipts key old hold)
  freshReceipts key new hnew := by
    rcases h'.freshReceipts key new hnew with hold | hstate
    · exact (h.freshReceipts key new hold).imp_right (h'.states key.1)
    · exact Or.inr hstate
  freshOperations key op hop := by
    rcases h'.freshOperations key op hop with ⟨old, hold⟩ | hstate
    · exact (h.freshOperations key old hold).imp_right (h'.states key.1)
    · exact Or.inr hstate

theorem Received.grows {id key : String} {payload : Payload} {state : StateRow} {duplicate : Bool}
    (h : Received env clock id key payload state duplicate db db') : Grows db db' := by
  obtain ⟨db₁, hlocked, hreceipt⟩ := h.locked
  refine hlocked.quiet.grows.trans ?_
  obtain ⟨hash, -, ⟨-, rfl, -⟩ | ⟨-, hnone, rfl⟩⟩ := receipt_spec hreceipt
  · exact Grows.refl _
  · refine ⟨fun _ hid => hid, fun key' old hold => ?_, fun key' new hnew => ?_, fun _ op hop => Or.inl ⟨op, hop⟩⟩
    · refine (Table.find?_upsert_ne ?_).trans hold
      rintro rfl
      rw [hnone] at hold
      cases hold
    · change (db₁.receipts.upsert (id, key) _).find? key' = some new at hnew
      rw [Table.find?_upsert] at hnew
      split_ifs at hnew with heq
      · subst heq
        exact Or.inr (by simp [hlocked.found])
      · exact Or.inl hnew

variable {op : HostOperation}

/-- A record of an operation is written by a machine with a state. -/
theorem grows_upsert {id key : String} (hreceipts : db'.receipts = db.receipts)
    (hstates : ∀ id, (db.states.find? id).isSome → (db'.states.find? id).isSome)
    (hoperations : db'.operations = db.operations.upsert (id, key) op)
    (hid : (db.states.find? id).isSome) : Grows db db' where
  states := hstates
  receipts _ _ hold := hreceipts ▸ hold
  freshReceipts _ _ hnew := Or.inl (hreceipts ▸ hnew)
  freshOperations key' op' hop := by
    rw [hoperations, Table.find?_upsert] at hop
    split_ifs at hop with heq
    · subst heq
      exact Or.inr (hstates id hid)
    · exact Or.inl ⟨op', hop⟩

/-! ### Messages -/

/-- What a message does: its receipt is written and then it is looked at, unless it is a duplicate. -/
structure Delivered (env : Env) (clock : ℕ → ℤ) (m : Message) (payload : Payload) (duplicate : Bool)
    (db db₁ db' : Db) : Prop where
  /-- What the receipt is written for. -/
  sent : m.payload = some payload
  received : ∃ state, Received env clock m.receiptKey.1 m.receiptKey.2 payload state duplicate db db₁
  /-- A duplicate is not looked at. -/
  again : duplicate = true → db' = db₁
  receipts : db'.receipts = db₁.receipts
  states : ∀ id, (db₁.states.find? id).isSome → (db'.states.find? id).isSome
  /-- Only a report that is no duplicate writes an operation. -/
  operations : db'.operations = db₁.operations ∨
    ∃ r state row op, m = .report r ∧ duplicate = false ∧ Reported clock r state row op db₁ db'

variable {m : Message}

theorem deliver_spec (h : m.deliver env clock db = .ok db') :
    ∃ payload duplicate db₁, Delivered env clock m payload duplicate db db₁ db' := by
  cases m with
  | report r =>
    obtain ⟨op', hreport⟩ := map_snd_eq_ok.mp h
    obtain ⟨state, duplicate, db₁, hreceived, ⟨rfl, rfl⟩ | ⟨rfl, hreceipts, hstates, row, op, hop⟩⟩ :=
      reportOperation_spec hreport
    · exact ⟨_, true, db', rfl, ⟨state, hreceived⟩, fun _ => rfl, rfl, fun _ hid => hid, Or.inl rfl⟩
    · exact ⟨_, false, db₁, rfl, ⟨state, hreceived⟩, nofun, hreceipts, hstates,
        Or.inr ⟨r, state, row, op, rfl, rfl, hop⟩⟩
  | observe id key observation =>
    obtain ⟨row, hobserve⟩ := map_snd_eq_ok.mp h
    obtain ⟨o, state, duplicate, db₁, rfl, hreceived, ⟨rfl, rfl⟩ | ⟨rfl, hquiet⟩⟩ := observe_spec hobserve
    · exact ⟨_, true, db', rfl, ⟨state, hreceived⟩, fun _ => rfl, rfl, fun _ hid => hid, Or.inl rfl⟩
    · exact ⟨_, false, db₁, rfl, ⟨state, hreceived⟩, nofun, hquiet.receipts, hquiet.states,
        Or.inl hquiet.operations⟩
  | failApply id revision key hash generation detail =>
    obtain ⟨row, hfail⟩ := map_snd_eq_ok.mp h
    obtain ⟨state, duplicate, db₁, hreceived, ⟨rfl, rfl⟩ | ⟨rfl, hquiet⟩⟩ := failApply_spec hfail
    · exact ⟨_, true, db', rfl, ⟨state, hreceived⟩, fun _ => rfl, rfl, fun _ hid => hid, Or.inl rfl⟩
    · exact ⟨_, false, db₁, rfl, ⟨state, hreceived⟩, nofun, hquiet.receipts, hquiet.states,
        Or.inl hquiet.operations⟩

/-- What a message writes of other operations and receipts. -/
theorem Delivered.grows {payload : Payload} {duplicate : Bool}
    (h : Delivered env clock m payload duplicate db db₁ db') : Grows db db' := by
  obtain ⟨state, hreceived⟩ := h.received
  refine hreceived.grows.trans ?_
  rcases h.operations with hops | ⟨r, state', row, op, rfl, -, hreported⟩
  · exact Quiet.grows ⟨hops, h.receipts, h.states⟩
  · exact grows_upsert h.receipts h.states hreported.operations (by simp [hreported.storedState])

/-- **A message that is accepted has its receipt.** -/
theorem deliver_accepted (h : m.deliver env clock db = .ok db') :
    ∃ payload hash old, m.payload = some payload ∧ env.payloadHash payload = some hash ∧
      db'.receipts.find? m.receiptKey = some old ∧ old.payloadHash = hash := by
  obtain ⟨payload, duplicate, db₁, hdelivered⟩ := deliver_spec h
  obtain ⟨state, db₂, -, hreceipt⟩ := hdelivered.received
  obtain ⟨hash, hhash, ⟨-, rfl, old, hold, hhold⟩ | ⟨-, -, rfl⟩⟩ := receipt_spec hreceipt
  · exact ⟨payload, hash, old, hdelivered.sent, hhash, hdelivered.receipts ▸ hold, hhold⟩
  · refine ⟨payload, hash, ⟨hash, clock 1⟩, hdelivered.sent, hhash, ?_, rfl⟩
    rw [hdelivered.receipts]
    exact Table.find?_upsert_self _ _ _

/-- **A message with a receipt changes nothing**, and it is what the receipt was written for. -/
theorem deliver_again {old : Receipt} (hroot : Rooted db)
    (hold : db.receipts.find? m.receiptKey = some old) (h : m.deliver env clock db = .ok db') :
    db' = db ∧ ∃ payload, m.payload = some payload ∧ env.payloadHash payload = some old.payloadHash := by
  obtain ⟨payload, duplicate, db₁, hdelivered⟩ := deliver_spec h
  obtain ⟨state, db₂, hlocked, hreceipt⟩ := hdelivered.received
  have hsame : db₂ = db := hlocked.same (hroot.receipts _ old hold)
  subst hsame
  obtain ⟨hash, hhash, ⟨hdup, rfl, old', hold', hhash'⟩ | ⟨-, hnone, -⟩⟩ := receipt_spec hreceipt
  · obtain rfl : old = old' := Option.some.inj (hold.symm.trans hold')
    exact ⟨hdelivered.again hdup, payload, hdelivered.sent, hhash' ▸ hhash⟩
  · rw [Prod.mk.eta, hold] at hnone
    cases hnone

/-! ### Calls -/

/-- How a call writes operations: not at all, or it prepares one, or a machine reports about one. -/
inductive Operates (clock : ℕ → ℤ) (db db' : Db) : Call → Prop
  /-- Operations stay as they are. -/
  | stay (call : Call) (hoperations : db'.operations = db.operations) : Operates clock db db' call
  | prepare (r : PrepareRequest) (op : HostOperation)
      (hfresh : db.operations.find? (r.agentId, r.operationId) = none) (hphase : op.phase = 1)
      (hoperations : db'.operations = db.operations.upsert (r.agentId, r.operationId) op) :
      Operates clock db db' (.prepare r)
  /-- A machine reports about an operation. -/
  | report (r : ReportRequest) (state : StateRow) (row : RevisionRow) (op : HostOperation)
      (receipts : Table (String × String) Receipt)
      (hreceipts : ∀ key, key ≠ (r.agentId, r.receiptId) → receipts.find? key = db.receipts.find? key)
      (hreported : Reported clock r state row op { db with receipts := receipts } db')
      (hkept : db'.receipts = receipts) : Operates clock db db' (.message (.report r))

theorem exec_spec (hroot : Rooted db) {call : Call} (h : call.exec env clock db = .ok db') :
    Grows db db' ∧ Operates clock db db' call := by
  have hquiet : ∀ {call : Call}, Quiet db db' → Grows db db' ∧ Operates clock db db' call := fun hquiet =>
    ⟨hquiet.grows, .stay _ hquiet.operations⟩
  cases call with
  | save id settings expectedRevision =>
    obtain ⟨row, h⟩ := map_snd_eq_ok.mp h
    exact hquiet (save_quiet h)
  | confirm id revision user taskID nonce =>
    obtain ⟨row, h⟩ := map_snd_eq_ok.mp h
    exact hquiet (confirm_quiet h)
  | reportReceived id revision event =>
    obtain ⟨row, h⟩ := map_snd_eq_ok.mp h
    exact hquiet (reportReceived_quiet h)
  | negotiate id service startup mode actions =>
    obtain ⟨state, h⟩ := map_snd_eq_ok.mp h
    exact hquiet (negotiate_quiet h)
  | getState id =>
    obtain ⟨snapshot, h⟩ := map_snd_eq_ok.mp h
    exact hquiet (getState_quiet h)
  | initializeBaseline r profile =>
    obtain ⟨result, h⟩ := map_snd_eq_ok.mp h
    exact hquiet (initializeBaseline_quiet h)
  | prepare r =>
    obtain ⟨op, h⟩ := map_snd_eq_ok.mp h
    obtain ⟨state, db₁, hlocked, rfl | ⟨hfresh, hphase, hoperations, hreceipts, hstates⟩⟩ :=
      prepareOperation_spec h
    · exact hquiet hlocked.quiet
    · refine ⟨hlocked.quiet.grows.trans (grows_upsert hreceipts hstates hoperations (by
        simp [hlocked.found])), .prepare r op ?_ hphase ?_⟩
      · rw [← hlocked.quiet.operations, hfresh]
      · rw [hoperations, hlocked.quiet.operations]
  | message m =>
    obtain ⟨payload, duplicate, db₁, hdelivered⟩ := deliver_spec h
    refine ⟨hdelivered.grows, ?_⟩
    obtain ⟨state, db₂, hlocked, hreceipt⟩ := hdelivered.received
    obtain ⟨hash, -, hcases⟩ := receipt_spec hreceipt
    rcases hdelivered.operations with hoperations | ⟨r, state', row, op, rfl, rfl, hreported⟩
    · refine .stay _ (hoperations.trans ?_)
      rcases hcases with ⟨-, rfl, -⟩ | ⟨-, -, rfl⟩
      · exact hlocked.quiet.operations
      · exact hlocked.quiet.operations
    · obtain ⟨hdup, -⟩ | ⟨-, -, rfl⟩ := hcases
      · cases hdup
      · -- the operation was there, and so was the state of its machine
        have hop : db.operations.find? (r.agentId, r.operationId) = some op := by
          rw [← hlocked.quiet.operations]
          exact hreported.storedOp
        have hstate : (db.states.find? r.agentId).isSome := hroot.operations _ op hop
        obtain rfl : db₂ = db := hlocked.same hstate
        exact .report r state' row op _ (fun key hne => Table.find?_upsert_ne hne) hreported
          hdelivered.receipts

theorem step_spec (env : Env) (clock : ℕ → ℤ) (hroot : Rooted db) (call : Call) :
    Grows db (db.step env (call, clock)) ∧ Operates clock db (db.step env (call, clock)) call := by
  simp only [Db.step]
  cases h : call.exec env clock db with
  | error e => exact ⟨Grows.refl db, .stay _ rfl⟩
  | ok db' => exact exec_spec hroot h

theorem grows_run (hroot : Rooted db) (calls : List (Call × (ℕ → ℤ))) : Grows db (run env db calls) := by
  induction calls generalizing db with
  | nil => exact Grows.refl db
  | cons c calls ih =>
    have hstep := (step_spec env c.2 hroot c.1).1
    exact hstep.trans (ih (hroot.grows hstep))

/-! ### The life of an operation -/

/-- The approval of an operation is the current one. -/
def CurrentApproval (db : Db) (id : String) (op : HostOperation) : Prop :=
  ∃ state row, db.states.find? id = some state ∧ db.revisions.find? (id, op.revision) = some row ∧
    OfCurrent state row op

/-- How an operation goes on in a call. -/
structure Advances (call : Call) (clock : ℕ → ℤ) (db : Db) (key : String × String)
    (op op' : HostOperation) : Prop where
  /-- Its phase does not decrease. -/
  phase : op.phase ≤ op'.phase
  /-- What has failed or was restored stays as it is. -/
  ended : 4 ≤ op.phase → op' = op
  /-- It succeeds by a report, in its lease, while its approval is the current one, and with a local
  authentication. -/
  succeeded : op'.phase = 3 → op.phase ≠ 3 → ∃ r, call = .message (.report r) ∧
    key = (r.agentId, r.operationId) ∧ CurrentApproval db key.1 op ∧ clock 2 < op.leaseExpiresAt ∧
      trimSpace op'.operator ≠ "" ∧ trimSpace op'.localAuthentication ≠ ""

theorem Advances.refl (call : Call) (clock : ℕ → ℤ) (db : Db) (key : String × String)
    (op : HostOperation) : Advances call clock db key op op :=
  ⟨le_rfl, fun _ => rfl, fun h hne => absurd h hne⟩

/-- Only the record of an operation and the receipt of a report are written. -/
structure OnlyRecord (r : ReportRequest) (db db' : Db) : Prop where
  clients : db'.clients = db.clients
  profiles : db'.profiles = db.profiles
  /-- States, with the applied pointers. -/
  states : db'.states = db.states
  revisions : db'.revisions = db.revisions
  baselines : db'.baselines = db.baselines
  operations : ∀ key, key ≠ (r.agentId, r.operationId) →
    db'.operations.find? key = db.operations.find? key
  receipts : ∀ key, key ≠ (r.agentId, r.receiptId) → db'.receipts.find? key = db.receipts.find? key

/-- **An operation goes on.** -/
theorem step_advances (hroot : Rooted db) (call : Call) {key : String × String}
    (hop : db.operations.find? key = some op) :
    ∃ op', (db.step env (call, clock)).operations.find? key = some op' ∧
      Advances call clock db key op op' := by
  cases (step_spec env clock hroot call).2 with
  | stay _ hoperations => exact ⟨op, by rw [hoperations, hop], Advances.refl _ _ _ _ _⟩
  | prepare r new hfresh hphase hoperations =>
    have hne : key ≠ (r.agentId, r.operationId) := by
      rintro rfl
      rw [hop] at hfresh
      cases hfresh
    exact ⟨op, by rw [hoperations, Table.find?_upsert_ne hne, hop], Advances.refl _ _ _ _ _⟩
  | report r state row old receipts hreceipts hreported hkept =>
    by_cases hkey : key = (r.agentId, r.operationId)
    · subst hkey
      obtain rfl : old = op := Option.some.inj (hreported.storedOp.symm.trans hop)
      have hlegal := hreported.legal
      simp only [IllegalTransition, not_or] at hlegal
      refine ⟨old.reported r (clock 3), by rw [hreported.operations, Table.find?_upsert_self], ?_, ?_, ?_⟩
      · exact not_lt.mp hlegal.2.2.2.2.1
      · exact fun hended => absurd hended hlegal.1
      · intro hphase _
        obtain ⟨hcurrent, hlease⟩ := hreported.current (le_of_eq hphase)
        obtain ⟨hoperator, hauth⟩ := hreported.authenticated hphase
        exact ⟨r, rfl, rfl, ⟨state, row, hreported.storedState, hreported.storedRow, hcurrent⟩, hlease,
          hoperator, hauth⟩
    · refine ⟨op, ?_, Advances.refl _ _ _ _ _⟩
      rw [hreported.operations, Table.find?_upsert_ne hkey]
      exact hop

theorem step_prepares (hroot : Rooted db) (call : Call) {key : String × String}
    (hnone : db.operations.find? key = none)
    (hop : (db.step env (call, clock)).operations.find? key = some op) : op.phase = 1 := by
  cases (step_spec env clock hroot call).2 with
  | stay _ hoperations =>
    rw [hoperations, hnone] at hop
    cases hop
  | prepare r new hfresh hphase hoperations =>
    rw [hoperations, Table.find?_upsert] at hop
    split_ifs at hop with hkey
    · cases hop
      exact hphase
    · rw [hnone] at hop
      cases hop
  | report r state row old receipts hreceipts hreported hkept =>
    rw [hreported.operations, Table.find?_upsert] at hop
    split_ifs at hop with hkey
    · rw [hkey] at hnone
      exact absurd (hnone.symm.trans hreported.storedOp) (by simp)
    · rw [show Db.operations _ = db.operations from rfl, hnone] at hop
      cases hop

/-- **A report for an approval that was replaced** writes its own record only. -/
theorem step_stale (hroot : Rooted db) (r : ReportRequest)
    (hop : db.operations.find? (r.agentId, r.operationId) = some op)
    (hstale : ¬CurrentApproval db r.agentId op) :
    db.step env (.message (.report r), clock) = db ∨
      OnlyRecord r db (db.step env (.message (.report r), clock)) := by
  simp only [Db.step, Call.exec, Message.deliver]
  cases h : reportOperation env clock r db with
  | error e => exact Or.inl rfl
  | ok result =>
    obtain ⟨op', db'⟩ := result
    obtain ⟨state, duplicate, db₁, ⟨db₂, hlocked, hreceipt⟩, hcases⟩ := reportOperation_spec h
    have hstate : (db.states.find? r.agentId).isSome := hroot.operations _ op hop
    obtain rfl : db₂ = db := hlocked.same hstate
    obtain ⟨hash, -, hreceipts⟩ := receipt_spec hreceipt
    rcases hcases with ⟨rfl, rfl⟩ | ⟨rfl, -, -, row, old, hreported⟩
    · obtain ⟨-, heq, -⟩ | ⟨hdup, -⟩ := hreceipts
      · exact Or.inl heq
      · cases hdup
    · obtain ⟨hdup, -⟩ | ⟨-, -, rfl⟩ := hreceipts
      · cases hdup
      · right
        obtain rfl : old = op := Option.some.inj (hreported.storedOp.symm.trans hop)
        have heq := hreported.stale fun hof =>
          hstale ⟨state, row, hreported.storedState, hreported.storedRow, hof⟩
        subst heq
        exact ⟨rfl, rfl, rfl, rfl, rfl, fun key hne => Table.find?_upsert_ne hne,
          fun key hne => Table.find?_upsert_ne hne⟩

/-- The messages of a run, by what their receipts are written for. -/
def payloads (calls : List (Call × (ℕ → ℤ))) : Set Payload :=
  {p | ∃ m clock, (Call.message m, clock) ∈ calls ∧ m.payload = some p}

/-- A message was accepted in a run. -/
def Accepted (env : Env) (db : Db) (calls : List (Call × (ℕ → ℤ))) (m : Message) : Prop :=
  ∃ before clock after, calls = before ++ (.message m, clock) :: after ∧
    ∃ db', m.deliver env clock (run env db before) = .ok db'

theorem run_append (env : Env) (db : Db) (calls calls' : List (Call × (ℕ → ℤ))) :
    run env db (calls ++ calls') = run env (run env db calls) calls' :=
  List.foldl_append

/-- **A message that was accepted has its receipt**, whatever was called since. -/
theorem Accepted.receipt {calls : List (Call × (ℕ → ℤ))} (h : Accepted env db calls m)
    (hroot : Rooted db) : ∃ payload hash old, m.payload = some payload ∧ payload ∈ payloads calls ∧
      env.payloadHash payload = some hash ∧
        (run env db calls).receipts.find? m.receiptKey = some old ∧ old.payloadHash = hash := by
  obtain ⟨before, clock, after, rfl, db', hdeliver⟩ := h
  obtain ⟨payload, hash, old, hpayload, hhash, hold, heq⟩ := deliver_accepted hdeliver
  have hbefore : Rooted (run env db before) := hroot.grows (grows_run hroot before)
  have hstep : (run env db before).step env (.message m, clock) = db' := by
    simp only [Db.step, Call.exec, hdeliver]
  have hroot' : Rooted db' := hstep ▸ hbefore.grows (step_spec env clock hbefore (.message m)).1
  refine ⟨payload, hash, old, hpayload, ⟨m, clock, by simp, hpayload⟩, hhash, ?_, heq⟩
  rw [run_append]
  show (run env ((run env db before).step env (.message m, clock)) after).receipts.find? _ = _
  rw [hstep]
  exact (grows_run hroot' after).receipts _ _ hold

/-- What holds of every call, after other calls. -/
structure Lifecycle (env : Env) (db₀ : Db) (before : List (Call × (ℕ → ℤ))) (call : Call)
    (clock : ℕ → ℤ) (db db' : Db) : Prop where
  advances : ∀ key op, db.operations.find? key = some op →
    ∃ op', db'.operations.find? key = some op' ∧ Advances call clock db key op op'
  prepared : ∀ key op, db.operations.find? key = none → db'.operations.find? key = some op → op.phase = 1
  /-- A report for an approval that was replaced writes the record of its operation and its receipt. -/
  stale : ∀ r op, call = .message (.report r) →
    db.operations.find? (r.agentId, r.operationId) = some op → ¬CurrentApproval db r.agentId op →
      db' = db ∨ OnlyRecord r db db'
  /-- A message that was accepted changes nothing. -/
  again : ∀ m, call = .message m → Accepted env db₀ before m → db' = db
  /-- A message with the receipt of another one is rejected, and changes nothing. -/
  conflict : ∀ m m', call = .message m' → Accepted env db₀ before m → m'.receiptKey = m.receiptKey →
    m'.payload ≠ m.payload → db' = db ∧ ∃ e, call.exec env clock db = .error e

/-- **The life of host operations**, in every run from tables without operations and receipts: phases do not
decrease, an operation that has failed or was restored stays so, and success is reported in the lease, for
the current approval and with a local authentication.  A report for an approval that was replaced writes
only its record and its receipt, and an accepted message is handled once, where the hashes of the messages
of the run do not collide. -/
theorem host_operation_lifecycle (env : Env) (db₀ : Db) (hoperations : db₀.operations = ∅)
    (hreceipts : db₀.receipts = ∅) (calls : List (Call × (ℕ → ℤ)))
    (hhash : ∀ p ∈ payloads calls, ∀ q ∈ payloads calls, ∀ hash, env.payloadHash p = some hash →
      env.payloadHash q = some hash → p = q)
    (before : List (Call × (ℕ → ℤ))) (call : Call) (clock : ℕ → ℤ) (after : List (Call × (ℕ → ℤ)))
    (hcalls : calls = before ++ (call, clock) :: after) :
    Lifecycle env db₀ before call clock (run env db₀ before)
      ((run env db₀ before).step env (call, clock)) := by
  subst hcalls
  have hroot₀ : Rooted db₀ := by
    constructor
    · rw [hoperations]
      exact nofun
    · rw [hreceipts]
      exact nofun
  have hroot : Rooted (run env db₀ before) := hroot₀.grows (grows_run hroot₀ before)
  have hbefore : payloads before ⊆ payloads (before ++ (call, clock) :: after) :=
    fun p ⟨m, clock', hmem, hp⟩ => ⟨m, clock', List.mem_append_left _ hmem, hp⟩
  refine ⟨fun key op hop => step_advances hroot call hop, fun key op hnone hop =>
    step_prepares hroot call hnone hop, ?_, ?_, ?_⟩
  · rintro r op rfl hop hstale
    exact step_stale hroot r hop hstale
  · rintro m rfl haccepted
    obtain ⟨payload, hash, old, -, -, -, hold, -⟩ := haccepted.receipt hroot₀
    simp only [Db.step, Call.exec]
    cases hdeliver : m.deliver env clock (run env db₀ before) with
    | error e => rfl
    | ok db' => exact (deliver_again hroot hold hdeliver).1
  · rintro m m' rfl haccepted hkey hne
    obtain ⟨payload, hash, old, hpayload, hmem, hph, hold, rfl⟩ := haccepted.receipt hroot₀
    rw [← hkey] at hold
    simp only [Db.step, Call.exec]
    cases hdeliver : m'.deliver env clock (run env db₀ before) with
    | error e => exact ⟨rfl, e, rfl⟩
    | ok db' =>
      -- the message would be the one that the receipt was written for
      obtain ⟨-, payload', hpayload', hph'⟩ := deliver_again hroot hold hdeliver
      have hmem' : payload' ∈ payloads (before ++ (.message m', clock) :: after) :=
        ⟨m', clock, by simp, hpayload'⟩
      have heq : payload' = payload := hhash payload' hmem' payload (hbefore hmem) _ hph' hph
      exact absurd (by rw [hpayload', hpayload, heq]) hne

/-- Hashes of reports that differ by their receipts. -/
def receiptEnv : Env where
  payloadHash
    | .report r => some r.receiptId
    | _ => none
  settingsHash _ := "settings"
  deploymentProfile _ _ := .error "record not found"

/-- No row of the machine. -/
def newMachine (id : String) : Db :=
  ⟨(∅ : Table String Client).upsert id ⟨true, 0⟩, ∅, ∅, ∅, ∅, ∅, ∅⟩

/-- An operation is prepared for an approval, and then the approval is replaced. -/
def replacedApproval (id : String) : List (Call × (ℕ → ℤ)) :=
  [.negotiate id "agent" "boot" 2 [1, 2, 3], .save id ⟨false, false, false, false, false, 1⟩ 0,
    .confirm id 1 "admin" "task" "nonce", .prepare ⟨id, "operation", 1, 1, "settings", "nonce"⟩,
    .save id ⟨false, false, false, false, false, 2⟩ 1].map fun call => (call, fun _ => 0)

/-- The host reports that the operation has failed. -/
def failedReport (id : String) : ReportRequest := ⟨id, "operation", "late", 4, "stopped", "", "", ""⟩

/-- A report for an approval that was replaced writes its receipt, too. -/
theorem stale_report_writes_receipt :
    (∃ op, (run receiptEnv (newMachine "node") (replacedApproval "node")).operations.find?
        ("node", "operation") = some op ∧
      ¬CurrentApproval (run receiptEnv (newMachine "node") (replacedApproval "node")) "node" op) ∧
    ((run receiptEnv (newMachine "node") (replacedApproval "node")).step receiptEnv
        (.message (.report (failedReport "node")), fun _ => 0)).receipts.find? ("node", "late") ≠
      (run receiptEnv (newMachine "node") (replacedApproval "node")).receipts.find? ("node", "late") := by
  have hop : ((run receiptEnv (newMachine "node") (replacedApproval "node")).operations.find?
      ("node", "operation")).map HostOperation.revision = some 1 := by decide +kernel
  have hstate : ((run receiptEnv (newMachine "node") (replacedApproval "node")).states.find?
      "node").map StateRow.desiredRevision = some 2 := by decide +kernel
  refine ⟨?_, by decide +kernel⟩
  obtain ⟨op, hfind, hrevision⟩ := Option.map_eq_some_iff.mp hop
  refine ⟨op, hfind, ?_⟩
  rintro ⟨state, row, hfound, -, hcurrent, -⟩
  rw [hfound, Option.map_some, Option.some.injEq] at hstate
  have := hcurrent.2.2.1
  omega

/-- The report of the failure after the approval was replaced. -/
theorem host_operation_lifecycle_replaced :
    Lifecycle receiptEnv (newMachine "node") (replacedApproval "node")
      (.message (.report (failedReport "node"))) (fun _ => 0)
      (run receiptEnv (newMachine "node") (replacedApproval "node"))
      ((run receiptEnv (newMachine "node") (replacedApproval "node")).step receiptEnv
        (.message (.report (failedReport "node")), fun _ => 0)) := by
  refine host_operation_lifecycle receiptEnv (newMachine "node") rfl rfl
    (replacedApproval "node" ++ [(.message (.report (failedReport "node")), fun _ => 0)]) ?_
    (replacedApproval "node") _ _ [] rfl
  have hsingle : ∀ p ∈ payloads (replacedApproval "node" ++
      [(.message (.report (failedReport "node")), fun _ => 0)]), p = .report (failedReport "node") := by
    rintro p ⟨m, clock, hmem, hp⟩
    simp only [replacedApproval, List.map_cons, List.map_nil, List.cons_append, List.nil_append,
      List.mem_cons, Prod.mk.injEq, reduceCtorEq, false_and, false_or, Call.message.injEq,
      List.not_mem_nil, or_false] at hmem
    obtain ⟨rfl, -⟩ := hmem
    exact (Option.some.inj hp).symm
  intro p hp q hq _ _ _
  rw [hsingle p hp, hsingle q hq]

end PrivilegedDelivery

end Komari
