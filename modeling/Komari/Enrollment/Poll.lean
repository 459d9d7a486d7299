import Komari.Enrollment.Chain

/-!
# Polls for an enrollment

A machine polls with its device code until an administrator approves the attempt.  The poll that finds it
approved makes the credentials, and the process keeps them for a minute in `pollGraceCache`.

* `polls_honest` : then every run is honest.
* `polls_dishonest` : a deletion that fails leaves a pair in the cache that was never committed.
-/

namespace Komari

namespace Enrollment

/-! ### Tables -/

/-- The states of an enrollment. -/
inductive AttemptState
  /-- `StatePending` -/
  | pending
  /-- `StateApproved` -/
  | approved
  /-- `StateDenied` -/
  | denied
  /-- `StateExpired` -/
  | expired
deriving DecidableEq

/-- `AgentEnrollment`, the columns that decide a poll. -/
structure AgentEnrollment where
  state : AttemptState
  agentPublicKey : String
  requestedScopes : List String
  /-- The machine that it was approved for. -/
  client : String
  approvedBy : String
  expiresAt : ℤ
  lastPolledAt : Option ℤ
deriving DecidableEq

/-- `Attempt`: an attempt as the panel sees it. -/
structure Attempt where
  state : AttemptState
  agentPublicKey : String
  requestedScopes : List String
  /-- The machine that it was approved for. -/
  client : String
  approvedBy : String
  expiresAt : ℤ
deriving DecidableEq

/-- What a poll sees of the row. -/
def toAttempt (row : AgentEnrollment) : Attempt :=
  ⟨row.state, row.agentPublicKey, row.requestedScopes, row.client, row.approvedBy, row.expiresAt⟩

/-- A result that is kept for repeated polls. -/
structure CachedPollResult where
  attempt : Attempt
  issued : Issued
  expiresAt : ℤ
deriving DecidableEq

/-- The tables: the attempt of a device code, and the credentials of the machines. -/
structure EnrollmentDB where
  attempt : Option AgentEnrollment
  machines : String → CredentialDB

def attemptLifetime : ℤ := 15 * minute

def minimumPollGap : ℤ := 2 * TrafficReset.nanosPerSecond

/-- How long the cache keeps the credentials. -/
def pollGrace : ℤ := minute

/-- The errors of a poll. -/
inductive PollError
  /-- `ErrSlowDown` -/
  | slowDown
  | other (text : String)
deriving DecidableEq

/-- What `Poll` returns. -/
structure PollReturn where
  attempt : Option Attempt
  issued : Option Issued
  error : Option PollError
deriving DecidableEq

/-- What the clock, the random generator and the database give to the transaction of a poll. -/
structure PollAnswers where
  now : ℤ
  access : String
  refresh : String
  /-- A statement before the deletion of the attempt fails. -/
  fails : Bool

/-- What the transaction of a poll has done before it commits. -/
structure StagedPoll where
  db : EnrollmentDB
  attempt : Attempt
  issued : Option Issued

section Polls

variable [TokenHash]

/-- The transaction of `Poll`, without its end. -/
def pollLocked (answers : PollAnswers) (db : EnrollmentDB) : Except PollReturn StagedPoll :=
  match db.attempt with
  | none => .error ⟨none, none, some (.other "record not found")⟩
  | some row =>
    if answers.fails then .error ⟨none, none, some (.other "database error")⟩
    else
      let now := answers.now
      -- expiry is evaluated on read
      let row := if row.state = .pending ∧ row.expiresAt < now then { row with state := .expired } else row
      let tooFast := row.lastPolledAt.any fun polled => now - polled < minimumPollGap
      let polled := { row with lastPolledAt := some now }
      if tooFast then .error ⟨some (toAttempt row), none, some .slowDown⟩
      else if row.state ≠ .approved ∨ row.client = "" then
        .ok ⟨{ db with attempt := some polled }, toAttempt row, none⟩
      else
        match issueLocked ⟨row.agentPublicKey, row.requestedScopes, answers.access, answers.refresh⟩ now
          (db.machines row.client) with
        | .error text => .error ⟨none, none, some (.other text)⟩
        | .ok (issued, machine) =>
          .ok ⟨⟨none, Function.update db.machines row.client machine⟩, toAttempt row, some issued⟩

/-- `Begin`. -/
def beginAttempt (publicKey : String) (scopes : List String) (now : ℤ) : AgentEnrollment where
  state := .pending
  agentPublicKey := publicKey
  requestedScopes := scopes
  client := ""
  approvedBy := ""
  expiresAt := now + attemptLifetime
  lastPolledAt := none

/-- `Approve`: the attempt after it. -/
def approve (client approvedBy : String) (now : ℤ) (row : AgentEnrollment) : AgentEnrollment :=
  if row.state ≠ .pending then row
  else if row.expiresAt < now then row
  else { row with state := .approved, client := client, approvedBy := approvedBy }

/-- `Deny`: the attempt after it. -/
def deny (deniedBy : String) (row : AgentEnrollment) : AgentEnrollment :=
  if row.state ≠ .pending then row else { row with state := .denied, approvedBy := deniedBy }

/-! ### Runs -/

/-- How far a poll has come. -/
inductive PollPhase
  /-- It found an old entry in the cache. -/
  | evicting
  /-- It found nothing in the cache. -/
  | missed
deriving DecidableEq

/-- The attempt and the cache: what the next poll will find. -/
abbrev PollView := Option AgentEnrollment × Option CachedPollResult

/-- A poll that returned. -/
structure PollRecord where
  result : PollReturn
  before : PollView
  after : PollView

/-- A transaction of a poll that is open. -/
structure OpenPoll where
  id : ℕ
  staged : StagedPoll
  before : PollView

/-- The stores, the polls on their way, and what happened up to now. -/
structure EnrollmentRun where
  db : EnrollmentDB
  /-- `pollGraceCache` at the device code. -/
  cache : Option CachedPollResult
  polls : Table ℕ PollPhase
  /-- The transaction of a poll that is open; other writers wait. -/
  transaction : Option OpenPoll
  sweeping : Bool
  begun : Bool
  records : List PollRecord
  /-- The rows of credentials that polls committed. -/
  commits : List AgentCredential

/-- What happens to a device code. -/
inductive EnrollmentOp
  /-- `Begin` -/
  | start (publicKey : String) (scopes : List String) (now : ℤ)
  /-- `Approve`; a statement or the commit may fail. -/
  | approve (client approvedBy : String) (now : ℤ) (fails : Bool)
  /-- `Deny`; a statement or the commit may fail. -/
  | deny (deniedBy : String) (fails : Bool)
  /-- A poll begins: it reads the cache. -/
  | lookup (id : ℕ) (now : ℤ)
  /-- A poll deletes the old entry that it found. -/
  | evict (id : ℕ)
  /-- A poll opens its transaction; new credentials go to the cache. -/
  | transact (id : ℕ) (answers : PollAnswers)
  /-- The deletion of the attempt and the commit; or one of the two fails. -/
  | finish (commits : Bool)
  /-- The sweeper reads the cache. -/
  | sweep (now : ℤ)
  /-- The sweeper deletes the old entry that it found. -/
  | swept
  /-- Other transactions change the credentials. -/
  | others (machines : String → CredentialDB)

/-- What a poll can see. -/
def EnrollmentRun.view (run : EnrollmentRun) : PollView := (run.db.attempt, run.cache)

/-- A poll returns. -/
def EnrollmentRun.returns (run : EnrollmentRun) (id : ℕ) (result : PollReturn) : EnrollmentRun :=
  { run with
    polls := run.polls.deleteWhere fun id' _ => id' = id,
    records := run.records ++ [⟨result, run.view, run.view⟩] }

/-- The beginning of `Poll`: the cache comes before the tables. -/
def EnrollmentRun.lookup (id : ℕ) (now : ℤ) (run : EnrollmentRun) : EnrollmentRun :=
  match run.cache with
  | none => { run with polls := run.polls.upsert id .missed }
  | some cached =>
    if now < cached.expiresAt then run.returns id ⟨some cached.attempt, some cached.issued, none⟩
    else { run with polls := run.polls.upsert id .evicting }

/-- The transaction of `Poll`. -/
def EnrollmentRun.transact (id : ℕ) (answers : PollAnswers) (run : EnrollmentRun) : EnrollmentRun :=
  if run.transaction.isSome ∨ run.polls.find? id ≠ some .missed then run
  else
    match pollLocked answers run.db with
    | .error result => run.returns id result
    | .ok staged =>
      { run with
        polls := run.polls.deleteWhere fun id' _ => id' = id,
        transaction := some ⟨id, staged, run.view⟩,
        cache := match staged.issued with
          | none => run.cache
          | some issued => some ⟨staged.attempt, issued, answers.now + pollGrace⟩ }

/-- The open transaction ends. -/
def EnrollmentRun.finish (commits : Bool) (run : EnrollmentRun) : EnrollmentRun :=
  match run.transaction with
  | none => run
  | some tx =>
    if commits then
      { run with
        db := tx.staged.db, transaction := none,
        records := run.records ++ [⟨⟨some tx.staged.attempt, tx.staged.issued, none⟩, tx.before,
          (tx.staged.db.attempt, run.cache)⟩],
        commits := if tx.staged.issued.isSome then
            run.commits ++ (tx.staged.db.machines tx.staged.attempt.client).row.toList
          else run.commits }
    else
      { run with
        transaction := none,
        records := run.records ++ [⟨⟨none, none, some (.other "database error")⟩, tx.before,
          run.view⟩] }

def EnrollmentOp.step (run : EnrollmentRun) : EnrollmentOp → EnrollmentRun
  | .start publicKey scopes now =>
    if run.db.attempt.isSome ∨ run.transaction.isSome then run
    else { run with
      db := { run.db with attempt := some (beginAttempt publicKey scopes now) }, begun := true }
  | .approve client approvedBy now fails =>
    if fails ∨ run.transaction.isSome then run
    else { run with
      db := { run.db with attempt := run.db.attempt.map (Enrollment.approve client approvedBy now) } }
  | .deny deniedBy fails =>
    if fails ∨ run.transaction.isSome then run
    else { run with
      db := { run.db with attempt := run.db.attempt.map (Enrollment.deny deniedBy) } }
  | .lookup id now => if (run.polls.find? id).isSome then run else run.lookup id now
  | .evict id =>
    if run.polls.find? id = some .evicting then
      { run with cache := none, polls := run.polls.upsert id .missed }
    else run
  | .transact id answers => run.transact id answers
  | .finish commits => run.finish commits
  | .sweep now => { run with sweeping := run.cache.any fun cached => cached.expiresAt < now }
  | .swept => if run.sweeping then { run with cache := none, sweeping := false } else run
  | .others machines =>
    if run.transaction.isSome then run else { run with db := { run.db with machines := machines } }

/-- A device code that was not given out yet. -/
def EnrollmentRun.initial (machines : String → CredentialDB) : EnrollmentRun :=
  ⟨⟨none, machines⟩, none, ∅, none, false, false, [], []⟩

/-! ### What polls hand out -/

/-- The row holds the hashes of a pair, and its deadlines. -/
structure AgentCredential.Holds (row : AgentCredential) (issued : Issued) : Prop where
  access : row.accessTokenHash = hashToken issued.accessToken
  accessExpires : row.accessExpiresAt = issued.accessTokenExpiresAt
  refresh : row.refreshTokenHash = hashToken issued.refreshToken
  refreshExpires : row.refreshExpiresAt = issued.refreshTokenExpiresAt

/-- The pairs that were issued. -/
def EnrollmentRun.pairs (run : EnrollmentRun) : List Issued :=
  run.records.filterMap fun record => record.result.issued

/-- What is handed out was committed, and it is one pair; an attempt that is not approved gives nothing;
and a poll that fails changes nothing that the next one finds. -/
structure Honest (run : EnrollmentRun) : Prop where
  committed : ∀ issued ∈ run.pairs, ∃ row ∈ run.commits, row.Holds issued
  single : ∀ issued ∈ run.pairs, ∀ issued' ∈ run.pairs, issued = issued'
  unapproved : ∀ row, run.db.attempt = some row → row.state ≠ .approved → run.pairs = []
  redeemable : ∀ record ∈ run.records, record.result.error ≠ none → record.after = record.before

/-- A device code is given out once. -/
def GivenOnce (run : EnrollmentRun) (op : EnrollmentOp) : Prop :=
  match op with
  | .start _ _ _ => run.begun = false
  | _ => True

instance (run : EnrollmentRun) (op : EnrollmentOp) : Decidable (GivenOnce run op) := by
  unfold GivenOnce
  split
  · infer_instance
  · exact inferInstanceAs (Decidable True)

/-- The open transaction has put credentials into the cache. -/
def EnrollmentRun.Filled (run : EnrollmentRun) : Prop :=
  ∃ tx ∈ run.transaction, tx.staged.issued ≠ none

instance (run : EnrollmentRun) : Decidable run.Filled :=
  inferInstanceAs (Decidable (∃ tx ∈ run.transaction, tx.staged.issued ≠ none))

/-- A transaction that has filled the cache commits, and nobody reads the cache before. -/
def Settles (run : EnrollmentRun) (op : EnrollmentOp) : Prop :=
  match op with
  | .finish commits => run.Filled → commits = true
  | .lookup _ _ => ¬run.Filled
  | _ => True

instance (run : EnrollmentRun) (op : EnrollmentOp) : Decidable (Settles run op) := by
  unfold Settles
  split
  · infer_instance
  · infer_instance
  · exact inferInstanceAs (Decidable True)

/-! ### The transaction of a poll -/

/-- An enrollment puts the hashes of its pair into the row. -/
theorem holds_of_issueLocked {enrollee : Enrollee} {now : ℤ} {db db' : CredentialDB} {issued : Issued}
    (h : issueLocked enrollee now db = .ok (issued, db')) :
    ∃ row, db'.row = some row ∧ row.Holds issued := by
  unfold issueLocked at h
  by_cases hrandom : enrollee.accessToken = "" ∨ enrollee.refreshToken = ""
  · rw [if_pos hrandom] at h
    cases h
  rw [if_neg hrandom] at h
  obtain ⟨⟨policy, db''⟩, -, h⟩ := bind_eq_ok.mp h
  dsimp only at h
  cases hrow : db''.row with
  | none =>
    rw [hrow] at h
    cases h
    refine ⟨_, rfl, ?_⟩
    constructor <;> rfl
  | some before =>
    rw [hrow] at h
    dsimp only at h
    by_cases hrevoked : before.revokedAt ≠ none ∧ before.agentPublicKey = enrollee.publicKey
    · rw [if_pos hrevoked] at h
      cases h
    · rw [if_neg hrevoked] at h
      cases h
      refine ⟨_, rfl, ?_⟩
      constructor <;> rfl

/-- What the transaction of a poll stages: credentials for an approved attempt, which it deletes; or the
attempt stays. -/
inductive Stages (db : EnrollmentDB) (staged : StagedPoll) : Prop
  | stays (row row' : AgentEnrollment) (stored : db.attempt = some row)
      (kept : staged.db.attempt = some row') (issued : staged.issued = none)
  | issues (row : AgentEnrollment) (issued : Issued) (credential : AgentCredential)
      (stored : db.attempt = some row) (approved : row.state = .approved)
      (deleted : staged.db.attempt = none) (minted : staged.issued = some issued)
      (written : (staged.db.machines staged.attempt.client).row = some credential)
      (holds : credential.Holds issued)

/-- **What the transaction of a poll does**: it fails without credentials, or it stages. -/
theorem pollLocked_cases (answers : PollAnswers) (db : EnrollmentDB) :
    (∃ result, pollLocked answers db = .error result ∧ result.issued = none) ∨
      ∃ staged, pollLocked answers db = .ok staged ∧ Stages db staged := by
  unfold pollLocked
  cases hstored : db.attempt with
  | none => exact .inl ⟨_, rfl, rfl⟩
  | some before =>
    dsimp only
    by_cases hfails : answers.fails
    · rw [if_pos hfails]
      exact .inl ⟨_, rfl, rfl⟩
    rw [if_neg hfails]
    generalize hrow : (if before.state = .pending ∧ before.expiresAt < answers.now then
      { before with state := .expired } else before) = row
    by_cases hfast : row.lastPolledAt.any fun polled => answers.now - polled < minimumPollGap
    · rw [if_pos hfast]
      exact .inl ⟨_, rfl, rfl⟩
    rw [if_neg hfast]
    by_cases hunapproved : row.state ≠ .approved ∨ row.client = ""
    · rw [if_pos hunapproved]
      exact .inr ⟨_, rfl, .stays before _ hstored rfl rfl⟩
    · rw [if_neg hunapproved]
      obtain ⟨happroved, -⟩ := not_or.mp hunapproved
      -- an attempt that is still approved has not expired just now
      have hsame : before.state = .approved := by
        subst hrow
        split_ifs at happroved with hexpired
        · cases not_not.mp happroved
        · exact not_not.mp happroved
      cases hissued : issueLocked ⟨row.agentPublicKey, row.requestedScopes, answers.access,
          answers.refresh⟩ answers.now (db.machines row.client) with
      | error text => exact .inl ⟨_, rfl, rfl⟩
      | ok result =>
        obtain ⟨issued, machine⟩ := result
        obtain ⟨credential, hcredential, hholds⟩ := holds_of_issueLocked hissued
        refine .inr ⟨_, rfl, .issues before issued credential hstored hsame rfl rfl ?_ hholds⟩
        show (Function.update db.machines row.client machine row.client).row = some credential
        rw [Function.update_self]
        exact hcredential

/-! ### The invariant -/

/-- The attempt is redeemed by the first transaction that commits credentials. -/
structure Consistent (run : EnrollmentRun) : Prop where
  /-- Before, nothing was handed out, and the cache is empty unless a transaction has filled it. -/
  waiting : run.begun = false ∨ run.db.attempt ≠ none → run.commits = [] ∧ run.pairs = [] ∧
    ∀ cached ∈ run.cache, ∃ tx ∈ run.transaction, tx.staged.issued = some cached.issued
  /-- After it there is one pair. -/
  redeemed : run.begun = true → run.db.attempt = none → run.transaction = none ∧
    ∃ row issued, run.commits = [row] ∧ row.Holds issued ∧ (∀ pair ∈ run.pairs, pair = issued) ∧
      ∀ cached ∈ run.cache, cached.issued = issued
  unbegun : run.begun = false → run.db.attempt = none
  opened : ∀ tx ∈ run.transaction, Stages run.db tx.staged ∧ tx.before = (run.db.attempt, none)
  failed : ∀ record ∈ run.records, record.result.error ≠ none → record.after = record.before

variable {run : EnrollmentRun}

theorem Consistent.honest (h : Consistent run) : Honest run := by
  have hpairs : run.pairs ≠ [] → ∃ row issued, run.commits = [row] ∧ row.Holds issued ∧
      ∀ pair ∈ run.pairs, pair = issued := by
    intro hne
    by_cases hwaiting : run.begun = false ∨ run.db.attempt ≠ none
    · exact absurd (h.waiting hwaiting).2.1 hne
    · obtain ⟨hbegun, hattempt⟩ := not_or.mp hwaiting
      obtain ⟨-, row, issued, hcommits, hholds, hsame, -⟩ :=
        h.redeemed (by simpa using hbegun) (not_not.mp hattempt)
      exact ⟨row, issued, hcommits, hholds, hsame⟩
  constructor
  · intro pair hpair
    obtain ⟨row, issued, hcommits, hholds, hsame⟩ := hpairs (List.ne_nil_of_mem hpair)
    exact ⟨row, hcommits ▸ List.mem_singleton_self row, hsame pair hpair ▸ hholds⟩
  · intro pair hpair pair' hpair'
    obtain ⟨-, issued, -, -, hsame⟩ := hpairs (List.ne_nil_of_mem hpair)
    exact (hsame pair hpair).trans (hsame pair' hpair').symm
  · intro row hrow _
    exact (h.waiting (Or.inr (by rw [hrow]; exact Option.some_ne_none row))).2.1
  · exact h.failed

/-- The same tables and transaction, and no new entry in the cache. -/
theorem Consistent.keep {run' : EnrollmentRun} (h : Consistent run) (hdb : run'.db = run.db)
    (htransaction : run'.transaction = run.transaction) (hbegun : run'.begun = run.begun)
    (hrecords : run'.records = run.records) (hcommits : run'.commits = run.commits)
    (hcache : ∀ cached ∈ run'.cache, cached ∈ run.cache) : Consistent run' := by
  have hpairs : run'.pairs = run.pairs := congrArg (List.filterMap _) hrecords
  constructor
  · rw [hbegun, hdb, hcommits, hpairs, htransaction]
    intro hwaiting
    obtain ⟨hnocommits, hnopairs, hcached⟩ := h.waiting hwaiting
    exact ⟨hnocommits, hnopairs, fun cached hmem => hcached cached (hcache cached hmem)⟩
  · rw [hbegun, hdb, hcommits, hpairs, htransaction]
    intro hredeemed hattempt
    obtain ⟨hclosed, row, issued, hsome, hholds, hsame, hcached⟩ := h.redeemed hredeemed hattempt
    exact ⟨hclosed, row, issued, hsome, hholds, hsame,
      fun cached hmem => hcached cached (hcache cached hmem)⟩
  · rw [hbegun, hdb]
    exact h.unbegun
  · rw [htransaction, hdb]
    exact h.opened
  · rw [hrecords]
    exact h.failed

/-- Other writers change the tables while no transaction of a poll is open. -/
theorem Consistent.write (h : Consistent run) (hclosed : run.transaction = none)
    {db : EnrollmentDB} {begun : Bool}
    (hwaiting : begun = false ∨ db.attempt ≠ none → run.begun = false ∨ run.db.attempt ≠ none)
    (hredeemed : begun = true → db.attempt = none → run.begun = true ∧ run.db.attempt = none)
    (hunbegun : begun = false → db.attempt = none) :
    Consistent { run with db := db, begun := begun } := by
  constructor
  · exact fun hnew => h.waiting (hwaiting hnew)
  · intro hbegun hattempt
    obtain ⟨hbegun, hattempt⟩ := hredeemed hbegun hattempt
    exact h.redeemed hbegun hattempt
  · exact hunbegun
  · intro tx htx
    dsimp only at htx
    rw [hclosed] at htx
    cases htx
  · exact h.failed

theorem Consistent.start (h : Consistent run) (hbegun : run.begun = false)
    (hclosed : run.transaction = none) (row : AgentEnrollment) :
    Consistent { run with db := { run.db with attempt := some row }, begun := true } := by
  refine h.write hclosed (fun _ => Or.inl hbegun) (fun _ hnone => ?_) (fun hfalse => ?_)
  · cases hnone
  · cases hfalse

theorem Consistent.decide (h : Consistent run) (hclosed : run.transaction = none)
    (change : AgentEnrollment → AgentEnrollment) :
    Consistent { run with db := { run.db with attempt := run.db.attempt.map change } } := by
  refine h.write hclosed (fun hwaiting => ?_) (fun hbegun hnone => ?_) (fun hunbegun => ?_)
  · exact hwaiting.imp_right fun hne hnone => hne (by dsimp only; rw [hnone]; rfl)
  · exact ⟨hbegun, Option.map_eq_none_iff.mp hnone⟩
  · exact Option.map_eq_none_iff.mpr (h.unbegun hunbegun)

omit [TokenHash] in
theorem pairs_append (run : EnrollmentRun) (record : PollRecord) :
    (run.records ++ [record]).filterMap (fun record => record.result.issued) =
      run.pairs ++ record.result.issued.toList := by
  rw [List.filterMap_append]
  cases hissued : record.result.issued with
  | none => simp [hissued, EnrollmentRun.pairs]
  | some issued => simp [hissued, EnrollmentRun.pairs]

omit [TokenHash] in
theorem pairs_returns (run : EnrollmentRun) (id : ℕ) (result : PollReturn) :
    (run.returns id result).pairs = run.pairs ++ result.issued.toList :=
  pairs_append run ⟨result, run.view, run.view⟩

/-- A poll returns nothing, or what it found in the cache. -/
theorem Consistent.returns (h : Consistent run) (id : ℕ) {result : PollReturn}
    (hissued : ∀ issued ∈ result.issued, ¬run.Filled ∧ ∃ cached ∈ run.cache, cached.issued = issued) :
    Consistent (run.returns id result) := by
  constructor
  · intro hwaiting
    obtain ⟨hcommits, hpairs, hcached⟩ := h.waiting hwaiting
    refine ⟨hcommits, ?_, hcached⟩
    rw [pairs_returns, hpairs]
    -- the entry of an open transaction was not read
    cases hresult : result.issued with
    | none => rfl
    | some issued =>
      obtain ⟨hfilled, cached, hmem, -⟩ := hissued issued hresult
      obtain ⟨tx, htx, hsome⟩ := hcached cached hmem
      exact absurd ⟨tx, htx, by rw [hsome]; exact Option.some_ne_none _⟩ hfilled
  · intro hbegun hattempt
    obtain ⟨hclosed, row, issued, hcommits, hholds, hsame, hcached⟩ := h.redeemed hbegun hattempt
    refine ⟨hclosed, row, issued, hcommits, hholds, fun pair hpair => ?_, hcached⟩
    rw [pairs_returns] at hpair
    rcases List.mem_append.mp hpair with hpair | hpair
    · exact hsame pair hpair
    · obtain ⟨-, cached, hmem, rfl⟩ := hissued pair (Option.mem_toList.mp hpair)
      exact hcached cached hmem
  · exact h.unbegun
  · exact h.opened
  · intro record hrecord
    rcases List.mem_append.mp hrecord with hrecord | hrecord
    · exact h.failed record hrecord
    · obtain rfl := List.mem_singleton.mp hrecord
      exact fun _ => rfl

theorem Consistent.lookup (h : Consistent run) (id : ℕ) (now : ℤ)
    (hsettles : ¬run.Filled) : Consistent (run.lookup id now) := by
  unfold EnrollmentRun.lookup
  cases hcache : run.cache with
  | none => exact h.keep rfl rfl rfl rfl rfl fun cached hmem => hcache.symm ▸ hmem
  | some cached =>
    dsimp only
    split_ifs
    · refine h.returns id fun issued hissued => ⟨hsettles, cached, hcache, ?_⟩
      exact Option.some.inj hissued
    · exact h.keep rfl rfl rfl rfl rfl fun cached hmem => hcache.symm ▸ hmem

/-- **The transaction of a poll** finds an empty cache when the attempt is still there. -/
theorem Consistent.transact (h : Consistent run) (id : ℕ) (answers : PollAnswers) :
    Consistent (run.transact id answers) := by
  unfold EnrollmentRun.transact
  split_ifs with hwaits
  · exact h
  have hclosed : run.transaction = none := by
    have := (not_or.mp hwaits).1
    simpa using this
  obtain ⟨result, hlocked, hnone⟩ | ⟨staged, hlocked, hstages⟩ := pollLocked_cases answers run.db
  · rw [hlocked]
    refine h.returns id fun issued hissued => ?_
    rw [hnone] at hissued
    cases hissued
  · rw [hlocked]
    have hattempt : run.db.attempt ≠ none := by
      cases hstages with
      | stays row row' stored _ _ => rw [stored]; exact Option.some_ne_none row
      | issues row issued credential stored _ _ _ _ _ => rw [stored]; exact Option.some_ne_none row
    obtain ⟨hcommits, hpairs, hcached⟩ := h.waiting (Or.inr hattempt)
    have hempty : run.cache = none := by
      refine Option.eq_none_iff_forall_not_mem.mpr fun cached hmem => ?_
      obtain ⟨tx, htx, -⟩ := hcached cached hmem
      rw [hclosed] at htx
      cases htx
    constructor
    · intro _
      refine ⟨hcommits, hpairs, fun cached hmem => ⟨_, rfl, ?_⟩⟩
      dsimp only at hmem ⊢
      rw [hempty] at hmem
      cases hissued : staged.issued with
      | none =>
        rw [hissued] at hmem
        cases hmem
      | some issued =>
        rw [hissued] at hmem
        obtain rfl := Option.some.inj hmem
        rfl
    · exact fun _ hnone => absurd hnone hattempt
    · exact h.unbegun
    · rintro tx ⟨⟩
      exact ⟨hstages, congrArg (Prod.mk _) hempty⟩
    · exact h.failed

/-- **The end of a transaction.**  The first one that commits credentials redeems the attempt. -/
theorem Consistent.finish (h : Consistent run) {commits : Bool}
    (hsettles : run.Filled → commits = true) : Consistent (run.finish commits) := by
  unfold EnrollmentRun.finish
  cases htransaction : run.transaction with
  | none => exact h
  | some tx =>
    obtain ⟨hstages, hbefore⟩ := h.opened tx htransaction
    dsimp only
    cases hstages with
    | stays row row' stored kept issued =>
      have hattempt : run.db.attempt ≠ none := by rw [stored]; exact Option.some_ne_none row
      obtain ⟨hcommits, hpairs, hcached⟩ := h.waiting (Or.inr hattempt)
      -- this transaction has not filled the cache
      have hempty : run.cache = none := by
        refine Option.eq_none_iff_forall_not_mem.mpr fun cached hmem => ?_
        obtain ⟨tx', htx', hsome⟩ := hcached cached hmem
        obtain rfl := Option.some.inj (htransaction.symm.trans htx')
        rw [issued] at hsome
        cases hsome
      have hnopairs : ∀ result : PollReturn, result.issued = none → ∀ before after,
          (run.records ++ [PollRecord.mk result before after]).filterMap
            (fun record => record.result.issued) = [] := by
        intro result hresult before after
        rw [pairs_append, hpairs, hresult]
        rfl
      cases commits with
      | true =>
        rw [if_pos rfl, issued]
        constructor
        · refine fun _ => ⟨hcommits, hnopairs _ rfl _ _, fun cached hmem => ?_⟩
          rw [hempty] at hmem
          cases hmem
        · intro _ hnone
          rw [kept] at hnone
          cases hnone
        · exact fun hunbegun => absurd (h.unbegun hunbegun) hattempt
        · exact fun tx htx => by cases htx
        · exact List.forall_mem_append.mpr ⟨h.failed, List.forall_mem_singleton.mpr
            fun herror => absurd rfl herror⟩
      | false =>
        rw [if_neg Bool.false_ne_true]
        constructor
        · refine fun _ => ⟨hcommits, hnopairs _ rfl _ _, fun cached hmem => ?_⟩
          rw [hempty] at hmem
          cases hmem
        · exact fun _ hnone => absurd hnone hattempt
        · exact h.unbegun
        · exact fun tx htx => by cases htx
        · refine List.forall_mem_append.mpr ⟨h.failed, List.forall_mem_singleton.mpr fun _ => ?_⟩
          rw [hbefore, EnrollmentRun.view, hempty]
    | issues row issued credential stored approved deleted minted written holds =>
      obtain rfl := hsettles ⟨tx, htransaction, by rw [minted]; exact Option.some_ne_none issued⟩
      have hattempt : run.db.attempt ≠ none := by rw [stored]; exact Option.some_ne_none row
      obtain ⟨hcommits, hpairs, hcached⟩ := h.waiting (Or.inr hattempt)
      have hbegun : run.begun ≠ false := fun hunbegun => hattempt (h.unbegun hunbegun)
      have hrow : run.commits ++ (tx.staged.db.machines tx.staged.attempt.client).row.toList =
          [credential] := by
        rw [hcommits, written]
        rfl
      rw [if_pos rfl, minted, Option.isSome_some, if_pos rfl, hrow]
      constructor
      · rintro (hunbegun | hsome)
        · exact absurd hunbegun hbegun
        · exact absurd deleted hsome
      · refine fun _ _ => ⟨rfl, credential, issued, rfl, holds, fun pair hpair => ?_,
          fun cached hmem => ?_⟩
        · unfold EnrollmentRun.pairs at hpair
          dsimp only at hpair
          rw [pairs_append, hpairs] at hpair
          exact List.mem_singleton.mp hpair
        · -- the entry is the one of this transaction
          obtain ⟨tx', htx', hsome⟩ := hcached cached hmem
          obtain rfl := Option.some.inj (htransaction.symm.trans htx')
          exact Option.some.inj (hsome.symm.trans minted)
      · exact fun hunbegun => absurd hunbegun hbegun
      · exact fun tx htx => by cases htx
      · exact List.forall_mem_append.mpr ⟨h.failed, List.forall_mem_singleton.mpr
          fun herror => absurd rfl herror⟩

theorem Consistent.step (h : Consistent run) {op : EnrollmentOp}
    (honce : GivenOnce run op) (hsettles : Settles run op) : Consistent (op.step run) := by
  unfold EnrollmentOp.step
  cases op with
  | start publicKey scopes now =>
    dsimp only
    split_ifs with hblocked
    · exact h
    · exact h.start honce (by simpa using (not_or.mp hblocked).2) _
  | approve client approvedBy now fails =>
    dsimp only
    split_ifs with hblocked
    · exact h
    · exact h.decide (by simpa using (not_or.mp hblocked).2) _
  | deny deniedBy fails =>
    dsimp only
    split_ifs with hblocked
    · exact h
    · exact h.decide (by simpa using (not_or.mp hblocked).2) _
  | lookup id now =>
    dsimp only
    split_ifs
    · exact h
    · exact h.lookup id now hsettles
  | evict id =>
    dsimp only
    split_ifs
    · exact h.keep rfl rfl rfl rfl rfl fun cached hmem => by cases hmem
    · exact h
  | transact id answers => exact h.transact id answers
  | finish commits => exact h.finish hsettles
  | sweep now => exact h.keep rfl rfl rfl rfl rfl fun cached hmem => hmem
  | swept =>
    dsimp only
    split_ifs
    · exact h.keep rfl rfl rfl rfl rfl fun cached hmem => by cases hmem
    · exact h
  | others machines =>
    dsimp only
    split_ifs with hblocked
    · exact h
    · exact h.write (by simpa using hblocked) id (fun hbegun hnone => ⟨hbegun, hnone⟩) h.unbegun

theorem consistent_initial (machines : String → CredentialDB) :
    Consistent (EnrollmentRun.initial machines) := by
  constructor
  · exact fun _ => ⟨rfl, rfl, fun cached hmem => by cases hmem⟩
  · exact fun hbegun => by cases hbegun
  · exact fun _ => rfl
  · exact fun tx htx => by cases htx
  · exact fun record hmem => by cases hmem

/-- **Polls hand out committed credentials** in every run in which a transaction that has filled the
cache commits, and nobody reads the cache before it has. -/
theorem polls_honest (machines : String → CredentialDB) {ops : List EnrollmentOp}
    (honce : Run.Along EnrollmentOp.step GivenOnce (.initial machines) ops)
    (hsettles : Run.Along EnrollmentOp.step Settles (.initial machines) ops) :
    Honest (ops.foldl EnrollmentOp.step (.initial machines)) := by
  have hconsistent : Consistent (ops.foldl EnrollmentOp.step (.initial machines)) :=
    (honce.and hsettles).invariant (fun _ _ h hgood => h.step hgood.1 hgood.2)
      (consistent_initial machines)
  exact hconsistent.honest

end Polls

/-! ### Runs of a poll -/

/-- A login and its approval. -/
def approvedOps (deletes : Bool) : List EnrollmentOp :=
  [.start "key" [] 0, .lookup 1 0, .transact 1 ⟨0, "", "", false⟩, .finish true,
    .approve "machine" "admin" minute false, .lookup 2 (2 * minute),
    .transact 2 ⟨2 * minute, "a1", "r1", false⟩, .finish deletes]

def noMachines : String → CredentialDB := fun _ => newTables

/-- The run of a poll that redeems the attempt, and of one that comes again. -/
def redeemedRun : EnrollmentRun :=
  (approvedOps true ++ [EnrollmentOp.lookup 3 (2 * minute + 1)]).foldl
    (@EnrollmentOp.step markedHash) (.initial noMachines)

theorem polls_honest_redeemed : redeemedRun.pairs.map Issued.accessToken = ["a1", "a1"] ∧
    @Honest markedHash redeemedRun :=
  ⟨by decide +kernel, @polls_honest markedHash noMachines
    (approvedOps true ++ [EnrollmentOp.lookup 3 (2 * minute + 1)]) (by decide +kernel)
      (by decide +kernel)⟩

/-- The row of the attempt cannot be deleted; a poll gets the pair of the cache, and one after its
minute a new pair. -/
def unsettledRun : EnrollmentRun :=
  (approvedOps false ++ [EnrollmentOp.lookup 3 (2 * minute + 1), .lookup 4 (4 * minute), .evict 4,
    .transact 4 ⟨4 * minute, "a2", "r2", false⟩, .finish true]).foldl
      (@EnrollmentOp.step markedHash) (.initial noMachines)

/-- **A pair was handed out that was never committed**, then another one, and the poll that failed has
left its pair in the cache. -/
theorem polls_dishonest :
    Run.Along (@EnrollmentOp.step markedHash) GivenOnce (.initial noMachines)
      (approvedOps false ++ [EnrollmentOp.lookup 3 (2 * minute + 1), .lookup 4 (4 * minute), .evict 4,
        .transact 4 ⟨4 * minute, "a2", "r2", false⟩, .finish true]) ∧
    unsettledRun.pairs.map Issued.accessToken = ["a1", "a2"] ∧
    unsettledRun.commits.map AgentCredential.accessTokenHash = ["#a2"] ∧
    ¬@Honest markedHash unsettledRun := by
  have hpairs : unsettledRun.pairs.map Issued.accessToken = ["a1", "a2"] := by decide +kernel
  refine ⟨by decide +kernel, hpairs, by decide +kernel, fun honest => ?_⟩
  have hsingle : ∀ pair ∈ unsettledRun.pairs, ∀ pair' ∈ unsettledRun.pairs,
      pair.accessToken = pair'.accessToken := fun pair hpair pair' hpair' =>
    congrArg Issued.accessToken (@Honest.single markedHash _ honest pair hpair pair' hpair')
  exact absurd hsingle (by decide +kernel)

end Enrollment

end Komari
