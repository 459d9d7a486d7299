import Komari.Billing.Amount
import Komari.Billing.Ledger

/-!
# Voided entries

The ledger is append-only: an entry is voided by a second entry, its reversal, with the opposite amount.
-/

namespace Komari

namespace Billing

open TrafficReset
open Calendar (dateOnly appendInt appendInt_inj)
open Traffic (beijingDay)

/-! ### Entries made by hand -/

/-- The columns of a client that an entry takes over. -/
structure AddonClient where
  uuid : String
  name : String
  currency : String

/-- An entry that is made by hand. -/
structure TrafficResetInput where
  client : String
  amount : String
  /-- Currency of the amount; that of the client if it is blank. -/
  currency : String
  /-- When it happened; now if it is zero. -/
  occurredAt : ℤ
  note : String
  /-- Calls with the same key make one entry. -/
  idempotencyKey : String
  operator : String

section Writers

variable [CurrencyTable]

/-- `createAddonEntry`: the entry, and the entries after the call.  `found` is what the database has of the
client. -/
def createAddonEntry (latest : LatestFX) (clock : ℤ) (found : Except String AddonClient)
    (input : TrafficResetInput) (entryType : EntryType) (keyPrefix : String)
    (entries : List BillingEntry) : Except String (BillingEntry × List BillingEntry) :=
  if trimSpace input.client = "" ∨ trimSpace input.idempotencyKey = "" then
    .error "client and idempotency_key are required"
  else do
    let amount ← parseAmountMicros input.amount
    if amount < 0 then .error "amount must not be negative"
    else
      let entryKey := keyPrefix ++ input.client ++ ":" ++ input.idempotencyKey
      match entries.find? fun stored => stored.entryKey = entryKey with
      | some stored => .ok (stored, entries)
      | none => do
        let client ← found.mapError fun e => "find client: " ++ e
        let currencySource := if trimSpace input.currency = "" then client.currency else input.currency
        let (currency, valid) := normalizeCurrency currencySource
        if !valid then .error "currency is not a recognized ISO 4217 code"
        else do
          let occurredAt := if input.occurredAt = zeroTime then clock else input.occurredAt
          let (snapshotID, usdAmount) ← snapshotConversion latest amount currency
          let entry : BillingEntry :=
            { id := 0, entryKey := entryKey, client := client.uuid, clientName := client.name,
              type := entryType, day := dateOnly (beijingDay occurredAt), occurredAt := occurredAt,
              originalAmountMicros := amount, originalCurrency := currency,
              fxSnapshotID := snapshotID, usdAmountMicros := usdAmount, priceVersionID := none,
              reversalOf := none, sourceRef := input.idempotencyKey, note := trimSpace input.note,
              operator := input.operator }
          return ({ entry with id := entries.length + 1 }, createEntry entry entries)

/-- The costs of a traffic reset. -/
def createTrafficResetEntry (latest : LatestFX) (clock : ℤ) (found : Except String AddonClient)
    (input : TrafficResetInput) : List BillingEntry → Except String (BillingEntry × List BillingEntry) :=
  createAddonEntry latest clock found input .trafficReset "traffic-reset:"

/-- The costs of a new address. -/
def createIPChangeEntry (latest : LatestFX) (clock : ℤ) (found : Except String AddonClient)
    (input : TrafficResetInput) : List BillingEntry → Except String (BillingEntry × List BillingEntry) :=
  createAddonEntry latest clock found input .ipChange "ip-change:"

/-- Other costs. -/
def createOneTimeFeeEntry (latest : LatestFX) (clock : ℤ) (found : Except String AddonClient)
    (input : TrafficResetInput) : List BillingEntry → Except String (BillingEntry × List BillingEntry) :=
  createAddonEntry latest clock found input .adjustment "one-time-fee:"

/-! ### Voiding -/

/-- The key of the reversal of an entry. -/
def reversalKey (id : ℕ) : String := "reversal:" ++ decimal id

/-- The reversal of an entry, before it is stored. -/
def reversalEntry (clock : ℤ) (reason operator : String) (original : BillingEntry) : BillingEntry where
  id := 0
  entryKey := reversalKey original.id
  client := original.client
  clientName := original.clientName
  type := .reversal
  day := original.day
  occurredAt := clock
  originalAmountMicros := int64 (-original.originalAmountMicros)
  originalCurrency := original.originalCurrency
  fxSnapshotID := original.fxSnapshotID
  usdAmountMicros := original.usdAmountMicros.map fun usd => int64 (-usd)
  priceVersionID := none
  reversalOf := some original.id
  sourceRef := "void:" ++ decimal original.id
  note := reason
  operator := operator

/-- `VoidEntry`: the reversal, and the entries after the call. -/
def voidEntry (clock : ℤ) (id : ℕ) (reason operator : String) (entries : List BillingEntry) :
    Except String (BillingEntry × List BillingEntry) :=
  let reason := trimSpace reason
  if reason = "" then .error "reason is required"
  else
    match entries.find? fun stored => stored.id = id with
    | none => .error "record not found"
    | some original =>
      if original.type = .reversal then .error "a reversal entry cannot be voided"
      else
        match entries.find? fun stored => stored.entryKey = reversalKey original.id with
        | some stored => .ok (stored, entries)
        | none =>
          let entry := reversalEntry clock reason operator original
          .ok ({ entry with id := entries.length + 1 }, createEntry entry entries)

/-! ### Currencies -/

/-- The currency of an entry is written as its code. -/
def reconcileEntry (entry : BillingEntry) : BillingEntry :=
  let (canonical, valid) := normalizeCurrency entry.originalCurrency
  if !valid || entry.originalCurrency = canonical then entry
  else { entry with originalCurrency := canonical }

/-- The currency of a version is written as its code. -/
def reconcileVersion (version : PriceVersion) : PriceVersion :=
  let (canonical, valid) := normalizeCurrency version.currency
  if !valid || (version.currency = canonical && version.currencyValid) then version
  else { version with currency := canonical, currencyValid := valid }

/-- The currencies of all rows are written as codes. -/
def reconcileStoredCurrencies (db : BillingDB) : BillingDB where
  versions := db.versions.map reconcileVersion
  entries := db.entries.map reconcileEntry

/-! ### Runs -/

/-- A call that writes entries, with what it reads. -/
inductive LedgerCall
  /-- A price change or an accrual. -/
  | billing (call : BillingCall)
  /-- `CreateTrafficResetEntry` -/
  | trafficReset (latest : LatestFX) (clock : ℤ) (found : Except String AddonClient)
      (input : TrafficResetInput)
  /-- `CreateIPChangeEntry` -/
  | ipChange (latest : LatestFX) (clock : ℤ) (found : Except String AddonClient)
      (input : TrafficResetInput)
  /-- `CreateOneTimeFeeEntry` -/
  | oneTimeFee (latest : LatestFX) (clock : ℤ) (found : Except String AddonClient)
      (input : TrafficResetInput)
  /-- `VoidEntry` -/
  | void (clock : ℤ) (id : ℕ) (reason operator : String)
  /-- `ReconcileStoredCurrencies` -/
  | reconcile

/-- The state with the entries that a call leaves; a failed transaction leaves no trace. -/
def BillingState.write (s : BillingState)
    (call : List BillingEntry → Except String (BillingEntry × List BillingEntry)) : BillingState :=
  match call s.entries with
  | .ok (_, entries) => { s with entries := entries }
  | .error _ => s

def LedgerCall.apply (call : LedgerCall) (s : BillingState) : BillingState :=
  match call with
  | billing call => call.apply s
  | trafficReset latest clock found input => s.write (createTrafficResetEntry latest clock found input)
  | ipChange latest clock found input => s.write (createIPChangeEntry latest clock found input)
  | oneTimeFee latest clock found input => s.write (createOneTimeFeeEntry latest clock found input)
  | void clock id reason operator => s.write (voidEntry clock id reason operator)
  | reconcile => ⟨reconcileStoredCurrencies s.toBillingDB, s.coordination⟩

/-- A run of all calls that write entries. -/
def runLedger (calls : List LedgerCall) : BillingState :=
  calls.foldl (fun s call => call.apply s) ⟨⟨[], []⟩, none⟩

end Writers

/-! ### The invariant -/

/-- An entry that charges an amount. -/
structure Charges (entry : BillingEntry) : Prop where
  type : entry.type ≠ .reversal
  nonneg : 0 ≤ entry.originalAmountMicros
  le : entry.originalAmountMicros ≤ maxInt64
  key : ∀ id, entry.entryKey ≠ reversalKey id

/-- An entry that takes another one back. -/
structure Reverses (original entry : BillingEntry) : Prop where
  type : entry.type = .reversal
  reversalOf : entry.reversalOf = some original.id
  key : entry.entryKey = reversalKey original.id
  client : entry.client = original.client
  day : entry.day = original.day
  currency : entry.originalCurrency = original.originalCurrency
  snapshot : entry.fxSnapshotID = original.fxSnapshotID
  amount : entry.originalAmountMicros = -original.originalAmountMicros

/-- Every entry is a charge or the reversal of one. -/
structure SoundEntries (entries : List BillingEntry) : Prop where
  ids : entries.map BillingEntry.id = List.range' 1 entries.length
  keys : (entries.map BillingEntry.entryKey).Nodup
  rows : ∀ entry ∈ entries, Charges entry ∨
    ∃ original ∈ entries, Charges original ∧ Reverses original entry

theorem reversalKey_inj {id id' : ℕ} (h : reversalKey id = reversalKey id') : id = id' := by
  have hlist : appendInt id 0 = appendInt id' 0 := by
    simpa [reversalKey, decimal] using congrArg String.toList h
  exact_mod_cast appendInt_inj hlist

/-- A key with another first letter is not the key of a reversal. -/
theorem ne_reversalKey {key : String} (h : key.toList.head? ≠ some 'r') (id : ℕ) :
    key ≠ reversalKey id := by
  rintro rfl
  exact h (by simp [reversalKey])

variable {entries : List BillingEntry}

theorem SoundEntries.nodup_ids (h : SoundEntries entries) :
    (entries.map BillingEntry.id).Nodup := by
  rw [h.ids]
  exact List.nodup_range' 1

variable {entry : BillingEntry}

theorem SoundEntries.eq_of_id (h : SoundEntries entries)
    {entry' : BillingEntry} (hmem : entry ∈ entries) (hmem' : entry' ∈ entries)
    (hid : entry.id = entry'.id) : entry = entry' :=
  List.inj_on_of_nodup_map h.nodup_ids hmem hmem' hid

theorem SoundEntries.eq_of_key (h : SoundEntries entries)
    {entry' : BillingEntry} (hmem : entry ∈ entries) (hmem' : entry' ∈ entries)
    (hkey : entry.entryKey = entry'.entryKey) : entry = entry' :=
  List.inj_on_of_nodup_map h.keys hmem hmem' hkey

theorem SoundEntries.id_pos (h : SoundEntries entries) (hmem : entry ∈ entries) : 0 < entry.id := by
  have hin : entry.id ∈ entries.map BillingEntry.id := List.mem_map_of_mem hmem
  rw [h.ids, List.mem_range'_1] at hin
  omega

theorem ids_createEntry
    (h : entries.map BillingEntry.id = List.range' 1 entries.length) (entry : BillingEntry) :
    (createEntry entry entries).map BillingEntry.id =
      List.range' 1 (createEntry entry entries).length := by
  rw [createEntry]
  split_ifs
  · exact h
  · rw [List.map_append, h, List.length_append, List.length_singleton, List.range'_concat,
      List.map_singleton, one_mul, Nat.add_comm 1]

theorem soundEntries_nil : SoundEntries [] := ⟨rfl, List.nodup_nil, by simp⟩

theorem SoundEntries.createCharge (h : SoundEntries entries)
    (hentry : Charges entry) : SoundEntries (createEntry entry entries) where
  ids := ids_createEntry h.ids entry
  keys := nodup_keys_createEntry h.keys
  rows := by
    intro stored hmem
    rcases mem_createEntry hmem with hold | ⟨-, rfl⟩
    · rcases h.rows stored hold with hcharges | ⟨original, horiginal, hcharges, hreverses⟩
      · exact Or.inl hcharges
      · exact Or.inr ⟨original, subset_createEntry entry entries original horiginal, hcharges, hreverses⟩
    · exact Or.inl ⟨hentry.type, hentry.nonneg, hentry.le, hentry.key⟩

theorem Charges.int64_neg (h : Charges entry) :
    int64 (-entry.originalAmountMicros) = -entry.originalAmountMicros := by
  have hnonneg := h.nonneg
  have hle := h.le
  refine int64_eq_self ⟨?_, ?_⟩
  · unfold minInt64
    unfold maxInt64 at hle
    omega
  · unfold maxInt64
    omega

theorem Charges.reverses {original : BillingEntry} (h : Charges original) (clock : ℤ)
    (reason operator : String) (id : ℕ) :
    Reverses original { reversalEntry clock reason operator original with id := id } :=
  ⟨rfl, rfl, rfl, rfl, rfl, rfl, rfl, h.int64_neg⟩

theorem SoundEntries.createReversal (h : SoundEntries entries)
    {original : BillingEntry} (horiginal : original ∈ entries) (hcharges : Charges original)
    (clock : ℤ) (reason operator : String) :
    SoundEntries (createEntry (reversalEntry clock reason operator original) entries) where
  ids := ids_createEntry h.ids _
  keys := nodup_keys_createEntry h.keys
  rows := by
    intro stored hmem
    rcases mem_createEntry hmem with hold | ⟨-, rfl⟩
    · rcases h.rows stored hold with hstored | ⟨other, hother, hstored, hreverses⟩
      · exact Or.inl hstored
      · exact Or.inr ⟨other, subset_createEntry _ entries other hother, hstored, hreverses⟩
    · exact Or.inr ⟨original, subset_createEntry _ entries original horiginal, hcharges,
        hcharges.reverses clock reason operator _⟩

/-- Entries to which charges have been added. -/
inductive Grows (entries : List BillingEntry) : List BillingEntry → Prop
  | refl : Grows entries entries
  | create {entries' : List BillingEntry} {entry : BillingEntry} (h : Grows entries entries')
      (hentry : Charges entry) : Grows entries (createEntry entry entries')

theorem Grows.trans {entries' entries'' : List BillingEntry} (h : Grows entries entries')
    (h' : Grows entries' entries'') : Grows entries entries'' := by
  induction h' with
  | refl => exact h
  | create _ hentry ih => exact ih.create hentry

theorem Grows.sound {entries' : List BillingEntry} (h : Grows entries entries')
    (hsound : SoundEntries entries) : SoundEntries entries' := by
  induction h with
  | refl => exact hsound
  | create _ hentry ih => exact ih.createCharge hentry

theorem Grows.subset {entries' : List BillingEntry} (h : Grows entries entries') :
    ∀ entry ∈ entries, entry ∈ entries' := by
  induction h with
  | refl => exact fun _ hmem => hmem
  | create _ _ ih => exact fun entry hmem => subset_createEntry _ _ entry (ih entry hmem)

/-! ### Writers keep it -/

theorem nonneg_of_multiplyRatio {amount numerator denominator result : ℤ} (hamount : 0 ≤ amount)
    (h : multiplyRatio amount numerator denominator = .ok result) : 0 ≤ result ∧ InInt64 result := by
  unfold multiplyRatio at h
  split_ifs at h with hinvalid
  rw [not_or, not_le, not_lt] at hinvalid
  rw [roundRatToInt64_eq] at h
  split_ifs at h with hin
  cases h
  refine ⟨roundHalfAway_nonneg (mul_nonneg (by exact_mod_cast hamount) (div_nonneg ?_ ?_)), hin⟩
  · exact_mod_cast hinvalid.2
  · exact_mod_cast hinvalid.1.le

theorem inInt64_of_parseAmountMicros {value : String} {amount : ℤ}
    (h : parseAmountMicros value = .ok amount) : InInt64 amount := by
  unfold parseAmountMicros at h
  dsimp only at h
  split_ifs at h
  all_goals
    rw [Except.ok.injEq] at h
    rw [← h]
    assumption

/-- A written state has no other entries than the call leaves. -/
theorem entries_write {s : BillingState}
    {call : List BillingEntry → Except String (BillingEntry × List BillingEntry)}
    {p : List BillingEntry → Prop} (hsame : p s.entries)
    (hwrite : ∀ entry entries, call s.entries = .ok (entry, entries) → p entries) :
    p (s.write call).entries := by
  rw [BillingState.write]
  split
  · next entry entries hok => exact hwrite entry entries hok
  · exact hsame

section Writers

variable [CurrencyTable]

variable {entry : BillingEntry}

variable {latest : LatestFX}

/-- The accrual of a priced version is a charge. -/
theorem charges_accrual {version : PriceVersion} {start stop : ℤ} (hprice : 0 ≤ version.priceMicros)
    (h : accrualEntryForInterval latest version start stop = .ok (some entry)) : Charges entry := by
  unfold accrualEntryForInterval at h
  dsimp only at h
  generalize (if start < version.effectiveFrom then version.effectiveFrom else start) = first at h
  split_ifs at h with hnonempty
  · obtain ⟨amount, hamount, h⟩ := bind_eq_ok.mp h
    obtain ⟨hnonneg, hin⟩ := nonneg_of_multiplyRatio hprice (mapError_eq_ok.mp hamount)
    split_ifs at h with hzero
    · cases h
    · obtain ⟨conversion, -, h⟩ := bind_eq_ok.mp h
      cases h
      exact ⟨by simp, hnonneg, hin.2, ne_reversalKey (by simp [baseKey])⟩
  · cases h

theorem grows_accrueDays {answers : AccrualAnswers} {version : PriceVersion}
    (hprice : 0 ≤ version.priceMicros) (days : ℕ) (day : ℤ) (entries : List BillingEntry) :
    Grows entries (accrueDays answers version days day entries).2 := by
  induction days generalizing day entries with
  | zero => exact .refl
  | succ days ih =>
    rw [accrueDays]
    split
    · exact .refl
    · exact ih _ _
    · next entry hentry =>
      split
      · exact .refl
      · exact (Grows.refl.create (charges_accrual hprice hentry)).trans (ih _ _)

theorem grows_accrueVersions {answers : AccrualAnswers} {through : ℤ} {stored : List BillingEntry}
    {versions : List PriceVersion} (hprice : ∀ version ∈ versions, 0 ≤ version.priceMicros)
    (entries : List BillingEntry) :
    Grows entries (accrueVersions answers through stored versions entries).2 := by
  induction versions generalizing entries with
  | nil => exact .refl
  | cons version versions ih =>
    obtain ⟨hversion, hversions⟩ := List.forall_mem_cons.mp hprice
    have hgrows : Grows entries (accrueVersion answers through stored version entries).2 :=
      grows_accrueDays hversion _ _ entries
    rw [accrueVersions]
    generalize accrueVersion answers through stored version entries = result at hgrows ⊢
    obtain ⟨outcome, after⟩ := result
    cases outcome with
    | error e => exact hgrows
    | ok u => exact hgrows.trans (ih hversions after)

/-- **An accrual adds charges.** -/
theorem grows_ensureAccruedThrough (answers : AccrualAnswers) (through now done : ℤ)
    (s : BillingState) : Grows s.entries (ensureAccruedThrough answers through now done s).2.entries := by
  have hprice : ∀ version ∈ sortOn PriceVersion.rank (s.versions.filter PriceVersion.priced),
      0 ≤ version.priceMicros := by
    intro version hmem
    have hpriced := (List.mem_filter.mp (mem_sortOn.mp hmem)).2
    exact (priced_iff.mp hpriced).1.le
  have hgrows := @grows_accrueVersions _ answers (beijingDay through) s.entries _ hprice s.entries
  rw [ensureAccruedThrough]
  dsimp only
  split_ifs
  · exact .refl
  · cases answers.listed with
    | error e => exact .refl
    | ok u =>
      dsimp only
      generalize accrueVersions answers (beijingDay through) s.entries
        (sortOn PriceVersion.rank (s.versions.filter PriceVersion.priced)) s.entries = result at hgrows ⊢
      obtain ⟨outcome, after⟩ := result
      cases outcome with
      | error e => exact hgrows
      | ok u => exact hgrows

/-- A price change adds a single payment, or nothing. -/
theorem grows_capturePriceVersion {existing : BilledClient} {updates : Updates}
    {source : String} {effectiveAt : ℤ} {db db' : BillingDB} {changed : Bool}
    (h : capturePriceVersion latest existing updates source effectiveAt db = .ok (db', changed)) :
    Grows db.entries db'.entries := by
  obtain ⟨⟨next, hchanged⟩, -, h⟩ := bind_eq_ok.mp h
  dsimp only at h
  split_ifs at h
  · cases h
    exact .refl
  · obtain ⟨version, hversion, h⟩ := bind_eq_ok.mp h
    obtain ⟨entries, hentries, h⟩ := bind_eq_ok.mp h
    cases h
    have hprice := (priceVersionFromClient_spec hversion).2.2.2.2.2.1
    unfold captureOneTime at hentries
    dsimp only at hentries
    split_ifs at hentries with hdue
    · unfold createOneTimeEntry at hentries
      dsimp only at hentries
      split_ifs at hentries
      · cases hentries
        exact .refl
      · obtain ⟨found, -, hentries⟩ := bind_eq_ok.mp hentries
        cases hentries
        exact Grows.refl.create
          ⟨by simp, hdue.2.1.le, hprice.2, ne_reversalKey (by simp [oneTimeKey])⟩
    · cases hentries
      exact .refl

theorem entries_ensureInitialPriceVersions {clients : List BilledClient}
    {effectiveAt : ℤ} {db db' : BillingDB}
    (h : ensureInitialPriceVersions latest clients effectiveAt db = .ok db') :
    db'.entries = db.entries := by
  refine (foldlM_eq_ok (p := fun _ => True) (r := fun a b : BillingDB => b.entries = a.entries)
    (fun _ _ => rfl) (fun _ _ _ hab hbc => hbc.trans hab) ?_ trivial h).2
  intro db client db' _ hstep
  unfold ensureInitialVersion at hstep
  split_ifs at hstep
  · cases hstep
    exact ⟨trivial, rfl⟩
  · obtain ⟨version, -, hstep⟩ := bind_eq_ok.mp hstep
    cases hstep
    exact ⟨trivial, rfl⟩

theorem grows_billing (call : BillingCall) (s : BillingState) :
    Grows s.entries (call.apply s).entries := by
  cases call with
  | ensureInitial latest clients effectiveAt =>
    rw [BillingCall.apply]
    split
    · next db hok => exact (entries_ensureInitialPriceVersions hok) ▸ .refl
    · exact .refl
  | capture latest existing updates source effectiveAt =>
    rw [BillingCall.apply]
    split
    · next db changed hok => exact grows_capturePriceVersion hok
    · exact .refl
  | closeOpen client effectiveAt =>
    rw [BillingCall.apply, closeOpenPriceVersions]
    split_ifs
    · exact .refl
    · exact .refl
  | accrue answers now done => exact grows_ensureAccruedThrough answers _ now done s

/-- An entry made by hand is a charge, under a key with one of the prefixes. -/
theorem grows_createAddonEntry {clock : ℤ} {found : Except String AddonClient}
    {input : TrafficResetInput} {entryType : EntryType} {keyPrefix : String}
    (htype : entryType ≠ .reversal) (hkey : ∀ rest, (keyPrefix ++ rest).toList.head? ≠ some 'r')
    {entries entries' : List BillingEntry}
    (h : createAddonEntry latest clock found input entryType keyPrefix entries =
      .ok (entry, entries')) : Grows entries entries' := by
  unfold createAddonEntry at h
  by_cases hblank : trimSpace input.client = "" ∨ trimSpace input.idempotencyKey = ""
  · rw [if_pos hblank] at h
    cases h
  rw [if_neg hblank] at h
  obtain ⟨amount, hamount, h⟩ := bind_eq_ok.mp h
  by_cases hnegative : amount < 0
  · rw [if_pos hnegative] at h
    cases h
  rw [if_neg hnegative] at h
  dsimp only at h
  split at h
  · cases h
    exact .refl
  · obtain ⟨client, -, h⟩ := bind_eq_ok.mp h
    generalize normalizeCurrency (if trimSpace input.currency = "" then client.currency else
      input.currency) = currency at h
    generalize (if input.occurredAt = zeroTime then clock else input.occurredAt) = occurredAt at h
    split at h
    · cases h
    · obtain ⟨⟨snapshotID, usdAmount⟩, -, h⟩ := bind_eq_ok.mp h
      cases h
      refine Grows.refl.create ⟨htype, not_lt.mp hnegative,
        (inInt64_of_parseAmountMicros hamount).2, ?_⟩
      rw [String.append_assoc, String.append_assoc]
      exact ne_reversalKey (hkey _)

/-- What a call does to the entries. -/
inductive Steps (entries : List BillingEntry) : List BillingEntry → Prop
  | grows {entries' : List BillingEntry} (h : Grows entries entries') : Steps entries entries'
  /-- A reversal of a charge is added. -/
  | reverses {original : BillingEntry} (hmem : original ∈ entries) (hcharges : Charges original)
      (clock : ℤ) (reason operator : String) :
      Steps entries (createEntry (reversalEntry clock reason operator original) entries)
  /-- The currencies are written as codes. -/
  | reconciles : Steps entries (entries.map reconcileEntry)

theorem steps_voidEntry {clock : ℤ} {id : ℕ} {reason operator : String}
    {entries entries' : List BillingEntry} (hsound : SoundEntries entries)
    (h : voidEntry clock id reason operator entries = .ok (entry, entries')) :
    Steps entries entries' := by
  unfold voidEntry at h
  dsimp only at h
  split_ifs at h with hreason
  split at h
  · cases h
  · next original hfound =>
    split_ifs at h with htype
    split at h
    · cases h
      exact .grows .refl
    · cases h
      have hmem := List.mem_of_find?_eq_some hfound
      rcases hsound.rows original hmem with hcharges | ⟨other, -, -, hreverses⟩
      · exact .reverses hmem hcharges clock _ operator
      · exact absurd hreverses.type htype

/-- **What a call does**: it adds charges, or a reversal of one, or writes currencies as codes. -/
theorem steps_apply (call : LedgerCall) {s : BillingState} (hsound : SoundEntries s.entries) :
    Steps s.entries (call.apply s).entries := by
  have haddon : ∀ {latest : LatestFX} {clock : ℤ} {found : Except String AddonClient}
      {input : TrafficResetInput} {entryType : EntryType} {keyPrefix : String},
      entryType ≠ .reversal → (∀ rest, (keyPrefix ++ rest).toList.head? ≠ some 'r') →
        Steps s.entries
          (s.write (createAddonEntry latest clock found input entryType keyPrefix)).entries :=
    fun htype hkey => entries_write (.grows .refl) fun entry entries hok =>
      .grows (grows_createAddonEntry htype hkey hok)
  cases call with
  | billing call => exact .grows (grows_billing call s)
  | trafficReset latest clock found input =>
    rw [LedgerCall.apply]
    unfold createTrafficResetEntry
    exact haddon (by decide) (by simp)
  | ipChange latest clock found input =>
    rw [LedgerCall.apply]
    unfold createIPChangeEntry
    exact haddon (by decide) (by simp)
  | oneTimeFee latest clock found input =>
    rw [LedgerCall.apply]
    unfold createOneTimeFeeEntry
    exact haddon (by decide) (by simp)
  | void clock id reason operator =>
    exact entries_write (.grows .refl) fun entry entries hok => steps_voidEntry hsound hok
  | reconcile => exact .reconciles

theorem reconcileEntry_eq (entry : BillingEntry) :
    reconcileEntry entry =
      { entry with originalCurrency := (reconcileEntry entry).originalCurrency } := by
  rw [reconcileEntry]
  dsimp only
  split_ifs
  · rfl
  · rfl

theorem charges_reconcileEntry (h : Charges entry) : Charges (reconcileEntry entry) := by
  rw [reconcileEntry_eq]
  exact ⟨h.type, h.nonneg, h.le, h.key⟩

/-- The reversal has the same currency as the original, before and after. -/
theorem reverses_reconcileEntry {original : BillingEntry} (h : Reverses original entry) :
    Reverses (reconcileEntry original) (reconcileEntry entry) := by
  have hcurrency : (reconcileEntry entry).originalCurrency =
      (reconcileEntry original).originalCurrency := by
    rw [reconcileEntry, reconcileEntry, h.currency]
    dsimp only
    split_ifs
    · exact h.currency
    · rfl
  rw [reconcileEntry_eq original, reconcileEntry_eq entry, hcurrency]
  exact ⟨h.type, h.reversalOf, h.key, h.client, h.day, rfl, h.snapshot, h.amount⟩

theorem map_reconcileEntry {α : Type} {f : BillingEntry → α}
    (h : ∀ entry currency, f { entry with originalCurrency := currency } = f entry)
    (entries : List BillingEntry) : (entries.map reconcileEntry).map f = entries.map f := by
  rw [List.map_map]
  refine List.map_congr_left fun entry _ => ?_
  rw [Function.comp_apply, reconcileEntry_eq]
  exact h entry _

/-- **A call keeps the invariant.** -/
theorem Steps.sound {entries entries' : List BillingEntry} (h : Steps entries entries')
    (hsound : SoundEntries entries) : SoundEntries entries' := by
  cases h with
  | grows h => exact h.sound hsound
  | reverses hmem hcharges clock reason operator =>
    exact hsound.createReversal hmem hcharges clock reason operator
  | reconciles =>
    refine ⟨?_, ?_, ?_⟩
    · rw [map_reconcileEntry fun _ _ => rfl, hsound.ids, List.length_map]
    · rw [map_reconcileEntry fun _ _ => rfl]
      exact hsound.keys
    · intro entry hentry
      obtain ⟨stored, hstored, rfl⟩ := List.mem_map.mp hentry
      rcases hsound.rows stored hstored with hcharges | ⟨original, hmem, hcharges, hreverses⟩
      · exact Or.inl (charges_reconcileEntry hcharges)
      · exact Or.inr ⟨_, List.mem_map_of_mem hmem, charges_reconcileEntry hcharges,
          reverses_reconcileEntry hreverses⟩

/-- A stored row keeps its id, its key and its type. -/
theorem Steps.keeps {entries entries' : List BillingEntry} (h : Steps entries entries')
    (hmem : entry ∈ entries) : ∃ entry' ∈ entries',
      entry'.id = entry.id ∧ entry'.entryKey = entry.entryKey ∧ entry'.type = entry.type := by
  cases h with
  | grows h => exact ⟨entry, h.subset entry hmem, rfl, rfl, rfl⟩
  | reverses => exact ⟨entry, subset_createEntry _ _ entry hmem, rfl, rfl, rfl⟩
  | reconciles =>
    refine ⟨reconcileEntry entry, List.mem_map_of_mem hmem, ?_⟩
    rw [reconcileEntry_eq]
    exact ⟨rfl, rfl, rfl⟩

/-- **A run keeps the invariant, and every row.** -/
theorem foldl_apply_ledger (calls : List LedgerCall) {s : BillingState}
    (hsound : SoundEntries s.entries) :
    SoundEntries (calls.foldl (fun s call => call.apply s) s).entries ∧
      ∀ entry ∈ s.entries, ∃ entry' ∈ (calls.foldl (fun s call => call.apply s) s).entries,
        entry'.id = entry.id ∧ entry'.entryKey = entry.entryKey ∧ entry'.type = entry.type := by
  induction calls generalizing s with
  | nil => exact ⟨hsound, fun entry hmem => ⟨entry, hmem, rfl, rfl, rfl⟩⟩
  | cons call calls ih =>
    have hstep := steps_apply call hsound
    obtain ⟨hafter, hkeeps⟩ := ih (hstep.sound hsound)
    refine ⟨hafter, fun entry hmem => ?_⟩
    obtain ⟨entry', hmem', hid, hkey, htype⟩ := hstep.keeps hmem
    obtain ⟨entry'', hmem'', hid', hkey', htype'⟩ := hkeeps entry' hmem'
    exact ⟨entry'', hmem'', hid'.trans hid, hkey'.trans hkey, htype'.trans htype⟩

theorem soundEntries_runLedger (calls : List LedgerCall) : SoundEntries (runLedger calls).entries :=
  (foldl_apply_ledger calls soundEntries_nil).1

theorem exists_key_voidEntry {clock : ℤ} {id : ℕ} {reason operator : String} {s : BillingState}
    (hsound : SoundEntries s.entries) (hreason : trimSpace reason ≠ "")
    (h : ∃ entry ∈ s.entries, entry.id = id ∧ entry.type ≠ .reversal) :
    ∃ entry ∈ (LedgerCall.apply (.void clock id reason operator) s).entries,
      entry.entryKey = reversalKey id := by
  obtain ⟨original, hmem, rfl, htype⟩ := h
  have hfind : s.entries.find? (fun stored => stored.id = original.id) = some original := by
    cases hfound : s.entries.find? fun stored => stored.id = original.id with
    | none => simpa using List.find?_eq_none.mp hfound original hmem
    | some stored =>
      have hid : stored.id = original.id := by simpa using List.find?_some hfound
      rw [hsound.eq_of_id (List.mem_of_find?_eq_some hfound) hmem hid]
  rw [LedgerCall.apply, BillingState.write, voidEntry]
  simp only [hreason, hfind, htype, if_false]
  cases hfound : s.entries.find? fun stored => stored.entryKey = reversalKey original.id with
  | none => exact exists_key_createEntry (reversalEntry clock _ operator original) s.entries
  | some stored =>
    exact ⟨stored, List.mem_of_find?_eq_some hfound, by simpa using List.find?_some hfound⟩

/-- **A voided entry has exactly one reversal**, whatever comes later. -/
theorem exists_reversal {calls later : List LedgerCall} {clock : ℤ} {id : ℕ}
    {reason operator : String} (hreason : trimSpace reason ≠ "")
    (hstored : ∃ entry ∈ (runLedger calls).entries, entry.id = id ∧ entry.type ≠ .reversal) :
    ∃ original ∈ (runLedger (calls ++ .void clock id reason operator :: later)).entries,
      original.id = id ∧ Charges original ∧ ∃ reversal, Reverses original reversal ∧
        (runLedger (calls ++ .void clock id reason operator :: later)).entries.filter
          (fun entry => decide (entry.type = .reversal ∧ entry.reversalOf = some id)) = [reversal] := by
  have hbefore := soundEntries_runLedger calls
  obtain ⟨keyed, hkeyed, hkey⟩ :=
    @exists_key_voidEntry _ clock id reason operator _ hbefore hreason hstored
  have hsound := soundEntries_runLedger (calls ++ .void clock id reason operator :: later)
  have hrun : (runLedger (calls ++ .void clock id reason operator :: later)) =
      later.foldl (fun s call => call.apply s)
        (LedgerCall.apply (.void clock id reason operator) (runLedger calls)) := by
    rw [runLedger, List.foldl_append]
    rfl
  have hmid := (steps_apply (.void clock id reason operator) hbefore).sound hbefore
  obtain ⟨reversal, hreversal, -, hkey', -⟩ := (foldl_apply_ledger later hmid).2 keyed hkeyed
  rw [← hrun] at hreversal
  generalize runLedger (calls ++ .void clock id reason operator :: later) = s at *
  rcases hsound.rows reversal hreversal with hcharges | ⟨original, hmem, hcharges, hreverses⟩
  · exact absurd (hkey'.trans hkey) (hcharges.key id)
  · have hid : original.id = id := reversalKey_inj (hreverses.key.symm.trans (hkey'.trans hkey))
    refine ⟨original, hmem, hid, hcharges, reversal, hreverses, ?_⟩
    refine List.perm_singleton.mp ((List.perm_ext_iff_of_nodup
      ((List.Nodup.of_map _ hsound.keys).filter _) (List.nodup_singleton _)).mpr fun entry => ?_)
    rw [List.mem_filter, List.mem_singleton, decide_eq_true_eq]
    constructor
    · rintro ⟨hentry, htype, hof⟩
      rcases hsound.rows entry hentry with hcharges' | ⟨other, -, -, hreverses'⟩
      · exact absurd htype hcharges'.type
      · have hother : other.id = id := by simpa [hreverses'.reversalOf] using hof
        refine hsound.eq_of_key hentry hreversal ?_
        rw [hreverses'.key, hother, hkey', hkey]
    · rintro rfl
      exact ⟨hreversal, hreverses.type, hid ▸ hreverses.reversalOf⟩

end Writers

end Billing

end Komari
