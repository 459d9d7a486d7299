import Komari.Billing.CatchUp

/-!
# Price changes and accruals, in any order

* `run_accrues_once` : **in such a run every billed day has exactly its one accrual**, if no cycle is
  longer than 106751 days.
* `run_overcharges` : a cycle of 213504 days.
-/

namespace Komari

namespace Billing

open Calendar (dateOnly)
open Traffic (beijingDay dayStart dayStart_le_iff lt_dayStart_iff)

/-! ### Runs -/

/-- A call, with what it reads. -/
inductive BillingCall
  /-- `EnsureInitialPriceVersions` -/
  | ensureInitial (latest : LatestFX) (clients : List BilledClient) (effectiveAt : ℤ)
  /-- `CapturePriceVersion` -/
  | capture (latest : LatestFX) (existing : BilledClient) (updates : Updates) (source : String)
      (effectiveAt : ℤ)
  /-- `CloseOpenPriceVersions` -/
  | closeOpen (client : String) (effectiveAt : ℤ)
  /-- `EnsureAccruedThrough` the day before `now` -/
  | accrue (answers : AccrualAnswers) (now done : ℤ)

namespace BillingCall

/-- The call may be followed by what takes effect from this instant on: the time of a price change,
and the end of the days that are accrued. -/
def reach : BillingCall → ℤ
  | ensureInitial _ _ effectiveAt => effectiveAt
  | capture _ _ _ _ effectiveAt => effectiveAt
  | closeOpen _ effectiveAt => effectiveAt
  | accrue _ now _ => dayStart (beijingDay now)

/-- It writes a price version. -/
def changesPrices : BillingCall → Bool
  | accrue _ _ _ => false
  | _ => true

/-- The call writes no version with a cycle that overflows. -/
def Bounded : BillingCall → Prop
  | ensureInitial _ clients _ => ∀ client ∈ clients, client.billingCycle ≤ maxCycleDays
  | capture _ existing updates _ _ => ∀ next changed,
      clientAfterBillingUpdate existing updates = .ok (next, changed) →
        next.billingCycle ≤ maxCycleDays
  | _ => True

/-- The state after a call; a failed transaction leaves no trace. -/
def apply [CurrencyTable] (call : BillingCall) (s : BillingState) : BillingState :=
  match call with
  | ensureInitial latest clients effectiveAt =>
    match ensureInitialPriceVersions latest clients effectiveAt s.toBillingDB with
    | .ok db => ⟨db, s.coordination⟩
    | .error _ => s
  | capture latest existing updates source effectiveAt =>
    match capturePriceVersion latest existing updates source effectiveAt s.toBillingDB with
    | .ok (db, changed) => ⟨db, if changed then none else s.coordination⟩
    | .error _ => s
  | closeOpen client effectiveAt =>
    ⟨closeOpenPriceVersions client effectiveAt s.toBillingDB, s.coordination⟩
  | accrue answers now done => (ensureAccruedThrough answers (yesterdayInBeijing now) now done s).2

end BillingCall

/-- Price changes take effect in order, and not within days that are accrued already. -/
def Timely (calls : List BillingCall) : Prop :=
  calls.Pairwise fun earlier later => later.changesPrices = true → earlier.reach ≤ later.reach

/-- Calls on an empty database. -/
def run [CurrencyTable] (calls : List BillingCall) : BillingState :=
  calls.foldl (fun s call => call.apply s) ⟨⟨[], []⟩, none⟩

/-! ### The invariant -/

/-- Nothing is missing up to a day. -/
def Complete (db : BillingDB) (day : ℤ) : Prop :=
  ∀ version ∈ db.versions, AccruedBefore db.entries version (day + 1)

/-- The versions of a client follow each other, and end by `clock`; the ledger is sound. -/
structure Consistent (db : BillingDB) (clock : ℤ) : Prop where
  versions : SoundVersions db.versions
  fresh : ∀ version ∈ db.versions, version.id ≤ db.versions.length
  past : ∀ version ∈ db.versions, version.effectiveFrom ≤ clock ∧
    ∀ effectiveTo, version.effectiveTo = some effectiveTo → effectiveTo ≤ clock
  ordered : db.versions.Pairwise fun version later => version.client = later.client →
    ∃ effectiveTo, version.effectiveTo = some effectiveTo ∧ effectiveTo ≤ later.effectiveFrom
  ledger : SoundLedger db.versions clock db.entries

variable {versions : List PriceVersion} {entries : List BillingEntry}

theorem SoundLedger.mono {limit limit' : ℤ}
    (h : SoundLedger versions limit entries) (hle : limit ≤ limit') :
    SoundLedger versions limit' entries := by
  refine ⟨h.keys, fun entry hmem => ?_, h.gapless⟩
  rcases h.sound entry hmem with ⟨version, hversion, day, haccrues, hdue, hday⟩ | hother
  · exact Or.inl ⟨version, hversion, day, haccrues, hdue, hday.trans hle⟩
  · exact Or.inr hother

variable {db : BillingDB}

theorem Consistent.mono {clock clock' : ℤ} (h : Consistent db clock)
    (hle : clock ≤ clock') : Consistent db clock' := by
  refine ⟨h.versions, h.fresh, fun version hmem => ?_, h.ordered, h.ledger.mono hle⟩
  obtain ⟨hfrom, hto⟩ := h.past version hmem
  exact ⟨hfrom.trans hle, fun effectiveTo hsome => (hto effectiveTo hsome).trans hle⟩

theorem consistent_empty (clock : ℤ) : Consistent ⟨[], []⟩ clock := by
  refine ⟨⟨List.nodup_nil, ?_, ?_, ?_⟩, ?_, ?_, List.Pairwise.nil, ⟨List.nodup_nil, ?_, ?_⟩⟩ <;> simp

/-! ### Closing versions -/

section Closing

variable {client : String} {effectiveAt : ℤ}

/-- The version with its end set, if it is an open one of the client. -/
def closedVersion (client : String) (effectiveAt : ℤ) (version : PriceVersion) : PriceVersion :=
  if version.client = client ∧ version.effectiveTo = none then
    { version with effectiveTo := some effectiveAt }
  else version

theorem closeOpen_eq (versions : List PriceVersion) :
    closeOpen client effectiveAt versions = versions.map (closedVersion client effectiveAt) := rfl

@[simp] theorem closedVersion_id (version : PriceVersion) :
    (closedVersion client effectiveAt version).id = version.id := by
  unfold closedVersion
  split_ifs <;> rfl

@[simp] theorem closedVersion_client (version : PriceVersion) :
    (closedVersion client effectiveAt version).client = version.client := by
  unfold closedVersion
  split_ifs <;> rfl

@[simp] theorem closedVersion_effectiveFrom (version : PriceVersion) :
    (closedVersion client effectiveAt version).effectiveFrom = version.effectiveFrom := by
  unfold closedVersion
  split_ifs <;> rfl

theorem closedVersion_effectiveTo (version : PriceVersion) :
    (closedVersion client effectiveAt version).effectiveTo =
      if version.client = client ∧ version.effectiveTo = none then some effectiveAt
      else version.effectiveTo := by
  unfold closedVersion
  split_ifs <;> rfl

/-- A version that is closed costs the same in the days that end before. -/
theorem dueAmount_closedVersion (version : PriceVersion) {day : ℤ}
    (hday : dayStart (day + 1) ≤ effectiveAt) :
    dueAmount (closedVersion client effectiveAt version) day = dueAmount version day := by
  unfold closedVersion
  split_ifs with hopen
  · have hsame : billedInstants { version with effectiveTo := some effectiveAt } day =
        billedInstants version day := by
      ext t
      refine and_congr_right fun ht => ⟨fun h => ?_, fun h => ?_⟩
      · exact ⟨h.effective, fun effectiveTo hsome => by simp [hopen.2] at hsome, h.notExpired⟩
      · refine ⟨h.effective, fun effectiveTo hsome => ?_, h.notExpired⟩
        obtain rfl := Option.some.inj hsome
        exact ((lt_dayStart_iff (day + 1) t).mpr (by omega)).trans_le hday
    unfold dueAmount
    rw [hsame]
    rfl
  · rfl

/-- The accruals of a version stay its accruals when it is closed behind them. -/
theorem accrues_closedVersion {version : PriceVersion} {entry : BillingEntry} {day : ℤ}
    (hday : dayStart (day + 1) ≤ effectiveAt) :
    Accrues entry (closedVersion client effectiveAt version) day ↔ Accrues entry version day := by
  have hdue := @dueAmount_closedVersion client effectiveAt version day hday
  constructor
  · rintro ⟨htype, hid, hdate, hkey, hamount⟩
    refine ⟨htype, ?_, hdate, ?_, ?_⟩
    · simpa using hid
    · simpa using hkey
    · rw [hamount, hdue]
  · rintro ⟨htype, hid, hdate, hkey, hamount⟩
    refine ⟨htype, ?_, hdate, ?_, ?_⟩
    · simpa using hid
    · simpa using hkey
    · rw [hamount, hdue]

theorem accruedBefore_closedVersion {version : PriceVersion} {entries : List BillingEntry} {day : ℤ}
    (hday : dayStart day ≤ effectiveAt) :
    AccruedBefore entries (closedVersion client effectiveAt version) day ↔
      AccruedBefore entries version day := by
  refine forall₂_congr fun d hd => ?_
  have hle : dayStart (d + 1) ≤ effectiveAt := (Traffic.dayStart_mono hd).trans hday
  rw [dueAmount_closedVersion version hle]
  refine imp_congr_right fun _ => exists_congr fun entry => and_congr_right fun _ => ?_
  exact accrues_closedVersion hle

end Closing

variable {version : PriceVersion}

/-- The accruals of a ledger have the days that they have by its entries. -/
theorem SoundLedger.dayStart_le {limit : ℤ} (h : SoundLedger versions limit entries)
    {day : ℤ} (haccrued : Accrued entries version day) : dayStart (day + 1) ≤ limit := by
  obtain ⟨entry, hmem, haccrues⟩ := haccrued
  rcases h.sound entry hmem with ⟨version', -, day', haccrues', -, hlimit⟩ | ⟨htype, -⟩
  · obtain rfl := Calendar.dateOnly_inj (haccrues'.date.symm.trans haccrues.date)
    exact hlimit
  · exact absurd haccrues.type htype

/-- **Closing versions after the accrued days keeps the invariant.** -/
theorem consistent_closeOpen {clock effectiveAt : ℤ} (h : Consistent db clock)
    (hle : clock ≤ effectiveAt) (client : String) :
    Consistent { db with versions := closeOpen client effectiveAt db.versions } effectiveAt := by
  rw [closeOpen_eq]
  have hsame : ∀ {p : PriceVersion → Prop}, (∀ version ∈ db.versions, p (closedVersion client
      effectiveAt version)) → ∀ version ∈ db.versions.map (closedVersion client effectiveAt),
        p version := fun hp => List.forall_mem_map.mpr hp
  refine ⟨⟨?_, hsame fun version hmem => ?_, hsame fun version hmem => ?_,
    hsame fun version hmem => ?_⟩, hsame fun version hmem => ?_, hsame fun version hmem => ?_, ?_,
    ⟨h.ledger.keys, fun entry hmem => ?_, hsame fun version hmem day haccrued => ?_⟩⟩
  · rw [List.map_map, show PriceVersion.id ∘ closedVersion client effectiveAt = PriceVersion.id from
      funext fun version => closedVersion_id version]
    exact h.versions.ids
  · have hcycle := h.versions.cycles version hmem
    unfold closedVersion
    split_ifs <;> exact hcycle
  · have hprice := h.versions.prices version hmem
    unfold closedVersion
    split_ifs <;> exact hprice
  · have husd := h.versions.dollars version hmem
    unfold closedVersion
    split_ifs <;> exact husd
  · rw [closedVersion_id, List.length_map]
    exact h.fresh version hmem
  · obtain ⟨hfrom, hto⟩ := h.past version hmem
    rw [closedVersion_effectiveFrom, closedVersion_effectiveTo]
    refine ⟨hfrom.trans hle, fun effectiveTo hsome => ?_⟩
    split_ifs at hsome
    · exact (Option.some.inj hsome).ge
    · exact (hto effectiveTo hsome).trans hle
  · refine List.pairwise_map.mpr (h.ordered.imp fun {version later} hnext hclient => ?_)
    rw [closedVersion_client, closedVersion_client] at hclient
    obtain ⟨effectiveTo, hsome, hfrom⟩ := hnext hclient
    refine ⟨effectiveTo, ?_, by rwa [closedVersion_effectiveFrom]⟩
    rw [closedVersion_effectiveTo, if_neg (by rintro ⟨-, hnone⟩; simp [hnone] at hsome), hsome]
  · rcases h.ledger.sound entry hmem with ⟨version, hversion, day, haccrues, hdue, hday⟩ | hother
    · refine Or.inl ⟨closedVersion client effectiveAt version, List.mem_map_of_mem hversion, day, ?_,
        ?_, hday.trans hle⟩
      · exact (accrues_closedVersion (hday.trans hle)).mpr haccrues
      · rwa [dueAmount_closedVersion version (hday.trans hle)]
    · exact Or.inr hother
  · have hday := (h.ledger.dayStart_le haccrued).trans hle
    obtain ⟨entry, hentry, haccrues⟩ := haccrued
    refine (accruedBefore_closedVersion ((Traffic.dayStart_mono (by omega)).trans hday)).mpr ?_
    exact h.ledger.gapless version hmem day ⟨entry, hentry, (accrues_closedVersion hday).mp haccrues⟩

theorem complete_closeOpen {effectiveAt day : ℤ} (h : Complete db day)
    (hday : dayStart (day + 1) ≤ effectiveAt) (client : String) :
    Complete { db with versions := closeOpen client effectiveAt db.versions } day := by
  unfold Complete
  rw [closeOpen_eq]
  refine List.forall_mem_map.mpr fun version hmem => ?_
  exact (accruedBefore_closedVersion hday).mpr (h version hmem)

/-! ### Adding versions -/

/-- A version that takes effect at an instant, of a client whose versions are closed by then. -/
structure NewVersion (db : BillingDB) (effectiveAt : ℤ) (version : PriceVersion) : Prop where
  id : version.id = db.versions.length + 1
  effectiveFrom : version.effectiveFrom = effectiveAt
  opened : version.effectiveTo = none
  cycle : version.billingCycleDays ≤ maxCycleDays
  price : InInt64 version.priceMicros
  dollar : ∀ usd, version.usdPriceMicros = some usd → InInt64 usd
  others : ∀ earlier ∈ db.versions, earlier.client = version.client → earlier.effectiveTo ≠ none

theorem NewVersion.dueAmount_eq_zero {effectiveAt : ℤ}
    (h : NewVersion db effectiveAt version) {day : ℤ} (hday : dayStart (day + 1) ≤ effectiveAt) :
    dueAmount version day = 0 := by
  refine Billing.dueAmount_eq_zero fun t ht hforce => ?_
  have hlt := (lt_dayStart_iff (day + 1) t).mpr (by omega)
  have hfrom := hforce.effective
  rw [h.effectiveFrom] at hfrom
  omega

/-- **A version after the accrued days keeps the invariant.** -/
theorem consistent_addVersion {clock effectiveAt : ℤ} (h : Consistent db clock)
    (hle : clock ≤ effectiveAt) (hnew : NewVersion db effectiveAt version) :
    Consistent { db with versions := db.versions ++ [version] } effectiveAt := by
  have hall : ∀ {p : PriceVersion → Prop}, (∀ v ∈ db.versions, p v) → p version →
      ∀ v ∈ db.versions ++ [version], p v := by
    intro p hp hv v hmem
    rcases List.mem_append.mp hmem with hmem | hmem
    · exact hp v hmem
    · rwa [List.mem_singleton.mp hmem]
  refine ⟨⟨?_, hall h.versions.cycles hnew.cycle, hall h.versions.prices hnew.price,
    hall h.versions.dollars hnew.dollar⟩, hall (fun v hmem => ?_) ?_, hall (fun v hmem => ?_) ?_, ?_,
    ⟨h.ledger.keys, fun entry hmem => ?_, hall h.ledger.gapless ?_⟩⟩
  · rw [List.map_append, List.nodup_append]
    refine ⟨h.versions.ids, List.nodup_singleton _, fun id hid id' hid' heq => ?_⟩
    obtain ⟨v, hmem, rfl⟩ := List.mem_map.mp hid
    rw [List.map_singleton, List.mem_singleton, hnew.id] at hid'
    have := h.fresh v hmem
    omega
  · have := h.fresh v hmem
    rw [List.length_append, List.length_singleton]
    omega
  · rw [hnew.id, List.length_append, List.length_singleton]
  · obtain ⟨hfrom, hto⟩ := h.past v hmem
    exact ⟨hfrom.trans hle, fun effectiveTo hsome => (hto effectiveTo hsome).trans hle⟩
  · exact ⟨hnew.effectiveFrom.le, fun effectiveTo hsome => by simp [hnew.opened] at hsome⟩
  · refine List.pairwise_append.mpr ⟨h.ordered, List.pairwise_singleton _ _, ?_⟩
    intro earlier hmem later hlater hclient
    rw [List.mem_singleton.mp hlater] at hclient ⊢
    obtain ⟨effectiveTo, hsome⟩ := Option.ne_none_iff_exists'.mp (hnew.others earlier hmem hclient)
    exact ⟨effectiveTo, hsome, by
      rw [hnew.effectiveFrom]
      exact ((h.past earlier hmem).2 effectiveTo hsome).trans hle⟩
  · rcases h.ledger.sound entry hmem with ⟨v, hmem, day, haccrues, hdue, hday⟩ | hother
    · exact Or.inl ⟨v, List.mem_append_left _ hmem, day, haccrues, hdue, hday.trans hle⟩
    · exact Or.inr hother
  · -- no stored entry has the id of the new version
    rintro day ⟨entry, hmem, haccrues⟩
    rcases h.ledger.sound entry hmem with ⟨v, hv, day', haccrues', -, -⟩ | ⟨htype, -⟩
    · have hid : v.id = version.id :=
        Option.some.inj (haccrues'.versionID.symm.trans haccrues.versionID)
      have := h.fresh v hv
      have := hnew.id
      omega
    · exact absurd haccrues.type htype

theorem complete_addVersion {effectiveAt day : ℤ} (h : Complete db day)
    (hday : dayStart (day + 1) ≤ effectiveAt) (hnew : NewVersion db effectiveAt version) :
    Complete { db with versions := db.versions ++ [version] } day := by
  intro v hmem
  rcases List.mem_append.mp hmem with hmem | hmem
  · exact h v hmem
  · rw [List.mem_singleton.mp hmem]
    intro d hd hdue
    exact absurd (hnew.dueAmount_eq_zero ((Traffic.dayStart_mono hd).trans hday)) hdue

/-! ### Single payments -/

theorem SoundLedger.createOther {limit : ℤ}
    (h : SoundLedger versions limit entries) {entry : BillingEntry}
    (htype : entry.type ≠ .baseAccrual) (hkey : ∃ client id, entry.entryKey = oneTimeKey client id) :
    SoundLedger versions limit (Billing.createEntry entry entries) := by
  refine ⟨nodup_keys_createEntry h.keys, fun stored hmem => ?_, fun version hmem day haccrued => ?_⟩
  · rcases mem_createEntry hmem with hold | ⟨-, rfl⟩
    · exact h.sound stored hold
    · exact Or.inr ⟨htype, hkey⟩
  · obtain ⟨stored, hstored, haccrues⟩ := haccrued
    rcases mem_createEntry hstored with hold | ⟨-, rfl⟩
    · exact (h.gapless version hmem day ⟨stored, hold, haccrues⟩).mono (subset_createEntry _ _)
    · exact absurd haccrues.type htype

theorem createOneTimeEntry_spec [CurrencyTable] {latest : LatestFX}
    {occurredAt : ℤ} {entries' : List BillingEntry}
    (h : createOneTimeEntry latest version occurredAt entries = .ok entries')
    {limit : ℤ} (hsound : SoundLedger versions limit entries) :
    SoundLedger versions limit entries' ∧ ∀ entry ∈ entries, entry ∈ entries' := by
  unfold createOneTimeEntry at h
  dsimp only at h
  split_ifs at h
  · cases h
    exact ⟨hsound, fun _ hmem => hmem⟩
  · obtain ⟨found, -, h⟩ := bind_eq_ok.mp h
    cases h
    exact ⟨hsound.createOther (by simp) ⟨_, _, rfl⟩, subset_createEntry _ _⟩

/-! ### New versions of clients -/

theorem uuid_clientAfterBillingUpdate {existing next : BilledClient} {updates : Updates}
    {changed : Bool} (h : clientAfterBillingUpdate existing updates = .ok (next, changed)) :
    next.uuid = existing.uuid := by
  unfold clientAfterBillingUpdate at h
  obtain ⟨price, -, h⟩ := bind_eq_ok.mp h
  obtain ⟨billingCycle, -, h⟩ := bind_eq_ok.mp h
  obtain ⟨currency, -, h⟩ := bind_eq_ok.mp h
  obtain ⟨expiredAt, -, h⟩ := bind_eq_ok.mp h
  cases h
  rfl

theorem inInt64_of_microsFromFloat {value : Option ℚ} {micros : ℤ}
    (h : microsFromFloat value = .ok micros) : InInt64 micros := by
  unfold microsFromFloat at h
  cases value with
  | none => cases h
  | some value =>
    dsimp only at h
    split_ifs at h with hin
    · cases h
      exact hin

section Sources

variable [CurrencyTable] {latest : LatestFX}

theorem inInt64_of_convertMicros {amount : ℤ} (hamount : InInt64 amount) {source target : String}
    {rates : Rates} {converted : ℤ} (h : convertMicros amount source target rates = .ok converted) :
    InInt64 converted := by
  unfold convertMicros at h
  dsimp only at h
  split_ifs at h
  · cases h
    exact hamount
  · obtain ⟨sourceRate, -, h⟩ := bind_eq_ok.mp h
    obtain ⟨targetRate, -, h⟩ := bind_eq_ok.mp h
    rw [roundRatToInt64_eq] at h
    split_ifs at h with hin
    · cases h
      exact hin

theorem inInt64_of_snapshotConversion {amount : ℤ} (hamount : InInt64 amount) {currency : String}
    {snapshotID : Option ℕ} {usd : Option ℤ}
    (h : snapshotConversion latest amount currency = .ok (snapshotID, usd)) :
    ∀ value, usd = some value → InInt64 value := by
  rintro value rfl
  unfold snapshotConversion at h
  split at h
  · cases h
  · cases h
  · split at h
    · cases h
    · rename_i hconvert
      cases h
      exact inInt64_of_convertMicros hamount hconvert

theorem priceVersionFromClient_spec {id : ℕ} {client : BilledClient} {source : String}
    {effectiveAt : ℤ} {version : PriceVersion}
    (h : priceVersionFromClient latest id client source effectiveAt = .ok version) :
    version.id = id ∧ version.client = client.uuid ∧ version.effectiveFrom = effectiveAt ∧
      version.effectiveTo = none ∧ version.billingCycleDays = client.billingCycle ∧
        InInt64 version.priceMicros ∧
          ∀ usd, version.usdPriceMicros = some usd → InInt64 usd := by
  unfold priceVersionFromClient at h
  obtain ⟨priceMicros, hprice, h⟩ := bind_eq_ok.mp h
  have hprice := inInt64_of_microsFromFloat hprice
  unfold attachPriceVersionFX at h
  dsimp only at h
  split_ifs at h
  · cases h
    exact ⟨rfl, rfl, rfl, rfl, rfl, hprice, fun usd hsome => by cases hsome⟩
  · cases h
    exact ⟨rfl, rfl, rfl, rfl, rfl, hprice, fun usd hsome => by cases hsome⟩
  · obtain ⟨⟨snapshotID, usd⟩, hconvert, h⟩ := bind_eq_ok.mp h
    cases h
    exact ⟨rfl, rfl, rfl, rfl, rfl, hprice, inInt64_of_snapshotConversion hprice hconvert⟩

/-- **The first version of a client keeps the invariant and what is complete.** -/
theorem ensureInitialVersion_spec {db db' : BillingDB} {clock effectiveAt : ℤ}
    (h : Consistent db clock) (hle : clock ≤ effectiveAt) {client : BilledClient}
    (hcycle : client.billingCycle ≤ maxCycleDays)
    (hok : ensureInitialVersion latest effectiveAt db client = .ok db') :
    Consistent db' effectiveAt ∧ ∀ day, dayStart (day + 1) ≤ effectiveAt → Complete db day →
      Complete db' day := by
  unfold ensureInitialVersion at hok
  split_ifs at hok with hany
  · cases hok
    exact ⟨h.mono hle, fun _ _ hcomplete => hcomplete⟩
  · obtain ⟨version, hversion, hok⟩ := bind_eq_ok.mp hok
    cases hok
    have hversion : priceVersionFromClient latest (db.versions.length + 1) client
        priceSourceMigration effectiveAt = .ok version := by
      cases hresult : priceVersionFromClient latest (db.versions.length + 1) client
          priceSourceMigration effectiveAt with
      | error e => simp [hresult, Except.mapError] at hversion
      | ok found => simpa [hresult, Except.mapError] using hversion
    obtain ⟨hid, hclient, hfrom, hopen, hdays, hprice, husd⟩ := priceVersionFromClient_spec hversion
    have hnew : NewVersion db effectiveAt version := by
      refine ⟨hid, hfrom, hopen, hdays ▸ hcycle, hprice, husd, fun earlier hmem hsame => ?_⟩
      exact absurd (List.any_eq_true.mpr ⟨earlier, hmem, by simpa [hclient] using hsame⟩) hany
    exact ⟨consistent_addVersion h hle hnew, fun day hday hcomplete =>
      complete_addVersion hcomplete hday hnew⟩

theorem ensureInitialPriceVersions_spec {clients : List BilledClient} {db db' : BillingDB}
    {clock effectiveAt : ℤ} (h : Consistent db clock) (hle : clock ≤ effectiveAt)
    (hcycle : ∀ client ∈ clients, client.billingCycle ≤ maxCycleDays)
    (hok : ensureInitialPriceVersions latest clients effectiveAt db = .ok db') :
    Consistent db' effectiveAt ∧ ∀ day, dayStart (day + 1) ≤ effectiveAt → Complete db day →
      Complete db' day := by
  unfold ensureInitialPriceVersions at hok
  induction clients generalizing db clock with
  | nil =>
    cases hok
    exact ⟨h.mono hle, fun _ _ hcomplete => hcomplete⟩
  | cons client clients ih =>
    obtain ⟨hfirst, hcycle⟩ := List.forall_mem_cons.mp hcycle
    rw [List.foldlM_cons] at hok
    obtain ⟨db₁, hok₁, hok⟩ := bind_eq_ok.mp hok
    obtain ⟨h₁, hcomplete₁⟩ := ensureInitialVersion_spec h hle hfirst hok₁
    obtain ⟨h', hcomplete'⟩ := ih h₁ le_rfl hcycle hok
    exact ⟨h', fun day hday hcomplete => hcomplete' day hday (hcomplete₁ day hday hcomplete)⟩

/-- **A price change keeps the invariant and what is complete.** -/
theorem capturePriceVersion_spec {existing : BilledClient} {updates : Updates} {source : String}
    {db db' : BillingDB} {changed : Bool} {clock effectiveAt : ℤ} (h : Consistent db clock)
    (hle : clock ≤ effectiveAt)
    (hcycle : ∀ next changed, clientAfterBillingUpdate existing updates = .ok (next, changed) →
      next.billingCycle ≤ maxCycleDays)
    (hok : capturePriceVersion latest existing updates source effectiveAt db = .ok (db', changed)) :
    Consistent db' effectiveAt ∧ ∀ day, dayStart (day + 1) ≤ effectiveAt → Complete db day →
      Complete db' day := by
  unfold capturePriceVersion at hok
  obtain ⟨⟨next, changes⟩, hnext, hok⟩ := bind_eq_ok.mp hok
  dsimp only at hok
  split_ifs at hok
  · cases hok
    exact ⟨h.mono hle, fun _ _ hcomplete => hcomplete⟩
  · obtain ⟨version, hversion, hok⟩ := bind_eq_ok.mp hok
    obtain ⟨entries, hentries, hok⟩ := bind_eq_ok.mp hok
    cases hok
    obtain ⟨hid, hclient, hfrom, hopen, hdays, hprice, husd⟩ := priceVersionFromClient_spec hversion
    have hclosed := consistent_closeOpen h hle existing.uuid
    have huuid : next.uuid = existing.uuid := uuid_clientAfterBillingUpdate hnext
    have hnew : NewVersion { db with versions := closeOpen existing.uuid effectiveAt db.versions }
        effectiveAt version := by
      refine ⟨by simpa [closeOpen] using hid, hfrom, hopen, hdays ▸ hcycle _ _ hnext, hprice, husd, ?_⟩
      refine List.forall_mem_map.mpr fun earlier hmem hsame => ?_
      rw [← closedVersion, closedVersion_client, hclient, huuid] at hsame
      rw [← closedVersion, closedVersion_effectiveTo]
      split_ifs with hopen
      · simp
      · exact fun hnone => hopen ⟨hsame, hnone⟩
    have hadded := consistent_addVersion hclosed le_rfl hnew
    have hledger : SoundLedger (closeOpen existing.uuid effectiveAt db.versions ++ [version])
        effectiveAt entries ∧ ∀ entry ∈ db.entries, entry ∈ entries := by
      unfold captureOneTime at hentries
      dsimp only at hentries
      split_ifs at hentries
      · exact createOneTimeEntry_spec hentries hadded.ledger
      · cases hentries
        exact ⟨hadded.ledger, fun _ hmem => hmem⟩
    refine ⟨⟨hadded.versions, hadded.fresh, hadded.past, hadded.ordered, hledger.1⟩,
      fun day hday hcomplete => ?_⟩
    have hcomplete' := complete_addVersion (complete_closeOpen hcomplete hday existing.uuid) hday hnew
    exact fun v hmem => (hcomplete' v hmem).mono hledger.2

end Sources

/-! ### Calls -/

/-- The database is consistent, and complete as far as calls are spared. -/
structure Settled (s : BillingState) (clock : ℤ) : Prop extends Consistent s.toBillingDB clock where
  spared : ∀ last, s.coordination = some last →
    Complete s.toBillingDB last.1 ∧ dayStart (last.1 + 1) ≤ clock

/-- There is an instant before everything that a run does. -/
theorem exists_le_reach (calls : List BillingCall) : ∃ clock, ∀ call ∈ calls, clock ≤ call.reach := by
  induction calls with
  | nil => exact ⟨0, fun call hmem => absurd hmem List.not_mem_nil⟩
  | cons call calls ih =>
    obtain ⟨clock, hle⟩ := ih
    exact ⟨min call.reach clock, List.forall_mem_cons.mpr
      ⟨min_le_left _ _, fun later hmem => (min_le_right _ _).trans (hle later hmem)⟩⟩

theorem settled_empty (clock : ℤ) : Settled ⟨⟨[], []⟩, none⟩ clock :=
  ⟨consistent_empty clock, fun last hlast => by cases hlast⟩

section Calls

variable [CurrencyTable]

variable {s : BillingState}

/-- **A call of the accrual** keeps the invariant and what is complete; if the database answers,
nothing is missing up to its day. -/
theorem ensureAccruedThrough_spec {clock : ℤ} (h : Settled s clock)
    (answers : AccrualAnswers) (through now done : ℤ) :
    Settled (ensureAccruedThrough answers through now done s).2
        (max clock (dayStart (beijingDay through + 1))) ∧
      (∀ day, Complete s.toBillingDB day →
        Complete (ensureAccruedThrough answers through now done s).2.toBillingDB day) ∧
      (answers.Good →
        Complete (ensureAccruedThrough answers through now done s).2.toBillingDB
          (beijingDay through)) := by
  have hmono := h.toConsistent.mono (le_max_left clock (dayStart (beijingDay through + 1)))
  have hspared : Settled s (max clock (dayStart (beijingDay through + 1))) :=
    ⟨hmono, fun last hlast => ⟨(h.spared last hlast).1, (h.spared last hlast).2.trans (le_max_left _ _)⟩⟩
  unfold ensureAccruedThrough
  dsimp only
  split_ifs with hskip
  · -- the successful call before went as far
    refine ⟨hspared, fun _ hcomplete => hcomplete, fun _ => ?_⟩
    obtain ⟨last, hlast, htest⟩ := (Option.any_eq_true _ _).mp hskip
    simp only [Bool.and_eq_true, Bool.not_eq_true', decide_eq_false_iff_not, not_lt] at htest
    intro version hmem
    exact fun d hd hdue => (h.spared last hlast).1 version hmem d (by omega) hdue
  · have htodo : ∀ version ∈ sortOn PriceVersion.rank (s.versions.filter PriceVersion.priced),
        version ∈ s.versions ∧ version.priced = true := fun version hmem =>
      List.mem_filter.mp (mem_sortOn.mp hmem)
    obtain ⟨hledger, hgrow, hdone⟩ := accrueVersions_spec answers h.versions hmono.ledger
      (le_max_right clock (dayStart (beijingDay through + 1))) htodo hmono.ledger
      fun _ hmem => hmem
    have hok := fun hgood : answers.Good => @accrueVersions_ok _ answers s.versions hgood h.versions
      (beijingDay through) s.entries _ htodo s.entries
    cases hlisted : answers.listed with
    | error e =>
      refine ⟨hspared, fun _ hcomplete => hcomplete, fun hgood => ?_⟩
      exact absurd (hlisted.symm.trans hgood.listed) (by simp)
    | ok u =>
      dsimp only
      generalize accrueVersions answers (beijingDay through) s.entries
        (sortOn PriceVersion.rank (s.versions.filter PriceVersion.priced)) s.entries = result at *
      obtain ⟨outcome, entries⟩ := result
      have hkeep : ∀ day, Complete s.toBillingDB day → Complete ⟨s.versions, entries⟩ day :=
        fun day hcomplete version hmem => (hcomplete version hmem).mono hgrow
      have hconsistent : Consistent ⟨s.versions, entries⟩
          (max clock (dayStart (beijingDay through + 1))) :=
        ⟨hmono.versions, hmono.fresh, hmono.past, hmono.ordered, hledger⟩
      cases outcome with
      | error e =>
        refine ⟨⟨hconsistent, fun last hlast => ?_⟩, hkeep, fun hgood => by cases hok hgood⟩
        exact ⟨hkeep _ (hspared.spared last hlast).1, (hspared.spared last hlast).2⟩
      | ok u =>
        have hall : Complete ⟨s.versions, entries⟩ (beijingDay through) := by
          intro version hmem d hd hdue
          -- a version without a price is not listed, and owes nothing
          exact hdone rfl version (mem_sortOn.mpr (List.mem_filter.mpr
            ⟨hmem, priced_of_dueAmount hdue⟩)) d hd hdue
        refine ⟨⟨hconsistent, fun last hlast => ?_⟩, hkeep, fun _ => hall⟩
        obtain rfl := Option.some.inj hlast
        exact ⟨hall, le_max_right _ _⟩

/-- **A call keeps the invariant and what is complete**, if its price changes take effect behind the
accrued days. -/
theorem apply_spec {clock : ℤ} (h : Settled s clock) {call : BillingCall}
    (hbounded : call.Bounded) (htimely : call.changesPrices = true → clock ≤ call.reach) :
    Settled (call.apply s) (max clock call.reach) ∧
      ∀ day, Complete s.toBillingDB day → dayStart (day + 1) ≤ clock →
        Complete (call.apply s).toBillingDB day := by
  have hspared : ∀ {db : BillingDB} {effectiveAt : ℤ}, clock ≤ effectiveAt →
      (∀ day, dayStart (day + 1) ≤ effectiveAt → Complete s.toBillingDB day → Complete db day) →
        ∀ last, s.coordination = some last → Complete db last.1 ∧
          dayStart (last.1 + 1) ≤ effectiveAt := by
    intro db effectiveAt hle hkeep last hlast
    obtain ⟨hcomplete, hday⟩ := h.spared last hlast
    exact ⟨hkeep _ (hday.trans hle) hcomplete, hday.trans hle⟩
  have hself : ∀ {effectiveAt : ℤ}, clock ≤ effectiveAt → Settled s effectiveAt := fun hle =>
    ⟨h.toConsistent.mono hle, hspared hle fun _ _ hcomplete => hcomplete⟩
  cases call with
  | ensureInitial latest clients effectiveAt =>
    have hle : clock ≤ effectiveAt := htimely rfl
    unfold BillingCall.apply BillingCall.reach
    rw [max_eq_right hle]
    dsimp only
    cases hok : ensureInitialPriceVersions latest clients effectiveAt s.toBillingDB with
    | error e => exact ⟨hself hle, fun _ hcomplete _ => hcomplete⟩
    | ok db =>
      obtain ⟨hdb, hkeep⟩ := ensureInitialPriceVersions_spec h.toConsistent hle hbounded hok
      exact ⟨⟨hdb, hspared hle hkeep⟩, fun day hcomplete hday => hkeep day (hday.trans hle) hcomplete⟩
  | capture latest existing updates source effectiveAt =>
    have hle : clock ≤ effectiveAt := htimely rfl
    unfold BillingCall.apply BillingCall.reach
    rw [max_eq_right hle]
    dsimp only
    cases hok : capturePriceVersion latest existing updates source effectiveAt s.toBillingDB with
    | error e => exact ⟨hself hle, fun _ hcomplete _ => hcomplete⟩
    | ok result =>
      obtain ⟨db, changed⟩ := result
      obtain ⟨hdb, hkeep⟩ := capturePriceVersion_spec h.toConsistent hle hbounded hok
      refine ⟨⟨hdb, fun last hlast => ?_⟩, fun day hcomplete hday =>
        hkeep day (hday.trans hle) hcomplete⟩
      cases changed with
      | false => exact hspared hle hkeep last hlast
      | true => cases hlast
  | closeOpen client effectiveAt =>
    have hle : clock ≤ effectiveAt := htimely rfl
    unfold BillingCall.apply BillingCall.reach closeOpenPriceVersions
    rw [max_eq_right hle]
    dsimp only
    split_ifs
    · exact ⟨hself hle, fun _ hcomplete _ => hcomplete⟩
    · have hkeep := fun day hday hcomplete =>
        @complete_closeOpen s.toBillingDB effectiveAt day hcomplete hday client
      exact ⟨⟨consistent_closeOpen h.toConsistent hle client, hspared hle hkeep⟩,
        fun day hcomplete hday => hkeep day (hday.trans hle) hcomplete⟩
  | accrue answers now done =>
    obtain ⟨hsettled, hkeep, -⟩ := ensureAccruedThrough_spec h answers (yesterdayInBeijing now) now done
    have hday : beijingDay (yesterdayInBeijing now) + 1 = beijingDay now := by
      rw [yesterdayInBeijing, Traffic.beijingDay_dayStart, sub_add_cancel]
    rw [hday] at hsettled
    exact ⟨hsettled, fun day hcomplete _ => hkeep day hcomplete⟩

/-- After an accrual that is answered nothing is missing. -/
theorem complete_accrue {clock : ℤ} (h : Settled s clock)
    {answers : AccrualAnswers} (hgood : answers.Good) (now done : ℤ) :
    Complete (BillingCall.apply (.accrue answers now done) s).toBillingDB (beijingDay now - 1) := by
  have hcomplete := (ensureAccruedThrough_spec h answers (yesterdayInBeijing now) now done).2.2 hgood
  rwa [yesterdayInBeijing, Traffic.beijingDay_dayStart] at hcomplete

/-- **A run keeps the invariant and what is complete.** -/
theorem foldl_apply_spec {calls : List BillingCall} {clock : ℤ}
    (h : Settled s clock) (hbounded : ∀ call ∈ calls, call.Bounded) (htimely : Timely calls)
    (hstart : ∀ call ∈ calls, call.changesPrices = true → clock ≤ call.reach) :
    (∃ clock', clock ≤ clock' ∧ (∀ call ∈ calls, call.reach ≤ clock') ∧
      (∀ t, clock ≤ t → (∀ call ∈ calls, call.reach ≤ t) → clock' ≤ t) ∧
      Settled (calls.foldl (fun s call => call.apply s) s) clock') ∧
    ∀ day, Complete s.toBillingDB day → dayStart (day + 1) ≤ clock →
      Complete (calls.foldl (fun s call => call.apply s) s).toBillingDB day := by
  induction calls generalizing s clock with
  | nil =>
    refine ⟨⟨clock, le_rfl, ?_, fun t ht _ => ht, h⟩, fun _ hcomplete _ => hcomplete⟩
    exact fun call hmem => absurd hmem List.not_mem_nil
  | cons call calls ih =>
    obtain ⟨hfirst, hbounded⟩ := List.forall_mem_cons.mp hbounded
    obtain ⟨hstart₁, hstart⟩ := List.forall_mem_cons.mp hstart
    obtain ⟨hafter, htimely⟩ := List.pairwise_cons.mp htimely
    obtain ⟨hsettled, hkeep⟩ := apply_spec h hfirst hstart₁
    obtain ⟨⟨clock', hle, hreach, hleast, hsettled'⟩, hkeep'⟩ :=
      ih hsettled hbounded htimely fun later hmem hchanges =>
        max_le (hstart later hmem hchanges) (hafter later hmem hchanges)
    obtain ⟨hle, hreach₁⟩ := max_le_iff.mp hle
    refine ⟨⟨clock', hle, List.forall_mem_cons.mpr ⟨hreach₁, hreach⟩, fun t ht hall => ?_,
      hsettled'⟩, fun day hcomplete hday => ?_⟩
    · obtain ⟨hcall, hall⟩ := List.forall_mem_cons.mp hall
      exact hleast t (max_le ht hcall) hall
    · exact hkeep' day (hkeep day hcomplete hday) (hday.trans (le_max_left _ _))

theorem exists_settled_run {calls : List BillingCall} (hbounded : ∀ call ∈ calls, call.Bounded)
    (htimely : Timely calls) : ∃ clock, Settled (run calls) clock := by
  obtain ⟨clock, hle⟩ := exists_le_reach calls
  obtain ⟨⟨clock', -, -, -, hsettled⟩, -⟩ := foldl_apply_spec (settled_empty clock) hbounded htimely
    fun call hmem _ => hle call hmem
  exact ⟨clock', hsettled⟩

/-- **After a run nothing is missing up to the day before an accrual that was answered.** -/
theorem complete_run {calls : List BillingCall} (hbounded : ∀ call ∈ calls, call.Bounded)
    (htimely : Timely calls) {answers : AccrualAnswers} {now done : ℤ}
    (hmem : .accrue answers now done ∈ calls) (hgood : answers.Good) :
    Complete (run calls).toBillingDB (beijingDay now - 1) := by
  obtain ⟨before, after, rfl⟩ := List.append_of_mem hmem
  obtain ⟨clock, hle⟩ := exists_le_reach (before ++ .accrue answers now done :: after)
  obtain ⟨hbefore, hrest, hcross⟩ := List.pairwise_append.mp htimely
  obtain ⟨hfollow, hafter⟩ := List.pairwise_cons.mp hrest
  have hin : ∀ call ∈ before, call ∈ before ++ .accrue answers now done :: after := fun call h =>
    List.mem_append_left _ h
  have hout : ∀ call ∈ after, call ∈ before ++ .accrue answers now done :: after := fun call h =>
    List.mem_append_right _ (List.mem_cons_of_mem _ h)
  obtain ⟨⟨clock₁, hle₁, hreach₁, hleast, hsettled⟩, -⟩ := foldl_apply_spec (settled_empty clock)
    (fun call h => hbounded call (hin call h)) hbefore fun call h _ => hle call (hin call h)
  obtain ⟨hsettled', -⟩ := @apply_spec _ _ _ hsettled (.accrue answers now done) trivial
    fun hchanges => by cases hchanges
  have hcomplete := complete_accrue hsettled hgood now done
  -- the price changes after the accrual take effect behind its days
  obtain ⟨-, hkeep⟩ := foldl_apply_spec hsettled' (fun call h => hbounded call (hout call h)) hafter
    fun call h hchanges => max_le
      (hleast _ (hle call (hout call h)) fun earlier hearlier =>
        hcross earlier hearlier call (List.mem_cons_of_mem _ h) hchanges)
      (hfollow call h hchanges)
  rw [run, List.foldl_append, List.foldl_cons]
  refine hkeep _ hcomplete ?_
  rw [sub_add_cancel]
  exact le_max_right _ _

end Calls

/-! ### Accruing once -/

/-- The instant is one of the validity of a version. -/
def ValidAt (version : PriceVersion) (t : ℤ) : Prop :=
  version.effectiveFrom ≤ t ∧ ∀ effectiveTo, version.effectiveTo = some effectiveTo → t < effectiveTo

/-- The accruals of a version for a day, by the columns of the table. -/
def baseAccruals (entries : List BillingEntry) (version : PriceVersion) (day : ℤ) :
    List BillingEntry :=
  entries.filter fun entry => entry.type = .baseAccrual && entry.priceVersionID = some version.id &&
    entry.day = dateOnly day

/-- The versions of a client are valid one after the other. -/
theorem Consistent.disjoint {clock : ℤ} (h : Consistent db clock)
    {version' : PriceVersion} (hmem : version ∈ db.versions) (hmem' : version' ∈ db.versions)
    (hclient : version.client = version'.client) (hne : version ≠ version') (t : ℤ) :
    ¬(ValidAt version t ∧ ValidAt version' t) := by
  have hpairs : db.versions.Pairwise fun v w => v.client = w.client → ¬(ValidAt v t ∧ ValidAt w t) := by
    refine h.ordered.imp fun {v w} hnext hsame hboth => ?_
    obtain ⟨effectiveTo, hsome, hle⟩ := hnext hsame
    exact absurd (hboth.1.2 effectiveTo hsome) (not_lt.mpr (hle.trans hboth.2.1))
  have hsymm : Std.Symm fun v w : PriceVersion => v.client = w.client → ¬(ValidAt v t ∧ ValidAt w t) :=
    ⟨fun v w hvw hsame hboth => hvw hsame.symm hboth.symm⟩
  exact hpairs.forall hmem hmem' hne hclient

/-- **Where nothing is missing, a day of a version has exactly what is due.** -/
theorem Consistent.baseAccruals_eq {clock day : ℤ} (h : Consistent db clock)
    (hcomplete : Complete db day) (hmem : version ∈ db.versions) {d : ℤ} (hd : d ≤ day) :
    (baseAccruals db.entries version d).map BillingEntry.originalAmountMicros =
      if dueAmount version d = 0 then [] else [dueAmount version d] := by
  have haccrues : ∀ entry ∈ baseAccruals db.entries version d, Accrues entry version d ∧
      dueAmount version d ≠ 0 := by
    intro entry hentry
    obtain ⟨hentry, htest⟩ := List.mem_filter.mp hentry
    simp only [Bool.and_eq_true, decide_eq_true_eq] at htest
    obtain ⟨⟨htype, hid⟩, hdate⟩ := htest
    rcases h.ledger.sound entry hentry with ⟨version', hmem', d', haccrues, hdue, -⟩ | ⟨hother, -⟩
    · obtain rfl := h.versions.eq_of_id hmem' hmem (Option.some.inj (haccrues.versionID.symm.trans hid))
      obtain rfl := Calendar.dateOnly_inj (haccrues.date.symm.trans hdate)
      exact ⟨haccrues, hdue⟩
    · exact absurd htype hother
  split_ifs with hzero
  · rw [List.eq_nil_iff_forall_not_mem.mpr fun entry hentry => (haccrues entry hentry).2 hzero]
    rfl
  · obtain ⟨entry, hentry, hentry'⟩ := hcomplete version hmem d (by omega) hzero
    have hin : entry ∈ baseAccruals db.entries version d := by
      refine List.mem_filter.mpr ⟨hentry, ?_⟩
      simp [hentry'.type, hentry'.versionID, hentry'.date]
    -- all of them have the key of the day, and keys are unique
    have hkeys : ((baseAccruals db.entries version d).map BillingEntry.entryKey).Nodup :=
      h.ledger.keys.sublist (List.filter_sublist.map _)
    have hall : ∀ other ∈ baseAccruals db.entries version d, other = entry := fun other hother =>
      List.inj_on_of_nodup_map hkeys hother hin
        ((haccrues other hother).1.key.trans hentry'.key.symm)
    have hsingle : baseAccruals db.entries version d = [entry] := by
      refine List.perm_singleton.mp ((List.perm_ext_iff_of_nodup (hkeys.of_map _)
        (List.nodup_singleton _)).mpr fun other => ?_)
      rw [List.mem_singleton]
      exact ⟨hall other, fun h => h ▸ hin⟩
    rw [hsingle, List.map_singleton, hentry'.amount]

/-- **Every billed day has exactly its one accrual**, after every run whose price changes take effect in
order and behind the accrued days, and which makes no cycle longer than 106751 days. -/
theorem run_accrues_once [CurrencyTable] (calls : List BillingCall) (htimely : Timely calls)
    (hbounded : ∀ call ∈ calls, call.Bounded) :
    (∀ version ∈ (run calls).versions, ∀ version' ∈ (run calls).versions,
        version.client = version'.client → version ≠ version' →
          ∀ t, ¬(ValidAt version t ∧ ValidAt version' t)) ∧
      (∀ version ∈ (run calls).versions, ∀ version' ∈ (run calls).versions,
        version.client = version'.client → version.effectiveTo = none →
          version'.effectiveTo = none → version = version') ∧
      ∀ answers now done, .accrue answers now done ∈ calls → answers.Good →
        ∀ version ∈ (run calls).versions, ∀ day < beijingDay now,
          (baseAccruals (run calls).entries version day).map BillingEntry.originalAmountMicros =
            if dueAmount version day = 0 then [] else [dueAmount version day] := by
  obtain ⟨clock, hsettled⟩ := exists_settled_run hbounded htimely
  have h := hsettled.toConsistent
  refine ⟨fun version hmem version' hmem' hclient hne t => h.disjoint hmem hmem' hclient hne t,
    fun version hmem version' hmem' hclient hopen hopen' => ?_,
    fun answers now done hcall hgood version hmem day hday => ?_⟩
  · -- two open versions would both be valid once both are effective
    by_contra hne
    refine h.disjoint hmem hmem' hclient hne (max version.effectiveFrom version'.effectiveFrom)
      ⟨⟨le_max_left _ _, fun effectiveTo hsome => ?_⟩, le_max_right _ _, fun effectiveTo hsome => ?_⟩
    · simp [hopen] at hsome
    · simp [hopen'] at hsome
  · exact h.baseAccruals_eq (complete_run hbounded htimely hcall hgood) hmem (by omega)

/-! ### Long cycles -/

/-- A client that pays a yuan for a cycle of so many days, and does not end. -/
def yuanFor (days : ℤ) : BilledClient where
  uuid := "a"
  name := "a"
  region := ""
  group := ""
  price := 1
  billingCycle := days
  currency := "CNY"
  expiredAt := none

/-- A database that answers, without exchange rates. -/
def answering : AccrualAnswers where
  listed := .ok ()
  latest := .ok none
  saved _ := .ok ()

theorem answering_good : answering.Good := ⟨rfl, ⟨none, rfl⟩, fun _ => rfl⟩

/-- A price from the start of a day on, and the accrual of the day on the next. -/
def dayOfYuanFor (days : ℤ) : List BillingCall :=
  [.ensureInitial (.ok none) [yuanFor days] (dayStart 20000),
    .accrue answering (dayStart 20001) (dayStart 20001)]

theorem timely_dayOfYuanFor (days : ℤ) : Timely (dayOfYuanFor days) := by
  refine List.pairwise_pair.mpr fun hchanges => ?_
  cases hchanges

theorem run_accrues_once_monthly :
    Timely (dayOfYuanFor 30) ∧
      ∀ version ∈ (@run plainCurrencies (dayOfYuanFor 30)).versions,
        ∀ day < beijingDay (dayStart 20001),
          (baseAccruals (@run plainCurrencies (dayOfYuanFor 30)).entries version day).map
              BillingEntry.originalAmountMicros =
            if dueAmount version day = 0 then [] else [dueAmount version day] := by
  refine ⟨timely_dayOfYuanFor 30, (@run_accrues_once plainCurrencies (dayOfYuanFor 30)
    (timely_dayOfYuanFor 30) ?_).2.2 answering _ _
      (List.mem_cons_of_mem _ (List.mem_singleton_self _)) answering_good⟩
  refine List.forall_mem_cons.mpr ⟨fun client hmem => ?_, List.forall_mem_singleton.mpr trivial⟩
  obtain rfl := List.mem_singleton.mp hmem
  decide

/-- **A cycle of 213504 days has 2^64 and some nanoseconds**: each day costs 56 times the price. -/
theorem run_overcharges :
    Timely (dayOfYuanFor 213504) ∧
      ¬∀ answers now done, .accrue answers now done ∈ dayOfYuanFor 213504 → answers.Good →
        ∀ version ∈ (@run plainCurrencies (dayOfYuanFor 213504)).versions, ∀ day < beijingDay now,
          (baseAccruals (@run plainCurrencies (dayOfYuanFor 213504)).entries version day).map
              BillingEntry.originalAmountMicros =
            if dueAmount version day = 0 then [] else [dueAmount version day] := by
  refine ⟨timely_dayOfYuanFor _, fun h => ?_⟩
  have hversions : (@run plainCurrencies (dayOfYuanFor 213504)).versions =
      [{ id := 1, client := "a", clientName := "a", region := "", group := "", priceMicros := 1000000,
         currency := "CNY", currencyValid := true, fxSnapshotID := none, usdPriceMicros := none,
         billingCycleDays := 213504, expiredAt := none, effectiveFrom := dayStart 20000,
         effectiveTo := none, source := "migration" }] := by decide +kernel
  have hday := h answering (dayStart 20001) (dayStart 20001)
    (List.mem_cons_of_mem _ (List.mem_singleton_self _)) answering_good _
    (hversions ▸ List.mem_singleton_self _) 20000 (by decide +kernel)
  unfold dueAmount at hday
  rw [ncard_billedInstants] at hday
  revert hday
  decide +kernel

end Billing

end Komari
