import Komari.Billing.Version

/-!
# Billing entries

The expense ledger is append-only: every row has a unique key, and inserting a key again does nothing.
-/

namespace Komari

namespace Billing

open Calendar
open Traffic (beijingDay)

/-! ### Rows -/

/-- What an entry is for. -/
inductive EntryType
  /-- `base_accrual` -/
  | baseAccrual
  /-- `traffic_reset` -/
  | trafficReset
  /-- `ip_change` -/
  | ipChange
  /-- `one_time` -/
  | oneTime
  | adjustment
  | reversal
deriving DecidableEq

/-- `BillingEntry`; `id` is zero until the row is stored. -/
structure BillingEntry where
  id : ℕ
  entryKey : String
  client : String
  clientName : String
  type : EntryType
  /-- The Beijing date that the entry belongs to. -/
  day : String
  occurredAt : ℤ
  originalAmountMicros : ℤ
  originalCurrency : String
  /-- The rates at which the amount is converted. -/
  fxSnapshotID : Option ℕ
  usdAmountMicros : Option ℤ
  /-- The price version that causes the entry. -/
  priceVersionID : Option ℕ
  /-- The entry that this one takes back. -/
  reversalOf : Option ℕ
  sourceRef : String
  note : String
  operator : String
deriving DecidableEq

/-- An insert that does nothing when the key is there. -/
def createEntry (entry : BillingEntry) (entries : List BillingEntry) : List BillingEntry :=
  if entries.any fun stored => stored.entryKey = entry.entryKey then entries
  else entries ++ [{ entry with id := entries.length + 1 }]

/-! ### Keys -/

/-- `%d` of a primary key. -/
def decimal (id : ℕ) : String := String.ofList (appendInt id 0)

/-- The key of a version's accrual of a day. -/
def baseKey (client day : String) (id : ℕ) : String :=
  "base:" ++ client ++ ":" ++ day ++ ":" ++ decimal id

/-- The key of a version's single payment. -/
def oneTimeKey (client : String) (id : ℕ) : String := "one-time:" ++ client ++ ":" ++ decimal id

/-! ### Exchange -/

/-- What `LatestFXSnapshot` finds: nothing, or the snapshot and its rates. -/
abbrev LatestFX := Except String (Option (ℕ × Rates))

/-- `SnapshotConversion`: the latest snapshot and the amount in US dollars. -/
def snapshotConversion [CurrencyTable] (latest : LatestFX) (amount : ℤ) (currency : String) :
    Except String (Option ℕ × Option ℤ) :=
  match latest with
  | .error e => .error e
  | .ok none => .ok (none, none)
  | .ok (some (id, rates)) =>
    match convertMicros amount currency "USD" rates with
    | .error _ => .ok (none, none)
    | .ok usd => .ok (some id, some usd)

/-! ### Dates -/

/-- `time.ParseInLocation(time.DateOnly, …)`: the day whose date the text is. -/
def parseDateOnly (text : String) : Option ℤ :=
  match text.toList with
  | [y₁, y₂, y₃, y₄, _, m₁, m₂, _, d₁, d₂] =>
    let number := fun digits => (Nat.ofDigitChars 10 digits 0 : ℤ)
    let day := monthStart (12 * number [y₁, y₂, y₃, y₄] + number [m₁, m₂] - 1) + number [d₁, d₂] - 1
    if dateOnly day = text then some day else none
  | _ => none

/-- A date is read back as its own day, if at all. -/
theorem eq_of_parseDateOnly {day day' : ℤ} (h : parseDateOnly (dateOnly day) = some day') :
    day' = day := by
  unfold parseDateOnly at h
  split at h
  · dsimp only at h
    split_ifs at h with heq
    rw [Option.some.injEq] at h
    exact dateOnly_inj (h ▸ heq)
  · cases h

/-! ### What an insert does -/

theorem subset_createEntry (entry : BillingEntry) (entries : List BillingEntry) :
    ∀ stored ∈ entries, stored ∈ createEntry entry entries := by
  intro stored hmem
  unfold createEntry
  split_ifs
  · exact hmem
  · exact List.mem_append_left _ hmem

theorem exists_key_createEntry (entry : BillingEntry) (entries : List BillingEntry) :
    ∃ stored ∈ createEntry entry entries, stored.entryKey = entry.entryKey := by
  unfold createEntry
  split_ifs with hany
  · obtain ⟨stored, hmem, hkey⟩ := List.any_eq_true.mp hany
    exact ⟨stored, hmem, by simpa using hkey⟩
  · exact ⟨_, List.mem_append_right _ (List.mem_singleton_self _), rfl⟩

/-- A row is an old one or, if its key was free, the new one. -/
theorem mem_createEntry {entry stored : BillingEntry} {entries : List BillingEntry}
    (h : stored ∈ createEntry entry entries) : stored ∈ entries ∨
      ((∀ other ∈ entries, other.entryKey ≠ entry.entryKey) ∧
        stored = { entry with id := entries.length + 1 }) := by
  unfold createEntry at h
  split_ifs at h with hany
  · exact Or.inl h
  · rcases List.mem_append.mp h with h | h
    · exact Or.inl h
    · refine Or.inr ⟨fun other hmem heq => hany ?_, List.mem_singleton.mp h⟩
      exact List.any_eq_true.mpr ⟨other, hmem, by simpa using heq⟩

theorem nodup_keys_createEntry {entry : BillingEntry} {entries : List BillingEntry}
    (h : (entries.map BillingEntry.entryKey).Nodup) :
    ((createEntry entry entries).map BillingEntry.entryKey).Nodup := by
  unfold createEntry
  split_ifs with hany
  · exact h
  · rw [List.map_append, List.nodup_append]
    refine ⟨h, List.nodup_singleton _, fun key hkey key' hkey' heq => hany ?_⟩
    obtain ⟨stored, hmem, rfl⟩ := List.mem_map.mp hkey
    rw [List.map_singleton, List.mem_singleton] at hkey'
    exact List.any_eq_true.mpr ⟨stored, hmem, by simpa [heq] using hkey'⟩

/-! ### Keys determine versions and days -/

/-- The part after the last separator, and the part before it. -/
theorem append_cons_inj {a a' b b' : List Char} {c : Char} (hb : c ∉ b) (hb' : c ∉ b')
    (h : a ++ c :: b = a' ++ c :: b') : a = a' ∧ b = b' := by
  -- read from the end, both texts go on to the separator
  have hrev : b.reverse ++ c :: a.reverse = b'.reverse ++ c :: a'.reverse := by
    simpa using congrArg List.reverse h
  have htake : ∀ {l m : List Char}, c ∉ l → (l.reverse ++ c :: m).takeWhile (· ≠ c) = l.reverse := by
    intro l m hl
    rw [List.takeWhile_append_of_pos fun x hx => by
      simpa using fun heq : x = c => hl (heq ▸ List.mem_reverse.mp hx)]
    simp
  have hbb : b.reverse = b'.reverse := by
    rw [← htake (m := a.reverse) hb, hrev, htake hb']
  obtain rfl := List.reverse_injective hbb
  exact ⟨List.append_cancel_right h, rfl⟩

theorem colon_notMem_appendInt (x : ℤ) (width : ℕ) : ':' ∉ appendInt x width := by
  intro hmem
  simp only [appendInt, List.mem_append, List.mem_replicate] at hmem
  rcases hmem with hmem | hmem | hmem
  · split_ifs at hmem
    · simp at hmem
    · simp at hmem
  · simp at hmem
  · exact absurd (Nat.isDigit_of_mem_toDigits (by decide) (by decide) hmem) (by decide)

theorem colon_notMem_dateChars (day : ℤ) : ':' ∉ dateChars day := by
  unfold dateChars
  simp only [List.mem_append, List.mem_cons, not_or]
  exact ⟨colon_notMem_appendInt _ _, by decide, colon_notMem_appendInt _ _, by decide,
    colon_notMem_appendInt _ _⟩

/-- **The key of an accrual determines the version and the day.** -/
theorem baseKey_inj {client client' : String} {day day' : ℤ} {id id' : ℕ}
    (h : baseKey client (dateOnly day) id = baseKey client' (dateOnly day') id') :
    day = day' ∧ id = id' := by
  have hlist : (client.toList ++ ':' :: dateChars day) ++ ':' :: appendInt id 0 =
      (client'.toList ++ ':' :: dateChars day') ++ ':' :: appendInt id' 0 := by
    simpa [baseKey, decimal, dateOnly] using congrArg String.toList h
  obtain ⟨hfront, hid⟩ := append_cons_inj (colon_notMem_appendInt _ _) (colon_notMem_appendInt _ _)
    hlist
  obtain ⟨-, hday⟩ := append_cons_inj (colon_notMem_dateChars _) (colon_notMem_dateChars _) hfront
  exact ⟨dateChars_inj hday, by exact_mod_cast appendInt_inj hid⟩

theorem baseKey_ne_oneTimeKey (client client' day : String) (id id' : ℕ) :
    baseKey client day id ≠ oneTimeKey client' id' := by
  intro h
  have hlist := congrArg String.toList h
  simp only [baseKey, oneTimeKey, String.toList_append] at hlist
  have hhead := congrArg List.head? hlist
  simp at hhead

end Billing

end Komari
