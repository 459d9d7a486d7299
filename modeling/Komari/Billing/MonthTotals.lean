import Komari.Billing.MonthWalk

/-!
# What the views add up
-/

namespace Komari

namespace Billing

open Calendar TrafficReset
open Traffic (beijingDay dayStart)

/-! ### Sums -/

theorem int64_add_int64_add (x y z : ℤ) : int64 (x + int64 y + z) = int64 (x + y + z) := by
  rw [← int64_int64_add (x + int64 y), int64_add_int64, int64_int64_add]

theorem inInt64_of_abs_le {x : ℤ} (h : |x| ≤ maxInt64) : InInt64 x := by
  obtain ⟨hneg, hpos⟩ := abs_le.mp h
  refine ⟨?_, hpos⟩
  unfold minInt64
  unfold maxInt64 at hneg
  omega

theorem sum_filterMap_pair {β : Type*} (g : β → Option ℤ) (q : β → Bool) (rows : List β) :
    (((rows.filterMap fun row => (g row).map fun amount => (row, amount)).filter
      fun pair => q pair.1).map Prod.snd).sum = ((rows.filter q).map fun row => (g row).getD 0).sum := by
  induction rows with
  | nil => rfl
  | cons row rows ih =>
    cases hq : q row with
    | true =>
      rw [List.filter_cons_of_pos hq, List.map_cons, List.sum_cons, ← ih]
      cases hg : g row <;> simp [hg, hq]
    | false =>
      rw [List.filter_cons_of_neg (by simp [hq]), ← ih]
      cases hg : g row <;> simp [hg, hq]

namespace AmountAccumulator

@[simp] theorem total_addCategory (t : AmountAccumulator) (category : EntryType) (amount : ℤ) :
    (t.addCategory category amount).total = addInt64 t.total amount := by
  cases category <;> rfl

/-- The categories that are shown beside the base. -/
def isExtra : EntryType → Bool
  | .trafficReset | .ipChange | .adjustment => true
  | _ => false

/-- All but the base. -/
def extras (t : AmountAccumulator) : ℤ := t.extra + t.other + t.oneTime

section Folds

variable {β : Type*} (category : β → EntryType) (amount : β → ℤ)

/-- One more row. -/
def addRow (t : AmountAccumulator) (row : β) : AmountAccumulator :=
  t.addCategory (category row) (amount row)

/-- **The total of an accumulator is the wrapped sum of its rows.** -/
theorem total_foldl (rows : List β) {t : AmountAccumulator} {x : ℤ} (ht : t.total = int64 x) :
    (rows.foldl (addRow category amount) t).total = int64 (x + (rows.map amount).sum) := by
  induction rows generalizing t x with
  | nil => simpa using ht
  | cons row rows ih =>
    have hstep : (addRow category amount t row).total = int64 (x + amount row) := by
      rw [addRow, total_addCategory, ht, addInt64, int64_int64_add]
    rw [List.foldl_cons, ih hstep, List.map_cons, List.sum_cons, add_assoc]

/-- What is shown beside the base is the sum of the rows that do not belong to it. -/
theorem extras_foldl (rows : List β) {t : AmountAccumulator} {x : ℤ}
    (ht : int64 t.extras = int64 x) :
    int64 (rows.foldl (addRow category amount) t).extras =
      int64 (x + ((rows.filter fun row => isExtra (category row)).map amount).sum) := by
  induction rows generalizing t x with
  | nil => simpa using ht
  | cons row rows ih =>
    have hstep : int64 (addRow category amount t row).extras =
        int64 (x + if isExtra (category row) then amount row else 0) := by
      have hadd : ∀ y : ℤ, int64 (t.extras + y) = int64 (x + y) := fun y => by
        rw [← int64_int64_add, ht, int64_int64_add]
      unfold addRow addCategory extras isExtra addInt64 at *
      -- the amount goes to one of the three fields, or to none of them
      cases category row with
      | baseAccrual => simpa using ht
      | oneTime => simpa using ht
      | reversal => simpa using ht
      | trafficReset =>
        rw [if_pos rfl, ← hadd, add_assoc (int64 _), int64_int64_add]
        exact congrArg int64 (by ring)
      | ipChange =>
        rw [if_pos rfl, ← hadd, int64_add_int64_add]
        exact congrArg int64 (by ring)
      | adjustment =>
        rw [if_pos rfl, ← hadd, int64_add_int64]
        exact congrArg int64 (by ring)
    rw [List.foldl_cons, ih hstep]
    cases hextra : isExtra (category row) with
    | true =>
      rw [List.filter_cons_of_pos (p := fun row => isExtra (category row)) hextra, List.map_cons,
        List.sum_cons, if_pos rfl, add_assoc]
    | false =>
      rw [List.filter_cons_of_neg (p := fun row => isExtra (category row)) (by simp [hextra]),
        if_neg (by simp), add_zero]

end Folds

end AmountAccumulator

/-! ### Entries of a month -/

theorem categoryOf_ne_baseAccrual {originals : Table ℕ EntryType} {entry : BillingEntry}
    (h : categoryOf originals entry ≠ .baseAccrual) : entry.type ≠ .baseAccrual := by
  rintro htype
  refine h ?_
  unfold categoryOf
  rw [if_neg (by rw [htype]; decide), htype]

/-- The rows of the snapshots that are asked for. -/
theorem find?_selected (snapshots : Snapshots) (ids : List (Option ℕ)) (id : ℕ) :
    (snapshots.deleteWhere fun id _ => !decide (some id ∈ ids)).find? id =
      if some id ∈ ids then snapshots.find? id else none := by
  rw [Table.find?_deleteWhere]
  split_ifs with hmem
  · cases snapshots.find? id <;> simp [hmem]
  · cases snapshots.find? id <;> simp [hmem]

section Entries

variable [CurrencyTable]

/-- What an entry of the tables counts for. -/
def BillingStore.category (s : BillingStore) (entry : BillingEntry) : EntryType :=
  categoryOf (originalTypes (storedEntries {} s)) entry

/-- The entries of a month that are no accruals. -/
def BillingStore.monthEntries (s : BillingStore) (month : ℤ) : List BillingEntry :=
  s.entries.filter fun entry => s.existingClient entry.client &&
    decide (entry.type ≠ .baseAccrual) && hasPrefix entry.day (monthText month)

/-- An entry in the currency of a view; nothing if its exchange rates are missing. -/
def BillingStore.converted (s : BillingStore) (currency : String) (entry : BillingEntry) : ℤ :=
  (convertedEntryAmount entry currency s.snapshots).getD 0

/-- The entries of a month by what they count for. -/
def BillingStore.monthSum (s : BillingStore) (month : ℤ) (currency : String)
    (p : EntryType → Bool) : ℤ :=
  (((s.monthEntries month).filter fun entry => p (s.category entry)).map (s.converted currency)).sum

/-- The accruals of the current day are not stored. -/
theorem accrualEntryForInterval_base {latest : LatestFX} {version : PriceVersion} {start stop : ℤ}
    {entry : BillingEntry}
    (h : accrualEntryForInterval latest version start stop = .ok (some entry)) :
    entry.id = 0 ∧ entry.type = .baseAccrual := by
  unfold accrualEntryForInterval at h
  dsimp only at h
  generalize (if start < version.effectiveFrom then version.effectiveFrom else start) = first at h
  split_ifs at h with hnonempty
  · obtain ⟨amount, -, h⟩ := bind_eq_ok.mp h
    split_ifs at h with hzero
    · cases h
    · obtain ⟨conversion, -, h⟩ := bind_eq_ok.mp h
      cases h
      exact ⟨rfl, rfl⟩
  · cases h

variable {s : BillingStore}

theorem currentDayAccruals_base {latest : LatestFX} {now : ℤ}
    {current : List BillingEntry} (h : currentDayAccruals latest now s = .ok current) :
    ∀ entry ∈ current, entry.id = 0 ∧ entry.type = .baseAccrual := by
  intro entry hmem
  obtain ⟨hok, rfl⟩ := mapM_reduceOption_eq_ok.mp h
  obtain ⟨version, hversion, hfound⟩ := List.mem_filterMap.mp hmem
  obtain ⟨found, hentry⟩ := hok version hversion
  rw [hentry] at hfound
  obtain rfl : found = some entry := hfound
  exact accrualEntryForInterval_base hentry

theorem convertedEntryAmount_congr {entry : BillingEntry} {snapshots snapshots' : Snapshots}
    (h : ∀ id, entry.fxSnapshotID = some id → snapshots.find? id = snapshots'.find? id)
    (currency : String) : convertedEntryAmount entry currency snapshots =
      convertedEntryAmount entry currency snapshots' := by
  have hbind : entry.fxSnapshotID.bind snapshots.find? = entry.fxSnapshotID.bind snapshots'.find? :=
    Option.bind_congr h
  unfold convertedEntryAmount
  rw [hbind]

/-- What a view finds: the stored entries of its filter, behind which come accruals only, and the
exchange rates of these. -/
structure Finds (filter : EntryFilter) (s : BillingStore) (found : CalculatedEntries) : Prop where
  items : ∃ current : List BillingEntry, (∀ entry ∈ current, entry.type = .baseAccrual) ∧
    found.items = (storedEntries filter s ++ current).map fun entry =>
      ⟨entry, categoryOf (originalTypes (storedEntries filter s)) entry⟩
  rates : ∀ item ∈ found.items, ∀ id, item.entry.fxSnapshotID = some id →
    found.snapshots.find? id = s.snapshots.find? id
  noOthers : ∀ id, s.snapshots.find? id = none → found.snapshots.find? id = none
  coverage : found.coverage = coverageStart s

variable {found : CalculatedEntries}

theorem finds_calculatedEntries {latest : LatestFX} {now : ℤ} {filter : EntryFilter}
    (htypes : filter.types = [])
    (h : calculatedEntries latest now filter s = .ok found) : Finds filter s found := by
  obtain ⟨current, hcurrent, h⟩ := bind_eq_ok.mp h
  cases h
  have hbase : ∀ entry ∈ current.filter filter.keeps, entry.id = 0 ∧ entry.type = .baseAccrual :=
    fun entry hmem => currentDayAccruals_base hcurrent entry (List.mem_of_mem_filter hmem)
  -- entries that are not stored have no id to be found by
  have horiginals : originalTypes (storedEntries filter s ++ current.filter filter.keeps) =
      originalTypes (storedEntries filter s) := by
    unfold originalTypes
    have hnone : (current.filter filter.keeps).filter (fun entry => decide (0 < entry.id)) = [] :=
      List.filter_eq_nil_iff.mpr fun entry hmem => by simp [(hbase entry hmem).1]
    rw [List.filter_append, hnone, List.append_nil]
  have hall : ∀ item : CalculatedEntry, entryMatchesTypes item.entry item.category
      (stringSet filter.types) (reversedOriginalIDs filter.clients s) = true := by
    intro item
    unfold entryMatchesTypes
    simp [htypes, stringSet]
  rw [horiginals, List.filter_eq_self.mpr fun item _ => hall item]
  refine ⟨⟨_, fun entry hmem => (hbase entry hmem).2, rfl⟩, fun item hmem id hid => ?_,
    fun id hnone => ?_, rfl⟩
  · have hin := List.mem_map_of_mem (f := fun item : CalculatedEntry => item.entry.fxSnapshotID) hmem
    exact (find?_selected _ _ _).trans (if_pos (hid ▸ hin))
  · exact (find?_selected _ _ _).trans (by rw [hnone, ite_self])

theorem Finds.converted {filter : EntryFilter}
    (h : Finds filter s found) {item : CalculatedEntry} (hmem : item ∈ found.items)
    (currency : String) : convertedEntryAmount item.entry currency found.snapshots =
      convertedEntryAmount item.entry currency s.snapshots :=
  convertedEntryAmount_congr (h.rates item hmem) currency

/-- The entries of a month that a view counts, converted. -/
def countedEntries (key currency : String) (found : CalculatedEntries) :
    List (CalculatedEntry × ℤ) :=
  (found.items.filter fun item =>
    decide (item.category ≠ .baseAccrual) && hasPrefix item.entry.day key).filterMap fun item =>
      (convertedEntryAmount item.entry currency found.snapshots).map fun amount => (item, amount)

/-- **A view without filter adds up the entries of the month.** -/
theorem sum_countedEntries (month : ℤ)
    (h : Finds {} s found) (currency : String) (q : CalculatedEntry → Bool) :
    (((countedEntries (monthText month) currency found).filter fun pair => q pair.1).map
      Prod.snd).sum =
        (((s.monthEntries month).filter fun entry => decide (s.category entry ≠ .baseAccrual) &&
          q ⟨entry, s.category entry⟩).map (s.converted currency)).sum := by
  obtain ⟨current, hcurrent, hitems⟩ := h.items
  unfold countedEntries
  rw [sum_filterMap_pair, List.filter_filter]
  have hsnapshots : ((found.items.filter fun item => q item && (decide (item.category ≠ .baseAccrual) &&
      hasPrefix item.entry.day (monthText month))).map fun item =>
        (convertedEntryAmount item.entry currency found.snapshots).getD 0) =
      (found.items.filter fun item => q item && (decide (item.category ≠ .baseAccrual) &&
        hasPrefix item.entry.day (monthText month))).map fun item => s.converted currency item.entry :=
    List.map_congr_left fun item hmem => by
      rw [h.converted (List.mem_of_mem_filter hmem)]
      rfl
  have hnone : ∀ (originals : Table ℕ EntryType) (p : CalculatedEntry → Bool),
      (∀ item, p item = true → item.category ≠ .baseAccrual) →
        current.filter (p ∘ fun entry => ⟨entry, categoryOf originals entry⟩) = [] :=
    fun originals p hp => List.filter_eq_nil_iff.mpr fun entry hmem htrue =>
      hp _ htrue (by simp [categoryOf, hcurrent entry hmem])
  rw [hsnapshots, hitems, List.filter_map, List.map_map, List.filter_append,
    hnone _ _ fun item hitem => by simp only [Bool.and_eq_true, decide_eq_true_eq] at hitem; exact hitem.2.1,
    List.append_nil]
  -- the stored entries of the view are those of the tables, in another order
  have hperm : (storedEntries {} s).Perm (s.entries.filter fun entry =>
      s.existingClient entry.client) := by
    have hselects : EntryFilter.selects {} s = fun entry : BillingEntry =>
        s.existingClient entry.client := funext fun entry => by simp [EntryFilter.selects]
    exact (sortOn_perm _ _).trans (by rw [hselects])
  refine ((hperm.filter _).map _).sum_eq.trans ?_
  rw [BillingStore.monthEntries, List.filter_filter, List.filter_filter]
  refine congrArg List.sum (congrArg₂ List.map rfl (List.filter_congr fun entry _ => ?_))
  simp only [Function.comp_apply]
  have himplies : s.category entry ≠ .baseAccrual → entry.type ≠ .baseAccrual :=
    categoryOf_ne_baseAccrual
  by_cases hcategory : s.category entry = .baseAccrual
  · have hcategory' : categoryOf (originalTypes (storedEntries {} s)) entry = .baseAccrual := hcategory
    simp [hcategory, hcategory']
  · have hcategory' : categoryOf (originalTypes (storedEntries {} s)) entry ≠ .baseAccrual := hcategory
    simp [hcategory', himplies hcategory, BillingStore.category, Bool.and_assoc, Bool.and_comm,
      Bool.and_left_comm]

end Entries

end Billing

end Komari
