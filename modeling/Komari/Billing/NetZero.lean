import Komari.Billing.MonthViews
import Komari.Billing.Void

/-!
# A voided entry and its reversal net to zero

* `voided_nets_to_zero` : so it is after any run with a call that voids the entry.
-/

namespace Komari

namespace Billing

open Calendar TrafficReset
open Traffic (beijingDay)

/-! ### Opposite amounts -/

theorem roundRatToInt64_neg {q : ℚ} (h : roundRatToInt64 q ≠ .ok minInt64)
    (hneg : roundRatToInt64 (-q) ≠ .ok minInt64) :
    roundRatToInt64 (-q) = (roundRatToInt64 q).map Neg.neg := by
  rw [roundRatToInt64_eq, roundRatToInt64_eq, roundHalfAway_neg] at *
  by_cases hin : InInt64 (roundHalfAway q)
  · have hne : roundHalfAway q ≠ minInt64 := fun heq => h (by rw [if_pos hin, heq])
    have hin' : InInt64 (-roundHalfAway q) := by
      unfold InInt64 minInt64 maxInt64 at *
      omega
    rw [if_pos hin, if_pos hin']
    rfl
  · have hin' : ¬InInt64 (-roundHalfAway q) := by
      intro hin'
      have hne : -roundHalfAway q ≠ minInt64 := fun heq => hneg (by rw [if_pos hin', heq])
      unfold InInt64 minInt64 maxInt64 at *
      omega
    rw [if_neg hin, if_neg hin']
    rfl

section Exchange

variable [CurrencyTable]

/-- The amount or its opposite is converted to the least 64-bit integer, which has no opposite. -/
def AtTheEdge (amount : ℤ) (source target : String) (rates : Rates) : Prop :=
  convertMicros amount source target rates = .ok minInt64 ∨
    convertMicros (-amount) source target rates = .ok minInt64

/-- **The opposite amount** is converted to the opposite, and fails when the amount fails. -/
theorem convertMicros_neg {amount : ℤ} {source target : String} {rates : Rates}
    (h : ¬AtTheEdge amount source target rates) :
    convertMicros (-amount) source target rates =
      (convertMicros amount source target rates).map Neg.neg := by
  unfold AtTheEdge convertMicros at *
  dsimp only at h ⊢
  split_ifs at h ⊢
  · rfl
  · rfl
  · cases hsource : rateOf rates (normalizeCurrency source).1 with
    | error e => rfl
    | ok sourceRate =>
      cases htarget : rateOf rates (normalizeCurrency target).1 with
      | error e => rfl
      | ok targetRate =>
        rw [hsource, htarget, not_or] at h
        have hneg : ((-amount : ℤ) : ℚ) * targetRate / sourceRate =
            -(amount * targetRate / sourceRate) := by
          push_cast
          ring
        simp only [bind, Except.bind, hneg] at h ⊢
        exact roundRatToInt64_neg h.1 h.2

/-- A view converts an amount of the entry to the edge. -/
def EdgeEntry (entry : BillingEntry) (currency : String) (snapshots : Snapshots) : Prop :=
  ∃ rates, entry.fxSnapshotID.bind snapshots.find? = some rates ∧
    AtTheEdge entry.originalAmountMicros entry.originalCurrency currency rates

/-- The reversal of an entry is converted to the opposite. -/
theorem Reverses.converted {original reversal : BillingEntry} (h : Reverses original reversal)
    {currency : String} {snapshots : Snapshots} (hedge : ¬EdgeEntry original currency snapshots) :
    convertedEntryAmount reversal currency snapshots =
      (convertedEntryAmount original currency snapshots).map Neg.neg := by
  unfold convertedEntryAmount
  rw [h.currency, h.amount, h.snapshot]
  split_ifs
  · rfl
  · cases hfind : original.fxSnapshotID.bind snapshots.find? with
    | none => rfl
    | some rates =>
      dsimp only
      split_ifs
      · rfl
      · rw [convertMicros_neg fun hat => hedge ⟨rates, hfind, hat⟩]
        cases convertMicros original.originalAmountMicros original.originalCurrency currency rates <;> rfl

end Exchange

/-! ### What a view shows of the two -/

theorem filter_eq_singleton {α β : Type} [DecidableEq β] {f : α → β} {l : List α} {a : α}
    (hnodup : (l.map f).Nodup) (hmem : a ∈ l) : l.filter (fun b => decide (f b = f a)) = [a] := by
  refine List.perm_singleton.mp ((List.perm_ext_iff_of_nodup ((List.Nodup.of_map _ hnodup).filter _)
    (List.nodup_singleton _)).mpr fun b => ?_)
  rw [List.mem_filter, List.mem_singleton, decide_eq_true_eq]
  constructor
  · rintro ⟨hb, heq⟩
    exact List.inj_on_of_nodup_map hnodup hb hmem heq
  · rintro rfl
    exact ⟨hmem, rfl⟩

section Shown

variable [CurrencyTable]

/-- Both entries are shown, once and in the same category, or neither is. -/
structure Opposed (original reversal : BillingEntry) (currency : String) (snapshots : Snapshots)
    (items : List CalculatedEntry) : Prop where
  shown : (items.filter (fun item => item.entry.id = original.id) = [⟨original, original.type⟩] ∧
      items.filter (fun item => item.entry.id = reversal.id) = [⟨reversal, original.type⟩]) ∨
    (items.filter (fun item => item.entry.id = original.id) = [] ∧
      items.filter (fun item => item.entry.id = reversal.id) = [])
  day : reversal.day = original.day
  amount : convertedEntryAmount reversal currency snapshots =
    (convertedEntryAmount original currency snapshots).map Neg.neg

/-- The types of a filter are empty or name the type of an entry. -/
def NamesType (types : List String) (entry : BillingEntry) : Prop :=
  stringSet types = [] ∨ entry.type.name ∈ stringSet types

theorem filter_items {latest : LatestFX} {now : ℤ} {filter : EntryFilter} {store : BillingStore}
    {found : CalculatedEntries} (hsound : SoundEntries store.entries)
    (h : calculatedEntries latest now filter store = .ok found) {entry : BillingEntry}
    (hmem : entry ∈ store.entries)
    (hmatch : filter.selects store entry = true → entryMatchesTypes entry
      (categoryOf (originalTypes (storedEntries filter store)) entry) (stringSet filter.types)
        (reversedOriginalIDs filter.clients store) = true) :
    found.items.filter (fun item => item.entry.id = entry.id) =
      if filter.selects store entry then
        [⟨entry, categoryOf (originalTypes (storedEntries filter store)) entry⟩] else [] := by
  obtain ⟨current, hcurrent, h⟩ := bind_eq_ok.mp h
  cases h
  have hzero : ∀ other ∈ current.filter filter.keeps, other.id = 0 := fun other hother =>
    (currentDayAccruals_base hcurrent other (List.mem_of_mem_filter hother)).1
  -- entries that are not stored have no id
  have horiginals : originalTypes (storedEntries filter store ++ current.filter filter.keeps) =
      originalTypes (storedEntries filter store) := by
    have hnone : (current.filter filter.keeps).filter (fun other => decide (0 < other.id)) = [] :=
      List.filter_eq_nil_iff.mpr fun other hother => by simp [hzero other hother]
    rw [originalTypes, List.filter_append, hnone, List.append_nil]
    rfl
  have hnone : (current.filter filter.keeps).filter (fun other => decide (other.id = entry.id)) = [] :=
    List.filter_eq_nil_iff.mpr fun other hother => by
      have hpos := hsound.id_pos hmem
      simp [hzero other hother, hpos.ne]
  have hstored : (storedEntries filter store).filter (fun other => decide (other.id = entry.id)) =
      if filter.selects store entry then [entry] else [] := by
    have hperm : (storedEntries filter store).Perm (store.entries.filter (filter.selects store)) :=
      sortOn_perm _ _
    have hsingle := filter_eq_singleton hsound.nodup_ids hmem
    have hfilter : (store.entries.filter (filter.selects store)).filter
        (fun other => decide (other.id = entry.id)) =
          if filter.selects store entry then [entry] else [] := by
      rw [List.filter_comm, hsingle]
      split_ifs with hselects
      · exact List.filter_cons_of_pos hselects
      · exact List.filter_cons_of_neg hselects
    have hperm' := hperm.filter fun other => decide (other.id = entry.id)
    rw [hfilter] at hperm'
    split_ifs at hperm' ⊢
    · exact List.perm_singleton.mp hperm'
    · exact hperm'.eq_nil
  have hmap : ((storedEntries filter store ++ current.filter filter.keeps).map fun other =>
      CalculatedEntry.mk other (categoryOf (originalTypes (storedEntries filter store)) other)).filter
        (fun item => decide (item.entry.id = entry.id)) =
      if filter.selects store entry then
        [⟨entry, categoryOf (originalTypes (storedEntries filter store)) entry⟩] else [] := by
    have hfilter := (List.filter_append (p := fun other : BillingEntry => decide (other.id = entry.id))
      (storedEntries filter store) (current.filter filter.keeps))
    rw [hstored, hnone, List.append_nil] at hfilter
    rw [List.filter_map]
    refine (congrArg (List.map _) hfilter).trans ?_
    split_ifs <;> rfl
  dsimp only
  rw [horiginals, List.filter_comm, hmap]
  split_ifs with hselects
  · exact List.filter_cons_of_pos (hmatch hselects)
  · rfl

/-- **A view shows both entries or neither**, if its types are empty or name the original's. -/
theorem opposed_calculatedEntries {latest : LatestFX} {now : ℤ} {filter : EntryFilter}
    {store : BillingStore} {found : CalculatedEntries} (hsound : SoundEntries store.entries)
    (h : calculatedEntries latest now filter store = .ok found) {original reversal : BillingEntry}
    (horiginal : original ∈ store.entries) (hreversal : reversal ∈ store.entries)
    (hcharges : Charges original) (hreverses : Reverses original reversal)
    (htypes : NamesType filter.types original) {currency : String} {snapshots : Snapshots}
    (hedge : ¬EdgeEntry original currency snapshots) :
    Opposed original reversal currency snapshots found.items where
  shown := by
    have hselects : filter.selects store reversal = filter.selects store original := by
      unfold EntryFilter.selects
      rw [hreverses.client, hreverses.currency, hreverses.day]
    have hcategory : ∀ originals, categoryOf originals original = original.type :=
      fun originals => if_neg hcharges.type
    have hcategory' : filter.selects store original = true →
        categoryOf (originalTypes (storedEntries filter store)) reversal = original.type := by
      intro hselected
      have hfind : (originalTypes (storedEntries filter store)).find? original.id =
          some original.type := by
        have hstored : original ∈ storedEntries filter store :=
          mem_sortOn.mpr (List.mem_filter.mpr ⟨horiginal, hselected⟩)
        refine Table.find?_upsertAll_of_mem ?_ (List.mem_map.mpr ⟨original, ?_, rfl⟩)
        · rw [List.map_map]
          refine List.Nodup.sublist (List.filter_sublist.map _) ?_
          have hperm := (sortOn_perm (fun entry : BillingEntry => toLex (entry.occurredAt, entry.id))
            (store.entries.filter (filter.selects store))).map BillingEntry.id
          exact hperm.nodup_iff.mpr (hsound.nodup_ids.sublist (List.filter_sublist.map _))
        · exact List.mem_filter.mpr ⟨hstored, decide_eq_true (hsound.id_pos horiginal)⟩
      rw [categoryOf, if_pos hreverses.type, hreverses.reversalOf, Option.bind_some, hfind]
    have hshown := filter_items hsound h horiginal fun _ => by
      rw [hcategory, entryMatchesTypes]
      rcases htypes with hnil | hin
      · simp [hnil]
      · simp [hin]
    have hshown' := filter_items hsound h hreversal fun hselected => by
      rw [hcategory' (hselects ▸ hselected), entryMatchesTypes]
      rcases htypes with hnil | hin
      · simp [hnil]
      · simp [hin]
    rw [hshown, hshown', hselects, hcategory]
    by_cases hselected : filter.selects store original = true
    · rw [if_pos hselected, if_pos hselected, hcategory' hselected]
      exact Or.inl ⟨rfl, rfl⟩
    · rw [if_neg hselected, if_neg hselected]
      exact Or.inr ⟨rfl, rfl⟩
  day := hreverses.day
  amount := hreverses.converted hedge

end Shown

/-! ### Sums of a period -/

namespace AmountAccumulator

/-- The five amounts of a period. -/
inductive Field
  /-- Committed cycles and single payments. -/
  | base
  | extra
  | other
  | oneTime
  | total

/-- One of its sums. -/
def get (t : AmountAccumulator) : Field → ℤ
  | .base => t.base
  | .extra => t.extra
  | .other => t.other
  | .oneTime => t.oneTime
  | .total => t.total

/-- The category is part of an amount. -/
def countsFor : EntryType → Field → Bool
  | _, .total => true
  | .baseAccrual, .base => true
  | .oneTime, .base => true
  | .trafficReset, .extra => true
  | .ipChange, .other => true
  | .adjustment, .oneTime => true
  | _, _ => false

theorem ext_get {t u : AmountAccumulator} (h : ∀ field, t.get field = u.get field) : t = u := by
  obtain ⟨base, extra, other, oneTime, total⟩ := t
  obtain ⟨base', extra', other', oneTime', total'⟩ := u
  rw [mk.injEq]
  exact ⟨h .base, h .extra, h .other, h .oneTime, h .total⟩

theorem get_addCategory (t : AmountAccumulator) (category : EntryType) (amount : ℤ) (field : Field) :
    (t.addCategory category amount).get field =
      if countsFor category field then addInt64 (t.get field) amount else t.get field := by
  cases category <;> cases field <;> rfl

/-- What a row adds to an amount. -/
def share (field : Field) : Option (EntryType × ℤ) → ℤ
  | some (category, amount) => if countsFor category field then amount else 0
  | none => 0

/-- Rows one after the other. -/
def addRows {β : Type*} (row : β → Option (EntryType × ℤ)) (t : AmountAccumulator) (items : List β) :
    AmountAccumulator :=
  (items.filterMap row).foldl (fun t row => t.addCategory row.1 row.2) t

/-- **An amount is the wrapped sum of what the rows add to it.** -/
theorem get_addRows {β : Type*} (row : β → Option (EntryType × ℤ)) (items : List β)
    {t : AmountAccumulator} {field : Field} {x : ℤ} (ht : t.get field = int64 x) :
    (addRows row t items).get field =
      int64 (x + (items.map fun item => share field (row item)).sum) := by
  induction items generalizing t x with
  | nil => simpa [addRows] using ht
  | cons item items ih =>
    rw [List.map_cons, List.sum_cons, ← add_assoc]
    cases hrow : row item with
    | none =>
      rw [share, add_zero, ← ih ht, addRows, addRows, List.filterMap_cons_none hrow]
    | some r =>
      have hstep : (t.addCategory r.1 r.2).get field = int64 (x + share field (some r)) := by
        rw [get_addCategory, share]
        split_ifs
        · rw [ht, addInt64, int64_int64_add]
        · rw [ht, add_zero]
      rw [← ih hstep, addRows, addRows, List.filterMap_cons_some hrow, List.foldl_cons]

theorem addRows_append {β : Type*} (row : β → Option (EntryType × ℤ)) (t : AmountAccumulator)
    (items items' : List β) : addRows row t (items ++ items') = addRows row (addRows row t items) items' := by
  rw [addRows, List.filterMap_append, List.foldl_append]
  rfl

theorem addRows_eq_foldl {β : Type*} (category : β → EntryType) (amount : β → Option ℤ)
    (t : AmountAccumulator) (items : List β) :
    addRows (fun item => (amount item).map fun a => (category item, a)) t items =
      (items.filterMap fun item => (amount item).map fun a => (item, a)).foldl
        (addRow (fun pair => category pair.1) Prod.snd) t := by
  induction items generalizing t with
  | nil => rfl
  | cons item items ih =>
    cases hamount : amount item with
    | none => simpa [addRows, hamount] using ih t
    | some a => simpa [addRows, hamount, addRow] using ih (t.addCategory (category item) a)

/-- Rows with the same sums make the same amounts. -/
theorem addRows_congr {β : Type*} {row : β → Option (EntryType × ℤ)} {items items' : List β}
    (h : ∀ field, (items.map fun item => share field (row item)).sum =
      (items'.map fun item => share field (row item)).sum) :
    addRows row zero items = addRows row zero items' := by
  refine ext_get fun field => ?_
  have hzero : zero.get field = int64 0 := by cases field <;> rfl
  rw [get_addRows row items hzero, get_addRows row items' hzero, h]

end AmountAccumulator

open AmountAccumulator (addRows share addRows_congr addRows_append addRows_eq_foldl)

theorem sum_filter_add_sum_filter {β : Type*} (p : β → Bool) (f : β → ℤ) (items : List β) :
    ((items.filter p).map f).sum + ((items.filter fun item => !p item).map f).sum =
      (items.map f).sum := by
  induction items with
  | nil => rfl
  | cons item items ih =>
    rw [List.map_cons, List.sum_cons, ← ih]
    cases hp : p item with
    | true => simp [hp, add_assoc]
    | false => simp [hp, add_left_comm]

/-- The entries of a view but for two. -/
def withoutPair (original reversal : BillingEntry) (items : List CalculatedEntry) :
    List CalculatedEntry :=
  items.filter fun item => decide (item.entry.id ≠ original.id) && decide (item.entry.id ≠ reversal.id)

section Cancel

variable [CurrencyTable] {original reversal : BillingEntry} {currency : String}
  {snapshots : Snapshots} {items : List CalculatedEntry}

/-- A row of a view: the category and the converted amount of an entry that it selects. -/
def viewRow (currency : String) (snapshots : Snapshots)
    (selects : EntryType → String → Bool) (item : CalculatedEntry) : Option (EntryType × ℤ) :=
  if selects item.category item.entry.day then
    (convertedEntryAmount item.entry currency snapshots).map fun amount => (item.category, amount)
  else none

/-- **The two entries cancel** in every sum of a view. -/
theorem Opposed.addRows_eq (h : Opposed original reversal currency snapshots items)
    (hne : reversal.id ≠ original.id) (selects : EntryType → String → Bool) :
    addRows (viewRow currency snapshots selects) .zero items =
      addRows (viewRow currency snapshots selects) .zero (withoutPair original reversal items) := by
  refine addRows_congr fun field => ?_
  set f := fun item => share field (viewRow currency snapshots selects item) with hf
  have hsplit := sum_filter_add_sum_filter (fun item => decide (item.entry.id = original.id)) f items
  have hsplit' := sum_filter_add_sum_filter (fun item => decide (item.entry.id = reversal.id)) f
    (items.filter fun item => !decide (item.entry.id = original.id))
  have hother : (items.filter fun item => !decide (item.entry.id = original.id)).filter
      (fun item => decide (item.entry.id = reversal.id)) =
        items.filter fun item => decide (item.entry.id = reversal.id) := by
    rw [List.filter_filter]
    refine List.filter_congr fun item _ => ?_
    by_cases hid : item.entry.id = reversal.id
    · simp [hid, hne]
    · simp [hid]
  have hrest : (items.filter fun item => !decide (item.entry.id = original.id)).filter
      (fun item => !decide (item.entry.id = reversal.id)) = withoutPair original reversal items := by
    rw [List.filter_filter, withoutPair]
    refine List.filter_congr fun item _ => ?_
    simp [Bool.and_comm]
  -- the shares of the two entries are opposite
  have hcancel : ((items.filter fun item => decide (item.entry.id = original.id)).map f).sum +
      ((items.filter fun item => decide (item.entry.id = reversal.id)).map f).sum = 0 := by
    rcases h.shown with ⟨horiginal, hreversal⟩ | ⟨horiginal, hreversal⟩
    · rw [horiginal, hreversal, List.map_singleton, List.map_singleton, List.sum_singleton,
        List.sum_singleton, hf]
      simp only [viewRow, h.day, h.amount]
      split_ifs
      · cases convertedEntryAmount original currency snapshots with
        | none => rfl
        | some amount =>
          simp only [Option.map_some, share]
          split_ifs
          · exact add_neg_cancel amount
          · rfl
      · rfl
    · rw [horiginal, hreversal]
      rfl
  rw [hother, hrest] at hsplit'
  rw [← hsplit, ← hsplit', ← add_assoc, hcancel, zero_add]

end Cancel

/-! ### The two views -/

section Views

variable [CurrencyTable]

/-- The entries of the periods of `getPeriods`. -/
def entryPeriods (query : PeriodQuery) (monthly : Bool) (currency : String) (snapshots : Snapshots)
    (items : List CalculatedEntry) : Table String PeriodBucket :=
  (∅ : Table String PeriodBucket).collect (fun item => entryPeriod monthly item.entry.day)
    (fun _ => .empty) (fun bucket item => bucket.add item.entry.client item.category
      (convertedEntryAmount item.entry currency snapshots)) (periodEntries query monthly items)

/-- The rows of a page of periods, made from those of the entries and from the committed cycles. -/
def pagePeriods (query : PeriodQuery) (monthly : Bool) (cycles : List CommittedCycle)
    (periods : Table String PeriodBucket) : List PeriodAmount :=
  let periods := addCommittedCycles query monthly cycles periods
  let periods := if monthly then ensureMonths query.months periods else periods
  let (page, pageSize) := normalizePage query.page query.pageSize
  pageRows ((sortOn Prod.fst periods.rows).reverse.map fun row =>
    periodRow monthly query.now row.1 row.2) page pageSize

/-- What the entries add to a period. -/
def periodAmounts (query : PeriodQuery) (monthly : Bool) (currency : String) (snapshots : Snapshots)
    (items : List CalculatedEntry) (period : String) : AmountAccumulator :=
  (((entryPeriods query monthly currency snapshots items).find? period).getD .empty).amounts

/-- The entries that count for a period. -/
def periodSelects (query : PeriodQuery) (monthly : Bool) (period : String) (category : EntryType)
    (day : String) : Bool :=
  decide (category ≠ .baseAccrual) && decide (4 ≤ day.length) &&
    (intSet query.years = [] || decide (entryYear day ∈ intSet query.years)) &&
      (!monthly || decide (entryPeriod monthly day ∈ stringSet query.months)) &&
        decide (entryPeriod monthly day = period)

theorem periodAmounts_eq (query : PeriodQuery) (monthly : Bool) (currency : String)
    (snapshots : Snapshots) (items : List CalculatedEntry) (period : String) :
    periodAmounts query monthly currency snapshots items period =
      addRows (viewRow currency snapshots (periodSelects query monthly period)) .zero items := by
  rw [periodAmounts, entryPeriods, Table.getD_find?_collect fun _ => rfl, amounts_foldl_add,
    ← addRows_eq_foldl, addRows, addRows, periodEntries, List.filter_filter, List.filterMap_filter]
  refine congrArg (List.foldl _ _) (List.filterMap_congr fun item _ => ?_)
  refine if_congr ?_ rfl rfl
  rw [periodSelects, Bool.and_comm]

/-! #### The overview -/

/-- An entry of the overview that the sums of the day, the month or the year select. -/
def overviewSelects (selects : String → Bool) (category : EntryType) (day : String) : Bool :=
  decide (category ≠ .baseAccrual) && selects day

/-- What the entries add to the overview: to the day, the month, the year, and the months of the year. -/
def overviewEntries (now : ℤ) (currency : String) (snapshots : Snapshots)
    (items : List CalculatedEntry) : OverviewTotals :=
  items.foldl (addOverviewEntry (overviewKeys now) currency snapshots)
    ⟨.zero, .zero, .zero, emptyTrend now, 0⟩

/-- The rates that the views use. -/
def overviewSnapshots (s : BillingStore) (found : CalculatedEntries) : Snapshots :=
  mergeSnapshots found.snapshots (loadVersionFXSnapshots (listBillableVersions [] [] s) s)

/-- The overview shows the sums of the entries, to which committed cycles have been added. -/
structure OverviewOf (overview : BillingOverview) (now : ℤ) (cycles : List CommittedCycle)
    (totals : OverviewTotals) : Prop where
  month : overview.month =
    formattedBreakdown (cycles.foldl (addOverviewCycle (overviewKeys now)) totals).month
  year : overview.year =
    formattedBreakdown (cycles.foldl (addOverviewCycle (overviewKeys now)) totals).year
  trend : overview.monthlyTrend = (sortOn Prod.fst
    (cycles.foldl (addOverviewCycle (overviewKeys now)) totals).monthTotals.rows).map fun row =>
      periodFromAccumulator row.1 row.2

variable {keys : OverviewKeys} {currency : String} {snapshots : Snapshots}

/-- A sum of the overview to which the entries of some days are added. -/
theorem foldl_addOverviewEntry (proj : OverviewTotals → AmountAccumulator) (selects : String → Bool)
    (hstep : ∀ totals item, proj (addOverviewEntry keys currency snapshots totals item) =
      addRows (viewRow currency snapshots (overviewSelects selects)) (proj totals) [item])
    (items : List CalculatedEntry) (totals : OverviewTotals) :
    proj (items.foldl (addOverviewEntry keys currency snapshots) totals) =
      addRows (viewRow currency snapshots (overviewSelects selects)) (proj totals) items := by
  induction items generalizing totals with
  | nil => rfl
  | cons item items ih => rw [List.foldl_cons, ih, hstep, ← addRows_append, List.singleton_append]

theorem addOverviewEntry_step (selects : String → Bool) (item : CalculatedEntry)
    (t : AmountAccumulator) :
    addRows (viewRow currency snapshots (overviewSelects selects)) t [item] =
      if item.category = .baseAccrual then t
      else
        match convertedEntryAmount item.entry currency snapshots with
        | none => t
        | some amount =>
          if selects item.entry.day then t.addCategory item.category amount else t := by
  by_cases hbase : item.category = .baseAccrual
  · simp [addRows, viewRow, overviewSelects, hbase]
  · cases hamount : convertedEntryAmount item.entry currency snapshots with
    | none => simp [addRows, viewRow, overviewSelects, hbase, hamount]
    | some amount =>
      cases hselects : selects item.entry.day <;>
        simp [addRows, viewRow, overviewSelects, hbase, hamount, hselects]

/-- The sums of today, of the month and of the year. -/
theorem foldl_totals (items : List CalculatedEntry) (totals : OverviewTotals) :
    (items.foldl (addOverviewEntry keys currency snapshots) totals).today =
        addRows (viewRow currency snapshots (overviewSelects fun day => decide (day = keys.today)))
          totals.today items ∧
      (items.foldl (addOverviewEntry keys currency snapshots) totals).month =
        addRows (viewRow currency snapshots (overviewSelects fun day => hasPrefix day keys.month))
          totals.month items ∧
      (items.foldl (addOverviewEntry keys currency snapshots) totals).year =
        addRows (viewRow currency snapshots (overviewSelects fun day => hasPrefix day keys.year))
          totals.year items := by
  refine ⟨foldl_addOverviewEntry OverviewTotals.today _ (fun totals item => ?_) items totals,
    foldl_addOverviewEntry OverviewTotals.month _ (fun totals item => ?_) items totals,
    foldl_addOverviewEntry OverviewTotals.year _ (fun totals item => ?_) items totals⟩
  all_goals
    rw [addOverviewEntry_step, addOverviewEntry]
    by_cases hbase : item.category = .baseAccrual
    · rw [if_pos hbase, if_pos hbase]
    · rw [if_neg hbase, if_neg hbase]
      cases convertedEntryAmount item.entry currency snapshots <;> rfl

omit [CurrencyTable] in
theorem find?_addToTrend (monthTotals : Table String AmountAccumulator) (key k : String)
    (category : EntryType) (amount : ℤ) :
    (addToTrend monthTotals key category amount).find? k = (monthTotals.find? k).map fun total =>
      if key = k then total.addCategory category amount else total := by
  rw [addToTrend]
  by_cases hkey : key = k
  · subst hkey
    cases hfind : monthTotals.find? key with
    | none => simp [hfind]
    | some total => simp
  · cases monthTotals.find? key with
    | none => simp [hkey]
    | some total => simp [hkey, Table.find?_upsert_ne (Ne.symm hkey)]

/-- The months of the year stay, and the entries of each are added up. -/
theorem trend_foldl (k : String) (items : List CalculatedEntry) (totals : OverviewTotals) :
    (items.foldl (addOverviewEntry keys currency snapshots) totals).monthTotals.find? k =
      (totals.monthTotals.find? k).map fun total =>
        addRows (viewRow currency snapshots (overviewSelects fun day =>
          decide (7 ≤ day.length) && decide (takeText 7 day = k))) total items := by
  induction items generalizing totals with
  | nil =>
    rw [List.foldl_nil]
    exact Option.map_id'.symm
  | cons item items ih =>
    have hstep : (addOverviewEntry keys currency snapshots totals item).monthTotals.find? k =
        (totals.monthTotals.find? k).map fun total =>
          addRows (viewRow currency snapshots (overviewSelects fun day =>
            decide (7 ≤ day.length) && decide (takeText 7 day = k))) total [item] := by
      simp only [addOverviewEntry_step]
      rw [addOverviewEntry]
      by_cases hbase : item.category = .baseAccrual
      · simp [hbase]
      · rw [if_neg hbase]
        cases convertedEntryAmount item.entry currency snapshots with
        | none => simp
        | some amount =>
          by_cases hlen : 7 ≤ item.entry.day.length
          · simp [hbase, hlen, find?_addToTrend]
          · simp [hbase, hlen]
    rw [List.foldl_cons, ih, hstep, Option.map_map]
    refine congrArg (fun f => Option.map f _) (funext fun total => ?_)
    rw [Function.comp_apply, ← addRows_append, List.singleton_append]

omit [CurrencyTable] in
theorem eq_zero_of_emptyTrend {now : ℤ} {month : String} {total : AmountAccumulator}
    (h : (emptyTrend now).find? month = some total) : total = .zero := by
  rw [emptyTrend] at h
  by_cases hmem : month ∈ ((List.range 12).map fun month =>
      (monthText (12 * beijingYear now + month), AmountAccumulator.zero)).map Prod.fst
  · obtain ⟨value, hvalue, hfind⟩ := Table.exists_find?_upsertAll (t := ∅) hmem
    rw [hfind] at h
    obtain ⟨_, -, heq⟩ := List.mem_map.mp hvalue
    exact (Option.some.inj h).symm.trans (Prod.mk.inj heq).2.symm
  · rw [Table.find?_upsertAll_of_notMem hmem] at h
    cases h

end Views

/-! ### Both views -/

section Nets

variable [CurrencyTable]

/-- In the periods of a page the two entries net to zero. -/
structure PeriodsNet (original reversal : BillingEntry) (query : PeriodQuery) (monthly : Bool)
    (currency : String) (found : CalculatedEntries) : Prop
    extends Opposed original reversal currency found.snapshots found.items where
  periods : ∀ period, periodAmounts query monthly currency found.snapshots found.items period =
    periodAmounts query monthly currency found.snapshots
      (withoutPair original reversal found.items) period

/-- In the sums of the overview the two entries net to zero. -/
structure OverviewNets (original reversal : BillingEntry) (now : ℤ) (currency : String)
    (snapshots : Snapshots) (items : List CalculatedEntry) : Prop
    extends Opposed original reversal currency snapshots items where
  today : (overviewEntries now currency snapshots items).today =
    (overviewEntries now currency snapshots (withoutPair original reversal items)).today
  month : (overviewEntries now currency snapshots items).month =
    (overviewEntries now currency snapshots (withoutPair original reversal items)).month
  year : (overviewEntries now currency snapshots items).year =
    (overviewEntries now currency snapshots (withoutPair original reversal items)).year
  trend : ∀ month, (overviewEntries now currency snapshots items).monthTotals.find? month =
    (overviewEntries now currency snapshots
      (withoutPair original reversal items)).monthTotals.find? month

variable {original reversal : BillingEntry} {currency : String}

variable {found : CalculatedEntries}

theorem Opposed.periodsNet {query : PeriodQuery} {monthly : Bool}
    (h : Opposed original reversal currency found.snapshots found.items)
    (hne : reversal.id ≠ original.id) :
    PeriodsNet original reversal query monthly currency found where
  toOpposed := h
  periods period := by
    rw [periodAmounts_eq, periodAmounts_eq]
    exact h.addRows_eq hne _

variable {snapshots : Snapshots}

theorem Opposed.overviewNets {now : ℤ} {items : List CalculatedEntry}
    (h : Opposed original reversal currency snapshots items) (hne : reversal.id ≠ original.id) :
    OverviewNets original reversal now currency snapshots items where
  toOpposed := h
  today := by
    rw [overviewEntries, overviewEntries, (foldl_totals _ _).1, (foldl_totals _ _).1]
    exact h.addRows_eq hne _
  month := by
    rw [overviewEntries, overviewEntries, (foldl_totals _ _).2.1, (foldl_totals _ _).2.1]
    exact h.addRows_eq hne _
  year := by
    rw [overviewEntries, overviewEntries, (foldl_totals _ _).2.2, (foldl_totals _ _).2.2]
    exact h.addRows_eq hne _
  trend month := by
    rw [overviewEntries, overviewEntries, trend_foldl, trend_foldl]
    refine Option.map_congr fun total htotal => ?_
    rw [eq_zero_of_emptyTrend htotal]
    exact h.addRows_eq hne _

/-! #### Reading the tables -/

/-- The rates of a view are rates of the tables. -/
theorem EdgeEntry.mono {snapshots' : Snapshots}
    (hsub : ∀ id rates, snapshots.find? id = some rates → snapshots'.find? id = some rates)
    (h : EdgeEntry original currency snapshots) : EdgeEntry original currency snapshots' := by
  obtain ⟨rates, hfind, hat⟩ := h
  obtain ⟨id, hid, hrates⟩ := Option.bind_eq_some_iff.mp hfind
  exact ⟨rates, Option.bind_eq_some_iff.mpr ⟨id, hid, hsub id rates hrates⟩, hat⟩

omit [CurrencyTable] in
theorem find?_of_selected {p : ℕ → Rates → Bool} {id : ℕ} {rates : Rates}
    (h : (snapshots.deleteWhere p).find? id = some rates) : snapshots.find? id = some rates := by
  rw [Table.find?_deleteWhere, Option.filter_eq_some_iff] at h
  exact h.1

theorem snapshots_calculatedEntries {latest : LatestFX} {now : ℤ} {filter : EntryFilter}
    {store : BillingStore}
    (h : calculatedEntries latest now filter store = .ok found) {id : ℕ} {rates : Rates}
    (hfind : found.snapshots.find? id = some rates) : store.snapshots.find? id = some rates := by
  obtain ⟨current, -, h⟩ := bind_eq_ok.mp h
  cases h
  exact find?_of_selected hfind

/-- The tables of a view: what is missing has been accrued, and the versions have their rates. -/
structure ReadBy (store store' : BillingStore) : Prop where
  grows : Grows store.entries store'.entries
  snapshots : store'.snapshots = store.snapshots

theorem readBy_backfill {latest : LatestFX} {store store' : BillingStore}
    (h : backfillPriceVersionFX latest store = .ok store') : ReadBy store store' := by
  obtain ⟨versions, -, h⟩ := bind_eq_ok.mp h
  cases h
  exact ⟨.refl, rfl⟩

theorem ReadBy.query {store store' : BillingStore} (h : ReadBy store store')
    {answers : AccrualAnswers} {clock done now : ℤ} {filter : EntryFilter}
    (hquery : queryCalculatedEntries answers clock done now filter store' = .ok found) :
    ∃ store'', ReadBy store store'' ∧ calculatedEntries answers.latest now filter store'' = .ok found := by
  have hgrows := grows_ensureAccruedThrough answers (yesterdayInBeijing now) clock done
    store'.toBillingState
  unfold queryCalculatedEntries BillingStore.accrue at hquery
  generalize ensureAccruedThrough answers (yesterdayInBeijing now) clock done store'.toBillingState =
    result at hquery hgrows
  obtain ⟨outcome, state⟩ := result
  cases outcome with
  | error e => cases hquery
  | ok u =>
    exact ⟨{ store' with toBillingState := state }, ⟨h.grows.trans hgrows, h.snapshots⟩, hquery⟩

variable {store store' : BillingStore}

/-- A view of tables that another call has filled up. -/
theorem ReadBy.opposed (h : ReadBy store store') (hsound : SoundEntries store.entries)
    (horiginal : original ∈ store.entries) (hreversal : reversal ∈ store.entries)
    (hcharges : Charges original) (hreverses : Reverses original reversal) {latest : LatestFX}
    {now : ℤ} {filter : EntryFilter}
    (hfound : calculatedEntries latest now filter store' = .ok found)
    (htypes : NamesType filter.types original)
    (hsub : ∀ id rates, snapshots.find? id = some rates → store.snapshots.find? id = some rates)
    (hedge : ¬EdgeEntry original currency store.snapshots) :
    Opposed original reversal currency snapshots found.items :=
  opposed_calculatedEntries (h.grows.sound hsound) hfound (h.grows.subset _ horiginal)
    (h.grows.subset _ hreversal) hcharges hreverses htypes fun hat => hedge (hat.mono hsub)

omit [CurrencyTable] in
theorem id_ne_of_reverses (hsound : SoundEntries store.entries) (horiginal : original ∈ store.entries)
    (hreversal : reversal ∈ store.entries) (hcharges : Charges original)
    (hreverses : Reverses original reversal) : reversal.id ≠ original.id := fun hid =>
  hcharges.type ((hsound.eq_of_id hreversal horiginal hid) ▸ hreverses.type)

end Nets

section Results

variable [TimezoneDatabase] [CurrencyTable] {original reversal : BillingEntry} {store : BillingStore}

/-- **The periods.** -/
theorem getPeriods_nets (hsound : SoundEntries store.entries) (horiginal : original ∈ store.entries)
    (hreversal : reversal ∈ store.entries) (hcharges : Charges original)
    (hreverses : Reverses original reversal) {answers : AccrualAnswers} {clock done : ℤ}
    {query : PeriodQuery} {monthly : Bool} {page : PeriodPage}
    (htypes : NamesType query.types original)
    (h : getPeriods answers clock done query monthly store = .ok page) :
    ∃ currency backfilled found, requireDisplayCurrency query.currency = .ok currency ∧
      backfillPriceVersionFX answers.latest store = .ok backfilled ∧
      queryCalculatedEntries answers clock done query.now
        { clients := query.clients, types := query.types, nativeCurrencies := query.nativeCurrencies }
          backfilled = .ok found ∧
      (∃ cycles, page.items = pagePeriods query monthly cycles
        (entryPeriods query monthly currency found.snapshots found.items)) ∧
      (¬EdgeEntry original currency store.snapshots →
        PeriodsNet original reversal query monthly currency found) := by
  obtain ⟨currency, hcurrency, h⟩ := bind_eq_ok.mp h
  obtain ⟨backfilled, hbackfilled, h⟩ := bind_eq_ok.mp h
  obtain ⟨found, hfound, h⟩ := bind_eq_ok.mp h
  obtain ⟨cycles, -, h⟩ := bind_eq_ok.mp h
  cases h
  refine ⟨currency, backfilled, found, hcurrency, hbackfilled, hfound, ⟨cycles, rfl⟩, fun hedge => ?_⟩
  obtain ⟨store', hread, hcalculated⟩ := (readBy_backfill hbackfilled).query hfound
  have hopposed := hread.opposed hsound horiginal hreversal hcharges hreverses hcalculated htypes
    (fun id rates hfind => hread.snapshots ▸ snapshots_calculatedEntries hcalculated hfind) hedge
  exact hopposed.periodsNet (id_ne_of_reverses hsound horiginal hreversal hcharges hreverses)

/-- **The overview.** -/
theorem getOverview_nets (hsound : SoundEntries store.entries) (horiginal : original ∈ store.entries)
    (hreversal : reversal ∈ store.entries) (hcharges : Charges original)
    (hreverses : Reverses original reversal) {answers : AccrualAnswers} {clock done : ℤ}
    {currency : String} {now : ℤ} {overview : BillingOverview}
    (h : getOverview answers clock done currency now store = .ok overview) :
    ∃ display backfilled found, requireDisplayCurrency currency = .ok display ∧
      backfillPriceVersionFX answers.latest store = .ok backfilled ∧
      queryCalculatedEntries answers clock done (normalizedNow clock now) {} backfilled = .ok found ∧
      (∃ cycles, OverviewOf overview (normalizedNow clock now) cycles (overviewEntries
        (normalizedNow clock now) display (overviewSnapshots backfilled found) found.items)) ∧
      (¬EdgeEntry original display store.snapshots →
        OverviewNets original reversal (normalizedNow clock now) display
          (overviewSnapshots backfilled found) found.items) := by
  obtain ⟨display, hdisplay, h⟩ := bind_eq_ok.mp h
  obtain ⟨backfilled, hbackfilled, h⟩ := bind_eq_ok.mp h
  obtain ⟨found, hfound, h⟩ := bind_eq_ok.mp h
  obtain ⟨_, -, h⟩ := bind_eq_ok.mp h
  obtain ⟨today, -, h⟩ := bind_eq_ok.mp h
  obtain ⟨cycles, -, h⟩ := bind_eq_ok.mp h
  cases h
  refine ⟨display, backfilled, found, hdisplay, hbackfilled, hfound, ⟨cycles, rfl, rfl, rfl⟩,
    fun hedge => ?_⟩
  have hbackfill := readBy_backfill hbackfilled
  obtain ⟨store', hread, hcalculated⟩ := hbackfill.query hfound
  have hsub : ∀ id rates, (overviewSnapshots backfilled found).find? id = some rates →
      store.snapshots.find? id = some rates := by
    intro id rates hfind
    rw [overviewSnapshots, find?_mergeSnapshots, Option.or_eq_some_iff] at hfind
    rcases hfind with hversion | ⟨-, hentry⟩
    · exact hbackfill.snapshots ▸ find?_of_selected hversion
    · exact hread.snapshots ▸ snapshots_calculatedEntries hcalculated hentry
  have hopposed := hread.opposed hsound horiginal hreversal hcharges hreverses hcalculated
    (Or.inl rfl) hsub hedge
  exact hopposed.overviewNets (id_ne_of_reverses hsound horiginal hreversal hcharges hreverses)

/-- **Voiding nets to zero**: in any run, an entry that a call has voided has exactly one reversal, and in
every result of the two views whose types are empty or name its type the two entries are shown in the same
category of the same period with opposite amounts, or not at all, and cancel; unless the amount is
converted to the edge of the 64-bit integers. -/
theorem voided_nets_to_zero (calls later : List LedgerCall) (clock : ℤ) (id : ℕ)
    (reason operator : String) (hreason : trimSpace reason ≠ "")
    (hstored : ∃ entry ∈ (runLedger calls).entries, entry.id = id ∧ entry.type ≠ .reversal) :
    (∀ amount source target rates, ¬AtTheEdge amount source target rates →
      convertMicros (-amount) source target rates =
        (convertMicros amount source target rates).map Neg.neg) ∧
    ∃ original ∈ (runLedger (calls ++ .void clock id reason operator :: later)).entries,
      original.id = id ∧ original.type ≠ .reversal ∧ ∃ reversal,
        (runLedger (calls ++ .void clock id reason operator :: later)).entries.filter
          (fun entry => decide (entry.type = .reversal ∧ entry.reversalOf = some id)) = [reversal] ∧
        ∀ store : BillingStore, store.toBillingState =
            runLedger (calls ++ .void clock id reason operator :: later) →
          (∀ answers now done query monthly page, NamesType query.types original →
            getPeriods answers now done query monthly store = .ok page →
              ∃ currency backfilled found, requireDisplayCurrency query.currency = .ok currency ∧
                backfillPriceVersionFX answers.latest store = .ok backfilled ∧
                queryCalculatedEntries answers now done query.now
                  { clients := query.clients, types := query.types,
                    nativeCurrencies := query.nativeCurrencies } backfilled = .ok found ∧
                (∃ cycles, page.items = pagePeriods query monthly cycles
                  (entryPeriods query monthly currency found.snapshots found.items)) ∧
                (¬EdgeEntry original currency store.snapshots →
                  PeriodsNet original reversal query monthly currency found)) ∧
          ∀ answers clock done currency now overview,
            getOverview answers clock done currency now store = .ok overview →
              ∃ display backfilled found, requireDisplayCurrency currency = .ok display ∧
                backfillPriceVersionFX answers.latest store = .ok backfilled ∧
                queryCalculatedEntries answers clock done (normalizedNow clock now) {} backfilled =
                  .ok found ∧
                (∃ cycles, OverviewOf overview (normalizedNow clock now) cycles
                  (overviewEntries (normalizedNow clock now) display
                    (overviewSnapshots backfilled found) found.items)) ∧
                (¬EdgeEntry original display store.snapshots →
                  OverviewNets original reversal (normalizedNow clock now) display
                    (overviewSnapshots backfilled found) found.items) := by
  refine ⟨fun amount source target rates hedge => convertMicros_neg hedge, ?_⟩
  obtain ⟨original, horiginal, hid, hcharges, reversal, hreverses, hone⟩ :=
    exists_reversal hreason hstored
  have hsound := soundEntries_runLedger (calls ++ .void clock id reason operator :: later)
  have hreversal : reversal ∈
      (runLedger (calls ++ .void clock id reason operator :: later)).entries :=
    List.mem_of_mem_filter (hone ▸ List.mem_singleton_self reversal)
  refine ⟨original, horiginal, hid, hcharges.type, reversal, hone, fun store hstore => ?_⟩
  rw [← hstore] at hsound horiginal hreversal
  exact ⟨fun answers now done query monthly page htypes h =>
      getPeriods_nets hsound horiginal hreversal hcharges hreverses htypes h,
    fun answers clock done currency now overview h =>
      getOverview_nets hsound horiginal hreversal hcharges hreverses h⟩

end Results

/-! ### The edge -/

def twoYuan : Rates := ((∅ : Rates).upsert "USD" (some 1)).upsert "CNY" (some 2)

/-- A traffic reset that costs some dollars. -/
def resetFor (amount : String) : LedgerCall :=
  .trafficReset (.ok (some (1, twoYuan))) 1750000000000000000 (.ok ⟨"client", "Client", "USD"⟩)
    { client := "client", amount := amount, currency := "", occurredAt := 1750000000000000000,
      note := "", idempotencyKey := "reset", operator := "operator" }

/-- The call that voids the first entry. -/
def voidFirst : LedgerCall := .void 1750000000000000001 1 "mistake" "operator"

theorem voided_nets_to_zero_reset :
    ∃ reversal, (@runLedger plainCurrencies [resetFor "9.99", voidFirst, voidFirst]).entries.filter
      (fun entry => decide (entry.type = .reversal ∧ entry.reversalOf = some 1)) = [reversal] := by
  obtain ⟨-, original, -, -, -, reversal, hone, -⟩ := @voided_nets_to_zero Traffic.noTimezones
    plainCurrencies [resetFor "9.99"] [voidFirst] 1750000000000000001 1 "mistake" "operator"
      (by decide +kernel) (by decide +kernel)
  exact ⟨reversal, hone⟩

/-- **At the edge** the entry is pending, and its reversal counts: 2^62 millionths of a dollar are 2^63 of
a yuan. -/
theorem voiding_fails :
    @convertMicros plainCurrencies (2 ^ 62) "USD" "CNY" twoYuan =
        .error "converted amount is out of range" ∧
      @convertMicros plainCurrencies (-2 ^ 62) "USD" "CNY" twoYuan = .ok minInt64 ∧
      ((@runLedger plainCurrencies [resetFor "4611686018427.387904", voidFirst]).entries.map
        fun entry => (entry.type, entry.reversalOf, @convertedEntryAmount plainCurrencies entry "CNY"
          ((∅ : Snapshots).upsert 1 twoYuan))) =
        [(.trafficReset, none, none), (.reversal, some 1, some minInt64)] :=
  ⟨by decide +kernel, by decide +kernel, by decide +kernel⟩

end Billing

end Komari
