import Mathlib.Data.Int.Basic
import Mathlib.Data.Option.Basic
import Mathlib.Data.List.Basic
import Mathlib.Tactic.SplitIfs
import Komari.Word.Int64

/-!
# Traffic counters and their recovery

An agent reports cumulative upload and download counters.  `trafficDeltasByRecord` turns a list of
records into the traffic of each record: the increase since the record before it, with two
exceptions for a counter that drops.  If the counter is back at its old value within half an hour,
the drop was a glitch: the records up to the recovery carry nothing and the recovery carries the
increase over the value before the drop.  Otherwise, and when both counters drop without recovering
at the same record (a *forced* discontinuity), the dropped value starts a new epoch.
-/

namespace Komari

namespace Traffic

/-! ### Records and counters -/

/-- One retained traffic sample of a client; `time` is in nanoseconds. -/
structure DeltaRecord where
  time : ℤ
  netTotalUp : ℤ
  netTotalDown : ℤ
  /-- Upload delta stored by the agent, if `trafficUpSet`. -/
  trafficUp : ℤ
  /-- Download delta stored by the agent, if `trafficDownSet`. -/
  trafficDown : ℤ
  /-- Whether the sample has a stored upload delta. -/
  trafficUpSet : Bool
  /-- Whether the sample has a stored download delta. -/
  trafficDownSet : Bool
deriving DecidableEq

/-- The totals `(up, down)` of a record. -/
def DeltaRecord.totals (r : DeltaRecord) : ℤ × ℤ := (r.netTotalUp, r.netTotalDown)

/-- The accessors that select one of the two counters of a record. -/
structure Counter where
  totalValue : DeltaRecord → ℤ
  storedDelta : DeltaRecord → ℤ
  storedDeltaSet : DeltaRecord → Bool
  /-- The counter's value in a pair of totals. -/
  pick : ℤ × ℤ → ℤ
  /-- Both views of the cumulative value agree. -/
  pick_totals : ∀ r, pick r.totals = totalValue r

/-- What was sent. -/
def upCounter : Counter :=
  ⟨DeltaRecord.netTotalUp, DeltaRecord.trafficUp, DeltaRecord.trafficUpSet, Prod.fst,
    fun _ => rfl⟩

/-- What was received. -/
def downCounter : Counter :=
  ⟨DeltaRecord.netTotalDown, DeltaRecord.trafficDown, DeltaRecord.trafficDownSet, Prod.snd,
    fun _ => rfl⟩

/-- `trafficCounterRecoveryWindow`: 30 minutes. -/
def trafficCounterRecoveryWindow : ℤ := 30 * 60 * 1000000000

def trafficDeltaAnomalyMultiplier : ℤ := 4

/-- `trafficDeltaAnomalyAllowance`: 64 MiB. -/
def trafficDeltaAnomalyAllowance : ℤ := 64 * 1024 * 1024

/-! ### The delta of one record -/

/-- The increase between two counters; a decrease starts a new continuity epoch. -/
def trafficCounterDelta (current previous : ℤ) : ℤ :=
  if current < 0 ∨ previous < 0 then 0
  else if previous ≤ current then subInt64 current previous
  else 0

/-- The stored difference, or that of the counters. -/
def trafficDeltaOrFallback (storedDelta : ℤ) (storedDeltaSet : Bool)
    (currentTotal previousTotal : ℤ) : ℤ :=
  if storedDeltaSet then
    if storedDelta < 0 then 0 else storedDelta
  else trafficCounterDelta currentTotal previousTotal

/-- `trafficDeltaUpperBound`: the largest stored delta that the counters make plausible. -/
def trafficDeltaUpperBound (directDelta : ℤ) : ℤ :=
  if (maxInt64 - trafficDeltaAnomalyAllowance).tdiv trafficDeltaAnomalyMultiplier < directDelta then
    maxInt64
  else int64 (directDelta * trafficDeltaAnomalyMultiplier + trafficDeltaAnomalyAllowance)

/-- The delta of a record that does not drop below the baseline. -/
def acceptedDelta (c : Counter) (baseline : Option ℤ) (r : DeltaRecord) : ℤ :=
  match baseline with
  | none => c.storedDelta r
  | some baseline =>
    let current := c.totalValue r
    let delta := trafficDeltaOrFallback (c.storedDelta r) (c.storedDeltaSet r) current baseline
    if baseline ≤ current then
      let directDelta := subInt64 current baseline
      if trafficDeltaUpperBound directDelta < delta then directDelta else delta
    else delta

/-! ### Drops and recoveries -/

/-- `findCounterRecovery` over the records that follow a drop at `dropTime`: the index of the first
one that is back at the baseline, unless a record beyond the recovery window comes first. -/
def findCounterRecovery (baseline dropTime : ℤ) (totalValue : DeltaRecord → ℤ) :
    List DeltaRecord → Option ℕ
  | [] => none
  | r :: rest =>
    if trafficCounterRecoveryWindow < r.time - dropTime then none
    else if baseline ≤ totalValue r then some 0
    else (findCounterRecovery baseline dropTime totalValue rest).map (· + 1)

/-- Whether `r`, which follows a record with totals `previous`, is a forced discontinuity: both
counters drop and they do not recover at the same record of `rest`. -/
def forcedDiscontinuity (previous : Option (ℤ × ℤ)) (r : DeltaRecord) (rest : List DeltaRecord) :
    Bool :=
  match previous with
  | none => false
  | some (previousUp, previousDown) =>
    if r.netTotalUp < previousUp ∧ r.netTotalDown < previousDown then
      let upRecovery := findCounterRecovery previousUp r.time DeltaRecord.netTotalUp rest
      let downRecovery := findCounterRecovery previousDown r.time DeltaRecord.netTotalDown rest
      upRecovery.isNone || downRecovery.isNone || upRecovery != downRecovery
    else false

/-- `correlatedCounterDiscontinuities`: for each record whether it is a forced discontinuity. -/
def correlatedCounterDiscontinuities : Option (ℤ × ℤ) → List DeltaRecord → List Bool
  | _, [] => []
  | previous, r :: rest =>
    forcedDiscontinuity previous r rest ::
      correlatedCounterDiscontinuities (some r.totals) rest

/-- The loop of `trafficDeltasByRecord` over the records still ahead, each with its forced flag.
`baseline` is `none` until there is one.  After a drop whose recovery was found the loop index jumps
to the recovery: `skip` is the number of records still to be passed over before it. -/
def trafficDeltasFrom (c : Counter) :
    Option ℤ → Option ℕ → List (DeltaRecord × Bool) → List ℤ
  | _, _, [] => []
  | baseline, some 0, (r, _) :: rest =>
    subInt64 (c.totalValue r) (baseline.getD 0) ::
      trafficDeltasFrom c (some (c.totalValue r)) none rest
  | baseline, some (k + 1), _ :: rest => 0 :: trafficDeltasFrom c baseline (some k) rest
  | none, none, (r, _) :: rest =>
    acceptedDelta c none r :: trafficDeltasFrom c (some (c.totalValue r)) none rest
  | some baseline, none, (r, forced) :: rest =>
    if c.totalValue r < baseline then
      if forced then 0 :: trafficDeltasFrom c (some (c.totalValue r)) none rest
      else
        match findCounterRecovery baseline r.time c.totalValue (rest.map Prod.fst) with
        | some recoveryIndex =>
          0 :: trafficDeltasFrom c (some baseline) (some recoveryIndex) rest
        | none => 0 :: trafficDeltasFrom c (some (c.totalValue r)) none rest
    else acceptedDelta c (some baseline) r :: trafficDeltasFrom c (some (c.totalValue r)) none rest

/-- `trafficDeltasByRecord`, with the forced discontinuities of the same records. -/
def trafficDeltasByRecord (c : Counter) (previous : Option (ℤ × ℤ)) (records : List DeltaRecord) :
    List ℤ :=
  trafficDeltasFrom c (previous.map c.pick) none
    (records.zip (correlatedCounterDiscontinuities previous records))

/-- `SumTrafficDeltas`: the total `(up, down)` over the records. -/
def sumTrafficDeltas (records : List DeltaRecord) (previous : Option DeltaRecord) : ℤ × ℤ :=
  let previous := previous.map DeltaRecord.totals
  (sumInt64 (trafficDeltasByRecord upCounter previous records),
    sumInt64 (trafficDeltasByRecord downCounter previous records))

theorem length_correlatedCounterDiscontinuities (previous : Option (ℤ × ℤ))
    (records : List DeltaRecord) :
    (correlatedCounterDiscontinuities previous records).length = records.length := by
  induction records generalizing previous with
  | nil => rfl
  | cons r rest ih => simp [correlatedCounterDiscontinuities, ih]

theorem length_trafficDeltasFrom (c : Counter) (baseline : Option ℤ) (skip : Option ℕ)
    (l : List (DeltaRecord × Bool)) : (trafficDeltasFrom c baseline skip l).length = l.length := by
  fun_induction trafficDeltasFrom c baseline skip l <;> simp_all

theorem length_trafficDeltasByRecord (c : Counter) (previous : Option (ℤ × ℤ))
    (records : List DeltaRecord) :
    (trafficDeltasByRecord c previous records).length = records.length := by
  rw [trafficDeltasByRecord, length_trafficDeltasFrom, List.length_zip,
    length_correlatedCounterDiscontinuities, min_self]

/-! ### Cutting a list of records in two -/

/-- In a prefix of the records, a recovery is found when it is found in all of them and lies in the
prefix. -/
theorem findCounterRecovery_append (baseline dropTime : ℤ) (totalValue : DeltaRecord → ℤ)
    (pre post : List DeltaRecord) :
    findCounterRecovery baseline dropTime totalValue pre =
      (findCounterRecovery baseline dropTime totalValue (pre ++ post)).filter
        (· < pre.length) := by
  induction pre with
  | nil =>
    rw [findCounterRecovery, eq_comm, Option.filter_eq_none_iff]
    simp
  | cons r pre ih =>
    simp only [List.cons_append, findCounterRecovery, List.length_cons]
    split_ifs
    · rfl
    · rfl
    · rw [ih]
      cases findCounterRecovery baseline dropTime totalValue (pre ++ post) with
      | none => rfl
      | some k => by_cases hk : k < pre.length <;> simp [Option.filter, hk]

/-- The drop of counter `c` at `r`, if there is one that is not forced, is not recovered in `post`:
it is recovered among the records of `pre`, or never. -/
def dropSettled (c : Counter) (previous : Option (ℤ × ℤ)) (r : DeltaRecord)
    (pre post : List DeltaRecord) : Bool :=
  match previous with
  | none => true
  | some p =>
    !decide (c.totalValue r < c.pick p) || forcedDiscontinuity previous r (pre ++ post) ||
      (findCounterRecovery (c.pick p) r.time c.totalValue (pre ++ post)).all (· < pre.length)

/-- No drop among the records of `pre` is recovered in `post`. -/
def settled : Option (ℤ × ℤ) → List DeltaRecord → List DeltaRecord → Bool
  | _, [], _ => true
  | previous, r :: pre, post =>
    dropSettled upCounter previous r pre post && dropSettled downCounter previous r pre post &&
        settled (some r.totals) pre post

/-- The totals that a run over `records` leaves behind. -/
def lastTotals (previous : Option (ℤ × ℤ)) (records : List DeltaRecord) : Option (ℤ × ℤ) :=
  records.foldl (fun _ r => some r.totals) previous

@[simp] theorem lastTotals_nil (previous : Option (ℤ × ℤ)) : lastTotals previous [] = previous :=
  rfl

@[simp] theorem lastTotals_cons (previous : Option (ℤ × ℤ)) (r : DeltaRecord)
    (records : List DeltaRecord) :
    lastTotals previous (r :: records) = lastTotals (some r.totals) records := rfl

variable {previous : Option (ℤ × ℤ)}

/-- If the first half of a list is settled, so is every final part of that half. -/
theorem settled_drop {pre mid post : List DeltaRecord}
    (h : settled previous (pre ++ mid) post = true) :
    settled (lastTotals previous pre) mid post = true := by
  induction pre generalizing previous with
  | nil => exact h
  | cons r pre ih =>
    rw [List.cons_append, settled, Bool.and_eq_true] at h
    exact ih h.2

/-- A forced discontinuity stays forced when the records are cut off. -/
theorem forcedDiscontinuity_of_append {r : DeltaRecord}
    {pre post : List DeltaRecord} (h : forcedDiscontinuity previous r (pre ++ post) = true) :
    forcedDiscontinuity previous r pre = true := by
  cases previous with
  | none => exact h
  | some p =>
    simp only [forcedDiscontinuity] at h ⊢
    split_ifs at h ⊢ with hdrop
    rw [findCounterRecovery_append p.1 r.time DeltaRecord.netTotalUp pre post,
      findCounterRecovery_append p.2 r.time DeltaRecord.netTotalDown pre post]
    generalize findCounterRecovery p.1 r.time DeltaRecord.netTotalUp (pre ++ post) = u at h ⊢
    generalize findCounterRecovery p.2 r.time DeltaRecord.netTotalDown (pre ++ post) = d at h ⊢
    cases u with
    | none => simp
    | some i =>
      cases d with
      | none => simp
      | some j =>
        have hij : i ≠ j := by simpa using h
        by_cases hi : i < pre.length <;> by_cases hj : j < pre.length <;>
          simp [Option.filter, hi, hj, hij]

theorem dropSettled_of_append {c : Counter} {r : DeltaRecord}
    {pre post more : List DeltaRecord} (h : dropSettled c previous r pre (post ++ more) = true) :
    dropSettled c previous r pre post = true := by
  cases previous with
  | none => rfl
  | some p =>
    simp only [dropSettled, Bool.or_eq_true, ← List.append_assoc] at h ⊢
    rcases h with (hdrop | hforced) | hall
    · exact Or.inl (Or.inl hdrop)
    · exact Or.inl (Or.inr (forcedDiscontinuity_of_append hforced))
    · right
      rw [findCounterRecovery_append _ _ _ (pre ++ post) more]
      rw [Option.all_eq_true] at hall ⊢
      intro k hk
      exact hall k (Option.filter_eq_some_iff.mp hk).1

/-- A settled first half stays settled when the second half is cut off. -/
theorem settled_of_append {pre post more : List DeltaRecord}
    (h : settled previous pre (post ++ more) = true) : settled previous pre post = true := by
  induction pre generalizing previous with
  | nil => rfl
  | cons r pre ih =>
    simp only [settled, Bool.and_eq_true] at h ⊢
    exact ⟨⟨dropSettled_of_append h.1.1, dropSettled_of_append h.1.2⟩, ih h.2⟩

/-- A drop that is settled and not forced is not forced when the records are cut off either. -/
theorem not_forcedDiscontinuity_of_settled {r : DeltaRecord}
    {pre post : List DeltaRecord} (h : forcedDiscontinuity previous r (pre ++ post) = false)
    (hup : dropSettled upCounter previous r pre post = true) :
    forcedDiscontinuity previous r pre = false := by
  cases previous with
  | none => exact h
  | some p =>
    have hall : r.netTotalUp < p.1 → (findCounterRecovery p.1 r.time DeltaRecord.netTotalUp
        (pre ++ post)).all (· < pre.length) = true := by
      intro hlt
      simpa [dropSettled, h, upCounter, hlt] using hup
    simp only [forcedDiscontinuity] at h ⊢
    split_ifs at h ⊢ with hdrop
    · have hall := hall hdrop.1
      rw [findCounterRecovery_append p.1 r.time DeltaRecord.netTotalUp pre post,
        findCounterRecovery_append p.2 r.time DeltaRecord.netTotalDown pre post]
      generalize findCounterRecovery p.1 r.time DeltaRecord.netTotalUp (pre ++ post) = u
        at h hall ⊢
      generalize findCounterRecovery p.2 r.time DeltaRecord.netTotalDown (pre ++ post) = d at h ⊢
      cases u with
      | none => simp at h
      | some i =>
        cases d with
        | none => simp at h
        | some j =>
          have hij : i = j := by simpa using h
          have hi : i < pre.length := by simpa using hall
          subst hij
          simp [Option.filter, hi]
    · rfl

/-- The loop over two lists of records, one after the other: over the first list it runs as if the
second were not there, and over the second it starts from the first one's last totals. -/
theorem trafficDeltasFrom_append (c : Counter) (hc : c = upCounter ∨ c = downCounter)
    (previous : Option (ℤ × ℤ)) (pre post : List DeltaRecord) (baseline : Option ℤ)
    (skip : Option ℕ) (hset : settled previous pre post = true)
    (hskip : (skip = none ∧ baseline = previous.map c.pick) ∨ ∃ k, skip = some k ∧ k < pre.length) :
    trafficDeltasFrom c baseline skip
        ((pre ++ post).zip (correlatedCounterDiscontinuities previous (pre ++ post))) =
      trafficDeltasFrom c baseline skip
          (pre.zip (correlatedCounterDiscontinuities previous pre)) ++
        trafficDeltasByRecord c (lastTotals previous pre) post := by
  induction pre generalizing previous baseline skip with
  | nil =>
    rcases hskip with ⟨rfl, rfl⟩ | ⟨k, -, hk⟩
    · rfl
    · simp at hk
  | cons r pre ih =>
    rw [settled, Bool.and_eq_true, Bool.and_eq_true] at hset
    obtain ⟨⟨hup, hdown⟩, hset⟩ := hset
    simp only [List.cons_append, correlatedCounterDiscontinuities, List.zip_cons_cons,
      lastTotals_cons]
    have hmap : ∀ (l : List DeltaRecord) (p : Option (ℤ × ℤ)),
        (l.zip (correlatedCounterDiscontinuities p l)).map Prod.fst = l := by
      intro l p
      exact List.map_fst_zip (length_correlatedCounterDiscontinuities p l).ge
    -- the loop continues behind `r` with `r`'s own total as its baseline
    have hnext := ih (some r.totals) (some (c.totalValue r)) none hset
      (Or.inl ⟨rfl, by rw [Option.map_some, c.pick_totals]⟩)
    rcases hskip with ⟨rfl, rfl⟩ | ⟨k, rfl, hk⟩
    · cases previous with
      | none => simp only [Option.map_none, trafficDeltasFrom, hnext, List.cons_append]
      | some p =>
        simp only [Option.map_some, trafficDeltasFrom, hmap]
        by_cases hdrop : c.totalValue r < c.pick p
        · simp only [if_pos hdrop]
          cases hforced : forcedDiscontinuity (some p) r (pre ++ post) with
          | true =>
            simp only [forcedDiscontinuity_of_append hforced, if_true, hnext, List.cons_append]
          | false =>
            -- an unforced drop finds the same recovery, or none, with and without `post`
            have hall : (findCounterRecovery (c.pick p) r.time c.totalValue (pre ++ post)).all
                (· < pre.length) = true := by
              rcases hc with rfl | rfl
              · simpa [dropSettled, hforced, hdrop] using hup
              · simpa [dropSettled, hforced, hdrop] using hdown
            simp only [not_forcedDiscontinuity_of_settled hforced hup, Bool.false_eq_true, if_false]
            rw [findCounterRecovery_append _ _ _ pre post]
            cases hrec : findCounterRecovery (c.pick p) r.time c.totalValue (pre ++ post) with
            | none => simp only [Option.filter_none, hnext, List.cons_append]
            | some k =>
              have hk : k < pre.length := by simpa [hrec] using hall
              have hjump := ih (some r.totals) (some (c.pick p)) (some k) hset
                (Or.inr ⟨k, rfl, hk⟩)
              simp [Option.filter, hk, hjump]
        · simp only [if_neg hdrop, hnext, List.cons_append]
    · cases k with
      | zero => simp only [trafficDeltasFrom, hnext, List.cons_append]
      | succ k =>
        have hjump := ih (some r.totals) baseline (some k) hset
          (Or.inr ⟨k, rfl, by simpa using hk⟩)
        simp only [trafficDeltasFrom, hjump, List.cons_append]

/-- **Cutting at a settled point.**  If no drop of `pre` is recovered in `post`, the deltas of
`pre ++ post` are those of `pre` followed by those of `post` with the totals at the end of `pre` as
the baseline. -/
theorem trafficDeltasByRecord_append {c : Counter} (hc : c = upCounter ∨ c = downCounter)
    {pre post : List DeltaRecord} (hset : settled previous pre post = true) :
    trafficDeltasByRecord c previous (pre ++ post) =
      trafficDeltasByRecord c previous pre ++
        trafficDeltasByRecord c (lastTotals previous pre) post :=
  trafficDeltasFrom_append c hc previous pre post _ none hset (Or.inl ⟨rfl, rfl⟩)

end Traffic

end Komari
