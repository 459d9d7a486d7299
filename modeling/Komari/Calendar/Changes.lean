import Komari.Calendar.Zone

/-!
# Zones from a list of changes

A zone of the time zone database: the offset before the first change, and the instants of the changes
with the offsets from then on.  Changes are at least one hour apart.
-/

namespace Komari

namespace Calendar

/-! ### Spans of a list of changes -/

/-- The span of an instant, by the changes that are left. -/
def spanAt (offset : ℤ) (start : Option ℤ) : List (ℤ × ℤ) → ℤ → ZoneSpan
  | [], _ => ⟨offset, start, none⟩
  | (at', next) :: changes, sec =>
    if sec < at' then ⟨offset, start, some at'⟩ else spanAt next (some at') changes sec

section Spans

variable {offset : ℤ} {start : Option ℤ} {changes : List (ℤ × ℤ)} {sec sec' : ℤ}

theorem contains_iff {span : ZoneSpan} :
    span.contains sec = true ↔ (∀ s ∈ span.start, s ≤ sec) ∧ ∀ s ∈ span.stop, sec < s := by
  obtain ⟨_, start, stop⟩ := span
  cases start <;> cases stop <;> simp [ZoneSpan.contains]

theorem contains_spanAt (hstart : ∀ s ∈ start, s ≤ sec) :
    (spanAt offset start changes sec).contains sec = true := by
  induction changes generalizing offset start with
  | nil =>
    cases start with
    | none => rfl
    | some s => simpa [spanAt, ZoneSpan.contains] using hstart s rfl
  | cons change changes ih =>
    simp only [spanAt]
    split_ifs with hlt
    · cases start with
      | none => simpa [ZoneSpan.contains] using hlt
      | some s => simpa [ZoneSpan.contains] using ⟨hstart s rfl, hlt⟩
    · refine ih fun s hs => ?_
      cases hs
      exact not_lt.mp hlt

/-- A span behind an instant does not contain earlier ones. -/
theorem le_of_contains_spanAt {s x : ℤ} (hx : s ≤ x) (hchanges : ∀ c ∈ changes, s ≤ c.1)
    (h : (spanAt offset (some x) changes sec).contains sec' = true) : s ≤ sec' := by
  induction changes generalizing offset x with
  | nil => exact hx.trans (by simpa [spanAt, ZoneSpan.contains] using h)
  | cons change changes ih =>
    simp only [spanAt] at h
    split_ifs at h with hlt
    · simp only [ZoneSpan.contains, Option.all_some, Bool.and_eq_true, decide_eq_true_eq] at h
      exact hx.trans h.1
    · exact ih (hchanges _ List.mem_cons_self) (fun c hc => hchanges c (List.mem_cons_of_mem _ hc)) h

theorem spanAt_eq (hsorted : changes.Pairwise fun a b => a.1 ≤ b.1)
    (h : (spanAt offset start changes sec).contains sec' = true) :
    spanAt offset start changes sec' = spanAt offset start changes sec := by
  induction changes generalizing offset start with
  | nil => rfl
  | cons change changes ih =>
    obtain ⟨hhead, hsorted⟩ := List.pairwise_cons.mp hsorted
    simp only [spanAt] at h ⊢
    by_cases hlt : sec < change.1
    · rw [if_pos hlt] at h ⊢
      simp only [ZoneSpan.contains, Option.all_some, Bool.and_eq_true, decide_eq_true_eq] at h
      exact if_pos h.2
    · rw [if_neg hlt] at h ⊢
      rw [if_neg (not_lt.mpr (le_of_contains_spanAt le_rfl hhead h))]
      exact ih hsorted h

/-- The offset of a span is the first one or that of a change. -/
theorem spanAt_offset {p : ℤ → Prop} (hoffset : p offset) (hchanges : ∀ c ∈ changes, p c.2) :
    p (spanAt offset start changes sec).offset := by
  induction changes generalizing offset start with
  | nil => exact hoffset
  | cons change changes ih =>
    simp only [spanAt]
    split_ifs
    · exact hoffset
    · exact ih (hchanges _ List.mem_cons_self) fun c hc => hchanges c (List.mem_cons_of_mem _ hc)

/-- A span with both ends has the length that changes keep between each other. -/
theorem add_le_of_spanAt {gap s s' : ℤ} (hspaced : changes.Pairwise fun a b => a.1 + gap ≤ b.1)
    (hstart : ∀ x ∈ start, ∀ c ∈ changes, x + gap ≤ c.1)
    (hs : (spanAt offset start changes sec).start = some s)
    (hs' : (spanAt offset start changes sec).stop = some s') : s + gap ≤ s' := by
  induction changes generalizing offset start with
  | nil => cases hs'
  | cons change changes ih =>
    obtain ⟨hhead, hspaced⟩ := List.pairwise_cons.mp hspaced
    simp only [spanAt] at hs hs'
    split_ifs at hs hs' with hlt
    · cases hs'
      exact hstart s hs _ List.mem_cons_self
    · refine ih hspaced (fun x hx c hc => ?_) hs hs'
      cases hx
      exact hhead c hc

end Spans

/-! ### Tables -/

/-- A zone as a list of changes: offsets are shorter than 23 and a half hours, and changes an hour apart. -/
structure ZoneTable where
  offset : ℤ
  /-- The instants of the changes, with the offsets from then on. -/
  changes : List (ℤ × ℤ)
  /-- Offsets are shorter than 23 and a half hours. -/
  offset_lt : (-84600 < offset ∧ offset < 84600) ∧ ∀ c ∈ changes, -84600 < c.2 ∧ c.2 < 84600
  /-- Changes are an hour apart. -/
  spaced : changes.Pairwise fun a b => a.1 + 3600 ≤ b.1

namespace ZoneTable

variable (t : ZoneTable)

theorem spanAt_offset_lt (sec : ℤ) :
    -84600 < (spanAt t.offset none t.changes sec).offset ∧
      (spanAt t.offset none t.changes sec).offset < 84600 :=
  spanAt_offset (p := fun x => -84600 < x ∧ x < 84600) t.offset_lt.1 t.offset_lt.2

/-- The zone; its spans are the times between two changes. -/
def zone : Zone where
  lookup := spanAt t.offset none t.changes
  contains_lookup _ := contains_spanAt fun _ h => by cases h
  lookup_eq _ _ h := spanAt_eq (t.spaced.imp fun h => by omega) h
  offset_lt sec := by
    have := t.spanAt_offset_lt sec
    unfold maxOffset
    omega

theorem offset_zone_lt (sec : ℤ) : -84600 < t.zone.offset sec ∧ t.zone.offset sec < 84600 :=
  t.spanAt_offset_lt sec

/-- A zone without changes. -/
def fixed (offset : ℤ) (h : -84600 < offset ∧ offset < 84600) : ZoneTable :=
  ⟨offset, [], ⟨h, fun _ h => by cases h⟩, List.Pairwise.nil⟩

@[simp] theorem offset_zone_fixed (offset : ℤ) (h : -84600 < offset ∧ offset < 84600) (sec : ℤ) :
    (fixed offset h).zone.offset sec = offset := rfl

theorem length_span {sec start stop : ℤ} (hstart : (t.zone.lookup sec).start = some start)
    (hstop : (t.zone.lookup sec).stop = some stop) : start + 3600 ≤ stop :=
  add_le_of_spanAt t.spaced (fun _ h => by cases h) hstart hstop

theorem offset_eq_of_contains {sec sec' : ℤ} (h : (t.zone.lookup sec).contains sec' = true) :
    t.zone.offset sec' = t.zone.offset sec :=
  congrArg ZoneSpan.offset (t.zone.lookup_eq _ _ h)

/-- **A span lasts an hour**, so it contains a half hour before an instant of it or behind it, and with
that a multiple of a half hour. -/
theorem exists_multiple (base sec : ℤ) :
    ∃ k : ℤ, (sec - 1800 < base + 1800 * k ∧ base + 1800 * k < sec + 1800) ∧
      t.zone.offset (base + 1800 * k) = t.zone.offset sec := by
  obtain ⟨hstart, hstop⟩ := contains_iff.mp (t.zone.contains_lookup sec)
  -- the multiple before the instant, and the one behind it
  by_cases hbefore : ∃ start ∈ (t.zone.lookup sec).start, base + 1800 * ((sec - base) / 1800) < start
  · obtain ⟨start, hmem, hlt⟩ := hbefore
    have hle := hstart start hmem
    refine ⟨(sec - base + 1799) / 1800, by omega, t.offset_eq_of_contains (contains_iff.mpr ⟨?_, ?_⟩)⟩
    · intro start' hmem'
      have := hstart start' hmem'
      omega
    · intro stop hmem'
      have := t.length_span hmem hmem'
      omega
  · refine ⟨(sec - base) / 1800, by omega, t.offset_eq_of_contains (contains_iff.mpr ⟨?_, ?_⟩)⟩
    · exact fun start hmem => not_lt.mp fun hlt => hbefore ⟨start, hmem, hlt⟩
    · intro stop hmem
      have := hstop stop hmem
      omega

theorem start_of_stop {sec stop : ℤ} (h : (t.zone.lookup sec).stop = some stop) :
    (t.zone.lookup stop).start = some stop := by
  obtain ⟨hstart, hstop⟩ := contains_iff.mp (t.zone.contains_lookup sec)
  have hlt := hstop stop h
  have hin := contains_iff.mp (t.zone.contains_lookup stop)
  have hlast : (t.zone.lookup sec).contains (stop - 1) = true := by
    refine contains_iff.mpr ⟨fun start hmem => ?_, fun stop' hmem => ?_⟩
    · have := hstart start hmem
      omega
    · cases hmem.symm.trans h
      omega
  by_contra hne
  -- otherwise the second before is in both spans, and they are one
  have hboth : (t.zone.lookup stop).contains (stop - 1) = true := by
    refine contains_iff.mpr ⟨fun start hmem => ?_, fun stop' hmem => ?_⟩
    · have := hin.1 start hmem
      have : start ≠ stop := fun heq => hne (heq ▸ hmem)
      omega
    · have := hin.2 stop' hmem
      omega
  have heq := (t.zone.lookup_eq _ _ hboth).symm.trans (t.zone.lookup_eq _ _ hlast)
  exact absurd (hin.2 stop (heq ▸ h)) (lt_irrefl stop)

/-- **An hour has one change at most**: the offsets of its instants are those of its ends. -/
theorem exists_change {first last : ℤ} (hlast : last < first + 3600) :
    (∀ sec, first ≤ sec → sec ≤ last → t.zone.offset sec = t.zone.offset first) ∨
      ∃ at', (first < at' ∧ at' ≤ last) ∧
        (∀ sec, first ≤ sec → sec < at' → t.zone.offset sec = t.zone.offset first) ∧
          ∀ sec, at' ≤ sec → sec ≤ last → t.zone.offset sec = t.zone.offset last := by
  obtain ⟨hstart, hstop⟩ := contains_iff.mp (t.zone.contains_lookup first)
  have hspan : ∀ sec, first ≤ sec → (∀ stop ∈ (t.zone.lookup first).stop, sec < stop) →
      t.zone.offset sec = t.zone.offset first := fun sec hsec h =>
    t.offset_eq_of_contains (contains_iff.mpr ⟨fun start hmem => (hstart start hmem).trans hsec, h⟩)
  by_cases hend : ∃ stop ∈ (t.zone.lookup first).stop, stop ≤ last
  · obtain ⟨stop, hmem, hle⟩ := hend
    refine Or.inr ⟨stop, ⟨hstop stop hmem, hle⟩, fun sec hsec hlt => hspan sec hsec fun stop' hmem' => ?_,
      ?_⟩
    · cases hmem.symm.trans hmem'
      exact hlt
    · -- the next span lasts longer than the hour
      have hnext := t.start_of_stop hmem
      have hafter : ∀ sec, stop ≤ sec → sec ≤ last → t.zone.offset sec = t.zone.offset stop := by
        intro sec hsec hsec'
        refine t.offset_eq_of_contains (contains_iff.mpr ⟨fun start hmem' => ?_, fun stop' hmem' => ?_⟩)
        · cases hmem'.symm.trans hnext
          exact hsec
        · have := t.length_span hnext hmem'
          have := hstop stop hmem
          omega
      exact fun sec hsec hsec' => (hafter sec hsec hsec').trans (hafter last hle le_rfl).symm
  · exact Or.inl fun sec hsec hsec' => hspan sec hsec fun stop hmem =>
      hsec'.trans_lt (not_le.mp fun hle => hend ⟨stop, hmem, hle⟩)

end ZoneTable

end Calendar

end Komari
