import Komari.Table.Basic
import Komari.TrafficReset.Schedule

/-!
# Workspace grants

A grant lets a login work on a machine for some minutes.  The store finds grants by the hashes of their
tokens; a grant that was removed is cancelled, and may still be held by a call.
-/

namespace Komari

namespace Workspace

open TrafficReset (trimSpace nanosPerSecond)

def absoluteLifetime : ℤ := 30 * 60 * nanosPerSecond

def idleLifetime : ℤ := 3 * 60 * nanosPerSecond

def maxGrants : ℕ := 256

/-- Whom a grant is for. -/
structure Binding where
  userID : String
  session : String
  agentID : String
  systemUser : String
deriving DecidableEq

/-- `strings.ContainsAny`. -/
def containsAny (s chars : String) : Bool := s.toList.any chars.toList.contains

/-- The checks of `Create` before the login is validated. -/
def Binding.WellFormed (b : Binding) : Prop :=
  b.userID ≠ "" ∧ b.session ≠ "" ∧ trimSpace b.agentID ≠ "" ∧ b.systemUser ≠ "" ∧
    b.systemUser = trimSpace b.systemUser ∧ b.systemUser.utf8ByteSize ≤ 128 ∧
      containsAny b.systemUser "\x00\r\n" = false

instance (b : Binding) : Decidable b.WellFormed := inferInstanceAs (Decidable (_ ∧ _))

/-- A workspace that is unlocked. -/
structure Grant where
  id : String
  binding : Binding
  expiresAt : ℤ
  /-- It ends when it is not used. -/
  idleExpiresAt : ℤ
  cancelled : Bool
  tokenKey : String
deriving DecidableEq

/-- `Store`; a grant is named by its place among all grants that were made. -/
structure Store where
  heap : List Grant
  /-- The grants that are registered, by the hashes of their tokens. -/
  grants : Table String ℕ

/-- The clock, as both deadlines are compared. -/
structure Reading where
  absolute : ℤ
  idle : ℤ
deriving DecidableEq

/-- `validLocked`. -/
def Grant.Valid (g : Grant) (reading : Reading) : Prop :=
  reading.absolute < g.expiresAt ∧ reading.idle < g.idleExpiresAt ∧ g.cancelled = false

instance (g : Grant) (reading : Reading) : Decidable (g.Valid reading) :=
  inferInstanceAs (Decidable (_ ∧ _))

/-- The grants are for one machine in one login session. -/
def Binding.Rivals (b b' : Binding) : Prop := b.session = b'.session ∧ b.agentID = b'.agentID

instance (b b' : Binding) : Decidable (b.Rivals b') := inferInstanceAs (Decidable (_ ∧ _))

/-- The grant is cancelled and forgotten. -/
def removeLocked (ref : ℕ) (s : Store) : Store :=
  match s.heap[ref]? with
  | none => s
  | some g =>
    { heap := s.heap.modify ref fun g => { g with cancelled := true },
      grants := if s.grants.find? g.tokenKey = some ref then
          s.grants.deleteWhere fun key _ => key = g.tokenKey
        else s.grants }

/-- A registered grant is removed if a condition selects it. -/
def removeRow (p : ℕ → Grant → Bool) (s : Store) (row : String × ℕ) : Store :=
  match s.heap[row.2]? with
  | none => s
  | some g => if p row.2 g then removeLocked row.2 s else s

/-- The registered grants that a condition selects are removed. -/
def removeWhere (p : ℕ → Grant → Bool) (s : Store) : Store := s.grants.rows.foldl (removeRow p) s

/-- `sweepLocked`; the clock is read for every grant. -/
def sweepLocked (readings : List Reading) (now : ℤ) (s : Store) : Store :=
  removeWhere (fun ref g => !decide (g.Valid (readings.getD ref ⟨now, now⟩))) s

/-- The critical section of `Create`. -/
def create (binding : Binding) (key id : String) (readings : List Reading) (now : ℤ) (s : Store) :
    Store :=
  let s := sweepLocked readings now s
  let s := removeWhere (fun _ g => decide (g.binding.Rivals binding)) s
  if maxGrants ≤ s.grants.rows.length then s
  else
    { heap := s.heap ++
        [⟨id, binding, now + absoluteLifetime, now + idleLifetime, false, key⟩],
      grants := s.grants.upsert key s.heap.length }

/-- The first critical section of `Check`. -/
def checkFirst (key user session agent : String) (reading : Reading) (s : Store) : Option ℕ × Store :=
  match s.grants.find? key with
  | none => (none, s)
  | some ref =>
    match s.heap[ref]? with
    | none => (none, s)
    | some g =>
      if g.binding.userID ≠ user ∨ g.binding.session ≠ session ∨
          (agent ≠ "" ∧ g.binding.agentID ≠ agent) then (none, s)
      else if ¬g.Valid reading then (none, removeLocked ref s)
      else (some ref, s)

/-- `Active`, and the last critical section of `Check` and of `Alive`: the grant must still be
registered and valid. -/
def confirm (valid : Bool) (ref : ℕ) (reading : Reading) (s : Store) : Option Grant × Store :=
  match s.heap[ref]? with
  | none => (none, s)
  | some g =>
    if valid = false ∨ s.grants.find? g.tokenKey ≠ some ref ∨ ¬g.Valid reading then
      (none, removeLocked ref s)
    else (some g, s)

/-- The idle deadline of a grant that is used. -/
def touchedIdle (touched : ℤ) (g : Grant) : ℤ :=
  if g.expiresAt < touched + idleLifetime then g.expiresAt else touched + idleLifetime

/-- The grant was used. -/
def touch (ref : ℕ) (touched : ℤ) (s : Store) : Store :=
  { s with heap := s.heap.modify ref fun g => { g with idleExpiresAt := touchedIdle touched g } }

/-- `Lock`: if it returns no error, and the store after it. -/
def lock (key user session : String) (s : Store) : Bool × Store :=
  match s.grants.find? key with
  | none => (true, s)
  | some ref =>
    match s.heap[ref]? with
    | none => (true, s)
    | some g =>
      if g.binding.userID ≠ user ∨ g.binding.session ≠ session then (false, s)
      else (true, removeLocked ref s)

/-- The registered grants that `ByID` can find. -/
def findByID (id agent username : String) (ref : ℕ) (s : Store) : Bool :=
  s.grants.rows.any fun row => decide (row.2 = ref) && (s.heap[ref]?.any fun g =>
    decide (g.id = id ∧ g.binding.agentID = agent ∧ g.binding.systemUser = username))

/-! ### The invariant -/

/-- The key leads to the grant. -/
def Store.Registered (s : Store) (key : String) (ref : ℕ) : Prop := s.grants.find? key = some ref

/-- Registered grants are not cancelled, and they are the newest of their machine and login session; all
others are cancelled. -/
structure Registry (s : Store) : Prop where
  live : ∀ (key : String) (ref : ℕ), s.Registered key ref →
    ∃ g, s.heap[ref]? = some g ∧ g.tokenKey = key ∧ g.cancelled = false
  cancelled : ∀ (ref : ℕ) (g : Grant), s.heap[ref]? = some g → ¬s.Registered g.tokenKey ref → g.cancelled = true
  distinct : ∀ (ref ref' : ℕ) (g g' : Grant), s.heap[ref]? = some g → s.heap[ref']? = some g' →
    g.tokenKey = g'.tokenKey → ref = ref'
  idle : ∀ (ref : ℕ) (g : Grant), s.heap[ref]? = some g → g.idleExpiresAt ≤ g.expiresAt
  newest : ∀ (ref ref' : ℕ) (g g' : Grant), s.heap[ref]? = some g → s.heap[ref']? = some g' → ref < ref' →
    g.binding.Rivals g'.binding → ¬s.Registered g.tokenKey ref

/-- A later state of a grant: only its idle deadline and its context may change. -/
structure Grant.Same (g g' : Grant) : Prop where
  id : g'.id = g.id
  binding : g'.binding = g.binding
  expiresAt : g'.expiresAt = g.expiresAt
  tokenKey : g'.tokenKey = g.tokenKey

theorem Grant.Same.refl (g : Grant) : g.Same g := ⟨rfl, rfl, rfl, rfl⟩

theorem Grant.Same.trans {g g' g'' : Grant} (h : g.Same g') (h' : g'.Same g'') : g.Same g'' :=
  ⟨h'.id.trans h.id, h'.binding.trans h.binding, h'.expiresAt.trans h.expiresAt,
    h'.tokenKey.trans h.tokenKey⟩

/-- What a critical section may do: grants stay the same, one whose idle deadline has passed is not
used again, and no grant of before is registered that was not. -/
structure Evolves (clock : ℤ) (s s' : Store) : Prop where
  grant : ∀ (ref : ℕ) (g : Grant), s.heap[ref]? = some g → ∃ g', s'.heap[ref]? = some g' ∧ g.Same g' ∧
    (g.idleExpiresAt ≤ clock → g'.idleExpiresAt = g.idleExpiresAt)
  registered : ∀ (key : String) (ref : ℕ), s'.Registered key ref → s.Registered key ref ∨ s.heap.length ≤ ref

theorem Evolves.refl (clock : ℤ) (s : Store) : Evolves clock s s :=
  ⟨fun _ g hg => ⟨g, hg, .refl g, fun _ => rfl⟩, fun _ _ h => Or.inl h⟩

variable {clock : ℤ} {s : Store}

theorem Evolves.length_le {s' : Store} (h : Evolves clock s s') :
    s.heap.length ≤ s'.heap.length := by
  by_contra hlt
  obtain ⟨g', hg', -⟩ := h.grant s'.heap.length _ (List.getElem?_eq_getElem (by omega))
  rw [List.getElem?_eq_none le_rfl] at hg'
  cases hg'

theorem Evolves.trans {s' s'' : Store} (h : Evolves clock s s')
    (h' : Evolves clock s' s'') : Evolves clock s s'' := by
  constructor
  · intro ref g hg
    obtain ⟨g', hg', hsame, hidle⟩ := h.grant ref g hg
    obtain ⟨g'', hg'', hsame', hidle'⟩ := h'.grant ref g' hg'
    refine ⟨g'', hg'', hsame.trans hsame', fun hle => ?_⟩
    rw [hidle' (by rw [hidle hle]; exact hle), hidle hle]
  · intro key ref hregistered
    rcases h'.registered key ref hregistered with hregistered | hnew
    · exact h.registered key ref hregistered
    · exact Or.inr (h.length_le.trans hnew)

/-! ### Removals -/

theorem getElem?_removeLocked (ref ref' : ℕ) (s : Store) :
    (removeLocked ref s).heap[ref']? = s.heap[ref']?.map fun g =>
      if ref = ref' then { g with cancelled := true } else g := by
  unfold removeLocked
  cases hg : s.heap[ref]? with
  | none =>
    dsimp only
    by_cases heq : ref = ref'
    · subst heq
      rw [hg]
      rfl
    · simp [heq]
  | some g =>
    dsimp only
    rw [List.getElem?_modify]
    rfl

variable {ref : ℕ}

theorem Registry.tokenKey_eq (h : Registry s) {key : String} {g : Grant}
    (hregistered : s.Registered key ref) (hg : s.heap[ref]? = some g) :
    g.tokenKey = key ∧ g.cancelled = false := by
  obtain ⟨g', hlive, hkey, hcancelled⟩ := h.live key ref hregistered
  obtain rfl := Option.some.inj (hg.symm.trans hlive)
  exact ⟨hkey, hcancelled⟩

theorem registered_removeLocked (h : Registry s) (ref : ℕ) (key : String) (ref' : ℕ) :
    (removeLocked ref s).Registered key ref' ↔ s.Registered key ref' ∧ ref' ≠ ref := by
  unfold Store.Registered removeLocked
  cases hg : s.heap[ref]? with
  | none =>
    dsimp only
    refine ⟨fun hregistered => ⟨hregistered, ?_⟩, And.left⟩
    rintro rfl
    obtain ⟨g, hlive, -⟩ := h.live key ref' hregistered
    rw [hg] at hlive
    cases hlive
  | some g =>
    dsimp only
    -- nothing else is registered under the key of the grant
    have hother : ∀ {key'}, s.Registered key' ref → key' = g.tokenKey := fun hregistered =>
      (h.tokenKey_eq hregistered hg).1.symm
    by_cases hhere : s.grants.find? g.tokenKey = some ref
    · rw [if_pos hhere, Table.find?_deleteWhere]
      by_cases hkey : key = g.tokenKey
      · subst hkey
        rw [hhere]
        simp [Option.filter]
        tauto
      · have hfilter : (s.grants.find? key).filter (fun _ => !decide (key = g.tokenKey)) =
            s.grants.find? key := by
          cases s.grants.find? key with
          | none => rfl
          | some found => simp [Option.filter, hkey]
        rw [hfilter]
        refine ⟨fun hregistered => ⟨hregistered, ?_⟩, And.left⟩
        rintro rfl
        exact hkey (hother hregistered)
    · rw [if_neg hhere]
      refine ⟨fun hregistered => ⟨hregistered, ?_⟩, And.left⟩
      rintro rfl
      exact hhere (hother hregistered ▸ hregistered)

theorem grant_removeLocked {ref' : ℕ} {g' : Grant}
    (h : (removeLocked ref s).heap[ref']? = some g') : ∃ g, s.heap[ref']? = some g ∧
      g.Same g' ∧ g'.idleExpiresAt = g.idleExpiresAt ∧
        ((ref = ref' ∧ g'.cancelled = true) ∨ (ref ≠ ref' ∧ g' = g)) := by
  rw [getElem?_removeLocked, Option.map_eq_some_iff] at h
  obtain ⟨g, hg, rfl⟩ := h
  refine ⟨g, hg, ?_⟩
  split_ifs with heq
  · exact ⟨⟨rfl, rfl, rfl, rfl⟩, rfl, Or.inl ⟨heq, rfl⟩⟩
  · exact ⟨.refl g, rfl, Or.inr ⟨heq, rfl⟩⟩

theorem evolves_removeLocked (h : Registry s) (clock : ℤ) (ref : ℕ) :
    Evolves clock s (removeLocked ref s) := by
  constructor
  · intro ref' g hg
    rw [getElem?_removeLocked, hg]
    refine ⟨_, rfl, ?_⟩
    dsimp only
    split_ifs
    · exact ⟨⟨rfl, rfl, rfl, rfl⟩, fun _ => rfl⟩
    · exact ⟨.refl g, fun _ => rfl⟩
  · exact fun key ref' hregistered => Or.inl ((registered_removeLocked h ref key ref').mp hregistered).1

/-- **A removal keeps the invariant.** -/
theorem Registry.removeLocked (h : Registry s) (ref : ℕ) :
    Registry (Workspace.removeLocked ref s) := by
  constructor
  · intro key ref' hregistered
    obtain ⟨hbefore, hne⟩ := (registered_removeLocked h ref key ref').mp hregistered
    obtain ⟨g, hg, hkey, hlive⟩ := h.live key ref' hbefore
    refine ⟨g, ?_, hkey, hlive⟩
    rw [getElem?_removeLocked, hg, Option.map_some, if_neg hne.symm]
  · intro ref' g' hg' hunregistered
    obtain ⟨g, hg, hsame, -, ⟨-, hcancelled⟩ | ⟨hne, rfl⟩⟩ := grant_removeLocked hg'
    · exact hcancelled
    · refine h.cancelled ref' g' hg fun hregistered => hunregistered ?_
      exact (registered_removeLocked h ref g'.tokenKey ref').mpr ⟨hregistered, hne.symm⟩
  · intro ref₁ ref₂ g₁ g₂ hg₁ hg₂ hkeys
    obtain ⟨g₁', hg₁', hsame₁, -⟩ := grant_removeLocked hg₁
    obtain ⟨g₂', hg₂', hsame₂, -⟩ := grant_removeLocked hg₂
    exact h.distinct ref₁ ref₂ g₁' g₂' hg₁' hg₂' (by rw [← hsame₁.tokenKey, ← hsame₂.tokenKey, hkeys])
  · intro ref' g' hg'
    obtain ⟨g, hg, hsame, hidle, -⟩ := grant_removeLocked hg'
    rw [hidle, hsame.expiresAt]
    exact h.idle ref' g hg
  · intro ref₁ ref₂ g₁ g₂ hg₁ hg₂ hlt hrivals hregistered
    obtain ⟨g₁', hg₁', hsame₁, -⟩ := grant_removeLocked hg₁
    obtain ⟨g₂', hg₂', hsame₂, -⟩ := grant_removeLocked hg₂
    rw [hsame₁.binding, hsame₂.binding] at hrivals
    rw [hsame₁.tokenKey] at hregistered
    exact h.newest ref₁ ref₂ g₁' g₂' hg₁' hg₂' hlt hrivals
      ((registered_removeLocked h ref _ ref₁).mp hregistered).1

theorem length_removeLocked (ref : ℕ) (s : Store) :
    (removeLocked ref s).heap.length = s.heap.length := by
  unfold removeLocked
  cases s.heap[ref]? with
  | none => rfl
  | some g => exact List.length_modify _ _ _

/-- The state of the store in the middle of removals. -/
structure Removing (clock : ℤ) (s s' : Store) : Prop where
  registry : Registry s'
  evolves : Evolves clock s s'
  length : s'.heap.length = s.heap.length

theorem Removing.removeLocked {s' : Store} (h : Removing clock s s') (ref : ℕ) :
    Removing clock s (Workspace.removeLocked ref s') :=
  ⟨h.registry.removeLocked ref, h.evolves.trans (evolves_removeLocked h.registry clock ref),
    (length_removeLocked ref s').trans h.length⟩

theorem Removing.trans {s' s'' : Store} (h : Removing clock s s')
    (h' : Removing clock s' s'') : Removing clock s s'' :=
  ⟨h'.registry, h.evolves.trans h'.evolves, h'.length.trans h.length⟩

theorem Removing.registered {s' : Store} (h : Removing clock s s') {key : String}
    (hregistered : s'.Registered key ref) : s.Registered key ref := by
  rcases h.evolves.registered key ref hregistered with hbefore | hnew
  · exact hbefore
  · obtain ⟨g, hg, -⟩ := h.registry.live key ref hregistered
    obtain ⟨hlt, -⟩ := List.getElem?_eq_some_iff.mp hg
    have := h.length
    omega

theorem removing_removeRow (h : Registry s) (clock : ℤ) (p : ℕ → Grant → Bool)
    (row : String × ℕ) : Removing clock s (removeRow p s row) := by
  have hrefl : Removing clock s s := ⟨h, .refl clock s, rfl⟩
  unfold removeRow
  cases s.heap[row.2]? with
  | none => exact hrefl
  | some g =>
    dsimp only
    split_ifs
    · exact hrefl.removeLocked row.2
    · exact hrefl

theorem removing_foldl (h : Registry s) (clock : ℤ) (p : ℕ → Grant → Bool)
    (rows : List (String × ℕ)) : Removing clock s (rows.foldl (removeRow p) s) := by
  induction rows generalizing s with
  | nil => exact ⟨h, .refl clock s, rfl⟩
  | cons row rows ih =>
    have hrow := removing_removeRow h clock p row
    exact hrow.trans (ih hrow.registry)

theorem removing_removeWhere (h : Registry s) (clock : ℤ) (p : ℕ → Grant → Bool) :
    Removing clock s (removeWhere p s) :=
  removing_foldl h clock p s.grants.rows

/-- A condition on what a grant is bound to does not hold of the grants that stay registered. -/
theorem foldl_removes (h : Registry s) (q : Binding → Bool) (rows : List (String × ℕ)) :
    ∀ row ∈ rows, ∀ g, s.heap[row.2]? = some g →
      (rows.foldl (removeRow fun _ g => q g.binding) s).Registered row.1 row.2 → q g.binding = false := by
  induction rows generalizing s with
  | nil => simp
  | cons row rows ih =>
    have hrow := removing_removeRow h 0 (fun _ g => q g.binding) row
    intro row' hmem g hg hregistered
    rcases List.mem_cons.mp hmem with rfl | hmem
    · -- the grant of this round is still registered after it
      have hstays := (removing_foldl hrow.registry 0 _ rows).registered hregistered
      unfold removeRow at hstays
      rw [hg] at hstays
      dsimp only at hstays
      split_ifs at hstays with hq
      · exact absurd rfl ((registered_removeLocked h row'.2 row'.1 row'.2).mp hstays).2
      · simpa using hq
    · obtain ⟨g', hg', hsame, -⟩ := hrow.evolves.grant row'.2 g hg
      have hq := ih hrow.registry row' hmem g' hg' hregistered
      rwa [hsame.binding] at hq

/-! ### Critical sections -/

theorem getElem?_append_grant {g g' : Grant} (h : (s.heap ++ [g])[ref]? = some g') :
    s.heap[ref]? = some g' ∨ ref = s.heap.length ∧ g' = g := by
  rcases Nat.lt_or_ge ref s.heap.length with hlt | hge
  · rw [List.getElem?_append_left hlt] at h
    exact Or.inl h
  · rw [List.getElem?_append_right hge, List.getElem?_singleton] at h
    split_ifs at h with hzero
    exact Or.inr ⟨by omega, (Option.some.inj h).symm⟩

/-- A grant of a fresh token is registered; it has no rival. -/
theorem Registry.append (h : Registry s) {g : Grant} (hlive : g.cancelled = false)
    (hidle : g.idleExpiresAt ≤ g.expiresAt)
    (hfresh : ∀ (ref : ℕ) (g' : Grant), s.heap[ref]? = some g' → g'.tokenKey ≠ g.tokenKey)
    (hrivals : ∀ (key : String) (ref : ℕ) (g' : Grant), s.heap[ref]? = some g' →
      s.Registered key ref → ¬g'.binding.Rivals g.binding) :
    Registry ⟨s.heap ++ [g], s.grants.upsert g.tokenKey s.heap.length⟩ := by
  have hnew : (s.heap ++ [g])[s.heap.length]? = some g := by simp
  have hlt : ∀ {ref : ℕ} {g' : Grant}, s.heap[ref]? = some g' → ref < s.heap.length := fun hg =>
    (List.getElem?_eq_some_iff.mp hg).1
  -- what is registered of the grants that there are
  have hold : ∀ {ref : ℕ} {g' : Grant}, s.heap[ref]? = some g' →
      (Store.Registered ⟨s.heap ++ [g], s.grants.upsert g.tokenKey s.heap.length⟩ g'.tokenKey ref ↔
        s.Registered g'.tokenKey ref) := by
    intro ref g' hg'
    unfold Store.Registered
    rw [Table.find?_upsert_ne (hfresh ref g' hg')]
  constructor
  · intro key ref hregistered
    unfold Store.Registered at hregistered
    dsimp only at hregistered
    rw [Table.find?_upsert] at hregistered
    split_ifs at hregistered with hkey
    · obtain rfl := Option.some.inj hregistered
      exact ⟨g, hnew, hkey.symm, hlive⟩
    · obtain ⟨g', hg', hkey', hlive'⟩ := h.live key ref hregistered
      exact ⟨g', by rw [List.getElem?_append_left (hlt hg')]; exact hg', hkey', hlive'⟩
  · intro ref g' hg' hunregistered
    rcases getElem?_append_grant hg' with hg' | ⟨rfl, rfl⟩
    · exact h.cancelled ref g' hg' fun hregistered => hunregistered ((hold hg').mpr hregistered)
    · exact absurd (Table.find?_upsert_self _ _ _) hunregistered
  · intro ref₁ ref₂ g₁ g₂ hg₁ hg₂ hkeys
    rcases getElem?_append_grant hg₁ with hold₁ | ⟨rfl, rfl⟩
    · rcases getElem?_append_grant hg₂ with hold₂ | ⟨rfl, rfl⟩
      · exact h.distinct ref₁ ref₂ g₁ g₂ hold₁ hold₂ hkeys
      · exact absurd hkeys (hfresh ref₁ g₁ hold₁)
    · rcases getElem?_append_grant hg₂ with hold₂ | ⟨rfl, rfl⟩
      · exact absurd hkeys.symm (hfresh ref₂ g₂ hold₂)
      · rfl
  · intro ref g' hg'
    rcases getElem?_append_grant hg' with hg' | ⟨rfl, rfl⟩
    · exact h.idle ref g' hg'
    · exact hidle
  · intro ref₁ ref₂ g₁ g₂ hg₁ hg₂ hltrefs hrival hregistered
    rcases getElem?_append_grant hg₁ with hold₁ | ⟨rfl, rfl⟩
    · rw [hold hold₁] at hregistered
      rcases getElem?_append_grant hg₂ with hold₂ | ⟨rfl, rfl⟩
      · exact h.newest ref₁ ref₂ g₁ g₂ hold₁ hold₂ hltrefs hrival hregistered
      · exact hrivals _ ref₁ g₁ hold₁ hregistered hrival
    · have := (List.getElem?_eq_some_iff.mp hg₂).1
      rw [List.length_append, List.length_singleton] at this
      omega

theorem evolves_append (clock : ℤ) (s : Store) (g : Grant) :
    Evolves clock s ⟨s.heap ++ [g], s.grants.upsert g.tokenKey s.heap.length⟩ := by
  constructor
  · intro ref g' hg'
    have hlt := (List.getElem?_eq_some_iff.mp hg').1
    exact ⟨g', by rw [List.getElem?_append_left hlt]; exact hg', .refl g', fun _ => rfl⟩
  · intro key ref hregistered
    unfold Store.Registered at hregistered
    dsimp only at hregistered
    rw [Table.find?_upsert] at hregistered
    split_ifs at hregistered
    · exact Or.inr (Option.some.inj hregistered).le
    · exact Or.inl hregistered

theorem not_of_registered_removeWhere (h : Registry s) (q : Binding → Bool) {key : String}
    {g : Grant} (hg : (removeWhere (fun _ g => q g.binding) s).heap[ref]? = some g)
    (hregistered : (removeWhere (fun _ g => q g.binding) s).Registered key ref) :
    q g.binding = false := by
  have hremoving := removing_removeWhere h 0 fun _ g => q g.binding
  have hbefore := hremoving.registered hregistered
  obtain ⟨g', hg', -⟩ := h.live key ref hbefore
  obtain ⟨g'', hg'', hsame, -⟩ := hremoving.evolves.grant ref g' hg'
  obtain rfl := Option.some.inj (hg.symm.trans hg'')
  rw [hsame.binding]
  exact foldl_removes h q s.grants.rows (key, ref) (Table.mem_rows.mpr hbefore) g' hg' hregistered

/-- **A new grant** of a fresh token keeps the invariant. -/
theorem create_spec (h : Registry s) (clock : ℤ) (binding : Binding) {key : String}
    (id : String) (readings : List Reading) (now : ℤ)
    (hfresh : ∀ (ref : ℕ) (g : Grant), s.heap[ref]? = some g → g.tokenKey ≠ key) :
    Registry (create binding key id readings now s) ∧
      Evolves clock s (create binding key id readings now s) ∧
        ∀ (key' : String) (ref : ℕ), (create binding key id readings now s).Registered key' ref →
          s.Registered key' ref ∨ key' = key := by
  have hswept : Removing clock s (sweepLocked readings now s) := removing_removeWhere h clock _
  unfold create
  dsimp only
  generalize sweepLocked readings now s = swept at hswept
  have hremoved := hswept.trans (removing_removeWhere hswept.registry clock
    (fun _ g => decide (g.binding.Rivals binding)))
  have hrivals : ∀ {key' : String} {ref : ℕ} {g : Grant},
      (removeWhere (fun _ g => decide (g.binding.Rivals binding)) swept).heap[ref]? = some g →
        (removeWhere (fun _ g => decide (g.binding.Rivals binding)) swept).Registered key' ref →
          ¬g.binding.Rivals binding := fun hg hregistered =>
    of_decide_eq_false (not_of_registered_removeWhere hswept.registry
      (fun b => decide (b.Rivals binding)) hg hregistered)
  generalize removeWhere (fun _ g => decide (g.binding.Rivals binding)) swept = cleared
    at hremoved hrivals
  split_ifs
  · exact ⟨hremoved.registry, hremoved.evolves, fun _ _ h => Or.inl (hremoved.registered h)⟩
  · refine ⟨hremoved.registry.append rfl ?_ (fun ref g' hg' => ?_) fun key' ref g' hg' hregistered =>
      hrivals hg' hregistered, hremoved.evolves.trans (evolves_append clock cleared _),
      fun key' ref hregistered => ?_⟩
    · show now + idleLifetime ≤ now + absoluteLifetime
      exact Int.add_le_add_left (by decide) now
    · have hlt := (List.getElem?_eq_some_iff.mp hg').1
      rw [hremoved.length] at hlt
      obtain ⟨g'', hg'', hsame, -⟩ := hremoved.evolves.grant ref _ (List.getElem?_eq_getElem hlt)
      obtain rfl := Option.some.inj (hg'.symm.trans hg'')
      show g'.tokenKey ≠ key
      rw [hsame.tokenKey]
      exact hfresh ref _ (List.getElem?_eq_getElem hlt)
    · unfold Store.Registered at hregistered
      dsimp only at hregistered
      rw [Table.find?_upsert] at hregistered
      split_ifs at hregistered with hkey
      · exact Or.inr hkey
      · exact Or.inl (hremoved.registered hregistered)

/-- **The first section of `Check`** removes what is not valid, and finds what is presented. -/
theorem checkFirst_spec (h : Registry s) (clock : ℤ) (key user session agent : String)
    (reading : Reading) :
    Removing clock s (checkFirst key user session agent reading s).2 ∧
      ∀ ref, (checkFirst key user session agent reading s).1 = some ref →
        (checkFirst key user session agent reading s).2 = s ∧ s.Registered key ref ∧
          ∃ g, s.heap[ref]? = some g ∧ g.binding.userID = user ∧ g.binding.session = session ∧
            (agent ≠ "" → g.binding.agentID = agent) ∧ g.Valid reading := by
  have hrefl : Removing clock s s := ⟨h, .refl clock s, rfl⟩
  unfold checkFirst
  cases hfound : s.grants.find? key with
  | none => exact ⟨hrefl, fun ref hsome => by cases hsome⟩
  | some ref =>
    obtain ⟨g, hg, -⟩ := h.live key ref hfound
    dsimp only
    rw [hg]
    dsimp only
    by_cases hmismatch : g.binding.userID ≠ user ∨ g.binding.session ≠ session ∨
        (agent ≠ "" ∧ g.binding.agentID ≠ agent)
    · rw [if_pos hmismatch]
      exact ⟨hrefl, fun ref hsome => by cases hsome⟩
    rw [if_neg hmismatch]
    by_cases hvalid : g.Valid reading
    · rw [if_neg (not_not.mpr hvalid)]
      refine ⟨hrefl, fun ref' hsome => ?_⟩
      obtain rfl := Option.some.inj hsome
      simp only [not_or, not_and, not_not, ne_eq] at hmismatch
      obtain ⟨huser, hsession, hagent⟩ := hmismatch
      exact ⟨rfl, hfound, g, hg, huser, hsession, hagent, hvalid⟩
    · rw [if_pos hvalid]
      exact ⟨hrefl.removeLocked ref, fun ref hsome => by cases hsome⟩

/-- **The last section** lets a grant pass that is registered and valid. -/
theorem confirm_spec (h : Registry s) (clock : ℤ) (valid : Bool) (ref : ℕ) (reading : Reading) :
    Removing clock s (confirm valid ref reading s).2 ∧
      ∀ g, (confirm valid ref reading s).1 = some g → (confirm valid ref reading s).2 = s ∧
        valid = true ∧ s.heap[ref]? = some g ∧ s.Registered g.tokenKey ref ∧ g.Valid reading := by
  have hrefl : Removing clock s s := ⟨h, .refl clock s, rfl⟩
  unfold confirm
  cases hg : s.heap[ref]? with
  | none => exact ⟨hrefl, fun g hsome => by cases hsome⟩
  | some g =>
    dsimp only
    by_cases hrefused : valid = false ∨ s.grants.find? g.tokenKey ≠ some ref ∨ ¬g.Valid reading
    · rw [if_pos hrefused]
      exact ⟨hrefl.removeLocked ref, fun g hsome => by cases hsome⟩
    · rw [if_neg hrefused]
      refine ⟨hrefl, fun g' hsome => ?_⟩
      obtain rfl := Option.some.inj hsome
      simp only [not_or, not_not, Bool.not_eq_false, ne_eq] at hrefused
      exact ⟨rfl, hrefused.1, rfl, hrefused.2.1, hrefused.2.2⟩

/-- **`Lock`** removes the grant of its token. -/
theorem lock_spec (h : Registry s) (clock : ℤ) (key user session : String) :
    Removing clock s (lock key user session s).2 ∧
      ((lock key user session s).1 = true → ∀ ref, ¬(lock key user session s).2.Registered key ref) := by
  have hrefl : Removing clock s s := ⟨h, .refl clock s, rfl⟩
  unfold lock
  cases hfound : s.grants.find? key with
  | none =>
    refine ⟨hrefl, fun _ ref hregistered => ?_⟩
    rw [Store.Registered, hfound] at hregistered
    cases hregistered
  | some ref =>
    obtain ⟨g, hg, -⟩ := h.live key ref hfound
    dsimp only
    rw [hg]
    dsimp only
    split_ifs
    · exact ⟨hrefl, fun hfalse => by cases hfalse⟩
    · refine ⟨hrefl.removeLocked ref, fun _ ref' hregistered => ?_⟩
      obtain ⟨hbefore, hne⟩ := (registered_removeLocked h ref key ref').mp hregistered
      exact hne (Option.some.inj (hbefore.symm.trans hfound))

theorem getElem?_touch (ref ref' : ℕ) (touched : ℤ) (s : Store) :
    (touch ref touched s).heap[ref']? = s.heap[ref']?.map fun g =>
      if ref = ref' then { g with idleExpiresAt := touchedIdle touched g } else g := by
  unfold touch
  rw [List.getElem?_modify]
  rfl

theorem grant_touch {ref' : ℕ} {touched : ℤ} {g' : Grant}
    (h : (touch ref touched s).heap[ref']? = some g') : ∃ g, s.heap[ref']? = some g ∧
      g.Same g' ∧ g'.cancelled = g.cancelled ∧ (g'.idleExpiresAt ≤ g'.expiresAt ∨
        g'.idleExpiresAt = g.idleExpiresAt) := by
  rw [getElem?_touch, Option.map_eq_some_iff] at h
  obtain ⟨g, hg, rfl⟩ := h
  refine ⟨g, hg, ?_⟩
  split_ifs
  · refine ⟨⟨rfl, rfl, rfl, rfl⟩, rfl, Or.inl ?_⟩
    show touchedIdle touched g ≤ g.expiresAt
    unfold touchedIdle
    split_ifs <;> omega
  · exact ⟨.refl g, rfl, Or.inr rfl⟩

/-- **A grant that is used** keeps within its absolute deadline. -/
theorem touch_spec (h : Registry s) {g : Grant}
    (hg : s.heap[ref]? = some g) (halive : clock < g.idleExpiresAt) (touched : ℤ) :
    Registry (touch ref touched s) ∧ Evolves clock s (touch ref touched s) := by
  refine ⟨⟨?_, ?_, ?_, ?_, ?_⟩, ?_, fun key ref' hregistered => Or.inl hregistered⟩
  · intro key ref' hregistered
    obtain ⟨g', hg', hkey, hlive⟩ := h.live key ref' hregistered
    rw [getElem?_touch, hg']
    refine ⟨_, rfl, ?_⟩
    dsimp only
    split_ifs
    · exact ⟨hkey, hlive⟩
    · exact ⟨hkey, hlive⟩
  · intro ref' g' hg' hunregistered
    obtain ⟨g'', hg'', hsame, hcancelled, -⟩ := grant_touch hg'
    rw [hcancelled]
    exact h.cancelled ref' g'' hg'' fun hregistered => hunregistered (hsame.tokenKey ▸ hregistered)
  · intro ref₁ ref₂ g₁ g₂ hg₁ hg₂ hkeys
    obtain ⟨g₁', hg₁', hsame₁, -⟩ := grant_touch hg₁
    obtain ⟨g₂', hg₂', hsame₂, -⟩ := grant_touch hg₂
    exact h.distinct ref₁ ref₂ g₁' g₂' hg₁' hg₂' (by rw [← hsame₁.tokenKey, ← hsame₂.tokenKey, hkeys])
  · intro ref' g' hg'
    obtain ⟨g'', hg'', hsame, -, hle | hidle⟩ := grant_touch hg'
    · exact hle
    · rw [hidle, hsame.expiresAt]
      exact h.idle ref' g'' hg''
  · intro ref₁ ref₂ g₁ g₂ hg₁ hg₂ hlt hrivals hregistered
    obtain ⟨g₁', hg₁', hsame₁, -⟩ := grant_touch hg₁
    obtain ⟨g₂', hg₂', hsame₂, -⟩ := grant_touch hg₂
    rw [hsame₁.binding, hsame₂.binding] at hrivals
    rw [hsame₁.tokenKey] at hregistered
    exact h.newest ref₁ ref₂ g₁' g₂' hg₁' hg₂' hlt hrivals hregistered
  · intro ref' g' hg'
    rw [getElem?_touch, hg']
    refine ⟨_, rfl, ?_⟩
    dsimp only
    split_ifs with heq
    · subst heq
      obtain rfl := Option.some.inj (hg.symm.trans hg')
      exact ⟨⟨rfl, rfl, rfl, rfl⟩, fun hle => by omega⟩
    · exact ⟨.refl g', fun _ => rfl⟩

end Workspace

end Komari
