import Komari.TrustedCredential.Trace

/-!
# Live challenges and authorizations

Pending challenges and authorizations have a registered provider, and nothing has revoked them since the
challenge began.
-/

namespace Komari

namespace TrustedCredential

open Run

variable {Digest : Type}

/-- The provider of a challenge is registered, and nothing has revoked it since it began. -/
def Live (s : Service Digest) (log : List Event) (ref : ℕ) (binding : Binding) (entry : ℕ)
    (purpose : Purpose) (resource : String) : Prop :=
  ∃ d, s.entries[entry]? = some d ∧ s.providers.find? d.id = some entry ∧
    Since (· = .began ref binding d.id purpose resource) (Revokes binding d.id) log

/-! ### What stays live -/

section Live

variable {s s' : Service Digest} {log : List Event} {e : Event}

theorem Live.of_eq {ref entry : ℕ} {binding : Binding} {purpose : Purpose} {resource : String}
    (h : Live s log ref binding entry purpose resource) (hentries : s'.entries = s.entries)
    (hproviders : s'.providers = s.providers) : Live s' log ref binding entry purpose resource := by
  unfold Live at h ⊢
  rwa [hentries, hproviders]

/-- What was begun for a binding through an entry survives a step and its event. -/
def Survives (s s' : Service Digest) (e : Event) (binding : Binding) (entry : ℕ) : Prop :=
  ∀ d, s.entries[entry]? = some d → s.providers.find? d.id = some entry →
    s'.entries[entry]? = some d ∧ s'.providers.find? d.id = some entry ∧ ¬Revokes binding d.id e

theorem Live.survives {ref entry : ℕ} {binding : Binding} {purpose : Purpose} {resource : String}
    (h : Live s log ref binding entry purpose resource) (hs : Survives s s' e binding entry) :
    Live s' (e :: log) ref binding entry purpose resource := by
  obtain ⟨d, hd, hfind, hsince⟩ := h
  obtain ⟨hd', hfind', hrevokes⟩ := hs d hd hfind
  exact ⟨d, hd', hfind', hsince.cons hrevokes⟩

/-- An event that neither revokes nor consumes. -/
structure Event.Quiet (e : Event) : Prop where
  revokes : ∀ binding provider, ¬Revokes binding provider e
  consumes : ∀ token, e.consumes token = false

theorem Live.quiet {ref entry : ℕ} {binding : Binding} {purpose : Purpose} {resource : String}
    (h : Live s log ref binding entry purpose resource) (he : e.Quiet) :
    Live s (e :: log) ref binding entry purpose resource :=
  h.survives fun _ hd hfind => ⟨hd, hfind, he.revokes _ _⟩

theorem quiet_began (ref : ℕ) (binding : Binding) (provider : String) (purpose : Purpose)
    (resource : String) : (Event.began ref binding provider purpose resource).Quiet :=
  ⟨by simp [Revokes], fun _ => rfl⟩

theorem quiet_verifying (call ref : ℕ) : (Event.verifying call ref).Quiet :=
  ⟨by simp [Revokes], fun _ => rfl⟩

theorem quiet_verified (call ref : ℕ) (accepted : Bool) : (Event.verified call ref accepted).Quiet :=
  ⟨by simp [Revokes], fun _ => rfl⟩

theorem quiet_issued (ref call : ℕ) (token : String) (expires : ℤ) :
    (Event.issued ref call token expires).Quiet :=
  ⟨by simp [Revokes], fun _ => rfl⟩

theorem quiet_charged (user : String) (window : ℤ) : (Event.charged user window).Quiet :=
  ⟨by simp [Revokes], fun _ => rfl⟩

theorem quiet_refunded (user : String) (window : ℤ) : (Event.refunded user window).Quiet :=
  ⟨by simp [Revokes], fun _ => rfl⟩

end Live

/-- A challenge keeps what it was begun with. -/
structure Pending.Same (p p' : Pending) : Prop where
  binding : p'.binding = p.binding
  entry : p'.entry = p.entry
  purpose : p'.purpose = p.purpose
  resource : p'.resource = p.resource

/-! ### Steps that drop -/

section Drops

variable [DecidableEq Digest]

/-- Challenges and authorizations are only dropped. -/
structure Drops (s s' : Service Digest) : Prop where
  entries : s'.entries = s.entries
  providers : s'.providers = s.providers
  challenges : ∀ (ref : ℕ) (p : Pending), s.challenges[ref]? = some p →
    ∃ p', s'.challenges[ref]? = some p' ∧ p.Same p'
  pending : ∀ id ref, s'.pending.find? id = some ref → s.pending.find? id = some ref
  grants : ∀ key g, s'.grants.find? key = some g → s.grants.find? key = some g

theorem Drops.refl (s : Service Digest) : Drops s s :=
  ⟨rfl, rfl, fun _ p hp => ⟨p, hp, rfl, rfl, rfl, rfl⟩, fun _ _ => id, fun _ _ => id⟩

theorem drops_removePending (s : Service Digest) (id : String) : Drops s (s.removePending id) :=
  { Drops.refl s with pending := fun _ _ h => (Table.find?_deleteWhere_eq_some.mp h).1 }

theorem drops_prune (s : Service Digest) (now : ℤ) : Drops s (s.prune now) :=
  { Drops.refl s with
    pending := fun _ _ h => (Table.find?_deleteWhere_eq_some.mp h).1
    grants := fun _ _ h => (Table.find?_deleteWhere_eq_some.mp h).1 }

theorem drops_updatePending (s : Service Digest) (ref : ℕ) {f : Pending → Pending}
    (hf : ∀ p : Pending, p.Same (f p)) : Drops s (s.updatePending ref f) where
  entries := rfl
  providers := rfl
  challenges ref' p hp := by
    simp only [Service.updatePending, List.getElem?_modify, hp]
    by_cases heq : ref = ref'
    · exact ⟨f p, by simp [heq], hf p⟩
    · exact ⟨p, by simp [heq], rfl, rfl, rfl, rfl⟩
  pending _ _ := id
  grants _ _ := id

end Drops

/-! ### The invariant -/

variable [DecidableEq Digest] [Sha256 Digest]

/-- Pending challenges and authorizations are live, and authorizations were issued and not consumed
since. -/
structure LiveInv (s : Service Digest) (log : List Event) : Prop where
  /-- A registered entry has its id. -/
  providers : ∀ id entry, s.providers.find? id = some entry →
    ∃ d, s.entries[entry]? = some d ∧ d.id = id
  pending : ∀ id ref, s.pending.find? id = some ref →
    ∃ p, s.challenges[ref]? = some p ∧ Live s log ref p.binding p.entry p.purpose p.resource
  grants : ∀ key g, s.grants.find? key = some g → ∃ ref call token, Sha256.sum token = key ∧
    Since (· = .issued ref call token g.expires) (Event.consumes token · = true) log ∧
      Live s log ref g.binding g.entry g.purpose g.resource

section Keeps

variable {s s' : Service Digest} {log : List Event} {e : Event}

theorem LiveInv.drops (h : LiveInv s log) (hd : Drops s s') : LiveInv s' log where
  providers := by
    rw [hd.entries, hd.providers]
    exact h.providers
  pending id ref hfind := by
    obtain ⟨p, hp, hlive⟩ := h.pending id ref (hd.pending id ref hfind)
    obtain ⟨p', hp', hsame⟩ := hd.challenges ref p hp
    refine ⟨p', hp', ?_⟩
    rw [hsame.binding, hsame.entry, hsame.purpose, hsame.resource]
    exact hlive.of_eq hd.entries hd.providers
  grants key g hfind := by
    obtain ⟨ref, call, token, hsum, hissued, hlive⟩ := h.grants key g (hd.grants key g hfind)
    exact ⟨ref, call, token, hsum, hissued, hlive.of_eq hd.entries hd.providers⟩

/-- What a step with an event leaves has survived it. -/
structure Keeps (s s' : Service Digest) (e : Event) : Prop where
  providers : ∀ id entry, s'.providers.find? id = some entry →
    ∃ d, s'.entries[entry]? = some d ∧ d.id = id
  challenges : s'.challenges = s.challenges
  pending : ∀ id ref, s'.pending.find? id = some ref → s.pending.find? id = some ref ∧
    ∀ p, s.challenges[ref]? = some p → Survives s s' e p.binding p.entry
  grants : ∀ key g, s'.grants.find? key = some g → s.grants.find? key = some g ∧
    Survives s s' e g.binding g.entry ∧ ∀ token, Sha256.sum token = key → e.consumes token = false

/-- **What a step leaves stays live.** -/
theorem LiveInv.keeps (h : LiveInv s log) (hk : Keeps s s' e) : LiveInv s' (e :: log) where
  providers := hk.providers
  pending id ref hfind := by
    obtain ⟨hfind', hsurvives⟩ := hk.pending id ref hfind
    obtain ⟨p, hp, hlive⟩ := h.pending id ref hfind'
    exact ⟨p, hk.challenges ▸ hp, hlive.survives (hsurvives p hp)⟩
  grants key g hfind := by
    obtain ⟨hfind', hsurvives, hconsumes⟩ := hk.grants key g hfind
    obtain ⟨ref, call, token, hsum, hissued, hlive⟩ := h.grants key g hfind'
    refine ⟨ref, call, token, hsum, hissued.cons ?_, hlive.survives hsurvives⟩
    rw [hconsumes token hsum]
    exact Bool.false_ne_true

theorem LiveInv.quiet (h : LiveInv s log) (he : e.Quiet) : LiveInv s (e :: log) :=
  h.keeps {
    providers := h.providers
    challenges := rfl
    pending := fun _ _ hfind => ⟨hfind, fun _ _ _ hd hfind => ⟨hd, hfind, he.revokes _ _⟩⟩
    grants := fun _ _ hfind =>
      ⟨hfind, fun _ hd hfind => ⟨hd, hfind, he.revokes _ _⟩, fun token _ => he.consumes token⟩ }

end Keeps

/-! ### Revocations -/

section Revocations

variable {s : Service Digest} {log : List Event}

section

variable (h : LiveInv s log)

include h

/-- **What a revocation leaves stays live**: the event is about what is removed, and providers may go. -/
theorem LiveInv.removed {e : Event} (gone : Binding → ℕ → Bool)
    {providers : Table String ℕ} (hproviders : ∀ id entry, providers.find? id = some entry →
      s.providers.find? id = some entry) (hconsumes : ∀ token, e.consumes token = false)
    (hkept : ∀ binding entry d, gone binding entry = false → s.entries[entry]? = some d →
      s.providers.find? d.id = some entry →
        providers.find? d.id = some entry ∧ ¬Revokes binding d.id e) :
    LiveInv (({ s with providers := providers }.removePendingWhere fun p =>
      gone p.binding p.entry).removeGrantsWhere fun g => gone g.binding g.entry) (e :: log) := by
  refine h.keeps ⟨fun id entry hfind => h.providers id entry (hproviders id entry hfind), rfl,
    fun id ref hfind => ?_, fun key g hfind => ?_⟩
  · obtain ⟨hfind, hnot⟩ := Table.find?_deleteWhere_eq_some.mp hfind
    refine ⟨hfind, fun p hp d hd hprovider => ⟨hd, hkept _ _ d ?_ hd hprovider⟩⟩
    simpa [hp] using hnot
  · obtain ⟨hfind, hnot⟩ := Table.find?_deleteWhere_eq_some.mp hfind
    exact ⟨hfind, fun d hd hprovider => ⟨hd, hkept _ _ d hnot hd hprovider⟩,
      fun token _ => hconsumes token⟩

theorem LiveInv.revokeUser (user : String) :
    LiveInv (s.revokeUser user) (.revokedUser user :: log) :=
  h.removed (fun binding _ => decide (binding.userID = user)) (fun _ _ => id) (fun _ => rfl)
    fun binding entry d hne _ hprovider =>
      ⟨hprovider, by simpa [Revokes, eq_comm] using of_decide_eq_false hne⟩

theorem LiveInv.revokeBinding (binding : Binding) :
    LiveInv (s.revokeBinding binding) (.revokedBinding binding :: log) :=
  h.removed (fun binding' _ => decide (binding' = binding)) (fun _ _ => id) (fun _ => rfl)
    fun binding' entry d hne _ hprovider =>
      ⟨hprovider, by simpa [Revokes, eq_comm] using of_decide_eq_false hne⟩

/-- An entry whose provider is unregistered is not the one of what is left. -/
theorem LiveInv.unregister (id : String) : LiveInv (s.unregister id) (.unregistered id :: log) := by
  refine h.removed (fun _ entry => decide (some entry = s.providers.find? id))
    (fun id' entry hfind => (Table.find?_deleteWhere_eq_some.mp hfind).1) (fun _ => rfl)
    fun binding entry d hne _ hprovider => ?_
  have hid : d.id ≠ id := by
    rintro rfl
    exact of_decide_eq_false hne hprovider.symm
  exact ⟨Table.find?_deleteWhere_eq_some.mpr ⟨hprovider, by simpa using hid⟩,
    by simp [Revokes, hid.symm]⟩

/-- A new entry is none of those that there are. -/
theorem LiveInv.register {d : Descriptor} (hd : s.providers.find? d.id = none) :
    LiveInv { s with entries := s.entries ++ [d],
                     providers := s.providers.upsert d.id s.entries.length }
      (.registered d.id :: log) := by
  have hentries : ∀ {entry : ℕ} {d' : Descriptor}, s.entries[entry]? = some d' →
      (s.entries ++ [d])[entry]? = some d' := fun h => by
    rw [List.getElem?_append_left (List.getElem?_eq_some_iff.mp h).1, h]
  have hsurvives : ∀ (binding : Binding) (entry : ℕ), Survives s
      { s with entries := s.entries ++ [d], providers := s.providers.upsert d.id s.entries.length }
      (.registered d.id) binding entry := by
    intro binding entry d' hd' hfind
    have hne : d'.id ≠ d.id := by
      intro heq
      rw [heq, hd] at hfind
      cases hfind
    refine ⟨hentries hd', (Table.find?_upsert_ne hne).trans hfind, ?_⟩
    simp [Revokes, hne.symm]
  refine h.keeps ⟨fun id entry hfind => ?_, rfl, fun id ref hfind => ⟨hfind, fun p _ => hsurvives _ _⟩,
    fun key g hfind => ⟨hfind, hsurvives _ _, fun _ _ => rfl⟩⟩
  change (s.providers.upsert d.id s.entries.length).find? id = some entry at hfind
  rw [Table.find?_upsert] at hfind
  split_ifs at hfind with heq
  · cases hfind
    exact ⟨d, by simp, heq.symm⟩
  · obtain ⟨d', hd', hid⟩ := h.providers id entry hfind
    exact ⟨d', hentries hd', hid⟩

/-! ### Challenges and authorizations come and go -/

theorem LiveInv.began {id provider : String} {entry : ℕ} {binding : Binding}
    {purpose : Purpose} {resource : String} {expires : ℤ}
    (hentry : s.providers.find? provider = some entry) :
    LiveInv { s with challenges := s.challenges ++
                       [⟨binding, entry, purpose, resource, expires, false, 0, false⟩],
                     pending := s.pending.upsert id s.challenges.length }
      (.began s.challenges.length binding provider purpose resource :: log) := by
  have hquiet := h.quiet (quiet_began s.challenges.length binding provider purpose resource)
  refine ⟨hquiet.providers, fun id' ref hfind => ?_, fun key g hfind => hquiet.grants key g hfind⟩
  change (s.pending.upsert id s.challenges.length).find? id' = some ref at hfind
  rw [Table.find?_upsert] at hfind
  split_ifs at hfind with heq
  · cases hfind
    obtain ⟨d, hd, rfl⟩ := h.providers provider entry hentry
    exact ⟨⟨binding, entry, purpose, resource, expires, false, 0, false⟩, by simp, d, hd, hentry,
      Since.start rfl⟩
  · obtain ⟨p, hp, hlive⟩ := hquiet.pending id' ref hfind
    refine ⟨p, ?_, hlive⟩
    show (s.challenges ++ _)[ref]? = some p
    rw [List.getElem?_append_left (List.getElem?_eq_some_iff.mp hp).1, hp]

theorem LiveInv.issued {ref : ℕ} (call : ℕ) (token : String)
    {g : Authorization} (hlive : Live s log ref g.binding g.entry g.purpose g.resource) :
    LiveInv { s with grants := s.grants.upsert (Sha256.sum token) g }
      (.issued ref call token g.expires :: log) := by
  have hquiet := h.quiet (quiet_issued ref call token g.expires)
  refine ⟨hquiet.providers, hquiet.pending, fun key g' hfind => ?_⟩
  change (s.grants.upsert (Sha256.sum token) g).find? key = some g' at hfind
  rw [Table.find?_upsert] at hfind
  split_ifs at hfind with heq
  · cases hfind
    exact ⟨ref, call, token, heq.symm, Since.start rfl, hlive.quiet (quiet_issued _ _ _ _)⟩
  · exact hquiet.grants key g' hfind

theorem LiveInv.consumed (token : String) (binding : Binding) (purpose : Purpose)
    (resource : String) (time : ℤ) :
    LiveInv { s with grants := s.grants.deleteWhere fun key _ => decide (key = Sha256.sum token) }
      (.consumed token binding purpose resource time :: log) := by
  have hrevokes : ∀ binding' provider,
      ¬Revokes binding' provider (.consumed token binding purpose resource time) := by
    simp [Revokes]
  refine h.keeps ⟨h.providers, rfl, fun id ref hfind => ⟨hfind, fun p _ d hd hfind => ?_⟩,
    fun key g hfind => ?_⟩
  · exact ⟨hd, hfind, hrevokes _ _⟩
  · obtain ⟨hfind, hkey⟩ := Table.find?_deleteWhere_eq_some.mp hfind
    refine ⟨hfind, fun d hd hfind => ⟨hd, hfind, hrevokes _ _⟩, fun token' hsum => ?_⟩
    simp only [Event.consumes, decide_eq_false_iff_not]
    rintro rfl
    exact absurd hsum.symm (by simpa using hkey)

end

end Revocations

end TrustedCredential

end Komari
