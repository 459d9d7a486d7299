import Komari.TrustedCredential.Trace

/-!
# Verifications

`verify` of a challenge runs for one call of `Complete` at a time, and not too often.
-/

namespace Komari

namespace TrustedCredential

open Run

/-- The calls on their way, beside the challenges and the events. -/
structure CallInv (challenges : List Pending) (pending : Table String ℕ)
    (completes : List CompleteCall) (log : List Event) : Prop where
  /-- A challenge is pending under one id. -/
  inj : ∀ id id' ref, pending.find? id = some ref → pending.find? id' = some ref → id = id'
  /-- A pending challenge was begun. -/
  lt : ∀ id ref, pending.find? id = some ref → ref < challenges.length
  /-- Attempts are counted, and bounded. -/
  attempts : ∀ (ref : ℕ) (p : Pending), challenges[ref]? = some p →
    log.countP (Event.verifies ref) = p.attempts ∧ p.attempts ≤ maxAttempts
  /-- Nothing has happened to a challenge that was not begun. -/
  fresh : ∀ ref, challenges.length ≤ ref → log.countP (Event.verifies ref) = 0 ∧
    ∀ binding provider purpose resource, .began ref binding provider purpose resource ∉ log
  /-- A challenge that is not busy has room for an attempt, and no call on its way. -/
  idle : ∀ (id : String) (ref : ℕ) (p : Pending), pending.find? id = some ref →
    challenges[ref]? = some p → p.busy = false → p.attempts < maxAttempts ∧
      ∀ (call : ℕ) (c : CompleteCall), completes[call]? = some c → c.ref = ref → c.phase = .done
  /-- A challenge has one call on its way. -/
  single : ∀ (i j : ℕ) (c c' : CompleteCall), completes[i]? = some c → completes[j]? = some c' →
    c.ref = c'.ref → c.phase ≠ .done → c'.phase ≠ .done → i = j
  /-- A call is for a challenge of its binding. -/
  binding : ∀ (call : ℕ) (c : CompleteCall), completes[call]? = some c →
    ∃ p, challenges[c.ref]? = some p ∧ p.binding = c.binding
  /-- A verification that runs has its call. -/
  running : ∀ call ref, Since (· = .verifying call ref) (Event.returns call ref · = true) log →
    ∃ c, completes[call]? = some c ∧ c.ref = ref ∧ c.phase = .verifying
  /-- A verification that was accepted has returned. -/
  accepted : ∀ (call : ℕ) (c : CompleteCall), completes[call]? = some c → c.phase = .verified none →
    .verified call c.ref true ∈ log

section Keeps

variable {challenges : List Pending} {pending pending' : Table String ℕ}
  {completes : List CompleteCall} {log : List Event} {e : Event}

theorem CallInv.drops (h : CallInv challenges pending completes log)
    (hsub : ∀ id ref, pending'.find? id = some ref → pending.find? id = some ref) :
    CallInv challenges pending' completes log :=
  { h with
    inj := fun id id' ref h₁ h₂ => h.inj id id' ref (hsub id ref h₁) (hsub id' ref h₂)
    lt := fun id ref hfind => h.lt id ref (hsub id ref hfind)
    idle := fun id ref p hfind => h.idle id ref p (hsub id ref hfind) }

/-- The event is not about challenges or verifications. -/
structure Event.Aside (e : Event) : Prop where
  began : ∀ ref binding provider purpose resource, e ≠ .began ref binding provider purpose resource
  verifying : ∀ call ref, e ≠ .verifying call ref
  returns : ∀ call ref, e.returns call ref = false

theorem Event.Aside.verifies (he : e.Aside) (ref : ℕ) : e.verifies ref = false := by
  cases e with
  | verifying call ref' => exact absurd rfl (he.verifying call ref')
  | _ => rfl

section

variable (h : CallInv challenges pending completes log)

include h

theorem CallInv.aside (he : e.Aside) : CallInv challenges pending completes (e :: log) :=
  { h with
    attempts := fun ref p hp => by
      rw [List.countP_cons_of_neg (by simp [he.verifies])]
      exact h.attempts ref p hp
    fresh := fun ref hle => by
      obtain ⟨hcount, hbegan⟩ := h.fresh ref hle
      refine ⟨by rw [List.countP_cons_of_neg (by simp [he.verifies]), hcount], ?_⟩
      intro binding provider purpose resource hmem
      rcases List.mem_cons.mp hmem with heq | hmem
      · exact he.began _ _ _ _ _ heq.symm
      · exact hbegan _ _ _ _ hmem
    running := fun call ref hsince => by
      rcases hsince with heq | ⟨-, hsince⟩
      · exact absurd heq (he.verifying call ref)
      · exact h.running call ref hsince
    accepted := fun call c hc hphase => List.mem_cons_of_mem _ (h.accepted call c hc hphase) }

theorem CallInv.prepared (ref : ℕ) :
    CallInv (challenges.modify ref fun p => { p with verify := true }) pending completes log := by
  have hget : ∀ {i : ℕ} {p : Pending},
      (challenges.modify ref fun p => { p with verify := true })[i]? = some p →
        ∃ p', challenges[i]? = some p' ∧ p'.binding = p.binding ∧ p'.attempts = p.attempts ∧
          p'.busy = p.busy := by
    intro i p hp
    rw [List.getElem?_modify] at hp
    obtain ⟨p', hp', rfl⟩ := Option.map_eq_some_iff.mp hp
    refine ⟨p', hp', ?_⟩
    split_ifs <;> exact ⟨rfl, rfl, rfl⟩
  exact
    { h with
      lt := fun id ref' hfind => by
        rw [List.length_modify]
        exact h.lt id ref' hfind
      attempts := fun ref' p hp => by
        obtain ⟨p', hp', -, hattempts, -⟩ := hget hp
        exact hattempts ▸ h.attempts ref' p' hp'
      fresh := fun ref' hle => h.fresh ref' (by rwa [List.length_modify] at hle)
      idle := fun id ref' p hfind hp hbusy => by
        obtain ⟨p', hp', -, hattempts, hbusy'⟩ := hget hp
        exact hattempts ▸ h.idle id ref' p' hfind hp' (hbusy'.trans hbusy)
      binding := fun call c hc => by
        obtain ⟨p, hp, hbinding⟩ := h.binding call c hc
        refine ⟨if ref = c.ref then { p with verify := true } else p, ?_, ?_⟩
        · rw [List.getElem?_modify, hp]
          rfl
        · split_ifs <;> exact hbinding }

theorem CallInv.began {id : String} {p : Pending}
    (hp : p.attempts = 0) (hid : pending.find? id = none) (binding : Binding) (provider : String)
    (purpose : Purpose) (resource : String) :
    CallInv (challenges ++ [p]) (pending.upsert id challenges.length) completes
      (.began challenges.length binding provider purpose resource :: log) := by
  have hold : ∀ {i : ℕ} {p' : Pending}, (challenges ++ [p])[i]? = some p' →
      challenges[i]? = some p' ∨ (i = challenges.length ∧ p' = p) := by
    intro i p' hget
    rcases lt_trichotomy i challenges.length with hlt | rfl | hgt
    · exact Or.inl (by rwa [List.getElem?_append_left hlt] at hget)
    · exact Or.inr ⟨rfl, by simpa using hget.symm⟩
    · rw [List.getElem?_eq_none (by simp; omega)] at hget
      cases hget
  have hcount : ∀ ref, (Event.began challenges.length binding provider purpose resource ::
      log).countP (Event.verifies ref) = log.countP (Event.verifies ref) := fun ref => by
    simp [Event.verifies]
  have hfind : ∀ {id' : String} {ref : ℕ},
      (pending.upsert id challenges.length).find? id' = some ref →
        (id' = id ∧ ref = challenges.length) ∨ pending.find? id' = some ref := by
    intro id' ref hfind
    rw [Table.find?_upsert] at hfind
    split_ifs at hfind with heq
    · exact Or.inl ⟨heq, by simpa using hfind.symm⟩
    · exact Or.inr hfind
  exact
    { inj := fun id₁ id₂ ref h₁ h₂ => by
        rcases hfind h₁ with ⟨rfl, rfl⟩ | hold₁ <;> rcases hfind h₂ with ⟨rfl, href⟩ | hold₂
        · rfl
        · exact absurd (h.lt _ _ hold₂) (lt_irrefl _)
        · exact absurd (h.lt _ _ hold₁) (href ▸ lt_irrefl _)
        · exact h.inj id₁ id₂ ref hold₁ hold₂
      lt := fun id' ref h₁ => by
        rw [List.length_append, List.length_singleton]
        rcases hfind h₁ with ⟨-, rfl⟩ | h₁
        · omega
        · have := h.lt id' ref h₁
          omega
      attempts := fun ref p' hget => by
        rw [hcount]
        rcases hold hget with hget | ⟨rfl, rfl⟩
        · exact h.attempts ref p' hget
        · rw [(h.fresh challenges.length le_rfl).1, hp]
          exact ⟨rfl, Nat.zero_le _⟩
      fresh := fun ref hle => by
        rw [List.length_append, List.length_singleton] at hle
        obtain ⟨hzero, hbegan⟩ := h.fresh ref (by omega)
        refine ⟨(hcount ref).trans hzero, fun binding' provider' purpose' resource' hmem => ?_⟩
        rcases List.mem_cons.mp hmem with heq | hmem
        · cases heq
          omega
        · exact hbegan _ _ _ _ hmem
      idle := fun id' ref p' h₁ hget hbusy => by
        rcases hfind h₁ with ⟨-, rfl⟩ | h₁
        · obtain rfl : p' = p := by simpa using hget.symm
          refine ⟨by rw [hp]; decide, fun call c hc href => ?_⟩
          -- no call is for a challenge that was not begun
          obtain ⟨p₀, hp₀, -⟩ := h.binding call c hc
          have hlt := (List.getElem?_eq_some_iff.mp hp₀).1
          omega
        · rcases hold hget with hget | ⟨rfl, -⟩
          · exact h.idle id' ref p' h₁ hget hbusy
          · exact absurd (h.lt _ _ h₁) (lt_irrefl _)
      single := h.single
      binding := fun call c hc => by
        obtain ⟨p₀, hp₀, hbinding⟩ := h.binding call c hc
        exact ⟨p₀, by rw [List.getElem?_append_left (List.getElem?_eq_some_iff.mp hp₀).1, hp₀], hbinding⟩
      running := fun call ref hsince => by
        rcases hsince with heq | ⟨-, hsince⟩
        · cases heq
        · exact h.running call ref hsince
      accepted := fun call c hc hphase => List.mem_cons_of_mem _ (h.accepted call c hc hphase) }

/-! ### Calls go their way -/

/-- `verify` is called. -/
theorem CallInv.verifying {id : String} {ref : ℕ}
    {p : Pending} (hid : pending.find? id = some ref) (hp : challenges[ref]? = some p)
    (hbusy : p.busy = false) (window : ℤ) :
    CallInv (challenges.modify ref fun p => { p with busy := true, attempts := p.attempts + 1 }) pending
      (completes ++ [⟨id, ref, p.binding, window, .verifying⟩])
      (.verifying completes.length ref :: log) := by
  obtain ⟨hroom, hdone⟩ := h.idle id ref p hid hp hbusy
  have hnew : ∀ {i : ℕ} {c : CompleteCall},
      (completes ++ [⟨id, ref, p.binding, window, .verifying⟩])[i]? = some c →
        completes[i]? = some c ∨ (i = completes.length ∧ c = ⟨id, ref, p.binding, window, .verifying⟩) := by
    intro i c hget
    rcases lt_trichotomy i completes.length with hlt | rfl | hgt
    · exact Or.inl (by rwa [List.getElem?_append_left hlt] at hget)
    · exact Or.inr ⟨rfl, by simpa using hget.symm⟩
    · rw [List.getElem?_eq_none (by simp; omega)] at hget
      cases hget
  have hold : ∀ {i : ℕ} {c : CompleteCall}, completes[i]? = some c →
      (completes ++ [⟨id, ref, p.binding, window, .verifying⟩])[i]? = some c := fun hget => by
    rw [List.getElem?_append_left (List.getElem?_eq_some_iff.mp hget).1, hget]
  have hmodify : ∀ {i : ℕ} {p' : Pending},
      (challenges.modify ref fun p => { p with busy := true, attempts := p.attempts + 1 })[i]? = some p' →
        (i = ref ∧ p' = { p with busy := true, attempts := p.attempts + 1 }) ∨
          (i ≠ ref ∧ challenges[i]? = some p') := by
    intro i p' hget
    rw [List.getElem?_modify] at hget
    by_cases heq : ref = i
    · subst heq
      rw [hp] at hget
      exact Or.inl ⟨rfl, by simpa using hget.symm⟩
    · exact Or.inr ⟨Ne.symm heq, by simpa [heq] using hget⟩
  have hcount : ∀ i, (Event.verifying completes.length ref :: log).countP (Event.verifies i) =
      log.countP (Event.verifies i) + if i = ref then 1 else 0 := fun i => by
    rw [List.countP_cons]
    simp [Event.verifies, eq_comm]
  exact
    { inj := h.inj
      lt := fun id' ref' hfind => by
        rw [List.length_modify]
        exact h.lt id' ref' hfind
      attempts := fun i p' hget => by
        rw [hcount]
        rcases hmodify hget with ⟨rfl, rfl⟩ | ⟨hne, hget⟩
        · rw [if_pos rfl, (h.attempts i p hp).1]
          exact ⟨rfl, hroom⟩
        · rw [if_neg hne]
          exact h.attempts i p' hget
      fresh := fun i hle => by
        rw [List.length_modify] at hle
        obtain ⟨hzero, hbegan⟩ := h.fresh i hle
        have hne : i ≠ ref := by
          have := h.lt id ref hid
          omega
        refine ⟨by rw [hcount, if_neg hne, hzero], fun b pr pu r hmem => ?_⟩
        exact hbegan b pr pu r ((List.mem_cons.mp hmem).resolve_left (by simp))
      idle := fun id' i p' hfind hget hbusy' => by
        rcases hmodify hget with ⟨rfl, rfl⟩ | ⟨hne, hget⟩
        · cases hbusy'
        · obtain ⟨hroom', hdone'⟩ := h.idle id' i p' hfind hget hbusy'
          refine ⟨hroom', fun call c hc href => ?_⟩
          rcases hnew hc with hc | ⟨-, rfl⟩
          · exact hdone' call c hc href
          · exact absurd href.symm hne
      single := fun i j c c' hc hc' href hopen hopen' => by
        rcases hnew hc with hc | ⟨rfl, rfl⟩ <;> rcases hnew hc' with hc' | ⟨rfl, rfl⟩
        · exact h.single i j c c' hc hc' href hopen hopen'
        · exact absurd (hdone i c hc href) hopen
        · exact absurd (hdone j c' hc' href.symm) hopen'
        · rfl
      binding := fun call c hc => by
        rcases hnew hc with hc | ⟨-, rfl⟩
        · obtain ⟨p', hp', hbinding⟩ := h.binding call c hc
          refine ⟨if ref = c.ref then { p' with busy := true, attempts := p'.attempts + 1 } else p', ?_, ?_⟩
          · rw [List.getElem?_modify, hp']
            rfl
          · split_ifs <;> exact hbinding
        · exact ⟨{ p with busy := true, attempts := p.attempts + 1 }, by simp [hp], rfl⟩
      running := fun call ref' hsince => by
        rcases hsince with heq | ⟨-, hsince⟩
        · cases heq
          exact ⟨⟨id, ref, p.binding, window, .verifying⟩, by simp, rfl, rfl⟩
        · obtain ⟨c, hc, href, hphase⟩ := h.running call ref' hsince
          exact ⟨c, hold hc, href, hphase⟩
      accepted := fun call c hc hphase => by
        rcases hnew hc with hc | ⟨-, rfl⟩
        · exact List.mem_cons_of_mem _ (h.accepted call c hc hphase)
        · cases hphase }

end

variable {c : CompleteCall}

/-- A call is replaced by what becomes of it. -/
theorem getElem?_set_call {call i : ℕ} {c' x : CompleteCall} (hc : completes[call]? = some c) :
    (completes.set call c')[i]? = some x ↔
      (i = call ∧ x = c') ∨ (i ≠ call ∧ completes[i]? = some x) := by
  rw [List.getElem?_set]
  by_cases heq : call = i
  · subst heq
    have hlt := (List.getElem?_eq_some_iff.mp hc).1
    simp [hlt, eq_comm]
  · simp [heq, Ne.symm heq]

section

variable (h : CallInv challenges pending completes log)

include h

/-- An open call goes on: no verification of it runs, and if it was accepted, it has returned. -/
theorem CallInv.set {call : ℕ}
    (hc : completes[call]? = some c) (hopen : c.phase ≠ .done) {phase : CompletePhase}
    (hrunning : ∀ ref, ¬Since (· = .verifying call ref) (Event.returns call ref · = true) log)
    (haccepted : phase = .verified none → .verified call c.ref true ∈ log) :
    CallInv challenges pending (completes.set call { c with phase := phase }) log :=
  { h with
    idle := fun id ref p hfind hp hbusy => by
      obtain ⟨hroom, hdone⟩ := h.idle id ref p hfind hp hbusy
      refine ⟨hroom, fun i x hx href => ?_⟩
      rcases (getElem?_set_call hc).mp hx with ⟨rfl, rfl⟩ | ⟨-, hx⟩
      · exact absurd (hdone i c hc href) hopen
      · exact hdone i x hx href
    single := fun i j x y hx hy href hxopen hyopen => by
      have hback : ∀ {k : ℕ} {x : CompleteCall},
          (completes.set call { c with phase := phase })[k]? = some x → x.phase ≠ .done →
            ∃ x', completes[k]? = some x' ∧ x'.ref = x.ref ∧ x'.phase ≠ .done := by
        intro k x hx hxopen
        rcases (getElem?_set_call hc).mp hx with ⟨rfl, rfl⟩ | ⟨-, hx⟩
        · exact ⟨c, hc, rfl, hopen⟩
        · exact ⟨x, hx, rfl, hxopen⟩
      obtain ⟨x', hx', hxref, hxopen⟩ := hback hx hxopen
      obtain ⟨y', hy', hyref, hyopen⟩ := hback hy hyopen
      exact h.single i j x' y' hx' hy' (by rw [hxref, hyref, href]) hxopen hyopen
    binding := fun i x hx => by
      rcases (getElem?_set_call hc).mp hx with ⟨rfl, rfl⟩ | ⟨-, hx⟩
      · exact h.binding i c hc
      · exact h.binding i x hx
    running := fun i ref hsince => by
      obtain ⟨x, hx, href, hphase⟩ := h.running i ref hsince
      refine ⟨x, (getElem?_set_call hc).mpr (Or.inr ⟨?_, hx⟩), href, hphase⟩
      rintro rfl
      exact hrunning ref hsince
    accepted := fun i x hx hphase => by
      rcases (getElem?_set_call hc).mp hx with ⟨rfl, rfl⟩ | ⟨-, hx⟩
      · exact haccepted hphase
      · exact h.accepted i x hx hphase }

/-- `verify` returns. -/
theorem CallInv.verified {call : ℕ}
    (hc : completes[call]? = some c) (hphase : c.phase = .verifying) (err : Option CredentialError) :
    CallInv challenges pending (completes.set call { c with phase := .verified err })
      (.verified call c.ref err.isNone :: log) := by
  have hcount : ∀ ref, (Event.verified call c.ref err.isNone :: log).countP (Event.verifies ref) =
      log.countP (Event.verifies ref) := fun ref => by simp [Event.verifies]
  have hlogged : CallInv challenges pending completes (.verified call c.ref err.isNone :: log) :=
    { h with
      attempts := fun ref p hp => by
        rw [hcount]
        exact h.attempts ref p hp
      fresh := fun ref hle => by
        obtain ⟨hzero, hbegan⟩ := h.fresh ref hle
        refine ⟨(hcount ref).trans hzero, fun b pr pu r hmem => ?_⟩
        exact hbegan b pr pu r ((List.mem_cons.mp hmem).resolve_left (by simp))
      running := fun i ref hsince => by
        rcases hsince with heq | ⟨-, hsince⟩
        · cases heq
        · exact h.running i ref hsince
      accepted := fun i x hx haccepted => List.mem_cons_of_mem _ (h.accepted i x hx haccepted) }
  refine hlogged.set hc (by simp [hphase]) (fun ref hsince => ?_) fun haccepted => ?_
  · rcases hsince with heq | ⟨hreturns, hsince⟩
    · cases heq
    · obtain ⟨x, hx, href, -⟩ := h.running call ref hsince
      obtain rfl : x = c := Option.some.inj (hx.symm.trans hc)
      exact hreturns (by simp [Event.returns, href])
  · cases haccepted
    exact List.mem_cons_self

theorem CallInv.closed {call : ℕ}
    (hc : completes[call]? = some c) {err : Option CredentialError} (hphase : c.phase = .verified err) :
    CallInv challenges pending (completes.set call { c with phase := .done }) log := by
  refine h.set hc (by simp [hphase]) (fun ref hsince => ?_) fun hdone => by cases hdone
  obtain ⟨x, hx, -, hverifying⟩ := h.running call ref hsince
  obtain rfl : x = c := Option.some.inj (hx.symm.trans hc)
  rw [hphase] at hverifying
  cases hverifying

/-- **A call is over and its challenge is free**, unless it is no longer pending or its attempts are
spent. -/
theorem CallInv.finished {call : ℕ}
    (hc : completes[call]? = some c) {err : Option CredentialError} (hphase : c.phase = .verified err)
    (hsub : ∀ id ref, pending'.find? id = some ref → pending.find? id = some ref)
    (hroom : ∀ (id : String) (p : Pending), pending'.find? id = some c.ref →
      challenges[c.ref]? = some p → p.attempts < maxAttempts) :
    CallInv (challenges.modify c.ref fun p => { p with busy := false }) pending'
      (completes.set call { c with phase := .done }) log := by
  have hclosed := (h.closed hc hphase).drops hsub
  have hdone : ∀ (i : ℕ) (x : CompleteCall),
      (completes.set call { c with phase := .done })[i]? = some x → x.ref = c.ref → x.phase = .done := by
    intro i x hx href
    rcases (getElem?_set_call hc).mp hx with ⟨-, rfl⟩ | ⟨hne, hx⟩
    · rfl
    · by_contra hopen
      exact hne (h.single i call x c hx hc href hopen (by simp [hphase]))
  have hmodify : ∀ {i : ℕ} {p' : Pending},
      (challenges.modify c.ref fun p => { p with busy := false })[i]? = some p' →
        ∃ p, challenges[i]? = some p ∧ p.attempts = p'.attempts ∧ (i ≠ c.ref → p = p') := by
    intro i p' hget
    rw [List.getElem?_modify] at hget
    obtain ⟨p, hp, rfl⟩ := Option.map_eq_some_iff.mp hget
    refine ⟨p, hp, ?_, fun hne => ?_⟩
    · split_ifs <;> rfl
    · rw [if_neg (Ne.symm hne)]
  exact
    { hclosed with
      lt := fun id ref hfind => by
        rw [List.length_modify]
        exact hclosed.lt id ref hfind
      attempts := fun ref p' hget => by
        obtain ⟨p, hp, hattempts, -⟩ := hmodify hget
        exact hattempts ▸ hclosed.attempts ref p hp
      fresh := fun ref hle => hclosed.fresh ref (by rwa [List.length_modify] at hle)
      idle := fun id ref p' hfind hget hbusy => by
        obtain ⟨p, hp, hattempts, hsame⟩ := hmodify hget
        by_cases href : ref = c.ref
        · subst href
          exact ⟨hattempts ▸ hroom id p hfind hp, hdone⟩
        · obtain rfl := hsame href
          exact hclosed.idle id ref p hfind hp hbusy
      binding := fun i x hx => by
        obtain ⟨p, hp, hbinding⟩ := hclosed.binding i x hx
        refine ⟨if c.ref = x.ref then { p with busy := false } else p, ?_, ?_⟩
        · rw [List.getElem?_modify, hp]
          rfl
        · split_ifs <;> exact hbinding }

end

end Keeps

end TrustedCredential

end Komari
