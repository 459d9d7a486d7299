import Komari.Run.Along
import Komari.Workspace.Store

/-!
# The bounds of a grant

Calls on the store of grants come at the same time.  `Check` and `Alive` have two critical sections, and
the login is validated between them.

* `grants_bounded` : every run is bounded, and a grant that was removed does not come back.
* `loose_calls` : without a machine, `Check` returns the grant of any; and `Active` does not look at the
  login.
-/

namespace Komari

namespace Workspace

/-- What was asked for. -/
inductive CallKind
  | check (user session agent : String) (touch : Bool)
  | alive
  | byID (id agent username : String)
  | active
deriving DecidableEq

/-- The grant is the one that was asked for. -/
def CallKind.Matches (kind : CallKind) (g : Grant) : Prop :=
  match kind with
  | .check user session agent _ => g.binding.userID = user ∧ g.binding.session = session ∧
      (agent ≠ "" → g.binding.agentID = agent)
  | .byID id agent username => g.id = id ∧ g.binding.agentID = agent ∧
      g.binding.systemUser = username
  | .alive | .active => True

/-- Success makes the grant live longer. -/
def CallKind.touches : CallKind → Bool
  | .check _ _ _ touch => touch
  | _ => false

/-- How far a call has come. -/
inductive CallPhase
  | found
  /-- The grant was valid, and the login is validated. -/
  | validating
  | answered (valid : Bool)
deriving DecidableEq

/-- A call on its way. -/
structure GrantCall where
  kind : CallKind
  ref : ℕ
  phase : CallPhase
  /-- When it began, the grant was locked or replaced, or its deadlines had passed. -/
  closed : Bool
  /-- When it began, the login was invalid for good. -/
  revoked : Bool
deriving DecidableEq

/-- A call that returned a grant. -/
structure Success where
  kind : CallKind
  ref : ℕ
  /-- How it was found in the last section. -/
  grant : Grant
  reading : Reading
  /-- It was registered after the last section. -/
  registered : Bool
  /-- When the call began, the grant was locked or replaced, or its deadlines had passed. -/
  closed : Bool
  /-- When the call began, the login was invalid for good. -/
  revoked : Bool
deriving DecidableEq

/-- The store, the calls on their way, and what happened up to now. -/
structure GrantRun where
  store : Store
  clock : ℤ
  /-- `Create` calls that were validated. -/
  creations : Table ℕ Binding
  calls : Table ℕ GrantCall
  /-- The keys of tokens for which `Lock` returned no error. -/
  locked : List String
  revoked : List Binding
  successes : List Success

/-- A critical section, or a login that ends. -/
inductive GrantOp
  /-- `Create` validates the login. -/
  | createFirst (call : ℕ) (binding : Binding) (valid random : Bool)
  /-- The critical section of `Create`. -/
  | createLast (call : ℕ) (key id : String) (readings : List Reading) (now : ℤ)
  /-- `Check` begins. -/
  | check (call : ℕ) (key user session agent : String) (touch : Bool) (reading : Reading)
  /-- `Alive` begins; `Sweep` calls it for the grants that it has left. -/
  | alive (call ref : ℕ)
  /-- `ByID` finds a grant. -/
  | byID (call : ℕ) (id agent username : String) (ref : ℕ)
  /-- The first section of `Alive`. -/
  | activate (call : ℕ) (reading : Reading)
  | validate (call : ℕ) (valid : Bool)
  /-- The last section of `Check` or `Alive`. -/
  | finish (call : ℕ) (reading : Reading) (touched : ℤ)
  | active (ref : ℕ) (reading : Reading)
  | lock (key user session : String)
  /-- The critical section of `Sweep`. -/
  | sweep (readings : List Reading) (now : ℤ)
  /-- A login becomes invalid for good. -/
  | revoke (binding : Binding)

/-- When the clock was read. -/
def GrantOp.readings : GrantOp → List ℤ
  | .createLast _ _ _ readings now | .sweep readings now =>
    now :: readings.flatMap fun reading => [reading.absolute, reading.idle]
  | .check _ _ _ _ _ _ reading | .activate _ reading | .active _ reading =>
    [reading.absolute, reading.idle]
  | .finish _ reading touched => [reading.absolute, reading.idle, touched]
  | _ => []

/-- The grant was locked or replaced, or its deadlines have passed. -/
def GrantRun.closed (run : GrantRun) (ref : ℕ) : Bool :=
  run.store.heap[ref]?.any fun g => decide (g.tokenKey ∈ run.locked ∨
    (∃ newer ∈ run.store.heap.drop (ref + 1), g.binding.Rivals newer.binding) ∨
      g.expiresAt ≤ run.clock ∨ g.idleExpiresAt ≤ run.clock)

/-- The login of the grant is invalid for good. -/
def GrantRun.revokedLogin (run : GrantRun) (ref : ℕ) : Bool :=
  run.store.heap[ref]?.any fun g => decide (g.binding ∈ run.revoked)

/-- A call begins. -/
def GrantRun.enter (run : GrantRun) (call : ℕ) (kind : CallKind) (ref : ℕ) (phase : CallPhase) :
    GrantRun :=
  { run with
    calls := run.calls.upsert call ⟨kind, ref, phase, run.closed ref, run.revokedLogin ref⟩ }

/-- A call is over. -/
def GrantRun.leave (run : GrantRun) (call : ℕ) : GrantRun :=
  { run with calls := run.calls.deleteWhere fun call' _ => call' = call }

/-- A success is put down. -/
def GrantRun.succeed (run : GrantRun) (kind : CallKind) (ref : ℕ) (g : Grant) (reading : Reading)
    (closed revoked : Bool) : GrantRun :=
  { run with
    successes := run.successes ++ [⟨kind, ref, g, reading,
      decide (run.store.grants.find? g.tokenKey = some ref), closed, revoked⟩] }

/-- What the section does. -/
def GrantOp.act (run : GrantRun) : GrantOp → GrantRun
  | .createFirst call binding valid random =>
    if (run.creations.find? call).isSome ∨
        ¬(binding.WellFormed ∧ valid = true ∧ binding ∉ run.revoked ∧ random = true) then run
    else { run with creations := run.creations.upsert call binding }
  | .createLast call key id readings now =>
    match run.creations.find? call with
    | none => run
    | some binding =>
      { run with
        creations := run.creations.deleteWhere fun call' _ => call' = call,
        store := create binding key id readings now run.store }
  | .check call key user session agent touch reading =>
    if (run.calls.find? call).isSome then run
    else
      match checkFirst key user session agent reading run.store with
      | (none, store) => { run with store := store }
      | (some ref, _) => run.enter call (.check user session agent touch) ref .validating
  | .alive call ref =>
    if (run.calls.find? call).isSome ∨ run.store.heap[ref]? = none then run
    else run.enter call .alive ref .found
  | .byID call id agent username ref =>
    if (run.calls.find? call).isSome ∨ findByID id agent username ref run.store = false then run
    else run.enter call (.byID id agent username) ref .found
  | .activate call reading =>
    match run.calls.find? call with
    | none => run
    | some c =>
      if c.phase ≠ .found then run
      else
        match confirm true c.ref reading run.store with
        | (none, store) => { run.leave call with store := store }
        | (some _, _) => { run with calls := run.calls.upsert call { c with phase := .validating } }
  | .validate call valid =>
    match run.calls.find? call with
    | none => run
    | some c =>
      if c.phase ≠ .validating then run
      else
        { run with
          calls := run.calls.upsert call
            { c with phase := .answered (valid && !run.revokedLogin c.ref) } }
  | .finish call reading touched =>
    match run.calls.find? call with
    | none => run
    | some c =>
      match c.phase with
      | .answered valid =>
        match confirm valid c.ref reading run.store with
        | (none, store) => { run.leave call with store := store }
        | (some g, store) =>
          { run.leave call with
            store := if c.kind.touches then touch c.ref touched store else store
          }.succeed c.kind c.ref g reading c.closed c.revoked
      | _ => run
  | .active ref reading =>
    match confirm true ref reading run.store with
    | (none, store) => { run with store := store }
    | (some g, _) => run.succeed .active ref g reading (run.closed ref) (run.revokedLogin ref)
  | .lock key user session =>
    let (done, store) := Workspace.lock key user session run.store
    { run with store := store, locked := if done then key :: run.locked else run.locked }
  | .sweep readings now => { run with store := sweepLocked readings now run.store }
  | .revoke binding => { run with revoked := binding :: run.revoked }

/-- The critical sections. -/
def GrantOp.step (run : GrantRun) (op : GrantOp) : GrantRun :=
  { op.act run with clock := op.readings.foldl max run.clock }

/-- The clock does not go back, and a new token is one that nobody has presented. -/
def Regular (run : GrantRun) (op : GrantOp) : Prop :=
  (∀ time ∈ op.readings, run.clock ≤ time) ∧
    match op with
    | .createLast _ key _ _ _ => key ∉ run.locked ∧ ∀ g ∈ run.store.heap, g.tokenKey ≠ key
    | _ => True

instance (run : GrantRun) (op : GrantOp) : Decidable (Regular run op) := by
  unfold Regular
  cases op <;> exact inferInstanceAs (Decidable (_ ∧ _))

/-- No grant was made. -/
def GrantRun.start (clock : ℤ) : GrantRun := ⟨⟨[], ∅⟩, clock, ∅, ∅, [], [], []⟩

/-! ### Properties -/

/-- The grant was registered and valid in the last section, and it was the one that was asked for.  When
the call began, the grant was not locked or replaced, its deadlines lay ahead, and, unless the call does
not validate the login, the login was not invalid for good. -/
structure Success.Sound (s : Success) : Prop where
  registered : s.registered = true
  valid : s.grant.Valid s.reading
  asked : s.kind.Matches s.grant
  opened : s.closed = false
  login : s.kind ≠ .active → s.revoked = false

/-- The calls are sound; the idle deadline of a grant does not exceed the absolute one; at most one grant
is registered for a machine in a login session; and a grant that is not registered is cancelled. -/
structure Bounded (run : GrantRun) : Prop where
  sound : ∀ s ∈ run.successes, s.Sound
  idle : ∀ (ref : ℕ) (g : Grant), run.store.heap[ref]? = some g → g.idleExpiresAt ≤ g.expiresAt
  single : ∀ (ref ref' : ℕ) (g g' : Grant), run.store.heap[ref]? = some g →
    run.store.heap[ref']? = some g' → run.store.Registered g.tokenKey ref →
      run.store.Registered g'.tokenKey ref' → g.binding.Rivals g'.binding → ref = ref'
  cancelled : ∀ (ref : ℕ) (g : Grant), run.store.heap[ref]? = some g →
    ¬run.store.Registered g.tokenKey ref → g.cancelled = true

/-! ### The invariant -/

/-- The grant can never pass again: it is not registered, or one of its deadlines has passed. -/
def Dead (store : Store) (clock : ℤ) (ref : ℕ) (g : Grant) : Prop :=
  ¬store.Registered g.tokenKey ref ∨ g.expiresAt ≤ clock ∨ g.idleExpiresAt ≤ clock

variable {ref : ℕ} {g : Grant}

theorem Dead.not_valid {store : Store} {clock : ℤ} (h : Dead store clock ref g)
    (hregistered : store.Registered g.tokenKey ref) {reading : Reading}
    (habsolute : clock ≤ reading.absolute) (hidle : clock ≤ reading.idle) : ¬g.Valid reading := by
  rintro ⟨hbefore, hbefore', -⟩
  rcases h with hgone | hpassed | hpassed
  · exact hgone hregistered
  · omega
  · omega

/-- What holds of a call on its way. -/
structure GrantCall.Sound (run : GrantRun) (c : GrantCall) (g : Grant) : Prop where
  stored : run.store.heap[c.ref]? = some g
  asked : c.kind.Matches g
  kind : c.kind ≠ .active
  revoked : c.revoked = true → g.binding ∈ run.revoked
  found : c.phase = .found → c.closed = true → Dead run.store run.clock c.ref g
  validating : c.phase ≠ .found → c.closed = false
  answered : c.phase = .answered true → c.revoked = false

/-- Holds in every reachable state. -/
structure Sane (run : GrantRun) : Prop where
  registry : Registry run.store
  locked : ∀ key ∈ run.locked, ∀ ref, ¬run.store.Registered key ref
  calls : ∀ call c, run.calls.find? call = some c → ∃ g, c.Sound run g
  sound : ∀ s ∈ run.successes, s.Sound

variable {run : GrantRun}

/-- **A grant that was locked or replaced, or whose deadlines have passed, is dead.** -/
theorem Sane.dead (h : Sane run)
    (hg : run.store.heap[ref]? = some g) (hclosed : run.closed ref = true) :
    Dead run.store run.clock ref g := by
  unfold GrantRun.closed at hclosed
  rw [hg, Option.any_some, decide_eq_true_eq] at hclosed
  rcases hclosed with hlocked | ⟨newer, hnewer, hrivals⟩ | hpassed | hpassed
  · exact Or.inl (h.locked _ hlocked ref)
  · obtain ⟨i, hi, rfl⟩ := List.mem_drop_iff_getElem.mp hnewer
    have hi' : ref + 1 + i < run.store.heap.length := by omega
    exact Or.inl (h.registry.newest ref (ref + 1 + i) g _ hg (List.getElem?_eq_getElem hi') (by omega)
      hrivals)
  · exact Or.inr (Or.inl hpassed)
  · exact Or.inr (Or.inr hpassed)

theorem Sane.opened (h : Sane run)
    (hg : run.store.heap[ref]? = some g) (hregistered : run.store.Registered g.tokenKey ref)
    {reading : Reading} (habsolute : run.clock ≤ reading.absolute) (hidle : run.clock ≤ reading.idle)
    (hvalid : g.Valid reading) : run.closed ref = false := by
  cases hclosed : run.closed ref with
  | false => rfl
  | true => exact absurd hvalid ((h.dead hg hclosed).not_valid hregistered habsolute hidle)

theorem revokedLogin_iff (hg : run.store.heap[ref]? = some g) :
    run.revokedLogin ref = true ↔ g.binding ∈ run.revoked := by
  unfold GrantRun.revokedLogin
  rw [hg, Option.any_some, decide_eq_true_eq]

theorem Dead.later {s s' : Store} {clock clock' : ℤ} {g' : Grant}
    (h : Dead s clock ref g) (hg : s.heap[ref]? = some g) (hevolves : Evolves clock s s')
    (hle : clock ≤ clock') (hsame : g.Same g')
    (hidle : g.idleExpiresAt ≤ clock → g'.idleExpiresAt = g.idleExpiresAt) :
    Dead s' clock' ref g' := by
  unfold Dead
  rw [hsame.tokenKey, hsame.expiresAt]
  rcases h with hgone | hpassed | hpassed
  · refine Or.inl fun hregistered => ?_
    rcases hevolves.registered _ _ hregistered with hbefore | hnew
    · exact hgone hbefore
    · have := (List.getElem?_eq_some_iff.mp hg).1
      omega
  · exact Or.inr (Or.inl (by omega))
  · exact Or.inr (Or.inr (by rw [hidle hpassed]; omega))

theorem CallKind.Matches.later {kind : CallKind} {g' : Grant} (h : kind.Matches g) (hsame : g.Same g') :
    kind.Matches g' := by
  unfold CallKind.Matches at h ⊢
  rw [hsame.binding, hsame.id]
  exact h

variable {run' : GrantRun}

/-- A call on its way, at a later time. -/
theorem GrantCall.Sound.later {c : GrantCall} (h : c.Sound run g)
    (hevolves : Evolves run.clock run.store run'.store) (hle : run.clock ≤ run'.clock)
    (hrevoked : ∀ b ∈ run.revoked, b ∈ run'.revoked) : ∃ g', c.Sound run' g' := by
  obtain ⟨g', hg', hsame, hidle⟩ := hevolves.grant c.ref g h.stored
  refine ⟨g', hg', h.asked.later hsame, h.kind, fun htrue => ?_, fun hphase hclosed => ?_, h.validating,
    h.answered⟩
  · rw [hsame.binding]
    exact hrevoked _ (h.revoked htrue)
  · exact (h.found hphase hclosed).later h.stored hevolves hle hsame hidle

/-- The next state is sane, and grants have changed as they may. -/
structure Onward (run run' : GrantRun) : Prop where
  sane : Sane run'
  evolves : Evolves run.clock run.store run'.store

/-- **A section that begins no call** and lets none succeed. -/
theorem Sane.evolve (h : Sane run) (hregistry : Registry run'.store)
    (hevolves : Evolves run.clock run.store run'.store) (hle : run.clock ≤ run'.clock)
    (hlocked : ∀ key ∈ run'.locked, ∀ ref, ¬run'.store.Registered key ref)
    (hrevoked : ∀ b ∈ run.revoked, b ∈ run'.revoked)
    (hcalls : ∀ call c, run'.calls.find? call = some c → run.calls.find? call = some c)
    (hsuccesses : run'.successes = run.successes) : Onward run run' := by
  refine ⟨⟨hregistry, hlocked, fun call c hc => ?_, hsuccesses ▸ h.sound⟩, hevolves⟩
  obtain ⟨g, hg⟩ := h.calls call c (hcalls call c hc)
  exact hg.later hevolves hle hrevoked

theorem Sane.remove (h : Sane run)
    (hremoving : Removing run.clock run.store run'.store) (hle : run.clock ≤ run'.clock)
    (hlocked : run'.locked = run.locked) (hrevoked : run'.revoked = run.revoked)
    (hcalls : ∀ call c, run'.calls.find? call = some c → run.calls.find? call = some c)
    (hsuccesses : run'.successes = run.successes) : Onward run run' :=
  h.evolve hremoving.registry hremoving.evolves hle
    (fun key hkey ref hregistered => h.locked key (hlocked ▸ hkey) ref (hremoving.registered hregistered))
    (fun _ hb => hrevoked ▸ hb) hcalls hsuccesses

theorem find?_leave {call call' : ℕ} {c : GrantCall}
    (h : (run.leave call).calls.find? call' = some c) : run.calls.find? call' = some c := by
  unfold GrantRun.leave at h
  dsimp only at h
  rw [Table.find?_deleteWhere, Option.filter_eq_some_iff] at h
  exact h.1

theorem Sane.proceed (h : Sane run) (hstore : run'.store = run.store)
    (hle : run.clock ≤ run'.clock) (hlocked : run'.locked = run.locked)
    (hrevoked : run'.revoked = run.revoked) (hsuccesses : run'.successes = run.successes) {call : ℕ}
    {c : GrantCall} (hcalls : run'.calls = run.calls.upsert call c) (hc : c.Sound run g) :
    Onward run run' := by
  have hevolves : Evolves run.clock run.store run'.store := hstore ▸ .refl _ _
  refine ⟨⟨hstore ▸ h.registry, ?_, fun call' c' hc' => ?_, hsuccesses ▸ h.sound⟩, hevolves⟩
  · rw [hlocked, hstore]
    exact h.locked
  · rw [hcalls, Table.find?_upsert] at hc'
    split_ifs at hc'
    · obtain rfl := Option.some.inj hc'
      exact hc.later hevolves hle fun b hb => hrevoked ▸ hb
    · obtain ⟨g', hg'⟩ := h.calls call' c' hc'
      exact hg'.later hevolves hle fun b hb => hrevoked ▸ hb

theorem Sane.stay (h : Sane run) (hstore : run'.store = run.store)
    (hle : run.clock ≤ run'.clock) (hlocked : run'.locked = run.locked)
    (hrevoked : run'.revoked = run.revoked) (hcalls : run'.calls = run.calls)
    (hsuccesses : run'.successes = run.successes) : Onward run run' :=
  h.remove (by rw [hstore]; exact ⟨h.registry, .refl _ _, rfl⟩) hle hlocked hrevoked
    (fun _ _ hc => hcalls ▸ hc) hsuccesses

theorem Sane.succeed (h : Sane run) {s : Success} (hs : s.Sound)
    (hstore : run'.store = run.store) (hclock : run'.clock = run.clock)
    (hlocked : run'.locked = run.locked) (hrevoked : run'.revoked = run.revoked)
    (hcalls : run'.calls = run.calls) (hsuccesses : run'.successes = run.successes ++ [s]) :
    Sane run' := by
  refine ⟨hstore ▸ h.registry, by rw [hlocked, hstore]; exact h.locked, fun call c hc => ?_, ?_⟩
  · obtain ⟨g, hg⟩ := h.calls call c (hcalls ▸ hc)
    exact hg.later (hstore ▸ .refl _ _) hclock.ge fun _ hb => hrevoked ▸ hb
  · rw [hsuccesses]
    exact List.forall_mem_append.mpr ⟨h.sound, List.forall_mem_singleton.mpr hs⟩

theorem exists_of_findByID {s : Store} {id agent username : String}
    (h : ¬findByID id agent username ref s = false) :
    ∃ g, s.heap[ref]? = some g ∧ (CallKind.byID id agent username).Matches g := by
  rw [Bool.not_eq_false, findByID, List.any_eq_true] at h
  obtain ⟨row, -, hrow⟩ := h
  rw [Bool.and_eq_true, Option.any_eq_true] at hrow
  obtain ⟨-, g, hg, hasked⟩ := hrow
  rw [decide_eq_true_eq] at hasked
  exact ⟨g, hg, hasked⟩

theorem touched_spec {s : Store} (h : Registry s) (touches : Bool) {clock : ℤ}
    (hg : s.heap[ref]? = some g) (halive : clock < g.idleExpiresAt) (touched : ℤ) :
    Registry (if touches then touch ref touched s else s) ∧
      Evolves clock s (if touches then touch ref touched s else s) ∧
        (if touches then touch ref touched s else s).grants = s.grants := by
  cases touches with
  | false => exact ⟨h, .refl clock s, rfl⟩
  | true =>
    obtain ⟨hregistry, hevolves⟩ := touch_spec h hg halive touched
    exact ⟨hregistry, hevolves, rfl⟩

theorem le_foldl_max (times : List ℤ) (clock : ℤ) : clock ≤ times.foldl max clock := by
  induction times generalizing clock with
  | nil => exact le_rfl
  | cons time times ih => exact (le_max_left clock time).trans (ih _)

section Sections

variable {run : GrantRun} {clock : ℤ}

variable {call : ℕ}

/-- The section of `Create`. -/
theorem Sane.createLast (h : Sane run) (hle : run.clock ≤ clock) {key id : String} {readings : List Reading}
    {now : ℤ} (hfresh : key ∉ run.locked ∧ ∀ g ∈ run.store.heap, g.tokenKey ≠ key) :
    Onward run { GrantOp.act run (.createLast call key id readings now) with clock := clock } := by
  unfold GrantOp.act
  dsimp only
  cases run.creations.find? call with
  | none => exact h.stay rfl hle rfl rfl rfl rfl
  | some binding =>
    obtain ⟨hregistry, hevolves, hregistered⟩ := create_spec h.registry run.clock binding id readings now
      fun ref g hg => hfresh.2 g (List.mem_of_getElem? hg)
    refine h.evolve hregistry hevolves hle (fun key' hkey' ref hnew => ?_) (fun _ hb => hb)
      (fun _ _ hc => hc) rfl
    rcases hregistered key' ref hnew with hbefore | rfl
    · exact h.locked key' hkey' ref hbefore
    · exact hfresh.1 hkey'

variable {reading : Reading}

section

variable (h : Sane run)

include h

/-- The first section of `Check`. -/
theorem Sane.check (hle : run.clock ≤ clock) {key user session agent : String} {touch : Bool}
    (habsolute : run.clock ≤ reading.absolute) (hidle : run.clock ≤ reading.idle) :
    Onward run { GrantOp.act run (.check call key user session agent touch reading) with clock := clock } := by
  unfold GrantOp.act
  dsimp only
  by_cases htaken : (run.calls.find? call).isSome = true
  · rw [if_pos htaken]
    exact h.stay rfl hle rfl rfl rfl rfl
  rw [if_neg htaken]
  obtain ⟨hremoving, hfound⟩ := checkFirst_spec h.registry run.clock key user session agent reading
  generalize checkFirst key user session agent reading run.store = first at hremoving hfound
  obtain ⟨_ | ref, store⟩ := first
  · exact h.remove hremoving hle rfl rfl (fun _ _ hc => hc) rfl
  · obtain ⟨-, hregistered, g, hg, huser, hsession, hagent, hvalid⟩ := hfound ref rfl
    have hkey := (h.registry.tokenKey_eq hregistered hg).1
    have hopened := h.opened hg (hkey.symm ▸ hregistered) habsolute hidle hvalid
    refine h.proceed rfl hle rfl rfl rfl rfl (g := g) ⟨hg, ⟨huser, hsession, hagent⟩,
      (fun hactive => by cases hactive), (revokedLogin_iff hg).mp, (fun hphase => by cases hphase),
      fun _ => hopened, (fun hphase => by cases hphase)⟩

/-- `Alive` begins. -/
theorem Sane.alive (hle : run.clock ≤ clock) {ref : ℕ} :
    Onward run { GrantOp.act run (.alive call ref) with clock := clock } := by
  unfold GrantOp.act
  dsimp only
  split_ifs with hrefused
  · exact h.stay rfl hle rfl rfl rfl rfl
  · obtain ⟨g, hg⟩ := Option.ne_none_iff_exists'.mp (not_or.mp hrefused).2
    exact h.proceed rfl hle rfl rfl rfl rfl (g := g) ⟨hg, trivial, (fun hactive => by cases hactive),
      (revokedLogin_iff hg).mp, fun _ hclosed => h.dead hg hclosed, fun hphase => absurd rfl hphase,
      (fun hphase => by cases hphase)⟩

/-- `ByID` finds a grant. -/
theorem Sane.byID (hle : run.clock ≤ clock) {ref : ℕ} {id agent username : String} :
    Onward run { GrantOp.act run (.byID call id agent username ref) with clock := clock } := by
  unfold GrantOp.act
  dsimp only
  split_ifs with hrefused
  · exact h.stay rfl hle rfl rfl rfl rfl
  · obtain ⟨g, hg, hasked⟩ := exists_of_findByID (not_or.mp hrefused).2
    exact h.proceed rfl hle rfl rfl rfl rfl (g := g) ⟨hg, hasked, (fun hactive => by cases hactive),
      (revokedLogin_iff hg).mp, fun _ hclosed => h.dead hg hclosed, fun hphase => absurd rfl hphase,
      (fun hphase => by cases hphase)⟩

/-- The first section of `Alive`. -/
theorem Sane.activate (hle : run.clock ≤ clock)
    (habsolute : run.clock ≤ reading.absolute) (hidle : run.clock ≤ reading.idle) :
    Onward run { GrantOp.act run (.activate call reading) with clock := clock } := by
  unfold GrantOp.act
  dsimp only
  cases hc : run.calls.find? call with
  | none => exact h.stay rfl hle rfl rfl rfl rfl
  | some c =>
    dsimp only
    by_cases hphase : c.phase = .found
    swap
    · rw [if_pos hphase]
      exact h.stay rfl hle rfl rfl rfl rfl
    rw [if_neg (not_not.mpr hphase)]
    obtain ⟨hremoving, hpassed⟩ := confirm_spec h.registry run.clock true c.ref reading
    generalize confirm true c.ref reading run.store = result at hremoving hpassed
    obtain ⟨_ | g, store⟩ := result
    · exact h.remove hremoving hle rfl rfl (fun _ _ hc' => find?_leave hc') rfl
    · obtain ⟨-, -, hg, hregistered, hvalid⟩ := hpassed g rfl
      obtain ⟨g', hsound⟩ := h.calls call c hc
      obtain rfl := Option.some.inj (hg.symm.trans hsound.stored)
      have hopened : c.closed = false := by
        -- a grant that was closed when the call began is dead, and does not pass
        cases hclosed : c.closed with
        | false => rfl
        | true =>
          exact absurd hvalid
            ((hsound.found hphase hclosed).not_valid hregistered habsolute hidle)
      exact h.proceed rfl hle rfl rfl rfl rfl (g := g) ⟨hg, hsound.asked, hsound.kind, hsound.revoked,
        (fun hfound => by cases hfound), fun _ => hopened, (fun hanswered => by cases hanswered)⟩

/-- The login is validated. -/
theorem Sane.validate (hle : run.clock ≤ clock) {valid : Bool} :
    Onward run { GrantOp.act run (.validate call valid) with clock := clock } := by
  unfold GrantOp.act
  dsimp only
  cases hc : run.calls.find? call with
  | none => exact h.stay rfl hle rfl rfl rfl rfl
  | some c =>
    dsimp only
    by_cases hphase : c.phase = .validating
    swap
    · rw [if_pos hphase]
      exact h.stay rfl hle rfl rfl rfl rfl
    rw [if_neg (not_not.mpr hphase)]
    obtain ⟨g, hsound⟩ := h.calls call c hc
    refine h.proceed rfl hle rfl rfl rfl rfl (g := g) ⟨hsound.stored, hsound.asked, hsound.kind,
      hsound.revoked, (fun hfound => by cases hfound), fun _ => hsound.validating (by simp [hphase]),
      fun hanswered => ?_⟩
    -- the login is not invalid for good now, so it was not when the call began
    have hvalid : run.revokedLogin c.ref = false := by
      simp only [CallPhase.answered.injEq, Bool.and_eq_true, Bool.not_eq_true'] at hanswered
      exact hanswered.2
    cases hrevoked : c.revoked with
    | false => rfl
    | true =>
      rw [(revokedLogin_iff hsound.stored).mpr (hsound.revoked hrevoked)] at hvalid
      cases hvalid

/-- The last section of `Check` and `Alive`. -/
theorem Sane.finish (hle : run.clock ≤ clock) {touched : ℤ} (hidle : run.clock ≤ reading.idle) :
    Onward run { GrantOp.act run (.finish call reading touched) with clock := clock } := by
  unfold GrantOp.act
  dsimp only
  cases hc : run.calls.find? call with
  | none => exact h.stay rfl hle rfl rfl rfl rfl
  | some c =>
    dsimp only
    cases hphase : c.phase with
    | found => exact h.stay rfl hle rfl rfl rfl rfl
    | validating => exact h.stay rfl hle rfl rfl rfl rfl
    | answered valid =>
      dsimp only
      obtain ⟨hremoving, hpassed⟩ := confirm_spec h.registry run.clock valid c.ref reading
      generalize confirm valid c.ref reading run.store = result at hremoving hpassed
      obtain ⟨_ | g, store⟩ := result
      · exact h.remove hremoving hle rfl rfl (fun _ _ hc' => find?_leave hc') rfl
      · obtain ⟨hsame, rfl, hg, hregistered, hvalid⟩ := hpassed g rfl
        dsimp only at hsame
        subst hsame
        obtain ⟨g', hsound⟩ := h.calls call c hc
        obtain rfl := Option.some.inj (hg.symm.trans hsound.stored)
        obtain ⟨hregistry, hevolves, hgrants⟩ := touched_spec h.registry c.kind.touches hg
          (hidle.trans_lt hvalid.2.1) touched
        dsimp only
        generalize (if c.kind.touches then touch c.ref touched run.store else run.store) = store
          at hregistry hevolves hgrants ⊢
        have hbefore : Onward run { run.leave call with store := store, clock := clock } := by
          refine h.evolve hregistry hevolves hle (fun key hkey ref => ?_) (fun _ hb => hb)
            (fun _ _ hc' => find?_leave hc') rfl
          show ¬store.Registered key ref
          rw [Store.Registered, hgrants]
          exact h.locked key hkey ref
        refine ⟨hbefore.sane.succeed ?_ rfl rfl rfl rfl rfl rfl, hbefore.evolves⟩
        · refine ⟨decide_eq_true ?_, hvalid, hsound.asked, hsound.validating (by simp [hphase]),
            fun _ => hsound.answered hphase⟩
          rw [hgrants]
          exact hregistered

/-- `Active`. -/
theorem Sane.active (hle : run.clock ≤ clock) {ref : ℕ}
    (habsolute : run.clock ≤ reading.absolute) (hidle : run.clock ≤ reading.idle) :
    Onward run { GrantOp.act run (.active ref reading) with clock := clock } := by
  unfold GrantOp.act
  dsimp only
  obtain ⟨hremoving, hpassed⟩ := confirm_spec h.registry run.clock true ref reading
  generalize confirm true ref reading run.store = result at hremoving hpassed
  obtain ⟨_ | g, store⟩ := result
  · exact h.remove hremoving hle rfl rfl (fun _ _ hc => hc) rfl
  · obtain ⟨-, -, hg, hregistered, hvalid⟩ := hpassed g rfl
    have hbefore : Onward run { run with clock := clock } := h.stay rfl hle rfl rfl rfl rfl
    have hsound : Success.Sound ⟨.active, ref, g, reading,
        decide (run.store.grants.find? g.tokenKey = some ref), run.closed ref, run.revokedLogin ref⟩ :=
      ⟨decide_eq_true hregistered, hvalid, trivial, h.opened hg hregistered habsolute hidle hvalid,
        fun hactive => absurd rfl hactive⟩
    exact ⟨hbefore.sane.succeed hsound rfl rfl rfl rfl rfl rfl, hbefore.evolves⟩

/-- `Lock`. -/
theorem Sane.lock (hle : run.clock ≤ clock) {key user session : String} :
    Onward run { GrantOp.act run (.lock key user session) with clock := clock } := by
  unfold GrantOp.act
  dsimp only
  obtain ⟨hremoving, hlocks⟩ := lock_spec h.registry run.clock key user session
  refine h.evolve hremoving.registry hremoving.evolves hle (fun key' hkey' ref hregistered => ?_)
    (fun _ hb => hb) (fun _ _ hc => hc) rfl
  dsimp only at hkey' hregistered
  split_ifs at hkey' with hdone
  · rcases List.mem_cons.mp hkey' with rfl | hkey'
    · exact hlocks hdone ref hregistered
    · exact h.locked key' hkey' ref (hremoving.registered hregistered)
  · exact h.locked key' hkey' ref (hremoving.registered hregistered)

end

end Sections

/-- **A section keeps the run sane, and changes grants as it may.** -/
theorem Sane.onward (h : Sane run) {op : GrantOp} (hregular : Regular run op) :
    Onward run (op.step run) := by
  obtain ⟨htimes, hfresh⟩ := hregular
  have hle := le_foldl_max op.readings run.clock
  unfold GrantOp.step
  generalize op.readings.foldl max run.clock = clock at hle
  cases op with
  | createFirst call binding valid random =>
    unfold GrantOp.act
    dsimp only
    split_ifs
    · exact h.stay rfl hle rfl rfl rfl rfl
    · exact h.stay rfl hle rfl rfl rfl rfl
  | createLast call key id readings now => exact h.createLast hle hfresh
  | check call key user session agent touch reading =>
    exact h.check hle (htimes _ (by simp [GrantOp.readings])) (htimes _ (by simp [GrantOp.readings]))
  | alive call ref => exact h.alive hle
  | byID call id agent username ref => exact h.byID hle
  | activate call reading =>
    exact h.activate hle (htimes _ (by simp [GrantOp.readings])) (htimes _ (by simp [GrantOp.readings]))
  | validate call valid => exact h.validate hle
  | finish call reading touched => exact h.finish hle (htimes _ (by simp [GrantOp.readings]))
  | active ref reading =>
    exact h.active hle (htimes _ (by simp [GrantOp.readings])) (htimes _ (by simp [GrantOp.readings]))
  | lock key user session => exact h.lock hle
  | sweep readings now =>
    exact h.remove (removing_removeWhere h.registry run.clock _) hle rfl rfl (fun _ _ hc => hc) rfl
  | revoke binding =>
    exact h.evolve h.registry (.refl _ _) hle h.locked (fun _ hb => List.mem_cons_of_mem _ hb)
      (fun _ _ hc => hc) rfl

theorem Sane.step (h : Sane run) {op : GrantOp} (hregular : Regular run op) : Sane (op.step run) :=
  (h.onward hregular).sane

/-! ### Runs -/

theorem sane_start (clock : ℤ) : Sane (.start clock) := by
  have hnone : ∀ {key : String} {ref : ℕ}, ¬(GrantRun.start clock).store.Registered key ref := by
    intro key ref hregistered
    cases hregistered
  refine ⟨⟨?_, ?_, ?_, ?_, ?_⟩, (fun key hkey => by cases hkey), (fun call c hc => by cases hc),
    (fun s hs => by cases hs)⟩
  · exact fun key ref hregistered => absurd hregistered hnone
  · exact fun ref g hg => by cases hg
  · exact fun ref ref' g g' hg => by cases hg
  · exact fun ref g hg => by cases hg
  · exact fun ref ref' g g' hg => by cases hg

theorem Binding.Rivals.symm {b b' : Binding} (h : b.Rivals b') : b'.Rivals b := ⟨h.1.symm, h.2.symm⟩

theorem Sane.bounded (h : Sane run) : Bounded run := by
  refine ⟨h.sound, h.registry.idle, fun ref ref' g g' hg hg' hregistered hregistered' hrivals => ?_,
    h.registry.cancelled⟩
  rcases lt_trichotomy ref ref' with hlt | heq | hgt
  · exact absurd hregistered (h.registry.newest ref ref' g g' hg hg' hlt hrivals)
  · exact heq
  · exact absurd hregistered' (h.registry.newest ref' ref g' g hg' hg hgt hrivals.symm)

/-- The grant was made, and it is not registered. -/
def Removed (run : GrantRun) (ref : ℕ) : Prop :=
  ref < run.store.heap.length ∧ ∀ key, ¬run.store.Registered key ref

/-- **What was removed stays removed.** -/
theorem Sane.removed (h : Sane run) {op : GrantOp} (hregular : Regular run op)
    (hremoved : Removed run ref) : Removed (op.step run) ref := by
  obtain ⟨hlt, hgone⟩ := hremoved
  have hevolves := (h.onward hregular).evolves
  refine ⟨hlt.trans_le hevolves.length_le, fun key hregistered => ?_⟩
  rcases hevolves.registered key ref hregistered with hbefore | hnew
  · exact hgone key hbefore
  · omega

theorem Sane.removed_of_not_registered (h : Sane run)
    (hg : run.store.heap[ref]? = some g) (hgone : ¬run.store.Registered g.tokenKey ref) :
    Removed run ref := by
  refine ⟨(List.getElem?_eq_some_iff.mp hg).1, fun key hregistered => hgone ?_⟩
  rwa [(h.registry.tokenKey_eq hregistered hg).1]

/-- **A grant does not outlive its bounds**, however the calls interleave; and what is removed is never
registered again. -/
theorem grants_bounded {clock : ℤ} {ops later : List GrantOp}
    (hregular : Run.Along GrantOp.step Regular (.start clock) (ops ++ later)) :
    Bounded (ops.foldl GrantOp.step (.start clock)) ∧
      ∀ (ref : ℕ) (g : Grant), (ops.foldl GrantOp.step (.start clock)).store.heap[ref]? = some g →
        ¬(ops.foldl GrantOp.step (.start clock)).store.Registered g.tokenKey ref →
          ∀ key, ¬((ops ++ later).foldl GrantOp.step (.start clock)).store.Registered key ref := by
  obtain ⟨hbefore, hafter⟩ := Run.Along.append.mp hregular
  have hsane : Sane (ops.foldl GrantOp.step (.start clock)) :=
    hbefore.invariant (fun _ _ h hgood => h.step hgood) (sane_start clock)
  refine ⟨hsane.bounded, fun ref g hg hgone key => ?_⟩
  rw [List.foldl_append]
  have hremoved : Sane _ ∧ Removed _ ref :=
    @Run.Along.invariant _ _ _ _ (fun run => Sane run ∧ Removed run ref)
      (fun _ _ h hgood => ⟨h.1.step hgood, h.1.removed hgood h.2⟩) _ _ hafter
        ⟨hsane, hsane.removed_of_not_registered hg hgone⟩
  exact hremoved.2.2 key

/-! ### Runs with one grant -/

def nodeBinding : Binding := ⟨"user", "session", "node", "root"⟩

/-- A confirmed password. -/
def unlockOps : List GrantOp := [.createFirst 0 nodeBinding true true, .createLast 0 "#1" "g1" [] 0]

/-- A lock, with its grant. -/
def lockedOps : List GrantOp :=
  unlockOps ++ [GrantOp.check 1 "#1" "user" "session" "node" true ⟨1, 1⟩, .validate 1 true,
    .finish 1 ⟨2, 2⟩ 2, .lock "#1" "user" "session"]

theorem grants_bounded_locked :
    (lockedOps.foldl GrantOp.step (.start 0)).successes.map Success.ref = [0] ∧
      Bounded (lockedOps.foldl GrantOp.step (.start 0)) ∧
        ¬((lockedOps ++ [GrantOp.check 2 "#1" "user" "session" "node" true ⟨3, 3⟩]).foldl GrantOp.step
          (.start 0)).store.Registered "#1" 0 := by
  have hbounded := @grants_bounded 0 lockedOps [GrantOp.check 2 "#1" "user" "session" "node" true ⟨3, 3⟩]
    (by decide +kernel)
  refine ⟨by decide +kernel, hbounded.1, ?_⟩
  exact hbounded.2 0 _ (by rfl) (by unfold Store.Registered; decide +kernel) "#1"

/-- `Check` is called without a machine; then the login becomes invalid for good. -/
def looseOps : List GrantOp :=
  unlockOps ++ [GrantOp.check 1 "#1" "user" "session" "" false ⟨1, 1⟩, .validate 1 true, .finish 1 ⟨2, 2⟩ 2,
    .revoke nodeBinding, .active 0 ⟨3, 3⟩]

/-- **The presented machine was not the one that the grant is bound to**; and a call that began when the
login was invalid for good has succeeded. -/
theorem loose_calls :
    Run.Along GrantOp.step Regular (.start 0) looseOps ∧
      ((looseOps.foldl GrantOp.step (.start 0)).successes.map fun s =>
        (s.kind, s.grant.binding.agentID, s.revoked)) =
          [(CallKind.check "user" "session" "" false, "node", false), (CallKind.active, "node", true)] := by
  decide +kernel

end Workspace

end Komari
