import Komari.Run.Along
import Komari.Run.Past
import Mathlib.Data.Int.Notation
import Mathlib.Data.List.Induction

/-!
# Offline and online notices

The notices of one client.  The end of a connection starts a timer; if the client is not back when it fires,
an offline notice is sent.

* `alternates_of_along` : it holds as long as the end of a connection is not reported again after its notice.
-/

namespace Komari

namespace Notifier

/-! ### The state of a client -/

/-- What is known of a client. -/
structure NotificationState where
  pendingOfflineSince : Option ℤ
  isFirstConnection : Bool
  isConnExist : Bool
  connectionID : ℤ
deriving DecidableEq

/-- `getOrInitState`, of a client that is not known. -/
def NotificationState.initial : NotificationState := ⟨none, true, false, 0⟩

/-- A connection ended; a timer may start. -/
def beginOfflineGrace (state : NotificationState) (endedConnectionID now : ℤ) : NotificationState × Bool :=
  if state.pendingOfflineSince ≠ none ∨ state.connectionID ≠ endedConnectionID then (state, false)
  else ({ state with pendingOfflineSince := some now }, true)

/-- `recordOnlineConnection`, with `notifyOnline` and `duplicate`. -/
def recordOnlineConnection (state : NotificationState) (connectionID : ℤ) :
    NotificationState × Bool × Bool :=
  if state.isFirstConnection then (⟨none, false, true, connectionID⟩, false, false)
  else if state.pendingOfflineSince ≠ none then
    (⟨none, false, state.isConnExist, connectionID⟩, false, false)
  else if state.isConnExist then (⟨none, false, true, connectionID⟩, false, true)
  else (⟨none, false, true, connectionID⟩, true, false)

/-- What the goroutine of `OfflineNotification` does after the grace period: whether it sends a notice. -/
def fireOfflineTimer (state : NotificationState) (expectedConnectionID : ℤ) : NotificationState × Bool :=
  if state.pendingOfflineSince = none ∨ state.connectionID ≠ expectedConnectionID then (state, false)
  else ({ state with pendingOfflineSince := none, isConnExist := false }, true)

/-! ### Runs -/

/-- A goroutine that sleeps. -/
structure Timer where
  startTime : ℤ
  expectedConnectionID : ℤ
deriving DecidableEq

/-- What happens next. -/
inductive Step
  | online (connectionID : ℤ)
  /-- The end of a connection is reported. -/
  | offline (endedConnectionID now : ℤ)
  | timer (timer : Timer) (now : ℤ)
deriving DecidableEq

/-- What happened. -/
inductive Event
  /-- A connection was recorded, with an online notice or without. -/
  | recorded (connectionID : ℤ) (notifyOnline : Bool)
  /-- The end of a connection was reported. -/
  | ended (connectionID now : ℤ)
  /-- An offline notice was sent. -/
  | notice (connectionID now : ℤ)
deriving DecidableEq

/-- The connection that was recorded. -/
def Event.recordedID : Event → Option ℤ
  | .recorded connectionID _ => some connectionID
  | _ => none

/-- It is an offline notice. -/
def Event.isNotice : Event → Bool
  | .notice _ _ => true
  | _ => false

/-- The state, the goroutines that sleep, and the log, the newest event first. -/
structure World where
  state : NotificationState
  timers : List Timer
  log : List Event
deriving DecidableEq

/-- Nothing happened. -/
def World.initial : World := ⟨.initial, [], []⟩

section

variable (gracePeriod : ℤ)

/-- A goroutine sleeps for the grace period, or longer. -/
def World.step (w : World) : Step → World
  | .online connectionID =>
    let (state, notifyOnline, _) := recordOnlineConnection w.state connectionID
    ⟨state, w.timers, .recorded connectionID notifyOnline :: w.log⟩
  | .offline endedConnectionID now =>
    let (state, accepted) := beginOfflineGrace w.state endedConnectionID now
    ⟨state, if accepted then ⟨now, endedConnectionID⟩ :: w.timers else w.timers,
      .ended endedConnectionID now :: w.log⟩
  | .timer timer now =>
    if timer ∈ w.timers ∧ timer.startTime + gracePeriod ≤ now then
      let (state, sent) := fireOfflineTimer w.state timer.expectedConnectionID
      ⟨state, w.timers.erase timer,
        if sent then .notice timer.expectedConnectionID now :: w.log else w.log⟩
    else w

/-- The world after some steps. -/
def run (steps : List Step) : World := steps.foldl (World.step gracePeriod) .initial

end

/-- The current connection. -/
def current (log : List Event) : Option ℤ := log.findSome? Event.recordedID

/-- What happened on the current connection. -/
def recent (log : List Event) : List Event := log.takeWhile fun e => e.recordedID.isNone

/-- An event may follow the log before it. -/
def Due (gracePeriod : ℤ) (e : Event) (log : List Event) : Prop :=
  match e with
  | .notice connectionID now =>
    current log = some connectionID ∧ (recent log).countP Event.isNotice = 0 ∧
      ∃ t, .ended connectionID t ∈ recent log ∧ t + gracePeriod ≤ now
  | .recorded _ notifyOnline => notifyOnline = true ↔ ∃ e ∈ recent log, e.isNotice
  | .ended _ _ => True

/-- Each notice is due; and if the connection that was recorded last was reported
ended, then there was one notice since then, or a goroutine sleeps that will send one. -/
structure Alternates (gracePeriod : ℤ) (w : World) : Prop where
  due : Run.Justified (Due gracePeriod) w.log
  /-- The end of a connection is followed by one notice. -/
  follows : ∀ connectionID, current w.log = some connectionID →
    (∃ t, .ended connectionID t ∈ recent w.log) →
      (recent w.log).countP Event.isNotice = 1 ∨
      (recent w.log).countP Event.isNotice = 0 ∧ ∃ t, .ended connectionID t ∈ recent w.log ∧
        ⟨t, connectionID⟩ ∈ w.timers ∧ ∀ now, t + gracePeriod ≤ now →
          (w.step gracePeriod (.timer ⟨t, connectionID⟩ now)).log = .notice connectionID now :: w.log

/-- The connections that were recorded, the newest first. -/
def recordedIDs (log : List Event) : List ℤ := log.filterMap Event.recordedID

/-- A connection that is recorded has an id of its own. -/
def Unique (w : World) : Step → Prop
  | .online connectionID => connectionID ∉ recordedIDs w.log
  | _ => True

/-- The end of a connection is reported again after its notice, and before another one is recorded. -/
def Repeated (w : World) : Step → Prop
  | .offline endedConnectionID _ => w.state.connectionID = endedConnectionID ∧
      w.state.pendingOfflineSince = none ∧ w.state.isConnExist = false
  | _ => False

instance : ∀ (w : World) (i : Step), Decidable (Unique w i)
  | w, .online connectionID => inferInstanceAs (Decidable (connectionID ∉ recordedIDs w.log))
  | _, .offline _ _ | _, .timer _ _ => inferInstanceAs (Decidable True)

instance : ∀ (w : World) (i : Step), Decidable (Repeated w i)
  | w, .offline endedConnectionID _ => inferInstanceAs (Decidable (w.state.connectionID = endedConnectionID ∧
      w.state.pendingOfflineSince = none ∧ w.state.isConnExist = false))
  | _, .online _ | _, .timer _ _ => inferInstanceAs (Decidable False)

/-! ### Logs -/

@[simp] theorem current_recorded (c : ℤ) (b : Bool) (log : List Event) :
    current (.recorded c b :: log) = some c := rfl

@[simp] theorem current_ended (c now : ℤ) (log : List Event) : current (.ended c now :: log) = current log := rfl

@[simp] theorem current_notice (c now : ℤ) (log : List Event) : current (.notice c now :: log) = current log := rfl

@[simp] theorem recent_recorded (c : ℤ) (b : Bool) (log : List Event) :
    recent (.recorded c b :: log) = [] := rfl

@[simp] theorem recent_ended (c now : ℤ) (log : List Event) :
    recent (.ended c now :: log) = .ended c now :: recent log := rfl

@[simp] theorem recent_notice (c now : ℤ) (log : List Event) :
    recent (.notice c now :: log) = .notice c now :: recent log := rfl

@[simp] theorem isNotice_ended (c now : ℤ) : (Event.ended c now).isNotice = false := rfl

@[simp] theorem isNotice_notice (c now : ℤ) : (Event.notice c now).isNotice = true := rfl

/-! ### The invariant -/

variable {gracePeriod : ℤ} {w : World}

/-- The state agrees with the log. -/
structure Inv (w : World) : Prop where
  /-- The connection that was recorded last. -/
  id : current w.log = if w.state.isFirstConnection then none else some w.state.connectionID
  /-- It exists until a notice is sent. -/
  count : (recent w.log).countP Event.isNotice =
    if w.state.isFirstConnection ∨ w.state.isConnExist then 0 else 1
  /-- The first connection makes it exist. -/
  exist : w.state.isConnExist = true → w.state.isFirstConnection = false
  /-- A connection that is pending was reported ended, and a goroutine sleeps. -/
  pending : ∀ t, w.state.pendingOfflineSince = some t → w.state.isConnExist = true ∧
    .ended w.state.connectionID t ∈ recent w.log ∧ ⟨t, w.state.connectionID⟩ ∈ w.timers
  /-- A connection that exists and is not pending was not reported ended. -/
  quiet : w.state.isConnExist = true → w.state.pendingOfflineSince = none →
    ∀ t, .ended w.state.connectionID t ∉ recent w.log
  /-- A goroutine of the connection sleeps for what is pending. -/
  timers : ∀ timer ∈ w.timers, timer.expectedConnectionID = w.state.connectionID →
    w.state.pendingOfflineSince = some timer.startTime
  nodup : w.timers.Nodup

theorem inv_initial : Inv .initial :=
  ⟨rfl, rfl, by simp [World.initial, NotificationState.initial],
    by simp [World.initial, NotificationState.initial], by simp [World.initial, NotificationState.initial],
    by simp [World.initial], List.nodup_nil⟩

theorem Inv.pending_eq_none (h : Inv w) (hexist : w.state.isConnExist = false) :
    w.state.pendingOfflineSince = none := by
  cases hpending : w.state.pendingOfflineSince with
  | none => rfl
  | some t =>
    rw [(h.pending t hpending).1] at hexist
    cases hexist

theorem recordOnlineConnection_spec (h : Inv w) (c : ℤ) :
    (recordOnlineConnection w.state c).1 = ⟨none, false, true, c⟩ ∧
      ((recordOnlineConnection w.state c).2.1 = true ↔ ∃ e ∈ recent w.log, e.isNotice) := by
  have hcount : (∃ e ∈ recent w.log, e.isNotice) ↔
      w.state.isFirstConnection = false ∧ w.state.isConnExist = false := by
    rw [← List.countP_pos_iff, h.count]
    cases w.state.isFirstConnection <;> cases w.state.isConnExist <;> simp
  rw [hcount, recordOnlineConnection]
  cases hfirst : w.state.isFirstConnection with
  | true => simp
  | false =>
    cases hexist : w.state.isConnExist with
    | true => by_cases hpending : w.state.pendingOfflineSince = none <;> simp [hpending]
    | false => simp [h.pending_eq_none hexist]

/-- A connection is recorded, for which no goroutine sleeps. -/
theorem Inv.online (h : Inv w) {c : ℤ} (hfresh : ∀ timer ∈ w.timers, timer.expectedConnectionID ≠ c) :
    Inv (w.step gracePeriod (.online c)) := by
  have hstate := (recordOnlineConnection_spec h c).1
  simp only [World.step, hstate]
  exact ⟨rfl, rfl, fun _ => rfl, fun t ht => (nomatch ht), fun _ _ t ht => (nomatch ht),
    fun timer htimer heq => absurd heq (hfresh timer htimer), h.nodup⟩

theorem Inv.offline (h : Inv w) {c now : ℤ} (hnot : ¬Repeated w (.offline c now)) :
    Inv (w.step gracePeriod (.offline c now)) := by
  by_cases hreject : w.state.pendingOfflineSince ≠ none ∨ w.state.connectionID ≠ c
  · -- the log alone changes
    simp only [World.step, beginOfflineGrace, if_pos hreject, Bool.false_eq_true, if_false]
    refine ⟨h.id, by simpa using h.count, h.exist, fun t ht => ?_, fun hexist hpending t => ?_, h.timers,
      h.nodup⟩
    · obtain ⟨hexist, hended, htimer⟩ := h.pending t ht
      exact ⟨hexist, List.mem_cons_of_mem _ hended, htimer⟩
    · have hne : w.state.connectionID ≠ c := hreject.resolve_left (not_not.mpr hpending)
      simp [h.quiet hexist hpending t, hne]
  · -- the connection becomes pending, and a goroutine starts
    simp only [World.step, beginOfflineGrace, if_neg hreject, if_true]
    obtain ⟨hpending, rfl⟩ : w.state.pendingOfflineSince = none ∧ w.state.connectionID = c := by
      simpa using hreject
    have hexist : w.state.isConnExist = true := by
      by_contra hexist
      exact hnot ⟨rfl, hpending, Bool.eq_false_iff.mpr hexist⟩
    have hnone : ∀ timer ∈ w.timers, timer.expectedConnectionID ≠ w.state.connectionID := by
      intro timer htimer heq
      have hsome := h.timers timer htimer heq
      rw [hpending] at hsome
      cases hsome
    refine ⟨h.id, by simpa using h.count, h.exist, fun t ht => ?_, fun _ hpending' => (nomatch hpending'),
      fun timer htimer heq => ?_, ?_⟩
    · obtain rfl : now = t := Option.some.inj ht
      exact ⟨hexist, List.mem_cons_self, List.mem_cons_self⟩
    · rcases List.mem_cons.mp htimer with rfl | htimer
      · rfl
      · exact absurd heq (hnone timer htimer)
    · exact List.nodup_cons.mpr ⟨fun hmem => hnone _ hmem rfl, h.nodup⟩

theorem Inv.timer (h : Inv w) (timer : Timer) (now : ℤ) :
    Inv (w.step gracePeriod (.timer timer now)) := by
  rw [World.step]
  split_ifs with hdue
  · by_cases hstale : w.state.pendingOfflineSince = none ∨
        w.state.connectionID ≠ timer.expectedConnectionID
    · -- the connection is another one, or is not pending
      simp only [fireOfflineTimer, if_pos hstale, Bool.false_eq_true, if_false]
      refine ⟨h.id, h.count, h.exist, fun t ht => ?_, h.quiet, fun t ht => ?_, h.nodup.erase _⟩
      · obtain ⟨hexist, hended, htimer⟩ := h.pending t ht
        have hne : w.state.connectionID ≠ timer.expectedConnectionID := by
          refine hstale.resolve_left fun hnone => ?_
          rw [hnone] at ht
          cases ht
        exact ⟨hexist, hended, (List.mem_erase_of_ne fun heq =>
          hne (congrArg Timer.expectedConnectionID heq)).mpr htimer⟩
      · exact h.timers t (List.mem_of_mem_erase ht)
    · -- the notice is sent
      simp only [fireOfflineTimer, if_neg hstale, if_true]
      obtain ⟨hpending, heq⟩ : w.state.pendingOfflineSince ≠ none ∧
          w.state.connectionID = timer.expectedConnectionID := by simpa using hstale
      have hsome := h.timers timer hdue.1 heq.symm
      obtain ⟨hexist, -, -⟩ := h.pending _ hsome
      refine ⟨h.id, ?_, fun hexist' => (nomatch hexist'), fun t ht => (nomatch ht),
        fun hexist' => (nomatch hexist'), fun t ht heq' => ?_, h.nodup.erase _⟩
      · have hcount := h.count
        simp only [hexist, or_true, if_true] at hcount
        simp [List.countP_cons, hcount, h.exist hexist]
      · -- it was the only goroutine of the connection
        have hmem := (h.nodup.mem_erase_iff.mp ht)
        refine absurd ?_ hmem.1
        have hstart := Option.some.inj ((h.timers t hmem.2 heq').symm.trans hsome)
        obtain ⟨start, expected⟩ := t
        obtain ⟨start', expected'⟩ := timer
        exact congrArg₂ Timer.mk hstart (heq'.trans heq)
  · exact h

/-! ### Notices -/

/-- What a step adds to the log is due. -/
theorem Inv.due (h : Inv w) (hdue : Run.Justified (Due gracePeriod) w.log) (i : Step) :
    Run.Justified (Due gracePeriod) (w.step gracePeriod i).log := by
  cases i with
  | online c => exact ⟨(recordOnlineConnection_spec h c).2, hdue⟩
  | offline c now => exact ⟨trivial, hdue⟩
  | timer timer now =>
    rw [World.step]
    split_ifs with hfire
    · by_cases hstale : w.state.pendingOfflineSince = none ∨
          w.state.connectionID ≠ timer.expectedConnectionID
      · simp only [fireOfflineTimer, if_pos hstale, Bool.false_eq_true, if_false]
        exact hdue
      · simp only [fireOfflineTimer, if_neg hstale, if_true]
        obtain ⟨-, heq⟩ : w.state.pendingOfflineSince ≠ none ∧
            w.state.connectionID = timer.expectedConnectionID := by simpa using hstale
        have hsome := h.timers timer hfire.1 heq.symm
        obtain ⟨hexist, hended, -⟩ := h.pending _ hsome
        refine ⟨⟨?_, ?_, timer.startTime, heq ▸ hended, hfire.2⟩, hdue⟩
        · rw [h.id, h.exist hexist, ← heq]
          rfl
        · rw [h.count, if_pos (.inr hexist)]
    · exact hdue

/-- The end of the connection that was recorded last is followed by one notice. -/
theorem Inv.followed (h : Inv w) {c : ℤ} (hcurrent : current w.log = some c)
    (hended : ∃ t, .ended c t ∈ recent w.log) :
    (recent w.log).countP Event.isNotice = 1 ∨
      (recent w.log).countP Event.isNotice = 0 ∧ ∃ t, .ended c t ∈ recent w.log ∧ ⟨t, c⟩ ∈ w.timers ∧
        ∀ now, t + gracePeriod ≤ now →
          (w.step gracePeriod (.timer ⟨t, c⟩ now)).log = .notice c now :: w.log := by
  obtain ⟨hfirst, rfl⟩ : w.state.isFirstConnection = false ∧ w.state.connectionID = c := by
    rw [h.id] at hcurrent
    split_ifs at hcurrent with hfirst
    exact ⟨Bool.eq_false_iff.mpr hfirst, Option.some.inj hcurrent⟩
  cases hexist : w.state.isConnExist with
  | false => exact .inl (by simp [h.count, hfirst, hexist])
  | true =>
    cases hpending : w.state.pendingOfflineSince with
    | none =>
      obtain ⟨t, ht⟩ := hended
      exact absurd ht (h.quiet hexist hpending t)
    | some t =>
      obtain ⟨-, hmem, htimer⟩ := h.pending t hpending
      refine .inr ⟨by simp [h.count, hexist], t, hmem, htimer, fun now hnow => ?_⟩
      simp [World.step, htimer, hnow, fireOfflineTimer, hpending]

theorem Inv.alternates (h : Inv w) (hdue : Run.Justified (Due gracePeriod) w.log) :
    Alternates gracePeriod w :=
  ⟨hdue, fun _ => h.followed⟩

/-! ### Connections -/

theorem mem_recordedIDs_of_current {log : List Event} {c : ℤ} (h : current log = some c) :
    c ∈ recordedIDs log := by
  obtain ⟨e, he, hc⟩ := List.exists_of_findSome?_eq_some h
  exact List.mem_filterMap.mpr ⟨e, he, hc⟩

/-- Goroutines sleep for connections that were recorded. -/
def Known (w : World) : Prop := ∀ timer ∈ w.timers, timer.expectedConnectionID ∈ recordedIDs w.log

theorem Known.step (hknown : Known w) (h : Inv w) {i : Step} (hnot : ¬Repeated w i) :
    Known (w.step gracePeriod i) := by
  cases i with
  | online c => exact fun timer htimer => List.mem_cons_of_mem _ (hknown timer htimer)
  | offline c now =>
    intro timer htimer
    by_cases hreject : w.state.pendingOfflineSince ≠ none ∨ w.state.connectionID ≠ c
    · simp only [World.step, beginOfflineGrace, if_pos hreject, Bool.false_eq_true, if_false] at htimer
      exact hknown timer htimer
    · simp only [World.step, beginOfflineGrace, if_neg hreject, if_true] at htimer
      rcases List.mem_cons.mp htimer with rfl | htimer
      · obtain ⟨hpending, rfl⟩ : w.state.pendingOfflineSince = none ∧ w.state.connectionID = c := by
          simpa using hreject
        have hexist : w.state.isConnExist = true := by
          by_contra hexist
          exact hnot ⟨rfl, hpending, Bool.eq_false_iff.mpr hexist⟩
        have hcurrent : current w.log = some w.state.connectionID := by
          rw [h.id, h.exist hexist]
          rfl
        exact mem_recordedIDs_of_current hcurrent
      · exact hknown timer htimer
  | timer t now =>
    rw [World.step]
    split_ifs
    · intro timer htimer
      have hmem := hknown timer (List.mem_of_mem_erase htimer)
      dsimp only
      split_ifs
      · exact hmem
      · exact hmem
    · exact hknown

/-- Holds in every reachable world. -/
structure Good (gracePeriod : ℤ) (w : World) : Prop where
  inv : Inv w
  /-- The goroutines sleep for connections that were recorded. -/
  known : Known w
  due : Run.Justified (Due gracePeriod) w.log

theorem Good.step (h : Good gracePeriod w) {i : Step} (hunique : Unique w i) (hnot : ¬Repeated w i) :
    Good gracePeriod (w.step gracePeriod i) := by
  refine ⟨?_, h.known.step h.inv hnot, h.inv.due h.due i⟩
  cases i with
  | online c =>
    refine h.inv.online fun timer htimer heq => hunique ?_
    rw [← heq]
    exact h.known timer htimer
  | offline c now => exact h.inv.offline hnot
  | timer timer now => exact h.inv.timer timer now

/-- **Offline and online notices alternate and follow the connection that was recorded last**, in every run
whose connections have their own ids and in which the end of a connection is not reported again between its
notice and the next connection. -/
theorem alternates_of_along (gracePeriod : ℤ) (steps : List Step)
    (hunique : Run.Along (World.step gracePeriod) Unique .initial steps)
    (hnot : Run.Along (World.step gracePeriod) (fun w i => ¬Repeated w i) .initial steps) :
    Alternates gracePeriod (run gracePeriod steps) := by
  have hinitial : Good gracePeriod .initial :=
    ⟨inv_initial, fun timer htimer => (nomatch htimer), trivial⟩
  have hgood : Good gracePeriod (run gracePeriod steps) :=
    (hunique.and hnot).invariant (fun w i h hi => h.step hi.1 hi.2) hinitial
  exact hgood.inv.alternates hgood.due

/-! ### An end that is reported twice -/

/-- A connection ends, the notice is sent, and another one is recorded. -/
def outage : List Step :=
  [.online 1, .offline 1 0, .offline 1 1, .timer ⟨0, 1⟩ 300, .online 2]

theorem alternates_outage : Alternates 300 (run 300 outage) :=
  alternates_of_along 300 outage (by decide) (by decide)

/-- The end of a connection is reported again after its notice. -/
def endedTwice : List Step :=
  [.online 1, .offline 1 0, .timer ⟨0, 1⟩ 300, .offline 1 400, .timer ⟨400, 1⟩ 700]

/-- Then a second notice is sent, with no connection in between. -/
theorem notice_twice : ¬∀ steps, Run.Along (World.step 300) Unique .initial steps →
    Alternates 300 (run 300 steps) := by
  intro h
  obtain ⟨⟨-, hcount, -⟩, -⟩ := (h endedTwice (by decide)).due
  revert hcount
  decide

end Notifier

end Komari
