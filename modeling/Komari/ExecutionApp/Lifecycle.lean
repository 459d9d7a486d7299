import Komari.ExecutionApp.Store

/-!
# The lifecycle of a task

* `Store.task_lifecycle` : a task over a whole run.
* `Store.report_zero` : a report with the number zero is refused.
-/

namespace Komari

namespace ExecutionApp

open TrafficReset

namespace Store

/-! ### Tasks change by their critical sections -/

/-- Each task is there later, after some critical sections. -/
def Evolves (s s' : Store) : Prop :=
  ∀ id t, s.objects.find? id = some t → ∃ ops, s'.objects.find? id = some (t.applyAll ops)

theorem Evolves.refl (s : Store) : s.Evolves s := fun _ _ h => ⟨[], h⟩

variable {s : Store}

theorem Evolves.trans {s' s'' : Store} (h : s.Evolves s') (h' : s'.Evolves s'') :
    s.Evolves s'' := by
  intro id t ht
  obtain ⟨ops, hops⟩ := h id t ht
  obtain ⟨ops', hops'⟩ := h' id _ hops
  refine ⟨ops ++ ops', ?_⟩
  rw [hops', Task.applyAll, Task.applyAll, Task.applyAll, List.foldl_append]

theorem find?_change (s : Store) (id id' : String) (op : Task.Op) :
    (s.change id op).objects.find? id' =
      if id' = id then (s.objects.find? id).map fun t => t.apply op else s.objects.find? id' := by
  unfold change
  cases hfind : s.objects.find? id with
  | none =>
    split_ifs with heq
    · rw [heq, hfind]
      rfl
    · rfl
  | some t => simp [Table.find?_upsert]

theorem evolves_change (s : Store) (id : String) (op : Task.Op) : s.Evolves (s.change id op) := by
  intro id' t ht
  rw [find?_change]
  split_ifs with heq
  · subst heq
    exact ⟨[op], by rw [ht]; rfl⟩
  · exact ⟨[], ht⟩

theorem evolves_changes (s : Store) (sections : List (String × Task.Op)) :
    s.Evolves (s.changes sections) := by
  induction sections generalizing s with
  | nil => exact Evolves.refl s
  | cons c sections ih => exact (evolves_change s c.1 c.2).trans (ih _)

theorem evolves_insert {new : List Task}
    (hnew : ∀ t ∈ new, s.objects.find? t.id = none) : s.Evolves (s.insert new) := by
  intro id t ht
  refine ⟨[], ?_⟩
  rw [insert, Table.find?_upsertAll_of_notMem, ht]
  · rfl
  · rw [List.map_map]
    rintro hmem
    obtain ⟨u, hu, rfl⟩ := List.mem_map.mp hmem
    exact absurd ht (by simp [hnew u hu])

/-- New tasks are made for the agents of the call. -/
theorem exists_of_mem_new {call : BatchCall} {spec : Spec} {entries : List (Task ⊕ Task)}
    (h : call.agentIDs.zipIdx.mapM (s.entry call spec) = .ok entries) {t : Task}
    (ht : t ∈ entries.filterMap Sum.getRight?) :
    ∃ agentID i, t = newTask call spec (call.ids i) agentID := by
  obtain ⟨x, hx, hright⟩ := List.mem_filterMap.mp ht
  obtain ⟨agent, -, hentry⟩ := (mem_of_mapM_eq_ok h x).mp hx
  rcases entry_cases hentry with ⟨u, rfl, -⟩ | ⟨rfl, -⟩
  · cases hright
  · exact ⟨_, _, (Option.some.inj hright).symm⟩

theorem evolves_step {input : Input} (hfresh : s.Fresh input) : s.Evolves (s.step input) := by
  cases input with
  | createBatch call =>
    rcases s.createBatch_cases call with ⟨e, h | h⟩ | ⟨spec, entries, -, -, hentries, -, h⟩
    · rw [step, h]
      exact Evolves.refl s
    · rw [step, h]
      exact Evolves.refl s
    · rw [step, h]
      refine evolves_insert (s := s.prune call.now) fun t ht => ?_
      obtain ⟨agentID, i, rfl⟩ := exists_of_mem_new hentries ht
      exact hfresh.1 i
  | nextDispatch call delivered =>
    obtain ⟨sections, h⟩ := s.exists_nextDispatch call delivered
    rw [step, h]
    exact evolves_changes (s.prune call.now) sections
  | change id op => exact evolves_change s id op

/-! ### All tasks are sound -/

/-- All tasks are sound, and stored under their ids. -/
def Sound (s : Store) : Prop := ∀ id t, s.objects.find? id = some t → t.Sound ∧ t.id = id

theorem sound_empty : empty.Sound := by
  intro id t h
  simp [empty] at h

theorem Sound.change (h : s.Sound) (id : String) (op : Task.Op) : (s.change id op).Sound := by
  intro id' t ht
  rw [find?_change] at ht
  split_ifs at ht with heq
  · subst heq
    obtain ⟨u, hu, rfl⟩ := Option.map_eq_some_iff.mp ht
    exact ⟨(h id' u hu).1.apply op, (u.apply_id op).trans (h id' u hu).2⟩
  · exact h id' t ht

theorem Sound.changes (h : s.Sound) (sections : List (String × Task.Op)) :
    (s.changes sections).Sound := by
  induction sections generalizing s with
  | nil => exact h
  | cons c sections ih => exact ih (h.change c.1 c.2)

theorem sound_newTask (call : BatchCall) (spec : Spec) (ids : String × String) (agentID : String) :
    (newTask call spec ids agentID).Sound where
  numbered := rfl
  sequence := rfl
  output := rfl
  bytes := rfl
  bound := Nat.zero_le _
  phase := .inl ⟨.inl rfl, fun _ h => absurd h List.not_mem_nil, rfl, rfl⟩

theorem Sound.insert (h : s.Sound) {new : List Task} (hnew : ∀ t ∈ new, t.Sound) :
    (s.insert new).Sound := by
  intro id t ht
  rw [Store.insert] at ht
  by_cases hmem : id ∈ (new.map fun t => (t.id, t)).map Prod.fst
  · obtain ⟨u, hu, hfind⟩ := Table.exists_find?_upsertAll (t := s.objects) hmem
    obtain ⟨v, hv, hpair⟩ := List.mem_map.mp hu
    obtain ⟨rfl, rfl⟩ := Prod.mk.inj hpair
    obtain rfl : v = t := Option.some.inj (hfind.symm.trans ht)
    exact ⟨hnew v hv, rfl⟩
  · rw [Table.find?_upsertAll_of_notMem hmem] at ht
    exact h id t ht

theorem Sound.step (h : s.Sound) (input : Input) : (s.step input).Sound := by
  cases input with
  | createBatch call =>
    rcases s.createBatch_cases call with ⟨e, heq | heq⟩ | ⟨spec, entries, -, -, hentries, -, heq⟩
    · rwa [Store.step, heq]
    · rwa [Store.step, heq]
    · rw [Store.step, heq]
      refine Sound.insert (s := s.prune call.now) h fun t ht => ?_
      obtain ⟨agentID, i, rfl⟩ := exists_of_mem_new hentries ht
      exact sound_newTask call spec _ _
  | nextDispatch call delivered =>
    obtain ⟨sections, heq⟩ := s.exists_nextDispatch call delivered
    rw [Store.step, heq]
    exact Sound.changes (s := s.prune call.now) h sections
  | change id op => exact h.change id op

/-! ### Runs -/

/-- The store after some calls. -/
def run (s : Store) (inputs : List Input) : Store := inputs.foldl step s

/-- The run makes tasks under new ids only. -/
def FreshRun (s : Store) (inputs : List Input) : Prop := Run.Along step Fresh s inputs

theorem Sound.run (h : s.Sound) (inputs : List Input) : (s.run inputs).Sound := by
  induction inputs generalizing s with
  | nil => exact h
  | cons input inputs ih => exact ih (h.step input)

theorem evolves_run {inputs : List Input} (h : s.FreshRun inputs) : s.Evolves (s.run inputs) := by
  induction inputs generalizing s with
  | nil => exact Evolves.refl s
  | cons input inputs ih => exact (evolves_step h.1).trans (ih h.2)

/-- A terminal report with an old number other than zero is stored, unless there is too much output. -/
theorem report_terminal {t : Task} (h : t.Sound) (hopen : terminal t.state = false) {event : Event}
    (hterminal : terminal event.state = true) (hle : event.sequence ≤ t.sequence)
    (hbound : event.output.length + t.outputBytes ≤ t.spec.maxOutputBytes) (now : ℤ) :
    t.report event now = (t.store event now, t.sequence + 1, none) := by
  have hevents := (h.isOpen hopen).events
  have hmem : event ∉ t.events := fun hmem => by simp [hevents event hmem] at hterminal
  have hvalid : validTransition t.state event.state = true := by
    rcases (h.isOpen hopen).state with heq | heq | heq <;> simp [validTransition, hterminal, heq]
  unfold Task.report Task.reportNext
  rw [if_pos hle, if_neg hmem, if_pos ⟨hopen, hterminal⟩, if_neg (by simp [hopen]),
    if_neg (not_lt.mpr hbound), if_neg (by simp [hvalid])]

/-- A task whose deadline has not passed is what it was. -/
theorem expire_of_open {t : Task} {now : ℤ} (hopen : terminal (t.expire now).state = false) :
    t.expire now = t := by
  unfold Task.expire at hopen ⊢
  split_ifs at hopen ⊢ with hterminal hdeadline
  · rfl
  · rfl
  · simp [Task.appendTerminal, terminal] at hopen

/-- `Report`, for the agent of a task whose deadline has not passed. -/
theorem report_eq {t : Task} {event : Event} {now : ℤ}
    (ht : s.objects.find? event.executionId = some t) (hmem : event.executionId ∈ s.values)
    (hid : trimSpace event.executionId ≠ "") (hseq : 0 < event.sequence)
    (hopen : terminal (t.expire now).state = false) :
    (s.report t.agentID (some event) now).2 = (t.report event now).2 ∧
      (s.report t.agentID (some event) now).1.objects.find? event.executionId =
        some (t.report event now).1 := by
  have hfind : (s.change event.executionId (.expire now)).objects.find? event.executionId = some t := by
    rw [find?_change, if_pos rfl, ht]
    exact congrArg some (expire_of_open hopen)
  have hget : s.get event.executionId now = (s.change event.executionId (.expire now), .ok t) := by
    unfold get
    rw [if_neg (not_not.mpr hmem)]
    dsimp only
    rw [hfind]
  have hguard : ¬(trimSpace event.executionId = "" ∨ event.sequence = 0) := by
    rintro (h | h)
    · exact hid h
    · omega
  have heq : s.report t.agentID (some event) now =
      ((s.change event.executionId (.expire now)).change event.executionId (.report event now),
        (t.report event now).2) := by
    unfold report
    dsimp only
    rw [if_neg hguard, hget]
    exact if_neg (not_not.mpr rfl)
  refine ⟨congrArg Prod.snd heq, ?_⟩
  rw [heq, find?_change, if_pos rfl, hfind]
  rfl

/-- A terminal event that is stored ends the task in its state. -/
theorem store_state_of_terminal {t : Task} (hopen : t.Open) {event : Event}
    (hterminal : terminal event.state = true) (now : ℤ) : (t.store event now).state = event.state := by
  obtain ⟨earlier, e, r, hevents, -, -, hstate, -⟩ :=
    (Task.finished_store hopen hterminal now).last
  rw [Task.store_events] at hevents
  obtain ⟨-, hlast⟩ := List.append_inj' hevents rfl
  obtain rfl := List.singleton_inj.mp hlast
  exact hstate

/-- **A task over a whole run.**  In every store that is reached its events, state, output and result
agree.  It does not change once it has ended, and does not run again once it was asked to stop.  An event
that was stored changes nothing when it is reported again, then or later.  A terminal report with a number
that was used counts as one with the next number; `Report` stores it unless the number is zero or there is
too much output. -/
theorem task_lifecycle {inputs : List Input} {id : String} {t : Task}
    (ht : (empty.run inputs).objects.find? id = some t) :
    t.Sound ∧
    (∀ later, (empty.run inputs).FreshRun later →
      ∃ t', ((empty.run inputs).run later).objects.find? id = some t' ∧
        (terminal t.state = true → t' = t) ∧ (t.state = .cancelRequested → t'.state ≠ .running)) ∧
    (∀ event ∈ t.events, ∀ now, t.report event now = (t, t.sequence, none)) ∧
    (∀ event now, (t.report event now).1 ≠ t → ∀ later,
      ((empty.run inputs).change id (.report event now)).FreshRun later →
      ∃ t', (((empty.run inputs).change id (.report event now)).run later).objects.find? id = some t' ∧
        ∀ now', t'.report event now' = (t', t'.sequence, none)) ∧
    (∀ event now, terminal t.state = false → terminal event.state = true → event.sequence ≤ t.sequence →
      t.report event now = t.report { event with sequence := t.sequence + 1 } now) ∧
    (∀ event now, event.executionId = id → trimSpace id ≠ "" → id ∈ (empty.run inputs).values →
      terminal (t.expire now).state = false → terminal event.state = true →
      0 < event.sequence → event.sequence ≤ t.sequence →
      event.output.length + t.outputBytes ≤ t.spec.maxOutputBytes →
      ((empty.run inputs).report t.agentID (some event) now).2 = (t.sequence + 1, none) ∧
        ∃ t', ((empty.run inputs).report t.agentID (some event) now).1.objects.find? id = some t' ∧
          t'.state = event.state ∧ t'.Finished) := by
  have hsound : t.Sound := (sound_empty.run inputs id t ht).1
  refine ⟨hsound, fun later hlater => ?_, fun event hmem now => Task.report_mem hsound hmem now,
    fun event now hstored later hlater => ?_, fun event now hopen hterminal hle => ?_,
    fun event now hid hblank hmem hopen hterminal hpos hle hbound => ?_⟩
  · obtain ⟨ops, hops⟩ := evolves_run hlater id t ht
    refine ⟨_, hops, fun hterminal => ?_, fun hcancel => ?_⟩
    · exact (hsound.finished hterminal).applyAll ops
    · have hstopping : (t.applyAll ops).Stopping :=
        Task.applyAll_induction (fun u op hu => hu.apply op) (Or.inl hcancel) ops
      exact hstopping.ne_running
  · have hfind : ((empty.run inputs).change id (.report event now)).objects.find? id =
        some (t.report event now).1 := by
      rw [find?_change, if_pos rfl, ht]
      rfl
    obtain ⟨ops, hops⟩ := evolves_run hlater id _ hfind
    exact ⟨_, hops, Task.report_again hsound hstored ops⟩
  · exact Task.report_small hle hopen hterminal (hsound.isOpen hopen).events now
  · subst hid
    have hstate : terminal t.state = false := by rwa [expire_of_open hopen] at hopen
    have hreport := report_terminal hsound hstate hterminal hle hbound now
    obtain ⟨hresult, hfind⟩ := report_eq ht hmem hblank hpos hopen
    rw [hreport] at hresult hfind
    exact ⟨hresult, _, hfind, store_state_of_terminal (hsound.isOpen hstate) hterminal now,
      Task.finished_store (hsound.isOpen hstate) hterminal now⟩

/-! ### A report without number -/

/-- A batch of one task. -/
def oneBatch : BatchCall where
  agentIDs := ["agent"]
  ownerID := "admin"
  idempotencyKey := ""
  spec := some ⟨"uptime", [], none, 0⟩
  now := 0
  ids := fun i => (String.ofList (List.replicate (i + 1) 't'), "assignment")
  orders := fun _ => []
  dbErr := none

/-- An event of the task `t`. -/
def eventOf (sequence : ℕ) (state : OperationState) : Event where
  executionId := "t"
  sequence := sequence
  occurredAt := none
  state := state
  output := []
  exitCode := none
  error := none

/-- A task is running. -/
def runningRun : List Input :=
  [.createBatch oneBatch, .change "t" (.report (eventOf 1 .running) 0)]

theorem freshRun_runningRun : empty.FreshRun runningRun := by
  refine ⟨⟨fun i => rfl, fun i j h => ?_⟩, trivial, trivial⟩
  have hlength := congrArg List.length (String.ofList_injective h)
  simpa using hlength

theorem task_lifecycle_running : ∃ t, (empty.run runningRun).objects.find? "t" = some t ∧ t.Sound := by
  have hfind : ((empty.run runningRun).objects.find? "t").isSome = true := by decide +kernel
  obtain ⟨t, ht⟩ := Option.isSome_iff_exists.mp hfind
  exact ⟨t, ht, (task_lifecycle ht).1⟩

/-- A terminal report with the number zero is refused, and the task runs on. -/
theorem report_zero : empty.FreshRun runningRun ∧
    ((empty.run runningRun).objects.find? "t").map (fun t => (t.agentID, t.state)) =
      some ("agent", .running) ∧
    (empty.run runningRun).report "agent" (some (eventOf 0 .succeeded)) 0 =
      (empty.run runningRun, 0, some errInvalid) :=
  ⟨freshRun_runningRun, by decide +kernel, rfl⟩

end Store

end ExecutionApp

end Komari
