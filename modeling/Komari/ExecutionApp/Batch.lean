import Komari.ExecutionApp.Lifecycle

/-!
# Batches under a key

A batch that is asked for again, under its key, finds the tasks that it made.

* `Store.createBatch_idempotent` : batches under the key, in runs of proper steps.
-/

namespace Komari

namespace ExecutionApp

open TrafficReset

namespace Store

/-! ### Tasks under a key -/

/-- A task of an agent, an owner and a key; it was made at some time. -/
def Has (s : Store) (owner key agentID : String) (t : Task) : Prop :=
  s.objects.find? t.id = some t ∧ t.agentID = agentID ∧ t.ownerID = owner ∧ t.idempotencyKey = key

/-- A call is for an owner and a key. -/
def BatchCall.For (call : BatchCall) (owner key : String) : Prop :=
  trimSpace call.ownerID = owner ∧ trimSpace call.idempotencyKey = key

/-- No agent without a task is named twice, and the agents that have one come before those that have
none. -/
structure BatchCall.Orderly (s : Store) (owner key : String) (call : BatchCall) : Prop where
  /-- No agent is named twice, unless it has a task. -/
  distinct : (call.agentIDs.map trimSpace).Pairwise fun a b => a = b → ∃ t, s.Has owner key a t
  /-- Agents with a task come first. -/
  ordered : (call.agentIDs.map trimSpace).Pairwise fun a b =>
    (∃ t, s.Has owner key b t) → ∃ t, s.Has owner key a t

/-- The clean-up keeps the tasks of an owner and a key. -/
def Retains (s : Store) (owner key : String) (now : ℤ) : Prop :=
  ∀ agentID t, s.Has owner key agentID t → t.expired now = false

/-- A step that is proper for an owner and a key: ids are new, the loops range over the store, the clean-up
keeps the tasks of the key, and batches under it are orderly. -/
def Proper (owner key : String) (s : Store) (input : Input) : Prop :=
  s.Fresh input ∧
  match input with
  | .createBatch call => s.Retains owner key call.now ∧
      (∀ i, (call.orders i).Perm (s.prune call.now).values) ∧
      (call.For owner key → call.Orderly s owner key)
  | .nextDispatch call _ => s.Retains owner key call.now
  | .change _ _ => True

/-- What holds of an owner and a key. -/
structure Keyed (owner key : String) (s : Store) : Prop where
  sound : s.Sound
  /-- An agent has at most one task. -/
  unique : ∀ agentID t t', s.Has owner key agentID t → s.Has owner key agentID t' → t = t'
  /-- It is in the store. -/
  stored : ∀ agentID t, s.Has owner key agentID t → t.id ∈ s.values
  /-- The store is not too large. -/
  bounded : s.values.length ≤ maximumTasks

variable {owner key : String} {s : Store}

variable {agentID : String}

theorem existing_spec {order : List String} {t : Task} (h : s.Sound)
    (hexisting : s.existing order agentID owner key = some t) : s.Has owner key agentID t := by
  have hprop := List.find?_some hexisting
  obtain ⟨id, -, hfind⟩ := List.mem_filterMap.mp (List.mem_of_find?_eq_some hexisting)
  obtain ⟨hagent, howner, hkey⟩ := of_decide_eq_true hprop
  exact ⟨(h id t hfind).2.symm ▸ hfind, hagent, howner, hkey⟩

theorem exists_existing {order : List String} {t : Task}
    (ht : s.Has owner key agentID t) (hmem : t.id ∈ order) :
    ∃ t', s.existing order agentID owner key = some t' := by
  rw [← Option.isSome_iff_exists, existing, List.find?_isSome]
  exact ⟨t, List.mem_filterMap.mpr ⟨t.id, hmem, ht.1⟩, by simpa using ht.2⟩

/-- A clean-up that keeps the tasks of the key. -/
theorem Keyed.prune (h : Keyed owner key s) {now : ℤ} (hretains : s.Retains owner key now) :
    Keyed owner key (s.prune now) where
  sound := h.sound
  unique := h.unique
  stored := by
    intro agentID t ht
    refine List.mem_filter.mpr ⟨h.stored agentID t ht, ?_⟩
    rw [show s.objects.find? t.id = some t from ht.1]
    simp [hretains agentID t ht]
  bounded := (List.length_filter_le _ _).trans h.bounded

theorem Has.label {t : Task} (h : s.Has owner key agentID t) :
    t.label = (t.id, agentID, owner, key) := by
  obtain ⟨-, rfl, rfl, rfl⟩ := h
  rfl

/-- A critical section changes no owner and no key. -/
theorem has_change (hs : s.Sound) (id : String) (op : Task.Op) {t : Task}
    (h : (s.change id op).Has owner key agentID t) :
    ∃ t', s.Has owner key agentID t' ∧ t.label = t'.label ∧
      t = if t.id = id then t'.apply op else t' := by
  obtain ⟨hfind, hagent, howner, hkey⟩ := h
  rw [find?_change] at hfind
  split_ifs at hfind with hid
  · obtain ⟨t', ht', rfl⟩ := Option.map_eq_some_iff.mp hfind
    have hlabel := t'.apply_label op
    simp only [Task.label, Prod.mk.injEq] at hlabel
    obtain ⟨hid', hagent', howner', hkey'⟩ := hlabel
    refine ⟨t', ⟨?_, hagent' ▸ hagent, howner' ▸ howner, hkey' ▸ hkey⟩, t'.apply_label op,
      (if_pos hid).symm⟩
    rwa [(hs id t' ht').2]
  · exact ⟨t, ⟨hfind, hagent, howner, hkey⟩, rfl, (if_neg hid).symm⟩

theorem Keyed.change (h : Keyed owner key s) (id : String) (op : Task.Op) :
    Keyed owner key (s.change id op) where
  sound := h.sound.change id op
  unique := by
    intro agentID t u ht hu
    obtain ⟨t', ht', hlabel, heq⟩ := has_change h.sound id op ht
    obtain ⟨u', hu', hlabel', heq'⟩ := has_change h.sound id op hu
    obtain rfl := h.unique agentID t' u' ht' hu'
    have hid : t.id = u.id := congrArg Prod.fst (hlabel.trans hlabel'.symm)
    rw [heq, heq', hid]
  stored := by
    intro agentID t ht
    obtain ⟨t', ht', hlabel, -⟩ := has_change h.sound id op ht
    have hid : t.id = t'.id := congrArg Prod.fst hlabel
    have hvalues : (s.change id op).values = s.values := by
      unfold Store.change
      split <;> rfl
    rw [hvalues, hid]
    exact h.stored agentID t' ht'
  bounded := by
    have hvalues : (s.change id op).values = s.values := by
      unfold Store.change
      split <;> rfl
    exact hvalues ▸ h.bounded

theorem Keyed.changes (h : Keyed owner key s) (sections : List (String × Task.Op)) :
    Keyed owner key (s.changes sections) := by
  induction sections generalizing s with
  | nil => exact h
  | cons c sections ih => exact ih (h.change c.1 c.2)

/-! ### New tasks under a key -/

section Insert

variable {call : BatchCall} {spec : Spec} {entries : List (Task ⊕ Task)}

/-- A new task is that of an agent of the call, who had none. -/
theorem mem_new (hentries : call.agentIDs.zipIdx.mapM (s.entry call spec) = .ok entries) {t : Task}
    (ht : t ∈ entries.filterMap Sum.getRight?) :
    ∃ agent ∈ call.agentIDs.zipIdx, t = newTask call spec (call.ids agent.2) (trimSpace agent.1) ∧
      (trimSpace call.idempotencyKey ≠ "" →
        s.existing (call.orders agent.2) (trimSpace agent.1) (trimSpace call.ownerID)
          (trimSpace call.idempotencyKey) = none) := by
  obtain ⟨x, hx, hright⟩ := List.mem_filterMap.mp ht
  obtain ⟨agent, hagent, hentry⟩ := (mem_of_mapM_eq_ok hentries x).mp hx
  rcases entry_cases hentry with ⟨u, rfl, -⟩ | ⟨rfl, hnone⟩
  · cases hright
  · exact ⟨agent, hagent, (Option.some.inj hright).symm, hnone⟩

theorem has_insert {new : List Task} {agentID : String} {t : Task}
    (h : (s.insert new).Has owner key agentID t) :
    s.Has owner key agentID t ∨ (t ∈ new ∧ t.agentID = agentID ∧ t.ownerID = owner ∧
      t.idempotencyKey = key) := by
  obtain ⟨hfind, hlabel⟩ := h
  rw [insert] at hfind
  by_cases hmem : t.id ∈ (new.map fun t => (t.id, t)).map Prod.fst
  · obtain ⟨u, hu, hfind'⟩ := Table.exists_find?_upsertAll (t := s.objects) hmem
    obtain ⟨v, hv, hpair⟩ := List.mem_map.mp hu
    obtain ⟨-, rfl⟩ := Prod.mk.inj hpair
    obtain rfl : v = t := Option.some.inj (hfind'.symm.trans hfind)
    exact .inr ⟨hv, hlabel⟩
  · rw [Table.find?_upsertAll_of_notMem hmem] at hfind
    exact .inl ⟨hfind, hlabel⟩

/-- Two places of a call with one agent are the same, unless the agent has `P`. -/
theorem eq_of_distinct {P : String → Prop}
    (h : (call.agentIDs.map trimSpace).Pairwise fun a b => a = b → P a) {a b : String × ℕ}
    (ha : a ∈ call.agentIDs.zipIdx) (hb : b ∈ call.agentIDs.zipIdx)
    (heq : trimSpace a.1 = trimSpace b.1) : a.2 = b.2 ∨ P (trimSpace a.1) := by
  obtain ⟨a, i⟩ := a
  obtain ⟨b, j⟩ := b
  obtain ⟨hi, rfl⟩ := List.getElem?_eq_some_iff.mp (List.mk_mem_zipIdx_iff_getElem?.mp ha)
  obtain ⟨hj, rfl⟩ := List.getElem?_eq_some_iff.mp (List.mk_mem_zipIdx_iff_getElem?.mp hb)
  have hpairs := List.pairwise_iff_getElem.mp (List.pairwise_map.mp h)
  rcases lt_trichotomy i j with hlt | rfl | hlt
  · exact .inr (hpairs i j hi hj hlt heq)
  · exact .inl rfl
  · exact .inr (heq ▸ hpairs j i hj hi hlt heq.symm)

/-- New tasks are stored: still, an agent has at most one task of the key. -/
theorem Keyed.insert (h : Keyed owner key s) (hkey : key ≠ "")
    (hranges : ∀ i, (call.orders i).Perm s.values)
    (hdistinct : call.For owner key → (call.agentIDs.map trimSpace).Pairwise fun a b =>
      a = b → ∃ t, s.Has owner key a t)
    (hentries : call.agentIDs.zipIdx.mapM (s.entry call spec) = .ok entries)
    (hlimit : s.values.length + (entries.filterMap Sum.getRight?).length ≤ maximumTasks) :
    Keyed owner key (s.insert (entries.filterMap Sum.getRight?)) where
  sound := h.sound.insert fun t ht => by
    obtain ⟨agent, -, rfl, -⟩ := mem_new hentries ht
    exact sound_newTask call spec _ _
  unique := by
    -- an old task would have been found for the agent of a new one
    have hnew : ∀ agentID t u, s.Has owner key agentID t → u ∈ entries.filterMap Sum.getRight? →
        u.agentID = agentID → u.ownerID = owner → u.idempotencyKey = key → False := by
      intro agentID t u ht hu hagent howner hkey'
      obtain ⟨agent, -, rfl, hnone⟩ := mem_new hentries hu
      simp only [newTask] at hagent howner hkey'
      subst hagent howner hkey'
      have hmem : t.id ∈ call.orders agent.2 := (hranges agent.2).mem_iff.mpr (h.stored _ t ht)
      obtain ⟨t', ht'⟩ := exists_existing ht hmem
      rw [hnone hkey] at ht'
      cases ht'
    intro agentID t u ht hu
    rcases has_insert ht with ht | ⟨ht, hagent, howner, hkey'⟩ <;>
      rcases has_insert hu with hu | ⟨hu, hagent', howner', hkey''⟩
    · exact h.unique agentID t u ht hu
    · exact (hnew agentID t u ht hu hagent' howner' hkey'').elim
    · exact (hnew agentID u t hu ht hagent howner hkey').elim
    · obtain ⟨a, ha, rfl, -⟩ := mem_new hentries ht
      obtain ⟨b, hb, rfl, -⟩ := mem_new hentries hu
      simp only [newTask] at hagent hagent' howner hkey'
      have heq : trimSpace a.1 = trimSpace b.1 := hagent.trans hagent'.symm
      rcases eq_of_distinct (hdistinct ⟨howner, hkey'⟩) ha hb heq with hplace | ⟨v, hv⟩
      · rw [heq, hplace]
      · exact (hnew _ v _ hv ht rfl howner hkey').elim
  stored := by
    intro agentID t ht
    refine List.mem_append.mpr ?_
    rcases has_insert ht with ht | ⟨ht, -⟩
    · exact .inl (h.stored agentID t ht)
    · exact .inr (List.mem_map_of_mem ht)
  bounded := by
    rw [Store.insert, List.length_append, List.length_map]
    exact hlimit

end Insert

/-- Proper steps keep what holds of an owner and a key. -/
theorem Keyed.step (h : Keyed owner key s) (hkey : key ≠ "") {input : Input}
    (hproper : Proper owner key s input) : Keyed owner key (s.step input) := by
  cases input with
  | createBatch call =>
    obtain ⟨-, hretains, hranges, horderly⟩ := hproper
    rcases s.createBatch_cases call with
      ⟨e, heq | heq⟩ | ⟨spec, entries, -, -, hentries, hlimit, heq⟩
    · rwa [Store.step, heq]
    · rw [Store.step, heq]
      exact h.prune hretains
    · rw [Store.step, heq]
      exact (h.prune hretains).insert hkey hranges (fun hfor => (horderly hfor).distinct) hentries
        hlimit
  | nextDispatch call delivered =>
    obtain ⟨sections, heq⟩ := s.exists_nextDispatch call delivered
    rw [Store.step, heq]
    exact (h.prune hproper.2).changes sections
  | change id op => exact h.change id op

theorem keyed_empty (owner key : String) : Keyed owner key empty where
  sound := sound_empty
  unique := by
    rintro agentID t t' ⟨hfind, -⟩
    simp [empty] at hfind
  stored := by
    rintro agentID t ⟨hfind, -⟩
    simp [empty] at hfind
  bounded := Nat.zero_le _

theorem Keyed.run (h : Keyed owner key s) (hkey : key ≠ "") {inputs : List Input}
    (hrun : Run.Along Store.step (Proper owner key) s inputs) : Keyed owner key (s.run inputs) :=
  hrun.invariant (fun _ _ h hproper => h.step hkey hproper) h

/-! ### The executions of a call -/

/-- The task of an entry. -/
def entryTask : Task ⊕ Task → Task := Sum.elim id id

theorem found_append_new {entries : List (Task ⊕ Task)}
    (h : entries.Pairwise fun x y => y.isLeft = true → x.isLeft = true) :
    entries.filterMap Sum.getLeft? ++ entries.filterMap Sum.getRight? = entries.map entryTask := by
  induction entries with
  | nil => rfl
  | cons x entries ih =>
    obtain ⟨hfirst, hrest⟩ := List.pairwise_cons.mp h
    have ih := ih hrest
    cases x with
    | inl t => exact congrArg (List.cons t) ih
    | inr t =>
      -- behind a new task there are only new ones
      have hnone : entries.filterMap Sum.getLeft? = [] := by
        rw [List.filterMap_eq_nil_iff]
        intro y hy
        have := hfirst y hy
        cases y with
        | inl u => simp at this
        | inr u => rfl
      rw [hnone, List.nil_append] at ih
      change entries.filterMap Sum.getLeft? ++ t :: entries.filterMap Sum.getRight? =
        t :: entries.map entryTask
      rw [hnone, ih, List.nil_append]

section Call

variable {call : BatchCall} {spec : Spec} {entries : List (Task ⊕ Task)} {agent : String × ℕ}
  {x : Task ⊕ Task}

theorem entry_agentID (hs : s.Sound) (h : s.entry call spec agent = .ok x) :
    (entryTask x).agentID = trimSpace agent.1 := by
  rcases entry_cases h with ⟨t, rfl, -, hexisting⟩ | ⟨rfl, -⟩
  · exact (existing_spec hs hexisting).2.1
  · rfl

/-- An entry is found when the agent has a task. -/
theorem isLeft_entry (hs : Keyed owner key s) (hkey : key ≠ "") (hfor : call.For owner key)
    (hranges : ∀ i, (call.orders i).Perm s.values) (h : s.entry call spec agent = .ok x) :
    x.isLeft = true ↔ ∃ t, s.Has owner key (trimSpace agent.1) t := by
  obtain ⟨rfl, rfl⟩ := hfor
  rcases entry_cases h with ⟨t, rfl, -, hexisting⟩ | ⟨rfl, hnone⟩
  · exact iff_of_true rfl ⟨t, existing_spec hs.sound hexisting⟩
  · refine iff_of_false (by simp) ?_
    rintro ⟨t, ht⟩
    obtain ⟨t', ht'⟩ := exists_existing ht ((hranges agent.2).mem_iff.mpr (hs.stored _ t ht))
    rw [hnone hkey] at ht'
    cases ht'

theorem entry_ok_iff : (∃ y, s.entry call spec agent = .ok y) ↔ trimSpace agent.1 ≠ "" := by
  by_cases hagent : trimSpace agent.1 = ""
  · refine iff_of_false ?_ (not_not.mpr hagent)
    simp [entry, hagent]
  · refine iff_of_true ?_ hagent
    simp only [entry, if_neg hagent]
    split <;> exact ⟨_, rfl⟩

/-- The executions of an orderly call are those of its agents, one by one. -/
theorem entries_of_orderly (hs : Keyed owner key s) (hkey : key ≠ "") (hfor : call.For owner key)
    (hranges : ∀ i, (call.orders i).Perm s.values)
    (hordered : (call.agentIDs.map trimSpace).Pairwise fun a b =>
      (∃ t, s.Has owner key b t) → ∃ t, s.Has owner key a t)
    (hentries : call.agentIDs.zipIdx.mapM (s.entry call spec) = .ok entries) :
    entries.filterMap Sum.getLeft? ++ entries.filterMap Sum.getRight? = entries.map entryTask := by
  have hpairs : call.agentIDs.zipIdx.Pairwise fun a b =>
      (∃ t, s.Has owner key (trimSpace b.1) t) → ∃ t, s.Has owner key (trimSpace a.1) t := by
    have hmap : call.agentIDs.map trimSpace =
        call.agentIDs.zipIdx.map fun agent => trimSpace agent.1 := by
      conv_lhs => rw [← List.zipIdx_map_fst 0 call.agentIDs, List.map_map]
      rfl
    rw [hmap] at hordered
    exact List.pairwise_map.mp hordered
  refine found_append_new (pairwise_of_mapM_eq_ok hentries hpairs ?_)
  intro a b y z hy hz hab hleft
  rw [isLeft_entry hs hkey hfor hranges hy]
  exact hab ((isLeft_entry hs hkey hfor hranges hz).mp hleft)

end Call

/-! ### Calls that are repeated -/

theorem Evolves.has {s' : Store} (h : s.Evolves s') {t : Task}
    (ht : s.Has owner key agentID t) : ∃ t', s'.Has owner key agentID t' ∧ t'.id = t.id := by
  obtain ⟨ops, hops⟩ := h t.id t ht.1
  have hlabel : (t.applyAll ops).label = (t.id, agentID, owner, key) :=
    (t.applyAll_label ops).trans ht.label
  simp only [Task.label, Prod.mk.injEq] at hlabel
  obtain ⟨hid, hagent, howner, hkey⟩ := hlabel
  exact ⟨_, ⟨hid.symm ▸ hops, hagent, howner, hkey⟩, hid⟩

section Repeat

variable {call : BatchCall} {spec : Spec} {entries : List (Task ⊕ Task)}

/-- After the call, each agent has the task of its entry. -/
theorem has_of_entry (hs : s.Sound) (hfor : call.For owner key) (hfresh : s.Fresh (.createBatch call))
    (hentries : call.agentIDs.zipIdx.mapM (s.entry call spec) = .ok entries) {agent : String × ℕ}
    (hagent : agent ∈ call.agentIDs.zipIdx) {x : Task ⊕ Task}
    (hx : s.entry call spec agent = .ok x) :
    ∃ t, (s.insert (entries.filterMap Sum.getRight?)).Has owner key (trimSpace agent.1) t ∧
      t.id = (entryTask x).id := by
  have hmem : x ∈ entries := (mem_of_mapM_eq_ok hentries x).mpr ⟨agent, hagent, hx⟩
  obtain ⟨rfl, rfl⟩ := hfor
  rcases entry_cases hx with ⟨t, rfl, -, hexisting⟩ | ⟨rfl, -⟩
  · refine (evolves_insert fun u hu => ?_).has (existing_spec hs hexisting)
    obtain ⟨a, -, rfl, -⟩ := mem_new hentries hu
    exact hfresh.1 a.2
  · -- no other new task has this id
    have hnew : newTask call spec (call.ids agent.2) (trimSpace agent.1) ∈
        entries.filterMap Sum.getRight? := List.mem_filterMap.mpr ⟨_, hmem, rfl⟩
    have hkeys : (call.ids agent.2).1 ∈
        ((entries.filterMap Sum.getRight?).map fun t => (t.id, t)).map Prod.fst :=
      List.mem_map.mpr ⟨_, List.mem_map_of_mem hnew, rfl⟩
    obtain ⟨v, hv, hfind⟩ := Table.exists_find?_upsertAll (t := s.objects) hkeys
    obtain ⟨u, hu, hpair⟩ := List.mem_map.mp hv
    obtain ⟨hid, rfl⟩ := Prod.mk.inj hpair
    obtain ⟨b, hb, rfl, -⟩ := mem_new hentries hu
    have hplace : b.2 = agent.2 := hfresh.2 _ _ hid
    obtain ⟨b, j⟩ := b
    obtain ⟨a, i⟩ := agent
    obtain rfl : j = i := hplace
    have ha := List.mk_mem_zipIdx_iff_getElem?.mp hagent
    rw [List.mk_mem_zipIdx_iff_getElem?.mp hb] at ha
    obtain rfl := Option.some.inj ha
    exact ⟨newTask call spec (call.ids j) (trimSpace b), ⟨hfind, rfl, rfl, rfl⟩, rfl⟩

/-- A call whose agents all have tasks finds them, and makes none. -/
theorem createBatch_found (hs : Keyed owner key (s.prune call.now)) (hkey : key ≠ "")
    (hfor : call.For owner key) (hranges : ∀ i, (call.orders i).Perm (s.prune call.now).values)
    (hcall : ¬(call.agentIDs = [] ∨ trimSpace call.ownerID = ""))
    (hspec : normalizeSpec call.spec = .ok spec)
    (hagents : ∀ agent ∈ call.agentIDs.zipIdx, trimSpace agent.1 ≠ "")
    (hhas : ∀ agent ∈ call.agentIDs.zipIdx,
      ∃ t, (s.prune call.now).Has owner key (trimSpace agent.1) t) :
    ∃ entries, call.agentIDs.zipIdx.mapM ((s.prune call.now).entry call spec) = .ok entries ∧
      s.createBatch call = (s.prune call.now, .ok ((entries.map entryTask).map Task.execution)) := by
  obtain ⟨entries, hentries⟩ := exists_mapM_eq_ok.mpr fun agent hagent =>
    (entry_ok_iff : (∃ y, (s.prune call.now).entry call spec agent = .ok y) ↔ _).mpr
      (hagents agent hagent)
  have hleft : ∀ x ∈ entries, x.isLeft = true := by
    intro x hx
    obtain ⟨agent, hagent, hentry⟩ := (mem_of_mapM_eq_ok hentries x).mp hx
    exact (isLeft_entry hs hkey hfor hranges hentry).mpr (hhas agent hagent)
  have hnone : entries.filterMap Sum.getRight? = [] := by
    rw [List.filterMap_eq_nil_iff]
    intro x hx
    have := hleft x hx
    cases x with
    | inl t => rfl
    | inr t => simp at this
  have hfound := found_append_new (List.pairwise_of_forall_mem_list
    fun x hx y _ _ => hleft x hx : entries.Pairwise fun x y => y.isLeft = true → x.isLeft = true)
  refine ⟨entries, hentries, ?_⟩
  rw [hnone, List.append_nil] at hfound
  have hlimit : ¬maximumTasks < (s.prune call.now).values.length + ([] : List Task).length :=
    not_lt.mpr hs.bounded
  unfold createBatch
  rw [if_neg hcall, hspec]
  dsimp only
  rw [hentries]
  dsimp only
  rw [hnone, if_neg hlimit, if_neg (fun h => h.1 rfl), List.append_nil, hfound]
  simp [insert]

end Repeat

theorem createBatch_error {call : BatchCall} {e : String} (h : (s.createBatch call).2 = .error e) :
    (s.createBatch call).1.objects = s.objects ∧ (s.createBatch call).1.rows = s.rows := by
  rcases s.createBatch_cases call with ⟨e', heq | heq⟩ | ⟨spec, entries, -, -, -, -, heq⟩
  · rw [heq]
    exact ⟨rfl, rfl⟩
  · rw [heq]
    exact ⟨rfl, rfl⟩
  · rw [heq] at h
    cases h

/-- A later call for the same agents, with the same command, is answered with the same executions. -/
theorem createBatch_again (hs : Keyed owner key s) (hkey : key ≠ "") {call : BatchCall}
    (hfor : call.For owner key) (hproper : Proper owner key s (.createBatch call))
    {results : List Execution} (hok : (s.createBatch call).2 = .ok results) :
    results.map Execution.agentId = call.agentIDs.map trimSpace ∧
    ∀ later, Run.Along step (Proper owner key) (s.createBatch call).1 later → ∀ again : BatchCall,
      again.For owner key → again.agentIDs = call.agentIDs → again.spec = call.spec →
      Proper owner key ((s.createBatch call).1.run later) (.createBatch again) →
      ∃ results', ((s.createBatch call).1.run later).createBatch again =
          (((s.createBatch call).1.run later).prune again.now, .ok results') ∧
        results'.map Execution.executionId = results.map Execution.executionId := by
  have hstep := hs.step hkey hproper
  obtain ⟨hfresh, hretains, hranges, horderly⟩ := hproper
  rcases s.createBatch_cases call with
    ⟨e, heq | heq⟩ | ⟨spec, entries, hcall, hspec, hentries, -, heq⟩
  · rw [heq] at hok
    cases hok
  · rw [heq] at hok
    cases hok
  have hp := hs.prune hretains
  rw [step, heq] at hstep
  rw [heq, entries_of_orderly hp hkey hfor hranges (horderly hfor).ordered hentries] at hok
  obtain rfl := Except.ok.inj hok
  rw [heq]
  dsimp only
  constructor
  · rw [List.map_map, List.map_map]
    have hagents := map_of_mapM_eq_ok (p := Execution.agentId ∘ Task.execution ∘ entryTask)
      (q := fun agent : String × ℕ => trimSpace agent.1)
      (fun agent x hx => entry_agentID hp.sound hx) hentries
    refine Eq.trans ?_ (hagents.trans ?_)
    · rfl
    · conv_rhs => rw [← List.zipIdx_map_fst 0 call.agentIDs, List.map_map]
      rfl
  · intro later hlater again hfor' hagents hspec' hproper'
    have hkeyed := hstep.run hkey hlater
    obtain ⟨-, hretains', hranges', -⟩ := hproper'
    have hp' := hkeyed.prune hretains'
    have hfreshRun : FreshRun _ later := hlater.mono fun _ _ h => h.1
    -- the tasks of the first call are still there
    have hlast : ∀ agent ∈ call.agentIDs.zipIdx, ∀ x, (s.prune call.now).entry call spec agent = .ok x →
        ∃ t, (((s.prune call.now).insert (entries.filterMap Sum.getRight?)).run later).Has owner key
          (trimSpace agent.1) t ∧ t.id = (entryTask x).id := by
      intro agent hagent x hx
      obtain ⟨t, ht, hid⟩ := has_of_entry hp.sound hfor hfresh hentries hagent hx
      obtain ⟨t', ht', hid'⟩ := (evolves_run hfreshRun).has ht
      exact ⟨t', ht', hid'.trans hid⟩
    have hentry := exists_mapM_eq_ok.mp ⟨entries, hentries⟩
    obtain ⟨entries', hentries', heq'⟩ := createBatch_found hp' hkey hfor' hranges'
      (by rwa [hagents, hfor'.1, ← hfor.1]) (hspec' ▸ hspec)
      (fun agent hagent => entry_ok_iff.mp (hentry agent (hagents ▸ hagent)))
      (fun agent hagent => by
        obtain ⟨x, hx⟩ := hentry agent (hagents ▸ hagent)
        obtain ⟨t, ht, -⟩ := hlast agent (hagents ▸ hagent) x hx
        exact ⟨t, ht⟩)
    refine ⟨_, heq', ?_⟩
    rw [List.map_map, List.map_map, List.map_map, List.map_map]
    rw [hagents] at hentries'
    refine map_eq_of_mapM_eq_ok hentries' hentries fun agent hagent y x hy hx => ?_
    -- an agent has one task only
    obtain ⟨t, ht, hid⟩ := hlast agent hagent x hx
    rcases entry_cases hy with ⟨u, rfl, -, hexisting⟩ | ⟨rfl, hnone⟩
    · rw [hfor'.1, hfor'.2] at hexisting
      obtain rfl := hp'.unique _ u t (existing_spec hp'.sound hexisting) ht
      exact hid
    · obtain ⟨u, hu⟩ := exists_existing ht ((hranges' agent.2).mem_iff.mpr (hp'.stored _ t ht))
      rw [hfor'.1, hfor'.2] at hnone
      have hsome : none = some u := (hnone hkey).symm.trans hu
      cases hsome

/-- **Batches under a key.**  In a run of proper steps an agent has at most one task of the key, ever; a
call has one execution for each agent, in their order; a later call for the same agents is answered with
the same executions, and makes no task; and a call that fails makes no task. -/
theorem createBatch_idempotent (hkey : key ≠ "") {inputs : List Input}
    (hrun : Run.Along step (Proper owner key) empty inputs) :
    (∀ agentID t t', (empty.run inputs).Has owner key agentID t →
      (empty.run inputs).Has owner key agentID t' → t = t') ∧
    (∀ call : BatchCall, call.For owner key → Proper owner key (empty.run inputs) (.createBatch call) →
      ∀ results, ((empty.run inputs).createBatch call).2 = .ok results →
        results.map Execution.agentId = call.agentIDs.map trimSpace ∧
        ∀ later, Run.Along step (Proper owner key) ((empty.run inputs).createBatch call).1 later →
          ∀ again : BatchCall, again.For owner key → again.agentIDs = call.agentIDs →
          again.spec = call.spec →
          Proper owner key (((empty.run inputs).createBatch call).1.run later) (.createBatch again) →
          ∃ results', (((empty.run inputs).createBatch call).1.run later).createBatch again =
              ((((empty.run inputs).createBatch call).1.run later).prune again.now, .ok results') ∧
            results'.map Execution.executionId = results.map Execution.executionId) ∧
    (∀ call e, ((empty.run inputs).createBatch call).2 = .error e →
      ((empty.run inputs).createBatch call).1.objects = (empty.run inputs).objects ∧
        ((empty.run inputs).createBatch call).1.rows = (empty.run inputs).rows) := by
  have hkeyed := (keyed_empty owner key).run hkey hrun
  exact ⟨hkeyed.unique, fun call hfor hproper results hok =>
    createBatch_again hkeyed hkey hfor hproper hok, fun call e h => createBatch_error h⟩

/-- A call for some agents under the key `k`, when no tasks or only those in `order` are stored. -/
def batchFor (agentIDs order : List String) (letter : Char) : BatchCall where
  agentIDs := agentIDs
  ownerID := "admin"
  idempotencyKey := "k"
  spec := some ⟨"uptime", [], none, 0⟩
  now := 0
  ids := fun i => (String.ofList (List.replicate (i + 1) letter), "assignment")
  orders := fun _ => order
  dbErr := none

/-- The agent `a` has a task. -/
def oneTask : Store := empty.run [.createBatch (batchFor ["a"] [] 't')]

theorem proper_batchFor {s : Store} {agentIDs order : List String} {letter : Char}
    (hrows : ∀ r ∈ s.objects.rows, r.1.toList.head? ≠ some letter ∧ r.2.expired 0 = false)
    (hvalues : (s.prune 0).values = order) (horderly : (batchFor agentIDs order letter).Orderly s "admin" "k") :
    Proper "admin" "k" s (.createBatch (batchFor agentIDs order letter)) := by
  refine ⟨⟨fun i => ?_, fun i j h => ?_⟩, ?_, fun i => ?_, fun _ => horderly⟩
  · by_contra hsome
    obtain ⟨t, ht⟩ := Option.ne_none_iff_exists'.mp hsome
    refine (hrows _ (Table.mem_rows.mpr ht)).1 ?_
    simp [batchFor, List.replicate_succ]
  · have hlength := congrArg List.length (String.ofList_injective h)
    simpa [batchFor] using hlength
  · rintro agentID t ⟨ht, -⟩
    exact (hrows _ (Table.mem_rows.mpr ht)).2
  · rw [show (batchFor agentIDs order letter).now = 0 from rfl, hvalues]
    exact List.Perm.refl _

theorem orderly_batchFor {s : Store} {order : List String} {letter : Char}
    (hfound : (s.objects.find? "t").any (fun t => decide (t.id = "t" ∧ t.agentID = "a" ∧ t.ownerID = "admin" ∧
      t.idempotencyKey = "k")) = true) :
    (batchFor ["a", "b"] order letter).Orderly s "admin" "k" := by
  have hagents : (batchFor ["a", "b"] order letter).agentIDs.map trimSpace = ["a", "b"] := by
    show ["a", "b"].map trimSpace = ["a", "b"]
    decide +kernel
  obtain ⟨t, ht, htask⟩ := (Option.any_eq_true _ _).mp hfound
  obtain ⟨hid, hlabel⟩ := of_decide_eq_true htask
  refine ⟨?_, ?_⟩ <;> rw [hagents] <;> refine List.pairwise_pair.mpr ?_
  · exact fun heq => absurd heq (by decide)
  · exact fun _ => ⟨t, by rw [hid]; exact ht, hlabel⟩

theorem createBatch_idempotent_two :
    ((oneTask.createBatch (batchFor ["a", "b"] ["t"] 'u')).2.map fun results =>
      results.map fun e => (e.executionId, e.agentId)) = .ok [("t", "a"), ("uu", "b")] ∧
    ((oneTask.createBatch (batchFor ["a", "b"] ["t"] 'u')).2.map fun results => results.map Execution.agentId) =
      .ok ["a", "b"] ∧
    (((oneTask.createBatch (batchFor ["a", "b"] ["t"] 'u')).1.createBatch (batchFor ["a", "b"] ["t", "uu"] 'v')).2.map
      fun results => results.map Execution.executionId) =
      (oneTask.createBatch (batchFor ["a", "b"] ["t"] 'u')).2.map
        fun results => results.map Execution.executionId := by
  have hfor : ∀ order letter, (batchFor ["a", "b"] order letter).For "admin" "k" := fun _ _ =>
    ⟨(by decide +kernel : trimSpace "admin" = "admin"), (by decide +kernel : trimSpace "k" = "k")⟩
  have hfirst : Proper "admin" "k" empty (.createBatch (batchFor ["a"] [] 't')) :=
    proper_batchFor (by decide +kernel) rfl ⟨List.pairwise_singleton _ _, List.pairwise_singleton _ _⟩
  have hproper : Proper "admin" "k" oneTask (.createBatch (batchFor ["a", "b"] ["t"] 'u')) :=
    proper_batchFor (by decide +kernel) (by decide +kernel) (orderly_batchFor (by decide +kernel))
  have hproper' : Proper "admin" "k" (oneTask.createBatch (batchFor ["a", "b"] ["t"] 'u')).1
      (.createBatch (batchFor ["a", "b"] ["t", "uu"] 'v')) :=
    proper_batchFor (by decide +kernel) (by decide +kernel) (orderly_batchFor (by decide +kernel))
  obtain ⟨results, hok⟩ : ∃ results, (oneTask.createBatch (batchFor ["a", "b"] ["t"] 'u')).2 = .ok results := ⟨_, rfl⟩
  have hcall := (createBatch_idempotent (show "k" ≠ "" by decide) (show Run.Along step (Proper "admin" "k") empty
    [.createBatch (batchFor ["a"] [] 't')] from ⟨hfirst, trivial⟩)).2.1 _ (hfor _ _) hproper results hok
  obtain ⟨results', hok', hids⟩ := hcall.2 [] trivial (batchFor ["a", "b"] ["t", "uu"] 'v') (hfor _ _) rfl rfl hproper'
  refine ⟨by decide +kernel, ?_, ?_⟩
  · rw [hok]
    have hagents : ["a", "b"].map trimSpace = ["a", "b"] := by decide +kernel
    exact congrArg Except.ok (hcall.1.trans hagents)
  · have hagain := congrArg Prod.snd hok'
    rw [hok]
    exact (congrArg _ hagain).trans (congrArg Except.ok hids)

/-- A new agent before one that has a task: the executions change places.  And an agent that is named twice
gets two tasks. -/
theorem createBatch_not_idempotent :
    (((empty.createBatch (batchFor ["b"] [] 't')).1.createBatch (batchFor ["a", "b"] ["t"] 'u')).2.map
      fun results => results.map Execution.agentId) = .ok ["b", "a"] ∧
    ((empty.createBatch (batchFor ["a", "a"] [] 't')).2.map
      fun results => results.map fun e => (e.executionId, e.agentId)) = .ok [("t", "a"), ("tt", "a")] := by
  constructor <;> decide +kernel

end Store

end ExecutionApp

end Komari
