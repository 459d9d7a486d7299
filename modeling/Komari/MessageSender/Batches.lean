import Komari.MessageSender.Digest
import Komari.Run.Along
import Mathlib.Data.List.Perm.Basic

/-!
# Batches and their timers

Events are put into batches, which timers hand over.  Timers act on keys, may fire after they were stopped,
and are attached to a batch after the lock was released.

* `digested_of_along` : runs of clean steps are `Digested`; and `flushDigestBatches` leaves no batch.
* `client_lost`, `texts_lost` : steps that are not clean lose clients and texts.
-/

namespace Komari

namespace MessageSender

variable {δ : Type}

/-- The batches, and what goes on. -/
structure World (δ : Type) where
  /-- `digestBatches`. -/
  batches : List (Batch δ)
  /-- Batches with their keys, whose timers are not scheduled yet. -/
  starting : List (ℕ × String)
  /-- Batches with their keys, whose timers are scheduled and not attached yet. -/
  attaching : List (ℕ × String)
  /-- The timers that have not fired: the batches that they were scheduled for, and their keys. -/
  timers : List (ℕ × String)
  /-- The timers that were stopped; one of them may fire all the same. -/
  stopped : List ℕ
  /-- The batches that are on their way to `deliverEvent`. -/
  handing : List (Batch δ)
  /-- The batches that were handed to `deliverEvent`. -/
  delivered : List (Batch δ)
  /-- The keys that calls of `flushDigestBatches` still have to flush. -/
  flushes : List (List String)
  next : ℕ
  log : List (EventMessage δ)

/-- A section of an operation, or a timer. -/
inductive Step (δ : Type)
  /-- `enqueueDigest`, its first section. -/
  | enqueue (event : EventMessage δ)
  /-- The timer of a batch is scheduled. -/
  | schedule (timer : ℕ × String)
  /-- `enqueueDigest`, its second section. -/
  | attach (timer : ℕ × String)
  | fire (timer : ℕ × String)
  /-- A batch is handed to `deliverEvent`. -/
  | deliver (id : ℕ)
  /-- `flushDigestBatches` collects the keys. -/
  | flushAll
  /-- A call of `flushDigestBatches` flushes its next key. -/
  | flushNext (call : ℕ)

namespace World

/-- No event was enqueued. -/
def initial : World δ := ⟨[], [], [], [], [], [], [], [], 0, []⟩

/-- `digestBatches[key]`. -/
def find (w : World δ) (key : String) : Option (Batch δ) := w.batches.find? fun b => b.key = key

/-- `delete(digestBatches, key)`. -/
def deleted (w : World δ) (key : String) : List (Batch δ) := w.batches.eraseP fun b => b.key = key

/-- `flushDigestKey`, its locked section; the timer of the batch is then stopped. -/
def flushDigestKey (w : World δ) (key : String) : World δ :=
  match w.find key with
  | none => w
  | some b =>
    { w with
      batches := w.deleted key
      handing := b :: w.handing
      stopped := if b.stop then b.id :: w.stopped else w.stopped }

/-- What can happen, one locked section after the other. -/
def step (w : World δ) : Step δ → World δ
  | .enqueue event =>
    match w.find (digestKey event) with
    | none =>
      { w with
        batches := (Batch.new w.next event).merge event :: w.batches
        starting := (w.next, digestKey event) :: w.starting
        next := w.next + 1
        log := event :: w.log }
    | some b =>
      { w with batches := b.merge event :: w.deleted (digestKey event), log := event :: w.log }
  | .schedule timer =>
    if timer ∈ w.starting then
      { w with
        starting := w.starting.erase timer
        attaching := timer :: w.attaching
        timers := timer :: w.timers }
    else w
  | .attach timer =>
    if timer ∈ w.attaching then
      let w := { w with attaching := w.attaching.erase timer }
      match w.find timer.2 with
      | none => { w with stopped := timer.1 :: w.stopped }
      | some b =>
        if b.id = timer.1 ∧ b.stop = false then
          { w with batches := { b with stop := true } :: w.deleted timer.2 }
        else { w with stopped := timer.1 :: w.stopped }
    else w
  | .fire timer =>
    if timer ∈ w.timers then
      { w.flushDigestKey timer.2 with timers := w.timers.erase timer }
    else w
  | .deliver id =>
    match w.handing.find? fun b => b.id = id with
    | none => w
    | some b =>
      { w with
        handing := w.handing.eraseP fun b => b.id = id
        delivered := b :: w.delivered }
  | .flushAll => { w with flushes := w.flushes ++ [w.batches.map Batch.key] }
  | .flushNext call =>
    match w.flushes[call]? with
    | some (key :: keys) => { w.flushDigestKey key with flushes := w.flushes.set call keys }
    | _ => w

/-- The batches, wherever they are. -/
def all (w : World δ) : List (Batch δ) := w.batches ++ w.handing ++ w.delivered

/-- Steps from the beginning. -/
def run (steps : List (Step δ)) : World δ := steps.foldl step .initial

end World

/-- The digest loses and repeats no event. -/
structure Digested (w : World δ) : Prop where
  /-- Every event that was enqueued was put into one batch, once. -/
  parts : w.log.Perm (w.all.flatMap Batch.parts)
  /-- Every batch is in one place: in the map, on its way, or delivered, once. -/
  once : (w.all.map Batch.id).Nodup
  /-- Every batch says what its events say. -/
  faithful : ∀ b ∈ w.all, b.Faithful
  /-- The timer of a batch that waits is not stopped, and it is scheduled or will be. -/
  waits : ∀ b ∈ w.batches, b.id ∉ w.stopped ∧ ((b.id, b.key) ∈ w.starting ∨ (b.id, b.key) ∈ w.timers)

/-- An event that is put into a batch is alike, and the texts of the clients say who they are. -/
def Clean (w : World δ) : Step δ → Prop
  | .enqueue event =>
    (∀ b ∈ w.find (digestKey event), event.Alike b.event) ∧
      Recognized (((w.find (digestKey event)).map fun b => b.event.clients).getD [] ++ event.clients)
  | _ => True

instance (e e' : EventMessage δ) : Decidable (e.Alike e') := inferInstanceAs (Decidable (_ ∧ _))

instance (clients : List (Client δ)) : Decidable (Recognized clients) :=
  inferInstanceAs (Decidable (∀ c ∈ clients, ∀ c' ∈ clients, c.text ≠ "" → c.text = c'.text →
    c.identity = c'.identity))

instance (w : World δ) : ∀ i : Step δ, Decidable (Clean w i)
  | .enqueue event => inferInstanceAs (Decidable ((∀ b ∈ w.find (digestKey event), event.Alike b.event) ∧
      Recognized (((w.find (digestKey event)).map fun b => b.event.clients).getD [] ++ event.clients)))
  | .schedule _ | .attach _ | .fire _ | .deliver _ | .flushAll | .flushNext _ =>
    inferInstanceAs (Decidable True)

/-! ### Batches -/

theorem find?_perm_eraseP {α : Type*} {p : α → Bool} {l : List α} {a : α} (h : l.find? p = some a) :
    l.Perm (a :: l.eraseP p) := by
  induction l with
  | nil => cases h
  | cons x l ih =>
    by_cases hx : p x = true
    · rw [List.find?_cons_of_pos hx] at h
      obtain rfl := Option.some.inj h
      rw [List.eraseP_cons_of_pos hx]
    · rw [List.find?_cons_of_neg hx] at h
      rw [List.eraseP_cons_of_neg hx]
      exact ((ih h).cons x).trans (List.Perm.swap _ _ _)

namespace World

variable {w : World δ} {key : String} {b : Batch δ}

theorem perm_of_find (h : w.find key = some b) : w.batches.Perm (b :: w.deleted key) := find?_perm_eraseP h

theorem key_of_find (h : w.find key = some b) : b.key = key := by
  have := List.find?_some h
  simpa using this

theorem deleted_sublist : (w.deleted key).Sublist w.batches := List.eraseP_sublist

end World

/-! ### Contents -/

/-- Batches have the events that were enqueued. -/
structure Contents (all : List (Batch δ)) (log : List (EventMessage δ)) (next : ℕ) : Prop where
  /-- Every event was put into one batch, once. -/
  parts : log.Perm (all.flatMap Batch.parts)
  /-- Batches have their own places. -/
  ids : (all.map Batch.id).Nodup
  /-- The next place is free. -/
  lt : ∀ b ∈ all, b.id < next
  sound : ∀ b ∈ all, b.Sound

variable {log : List (EventMessage δ)}

theorem Contents.perm {all all' : List (Batch δ)} {next : ℕ}
    (h : Contents all log next) (hperm : all'.Perm all) : Contents all' log next :=
  ⟨h.parts.trans (hperm.symm.flatMap_right _), (hperm.map _).nodup_iff.mpr h.ids,
    fun b hb => h.lt b (hperm.mem_iff.mp hb), fun b hb => h.sound b (hperm.mem_iff.mp hb)⟩

theorem Contents.new {all : List (Batch δ)} {next : ℕ}
    (h : Contents all log next) {event : EventMessage δ} (hrec : Recognized event.clients) :
    Contents ((Batch.new next event).merge event :: all) (event :: log) (next + 1) := by
  refine ⟨h.parts.cons event, List.nodup_cons.mpr ⟨fun hmem => ?_, h.ids⟩, fun b hb => ?_, fun b hb => ?_⟩
  · obtain ⟨b, hb, hid⟩ := List.mem_map.mp hmem
    exact (h.lt b hb).ne hid
  · rcases List.mem_cons.mp hb with rfl | hb
    · exact Nat.lt_succ_self next
    · exact (h.lt b hb).trans (Nat.lt_succ_self next)
  · rcases List.mem_cons.mp hb with rfl | hb
    · exact (Batch.sound_new next event).merge ⟨rfl, rfl, rfl, rfl⟩ hrec
    · exact h.sound b hb

theorem Contents.merge {rest : List (Batch δ)} {next : ℕ} {b : Batch δ}
    (h : Contents (b :: rest) log next) {event : EventMessage δ} (halike : event.Alike b.event)
    (hrec : Recognized (b.event.clients ++ event.clients)) :
    Contents (b.merge event :: rest) (event :: log) next := by
  refine ⟨?_, h.ids, fun b' hb' => ?_, fun b' hb' => ?_⟩
  · have hparts := h.parts.cons event
    rw [List.flatMap_cons] at hparts
    rw [List.flatMap_cons, Batch.merge_parts, List.append_assoc]
    exact hparts.trans List.perm_middle.symm
  · rcases List.mem_cons.mp hb' with rfl | hb'
    · exact h.lt b List.mem_cons_self
    · exact h.lt b' (List.mem_cons_of_mem _ hb')
  · rcases List.mem_cons.mp hb' with rfl | hb'
    · exact (h.sound b List.mem_cons_self).merge halike hrec
    · exact h.sound b' (List.mem_cons_of_mem _ hb')

/-! ### Timers -/

/-- The timers of the batches. -/
structure Timing (w : World δ) : Prop where
  /-- The map has one batch for each key. -/
  keys : (w.batches.map Batch.key).Nodup
  /-- Each timer is started once. -/
  starters : ((w.starting ++ w.attaching).map Prod.fst).Nodup
  /-- It is started for a batch. -/
  startersLt : ∀ timer ∈ w.starting ++ w.attaching, timer.1 < w.next
  /-- It has the key of its batch, where it is not attached yet. -/
  fits : ∀ timer ∈ w.starting ++ w.attaching, ∀ b ∈ w.batches, b.id = timer.1 →
    b.key = timer.2 ∧ b.stop = false
  /-- The timers of batches were stopped. -/
  stoppedLt : ∀ id ∈ w.stopped, id < w.next
  /-- The timer of a batch that waits is not stopped, and it is scheduled or will be. -/
  waits : ∀ b ∈ w.batches, b.id ∉ w.stopped ∧ ((b.id, b.key) ∈ w.starting ∨ (b.id, b.key) ∈ w.timers)

namespace World

variable {w : World δ} {key : String} {b : Batch δ}

theorem find_eq_none_iff : w.find key = none ↔ ∀ b ∈ w.batches, b.key ≠ key := by
  simp [find]

/-- Without the batch of a key, no batch has it. -/
theorem key_ne_of_mem_deleted (h : (w.batches.map Batch.key).Nodup) (hfind : w.find key = some b)
    {b' : Batch δ} (hb' : b' ∈ w.deleted key) : b'.key ≠ key := by
  have hnodup := ((perm_of_find hfind).map Batch.key).nodup_iff.mp h
  rw [List.map_cons, List.nodup_cons, key_of_find hfind] at hnodup
  rintro rfl
  exact hnodup.1 (List.mem_map_of_mem hb')

/-- The batch of a key is the one that has it. -/
theorem find_eq_some (h : (w.batches.map Batch.key).Nodup) (hb : b ∈ w.batches) : w.find b.key = some b := by
  cases hfind : w.find b.key with
  | none => exact absurd rfl (find_eq_none_iff.mp hfind b hb)
  | some b' =>
    rcases List.mem_cons.mp ((perm_of_find hfind).mem_iff.mp hb) with rfl | hmem
    · rfl
    · exact absurd rfl (key_ne_of_mem_deleted h hfind hmem)

theorem flushDigestKey_cases (w : World δ) (key : String) :
    (w.flushDigestKey key = w ∧ w.find key = none) ∨ ∃ b, w.find key = some b ∧
      w.flushDigestKey key = { w with
        batches := w.deleted key
        handing := b :: w.handing
        stopped := if b.stop then b.id :: w.stopped else w.stopped } := by
  unfold flushDigestKey
  cases hfind : w.find key with
  | none => exact .inl ⟨rfl, rfl⟩
  | some b => exact .inr ⟨b, rfl, rfl⟩

theorem all_flushDigestKey (w : World δ) (key : String) : (w.flushDigestKey key).all.Perm w.all := by
  rcases flushDigestKey_cases w key with ⟨heq, -⟩ | ⟨b, hfind, heq⟩
  · rw [heq]
  · rw [heq]
    unfold all
    dsimp only
    refine (List.Perm.append_right _ ?_)
    exact List.perm_middle.trans ((perm_of_find hfind).symm.append_right w.handing)

theorem key_ne_of_mem_flushDigestKey (h : (w.batches.map Batch.key).Nodup)
    (hb : b ∈ (w.flushDigestKey key).batches) : b.key ≠ key ∧ b ∈ w.batches := by
  rcases flushDigestKey_cases w key with ⟨heq, hfind⟩ | ⟨b', hfind, heq⟩
  · rw [heq] at hb
    exact ⟨find_eq_none_iff.mp hfind b hb, hb⟩
  · rw [heq] at hb
    exact ⟨key_ne_of_mem_deleted h hfind hb, deleted_sublist.subset hb⟩

end World

variable {w : World δ}

theorem Contents.ne_of_mem_deleted {next : ℕ} (h : Contents w.all log next)
    {key : String} {b : Batch δ} (hfind : w.find key = some b) {b' : Batch δ} (hb' : b' ∈ w.deleted key) :
    b'.id ≠ b.id := by
  have hids : (w.batches.map Batch.id).Nodup :=
    h.ids.sublist ((List.sublist_append_left _ _).trans (List.sublist_append_left _ _) |>.map _)
  have hnodup := ((World.perm_of_find hfind).map Batch.id).nodup_iff.mp hids
  rw [List.map_cons, List.nodup_cons] at hnodup
  intro heq
  rw [← heq] at hnodup
  exact hnodup.1 (List.mem_map_of_mem hb')

theorem Timing.flushDigestKey (h : Timing w) (hc : Contents w.all w.log w.next) (key : String) :
    Timing (w.flushDigestKey key) := by
  rcases w.flushDigestKey_cases key with ⟨heq, -⟩ | ⟨b, hfind, heq⟩
  · rw [heq]
    exact h
  · rw [heq]
    have hsub : (w.deleted key).Sublist w.batches := World.deleted_sublist
    have hlt : b.id < w.next := by
      refine hc.lt b ?_
      simp [World.all, (World.perm_of_find hfind).mem_iff]
    refine ⟨h.keys.sublist (hsub.map _), h.starters, h.startersLt,
      fun timer htimer b' hb' => h.fits timer htimer b' (hsub.subset hb'), fun id hid => ?_, fun b' hb' => ?_⟩
    · dsimp only at hid
      split_ifs at hid
      · rcases List.mem_cons.mp hid with rfl | hid
        · exact hlt
        · exact h.stoppedLt id hid
      · exact h.stoppedLt id hid
    · obtain ⟨hstopped, hwaits⟩ := h.waits b' (hsub.subset hb')
      refine ⟨?_, hwaits⟩
      dsimp only
      split_ifs
      · exact mt List.mem_cons.mp (not_or.mpr ⟨hc.ne_of_mem_deleted hfind hb', hstopped⟩)
      · exact hstopped

/-! ### Steps -/

/-- Holds in every reachable world. -/
structure Inv (w : World δ) : Prop where
  contents : Contents w.all w.log w.next
  timing : Timing w

theorem inv_initial : Inv (World.initial : World δ) :=
  ⟨⟨.nil, .nil, fun _ hb => (nomatch hb), fun _ hb => (nomatch hb)⟩,
    ⟨.nil, .nil, fun _ ht => (nomatch ht), fun _ ht => (nomatch ht), fun _ hi => (nomatch hi),
      fun _ hb => (nomatch hb)⟩⟩

theorem Inv.flushDigestKey (h : Inv w) (key : String) : Inv (w.flushDigestKey key) := by
  refine ⟨?_, h.timing.flushDigestKey h.contents key⟩
  have hsame : (w.flushDigestKey key).log = w.log ∧ (w.flushDigestKey key).next = w.next := by
    rcases w.flushDigestKey_cases key with ⟨heq, -⟩ | ⟨b, -, heq⟩ <;> rw [heq] <;> exact ⟨rfl, rfl⟩
  rw [hsame.1, hsame.2]
  exact h.contents.perm (w.all_flushDigestKey key)

theorem Inv.enqueue (h : Inv w) {event : EventMessage δ} (hclean : Clean w (.enqueue event)) :
    Inv (w.step (.enqueue event)) := by
  obtain ⟨halike, hrec⟩ := hclean
  simp only [World.step]
  cases hfind : w.find (digestKey event) with
  | none =>
    -- a new batch, whose timer will be scheduled
    rw [hfind] at hrec
    have hkeys := World.find_eq_none_iff.mp hfind
    refine ⟨h.contents.new hrec, ?_, ?_, fun timer htimer => ?_, fun timer htimer b hb hid => ?_,
      fun id hid => (h.timing.stoppedLt id hid).trans (Nat.lt_succ_self _), fun b hb => ?_⟩
    · refine List.nodup_cons.mpr ⟨fun hmem => ?_, h.timing.keys⟩
      obtain ⟨b, hb, hkey⟩ := List.mem_map.mp hmem
      exact hkeys b hb hkey
    · refine List.nodup_cons.mpr ⟨fun hmem => ?_, h.timing.starters⟩
      obtain ⟨timer, htimer, hid⟩ := List.mem_map.mp hmem
      exact (h.timing.startersLt timer htimer).ne hid
    · rcases List.mem_cons.mp htimer with rfl | htimer
      · exact Nat.lt_succ_self _
      · exact (h.timing.startersLt timer htimer).trans (Nat.lt_succ_self _)
    · rcases List.mem_cons.mp htimer with rfl | htimer <;> rcases List.mem_cons.mp hb with rfl | hb
      · exact ⟨rfl, rfl⟩
      · have hlt := h.contents.lt b (by simp [World.all, hb])
        exact absurd hid hlt.ne
      · have hlt := h.timing.startersLt timer htimer
        exact absurd hid.symm hlt.ne
      · exact h.timing.fits timer htimer b hb hid
    · rcases List.mem_cons.mp hb with rfl | hb
      · exact ⟨fun hid => lt_irrefl _ (h.timing.stoppedLt _ hid), .inl List.mem_cons_self⟩
      · exact (h.timing.waits b hb).imp_right (Or.imp_left (List.mem_cons_of_mem _))
  | some b =>
    -- the batch of the key
    rw [hfind] at hrec
    have hperm := World.perm_of_find hfind
    have hmem : ∀ {b'}, b' ∈ b :: w.deleted (digestKey event) → b' ∈ w.batches := hperm.mem_iff.mpr
    have hall : (b :: (w.deleted (digestKey event) ++ w.handing ++ w.delivered)).Perm w.all :=
      (hperm.symm.append_right w.handing).append_right w.delivered
    have hcontents := (h.contents.perm hall).merge (halike b hfind) hrec
    refine ⟨hcontents, ?_, h.timing.starters, h.timing.startersLt, fun timer htimer b' hb' hid => ?_,
      h.timing.stoppedLt, fun b' hb' => ?_⟩
    · exact (hperm.map Batch.key).nodup_iff.mp h.timing.keys
    · rcases List.mem_cons.mp hb' with rfl | hb'
      · exact h.timing.fits timer htimer b (hmem List.mem_cons_self) hid
      · exact h.timing.fits timer htimer b' (hmem (List.mem_cons_of_mem _ hb')) hid
    · rcases List.mem_cons.mp hb' with rfl | hb'
      · exact h.timing.waits b (hmem List.mem_cons_self)
      · exact h.timing.waits b' (hmem (List.mem_cons_of_mem _ hb'))

theorem Inv.schedule (h : Inv w) (timer : ℕ × String) : Inv (w.step (.schedule timer)) := by
  rw [World.step]
  split_ifs with hmem
  · have hperm : (w.starting.erase timer ++ timer :: w.attaching).Perm (w.starting ++ w.attaching) :=
      List.perm_middle.trans ((List.perm_cons_erase hmem).symm.append_right w.attaching)
    refine ⟨h.contents, h.timing.keys, (hperm.map Prod.fst).nodup_iff.mpr h.timing.starters,
      fun t ht => h.timing.startersLt t (hperm.mem_iff.mp ht),
      fun t ht => h.timing.fits t (hperm.mem_iff.mp ht), h.timing.stoppedLt, fun b hb => ?_⟩
    refine (h.timing.waits b hb).imp_right fun hwaits => ?_
    by_cases heq : (b.id, b.key) = timer
    · exact .inr (heq ▸ List.mem_cons_self)
    · exact hwaits.imp (List.mem_erase_of_ne heq).mpr (List.mem_cons_of_mem _)
  · exact h

theorem Inv.attach (h : Inv w) (timer : ℕ × String) : Inv (w.step (.attach timer)) := by
  rw [World.step]
  split_ifs with hmem
  · have hsub : (w.starting ++ w.attaching.erase timer).Sublist (w.starting ++ w.attaching) :=
      List.Sublist.append_left List.erase_sublist _
    have htimer : timer ∈ w.starting ++ w.attaching := List.mem_append_right _ hmem
    -- the timer is stopped, as its batch is not there
    have hstop : (∀ b ∈ w.batches, b.id ≠ timer.1) → Inv { w with
        attaching := w.attaching.erase timer, stopped := timer.1 :: w.stopped } := by
      intro hnone
      refine ⟨h.contents, h.timing.keys, h.timing.starters.sublist (hsub.map _),
        fun t ht => h.timing.startersLt t (hsub.subset ht), fun t ht => h.timing.fits t (hsub.subset ht),
        fun id hid => ?_, fun b hb => ?_⟩
      · rcases List.mem_cons.mp hid with rfl | hid
        · exact h.timing.startersLt timer htimer
        · exact h.timing.stoppedLt id hid
      · exact (h.timing.waits b hb).imp_left fun hnot => mt List.mem_cons.mp (not_or.mpr ⟨hnone b hb, hnot⟩)
    have hbatch : ∀ b ∈ w.batches, b.id = timer.1 → w.find timer.2 = some b ∧ b.stop = false := by
      intro b hb hid
      obtain ⟨hkey, hstop⟩ := h.timing.fits timer htimer b hb hid
      exact ⟨hkey ▸ World.find_eq_some h.timing.keys hb, hstop⟩
    change Inv (match w.find timer.2 with
      | none => _
      | some b => _)
    cases hfind : w.find timer.2 with
    | none =>
      refine hstop fun b hb hid => ?_
      have := (hbatch b hb hid).1
      rw [hfind] at this
      cases this
    | some b =>
      dsimp only
      split_ifs with hown
      · -- the timer is attached
        have hperm := World.perm_of_find hfind
        have hmem' : ∀ {b'}, b' ∈ b :: w.deleted timer.2 → b' ∈ w.batches := hperm.mem_iff.mpr
        have hall : (b :: (w.deleted timer.2 ++ w.handing ++ w.delivered)).Perm w.all :=
          (hperm.symm.append_right w.handing).append_right w.delivered
        have hcontents := h.contents.perm hall
        have hnew : ∀ t ∈ w.starting ++ w.attaching.erase timer, t.1 ≠ timer.1 := by
          have hnodup : ((timer :: (w.starting ++ w.attaching.erase timer)).map Prod.fst).Nodup := by
            refine (List.Perm.map Prod.fst ?_).nodup_iff.mpr h.timing.starters
            exact List.perm_middle.symm.trans ((List.perm_cons_erase hmem).symm.append_left w.starting)
          rw [List.map_cons, List.nodup_cons] at hnodup
          exact fun t ht heq => hnodup.1 (heq ▸ List.mem_map_of_mem ht)
        refine ⟨⟨hcontents.parts, hcontents.ids, fun b' hb' => ?_, fun b' hb' => ?_⟩, ?_,
          h.timing.starters.sublist (hsub.map _), fun t ht => h.timing.startersLt t (hsub.subset ht),
          fun t ht b' hb' hid => ?_, h.timing.stoppedLt, fun b' hb' => ?_⟩
        · rcases List.mem_cons.mp hb' with rfl | hb'
          · exact hcontents.lt b List.mem_cons_self
          · exact hcontents.lt b' (List.mem_cons_of_mem _ hb')
        · rcases List.mem_cons.mp hb' with rfl | hb'
          · have hsound := hcontents.sound b List.mem_cons_self
            exact ⟨hsound.alike, hsound.merged⟩
          · exact hcontents.sound b' (List.mem_cons_of_mem _ hb')
        · exact (hperm.map Batch.key).nodup_iff.mp h.timing.keys
        · rcases List.mem_cons.mp hb' with rfl | hb'
          · exact absurd (hid.symm.trans hown.1) (hnew t ht)
          · exact h.timing.fits t (hsub.subset ht) b' (hmem' (List.mem_cons_of_mem _ hb')) hid
        · rcases List.mem_cons.mp hb' with rfl | hb'
          · exact h.timing.waits b (hmem' List.mem_cons_self)
          · exact h.timing.waits b' (hmem' (List.mem_cons_of_mem _ hb'))
      · refine hstop fun b' hb' hid => hown ?_
        obtain ⟨hfind', hstop'⟩ := hbatch b' hb' hid
        obtain rfl := Option.some.inj (hfind.symm.trans hfind')
        exact ⟨hid, hstop'⟩
  · exact h

theorem Inv.fire (h : Inv w) (timer : ℕ × String) : Inv (w.step (.fire timer)) := by
  rw [World.step]
  split_ifs
  · have hflush := h.flushDigestKey timer.2
    refine ⟨hflush.contents, hflush.timing.keys, hflush.timing.starters, hflush.timing.startersLt,
      hflush.timing.fits, hflush.timing.stoppedLt, fun b hb => ?_⟩
    refine (hflush.timing.waits b hb).imp_right (Or.imp_right fun hmem => ?_)
    -- the timer had the key that was flushed
    have hne : (b.id, b.key) ≠ timer := fun heq =>
      (World.key_ne_of_mem_flushDigestKey h.timing.keys hb).1 (congrArg Prod.snd heq)
    have htimers : (w.flushDigestKey timer.2).timers = w.timers := by
      rcases w.flushDigestKey_cases timer.2 with ⟨heq, -⟩ | ⟨b, -, heq⟩ <;> rw [heq]
    rw [htimers] at hmem
    exact (List.mem_erase_of_ne hne).mpr hmem
  · exact h

theorem Inv.deliver (h : Inv w) (id : ℕ) : Inv (w.step (.deliver id)) := by
  rw [World.step]
  cases hfind : w.handing.find? fun b => b.id = id with
  | none => exact h
  | some b =>
    have hperm := find?_perm_eraseP hfind
    refine ⟨h.contents.perm ?_, h.timing.keys, h.timing.starters, h.timing.startersLt, h.timing.fits,
      h.timing.stoppedLt, h.timing.waits⟩
    unfold World.all
    dsimp only
    rw [List.append_assoc, List.append_assoc]
    exact (List.perm_middle.trans (hperm.symm.append_right w.delivered)).append_left w.batches

theorem Inv.step (h : Inv w) {i : Step δ} (hclean : Clean w i) : Inv (w.step i) := by
  cases i with
  | enqueue event => exact h.enqueue hclean
  | schedule timer => exact h.schedule timer
  | attach timer => exact h.attach timer
  | fire timer => exact h.fire timer
  | deliver id => exact h.deliver id
  | flushAll => exact ⟨h.contents, h.timing.keys, h.timing.starters, h.timing.startersLt, h.timing.fits,
      h.timing.stoppedLt, h.timing.waits⟩
  | flushNext call =>
    rw [World.step]
    split
    · next key keys _ =>
      have hflush := h.flushDigestKey key
      exact ⟨hflush.contents, hflush.timing.keys, hflush.timing.starters, hflush.timing.startersLt,
        hflush.timing.fits, hflush.timing.stoppedLt, hflush.timing.waits⟩
    · exact h

theorem Inv.digested (h : Inv w) : Digested w :=
  ⟨h.contents.parts, h.contents.ids, fun b hb => (h.contents.sound b hb).faithful, h.timing.waits⟩

/-! ### Shutdown -/

/-- An event is enqueued. -/
def Step.IsEnqueue : Step δ → Prop
  | .enqueue _ => True
  | _ => False

/-- A call of `flushDigestBatches` still has the keys of all batches. -/
def Covers (w : World δ) (call : ℕ) : Prop :=
  ∃ keys, w.flushes[call]? = some keys ∧ ∀ b ∈ w.batches, b.key ∈ keys

theorem covers_flushAll (w : World δ) : Covers (w.step .flushAll) w.flushes.length :=
  ⟨w.batches.map Batch.key, by simp [World.step], fun _ hb => List.mem_map_of_mem hb⟩

/-- Without a new event, a call keeps the keys of all batches. -/
theorem Covers.step {call : ℕ} (h : Covers w call) (hinv : Inv w) {i : Step δ} (hi : ¬i.IsEnqueue) :
    Covers (w.step i) call := by
  obtain ⟨keys, hkeys, hall⟩ := h
  have hflush : ∀ key, (w.flushDigestKey key).flushes = w.flushes := by
    intro key
    rcases w.flushDigestKey_cases key with ⟨heq, -⟩ | ⟨b, -, heq⟩ <;> rw [heq]
  have hmem : ∀ {key b}, b ∈ (w.flushDigestKey key).batches → b ∈ w.batches := fun hb =>
    (World.key_ne_of_mem_flushDigestKey hinv.timing.keys hb).2
  cases i with
  | enqueue event => exact absurd trivial hi
  | schedule timer =>
    rw [World.step]
    split_ifs <;> exact ⟨keys, hkeys, hall⟩
  | attach timer =>
    rw [World.step]
    split_ifs with hattach
    · change Covers (match w.find timer.2 with
        | none => _
        | some b => _) call
      cases hfind : w.find timer.2 with
      | none => exact ⟨keys, hkeys, hall⟩
      | some b =>
        dsimp only
        split_ifs
        · refine ⟨keys, hkeys, fun b' hb' => ?_⟩
          rcases List.mem_cons.mp hb' with rfl | hb'
          · exact hall b ((World.perm_of_find hfind).mem_iff.mpr List.mem_cons_self)
          · exact hall b' (World.deleted_sublist.subset hb')
        · exact ⟨keys, hkeys, hall⟩
    · exact ⟨keys, hkeys, hall⟩
  | fire timer =>
    rw [World.step]
    split_ifs
    · exact ⟨keys, (congrArg (·[call]?) (hflush timer.2)).trans hkeys, fun b hb => hall b (hmem hb)⟩
    · exact ⟨keys, hkeys, hall⟩
  | deliver id =>
    rw [World.step]
    split <;> exact ⟨keys, hkeys, hall⟩
  | flushAll =>
    have hlt : call < w.flushes.length := (List.getElem?_eq_some_iff.mp hkeys).1
    exact ⟨keys, by simp [World.step, List.getElem?_append_left hlt, hkeys], hall⟩
  | flushNext other =>
    rw [World.step]
    split
    · next key rest hother =>
      by_cases heq : other = call
      · -- the key that is flushed has no batch any more
        subst heq
        obtain rfl := Option.some.inj (hkeys.symm.trans hother)
        have hlt : other < w.flushes.length := (List.getElem?_eq_some_iff.mp hkeys).1
        refine ⟨rest, by simp [hlt], fun b hb => ?_⟩
        obtain ⟨hne, hb⟩ := World.key_ne_of_mem_flushDigestKey hinv.timing.keys hb
        exact (List.mem_cons.mp (hall b hb)).resolve_left hne
      · refine ⟨keys, ?_, fun b hb => hall b (hmem hb)⟩
        rw [← hkeys]
        exact List.getElem?_set_ne heq
    · exact ⟨keys, hkeys, hall⟩

theorem Covers.foldl {call : ℕ} {after : List (Step δ)} (h : Covers w call) (hinv : Inv w)
    (hclean : Run.Along World.step Clean w after) (hafter : ∀ i ∈ after, ¬i.IsEnqueue) :
    Covers (after.foldl World.step w) call := by
  induction after generalizing w with
  | nil => exact h
  | cons i after ih =>
    obtain ⟨hi, hafter⟩ := List.forall_mem_cons.mp hafter
    exact ih (h.step hinv hi) (hinv.step hclean.1) hclean.2 hafter

theorem inv_run {steps : List (Step δ)} (h : Run.Along World.step Clean .initial steps) :
    Inv (World.run steps) :=
  h.invariant (fun _ _ hinv hi => hinv.step hi) inv_initial

/-- **Digests lose and repeat nothing**, in every run whose events are put into batches that are alike and in
which the texts of clients say who they are; and when `flushDigestBatches` has started after the last event
and is through with its keys, no batch remains. -/
theorem digested_of_along (steps : List (Step δ)) (h : Run.Along World.step Clean .initial steps) :
    Digested (World.run steps) ∧
      ∀ before after, steps = before ++ .flushAll :: after → (∀ i ∈ after, ¬i.IsEnqueue) →
        (World.run steps).flushes[(World.run before).flushes.length]? = some [] →
          (World.run steps).batches = [] := by
  refine ⟨(inv_run h).digested, ?_⟩
  rintro before after rfl hafter hempty
  obtain ⟨hbefore, hflush, hclean⟩ := Run.Along.append.mp h
  have hcovers := (covers_flushAll (World.run before)).foldl ((inv_run hbefore).step hflush) hclean hafter
  have hrun : after.foldl World.step ((World.run before).step .flushAll) =
      World.run (before ++ .flushAll :: after) := by
    simp [World.run]
  rw [hrun] at hcovers
  obtain ⟨keys, hkeys, hall⟩ := hcovers
  obtain rfl := Option.some.inj (hempty.symm.trans hkeys)
  exact List.eq_nil_iff_forall_not_mem.mpr fun b hb => List.not_mem_nil (hall b hb)

/-! ### A name that is an id -/

/-- The notice of a batch. -/
def noticeOf (uuid name : String) : EventMessage Unit :=
  ⟨"offline", "Offline", "", "", [⟨uuid, name, ()⟩], 0⟩

/-- Two clients with their own ids are put together, and delivered at shutdown. -/
def twoClients : List (Step Unit) :=
  [.enqueue (noticeOf "a" "first"), .enqueue (noticeOf "b" "second"), .flushAll, .flushNext 0, .deliver 0]

theorem digested_twoClients : Digested (World.run twoClients) ∧ (World.run twoClients).batches = [] := by
  obtain ⟨hdigested, hempty⟩ := digested_of_along twoClients (by decide +kernel)
  refine ⟨hdigested, hempty [.enqueue (noticeOf "a" "first"), .enqueue (noticeOf "b" "second")]
    [.flushNext 0, .deliver 0] rfl ?_ (by decide +kernel)⟩
  intro i hi
  rcases List.mem_cons.mp hi with rfl | hi
  · exact id
  · obtain rfl := List.mem_singleton.mp hi
    exact id

/-- A client whose name is the id of another one is lost. -/
theorem client_lost : ¬∀ steps : List (Step Unit), Digested (World.run steps) := by
  intro h
  have hfaithful := (h [.enqueue (noticeOf "a" "first"), .enqueue (noticeOf "" "a")]).faithful
  have hall : ∀ b ∈ (World.run [.enqueue (noticeOf "a" "first"), .enqueue (noticeOf "" "a")]).all,
      (b.event.clients.find? fun c => c.identity = some (.name "a")) =
        b.enqueued.find? fun c => c.identity = some (.name "a") :=
    fun b hb => (hfaithful b hb).first (.name "a")
  have hsome : ∀ b ∈ (World.run [.enqueue (noticeOf "a" "first"), .enqueue (noticeOf "" "a")]).all,
      ((b.event.clients.find? fun c => c.identity = some (.name "a")).isSome,
        (b.enqueued.find? fun c => c.identity = some (.name "a")).isSome) = (false, true) := by
    decide +kernel
  obtain ⟨b, hb⟩ : ∃ b, b ∈ (World.run [.enqueue (noticeOf "a" "first"), .enqueue (noticeOf "" "a")]).all :=
    ⟨_, List.mem_cons_self⟩
  have heq := hsome b hb
  rw [hall b hb] at heq
  exact absurd ((congrArg Prod.fst heq).symm.trans (congrArg Prod.snd heq)) (by decide)

/-- Texts with a `NUL` give two events one key; the second is handed over with the texts of the first. -/
theorem texts_lost : ¬Digested (World.run [.enqueue (⟨"offline", "a", "b\u0000c", "", [], 0⟩ : EventMessage Unit),
    .enqueue ⟨"offline", "a\u0000b", "c", "", [], 0⟩]) := by
  intro h
  have halike := (h.faithful _ List.mem_cons_self).alike ⟨"offline", "a\u0000b", "c", "", [], 0⟩
    (List.mem_cons_of_mem _ List.mem_cons_self)
  exact absurd halike.2.1 (by decide +kernel)

end MessageSender

end Komari
