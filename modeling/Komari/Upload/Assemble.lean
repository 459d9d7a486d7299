import Komari.Upload.Calls

/-!
# What is assembled

A run of calls is recorded with what every call returned.

* `chunked_upload` : all of it, over any run.
-/

namespace Komari

namespace Upload

variable {κ : Type} [DecidableEq κ] {ρ : Type} {uuid : UuidPackage} {sum256 : String → κ}

/-- The store, and all calls up to now, the latest first. -/
structure Uploads (κ : Type) (uuid : UuidPackage) (ρ : Type) where
  store : Store κ
  history : List (Event uuid ρ)

/-- What was saved last under an index. -/
def lastSaved (history : List (Event uuid ρ)) (id : String) (index : ℤ) : Option (List UInt8) :=
  history.findSome? fun e => e.saved id index

/-- What the upload was to be. -/
def announced (history : List (Event uuid ρ)) (id : String) : Option Metadata :=
  history.findSome? fun e => e.announced id

theorem lastSaved_cons (e : Event uuid ρ) (history : List (Event uuid ρ)) (id : String) (index : ℤ) :
    lastSaved (e :: history) id index = (e.saved id index).or (lastSaved history id index) := by
  rw [lastSaved, List.findSome?_cons]
  cases e.saved id index <;> rfl

theorem announced_cons (e : Event uuid ρ) (history : List (Event uuid ρ)) (id : String) :
    announced (e :: history) id = (e.announced id).or (announced history id) := by
  rw [announced, List.findSome?_cons]
  cases e.announced id <;> rfl

/-- One call, and its event. -/
def Uploads.step (sum256 : String → κ) (w : Uploads κ uuid ρ) (input : Input uuid ρ) : Uploads κ uuid ρ :=
  ⟨(w.store.step uuid sum256 input).2, ⟨input, (w.store.step uuid sum256 input).1⟩ :: w.history⟩

/-- Calls one after the other, on what is below the root at first. -/
def uploads (uuid : UuidPackage) (sum256 : String → κ) (disk : Table String Directory)
    (inputs : List (Input uuid ρ)) : Uploads κ uuid ρ :=
  inputs.foldl (Uploads.step sum256) ⟨newStore disk, []⟩

namespace Uploads

open Store

variable {w : Uploads κ uuid ρ}

/-! ### Files and history -/

/-- The directory of a session has what was announced and saved last. -/
structure Recorded (w : Uploads κ uuid ρ) (id : String) (d : Directory) : Prop where
  announced_eq : ∀ metadata, d.metadata = some metadata → announced w.history id = some metadata
  saved : ∀ index chunk, d.files.find? (chunkFilename index) = some chunk →
    lastSaved w.history id index = some chunk

/-- Every file is what was saved last under its index. -/
structure Inv (w : Uploads κ uuid ρ) : Prop where
  store : w.store.Inv uuid
  recorded : ∀ id session d, w.store.place id = some (session, some d) → w.Recorded id d

theorem inv_newStore (disk : Table String Directory) : Inv (⟨newStore disk, []⟩ : Uploads κ uuid ρ) where
  store :=
    { idle := fun _ _ => rfl
      staged := fun _ _ _ h => nomatch h
      quotas := ⟨Nat.zero_le _, fun _ => Nat.zero_le _, show (0 : ℤ) ≤ _ by simp [maxStagedBytes]⟩ }
  recorded _ _ _ h := nomatch h

theorem Inv.step (h : w.Inv) (input : Input uuid ρ) : (w.step sum256 input).Inv := by
  obtain ⟨hchange, hinv⟩ := h.store.step sum256 input
  refine ⟨hinv, fun id session d hplace => ?_⟩
  have hchange := hchange id
  rw [show (w.store.step uuid sum256 input).2.place id = some (session, some d) from hplace] at hchange
  generalize hp : some (session, some d) = place at hchange
  cases hchange with
  | same hsaved hannounced =>
    have hold := h.recorded id session d hp.symm
    refine ⟨fun metadata hm => ?_, fun index chunk hchunk => ?_⟩
    · rw [Uploads.step, announced_cons, hannounced, Option.none_or]
      exact hold.announced_eq metadata hm
    · rw [Uploads.step, lastSaved_cons, hsaved, Option.none_or]
      exact hold.saved index chunk hchunk
  | expired => cases hp
  | ended => cases hp
  | saved hplace' hsaved hannounced _ _ _ _ hmetadata hfiles =>
    cases hp
    have hold := h.recorded id _ _ hplace'
    refine ⟨fun metadata hm => ?_, fun i chunk hchunk => ?_⟩
    · rw [Uploads.step, announced_cons, hannounced, Option.none_or]
      exact hold.announced_eq metadata (hmetadata.symm.trans hm)
    · rw [Uploads.step, lastSaved_cons, hsaved]
      rw [hfiles] at hchunk
      split_ifs at hchunk with hi
      · rw [if_pos (chunkFilename_inj hi).symm, Option.some_or]
        exact hchunk
      · rw [if_neg fun heq => hi (congrArg chunkFilename heq.symm), Option.none_or]
        exact hold.saved i chunk hchunk
  | lost hplace' hsaved hannounced =>
    cases hp
    have hold := h.recorded id _ _ hplace'
    refine ⟨fun metadata hm => ?_, fun i chunk hchunk => ?_⟩
    · rw [Uploads.step, announced_cons, hannounced, Option.none_or]
      exact hold.announced_eq metadata hm
    · rw [Uploads.step, lastSaved_cons, hsaved, Option.none_or]
      rw [Directory.find?_remove] at hchunk
      split_ifs at hchunk
      exact hold.saved i chunk hchunk
  | started _ hsaved hannounced =>
    cases hp
    refine ⟨fun metadata hm => ?_, fun i chunk hchunk => nomatch hchunk⟩
    rw [Uploads.step, announced_cons, hannounced, Option.some_or]
    exact hm

theorem inv_uploads (sum256 : String → κ) (disk : Table String Directory) (inputs : List (Input uuid ρ)) :
    (uploads uuid sum256 disk inputs).Inv := by
  induction inputs using List.reverseRecOn with
  | nil => exact inv_newStore disk
  | append_singleton inputs input ih =>
    rw [uploads, List.foldl_append]
    exact ih.step input

/-! ### Finalize -/

variable {s : Store κ} {id : String}

variable {owner : String}

variable {session : OwnedSession κ}

/-- How an upload is finalized that its owner has. -/
theorem finalize_eq {d : Directory}
    {metadata : Metadata} (hplace : s.place id = some (session, some d))
    (hstaged : Staged uuid id session d metadata) (hkey : session.owner = sum256 owner)
    {now : ℤ} (hlive : now < session.expires) (fails : Failures)
    (finish : Session → Option (List UInt8) → Except String ρ) (random : String) :
    s.finalize uuid sum256 fails owner id finish random now =
      match fails .readFile with
      | some err => (.error (.message ("read upload metadata: " ++ err)), s)
      | none =>
        let merged := d.merge fails random metadata.size
        let s' : Store κ := { s with disk := s.disk.upsert id merged.2 }
        match merged.1 with
        | .error err => (.error err, s')
        | .ok () =>
          let archived : Session := ⟨id, metadata, id, id ++ "/archive.zip"⟩
          (.ok ⟨archived, merged.2.files.find? "archive.zip",
            finish archived (merged.2.files.find? "archive.zip")⟩, s'.removeLocked fails id) := by
  obtain ⟨hfind, hd⟩ := find?_of_place hplace
  rw [hstaged.directory] at hd
  have hown : s.ownLocked sum256 fails owner id now = (.ok (), s) := by
    rw [Store.ownLocked, hfind]
    dsimp only
    rw [if_neg (not_not.mpr hkey), if_neg (not_le.mpr hlive)]
  rw [Store.finalize, hown]
  dsimp only
  rw [Store.mergeLocked, hstaged.load hd]
  cases hread : fails .readFile with
  | some err => rfl
  | none =>
    dsimp only
    rw [onDirectory_eq hd]
    cases hmerge : d.merge fails random metadata.size with
    | mk result d' =>
      cases result with
      | error err => rfl
      | ok _ =>
        dsimp only
        rw [Store.archive]
        dsimp only
        rw [Table.find?_upsert_self, Option.bind_some]

variable {fails : Failures}

/-- An archive that is handed over is made of the chunks. -/
theorem finalize_ok (h : s.Inv uuid) {random : String}
    {finish : Session → Option (List UInt8) → Except String ρ} {now : ℤ} {f : Finished ρ}
    (hok : (s.finalize uuid sum256 fails owner id finish random now).1 = .ok f) :
    ∃ session d metadata contents, s.place id = some (session, some d) ∧ Staged uuid id session d metadata ∧
      List.Forall₂ (d.HasChunk metadata.size) (indices metadata.size) contents ∧
        f.session = ⟨id, metadata, id, id ++ "/archive.zip"⟩ ∧ f.archive = some contents.flatten ∧
          f.result = finish f.session f.archive := by
  have hown := ownLocked_cases sum256 fails owner id now s
  cases hr : s.ownLocked sum256 fails owner id now with
  | mk result s' =>
    rw [hr] at hown
    cases hown with
    | foreign =>
      rw [Store.finalize, hr] at hok
      cases hok
    | expired =>
      rw [Store.finalize, hr] at hok
      cases hok
    | owned hfind hkey hlive =>
      obtain ⟨d, metadata, -, hplace, hstaged⟩ := h.directory hfind
      rw [finalize_eq hplace hstaged hkey hlive] at hok
      cases hread : fails .readFile with
      | some err => rw [hread] at hok; cases hok
      | none =>
        rw [hread] at hok
        dsimp only at hok
        rcases Directory.merge_cases fails random metadata.size d with
          ⟨err, hmerge⟩ | ⟨archive, d', hchunks, hmerge, harchive⟩
        · rw [hmerge] at hok
          cases hok
        · rw [hmerge] at hok
          cases hok
          obtain ⟨contents, hall, rfl⟩ := Directory.forall_of_mergeChunks_eq_ok
            (fun index hindex => mem_indices_iff.mp hindex) hchunks
          exact ⟨_, d, metadata, contents, hplace, hstaged, hall, rfl, harchive, rfl⟩

variable (w) (sum256)

/-- **Every archive that is handed over is the announced one**: the chunks in order, each as it was saved
last. -/
def Exact : Prop :=
  ∀ (input : Input uuid ρ) (f : Finished ρ), (w.store.step uuid sum256 input).1 = .finalize (.ok f) →
    announced w.history f.session.id = some f.session.metadata ∧
      ∃ contents, List.Forall₂ (fun index chunk => lastSaved w.history f.session.id index = some chunk)
          (indices f.session.metadata.size) contents ∧
        f.archive = some contents.flatten ∧ (contents.flatten.length : ℤ) = f.session.metadata.size

/-- All readings of the clock during a call are at most `t`. -/
def Before (input : Input uuid ρ) (t : ℤ) : Prop := input.now ≤ t ∧ ∀ id, input.clock id ≤ t

/-- What the owners have is as before. -/
def Keeps (input : Input uuid ρ) : Prop :=
  ∀ key t, Before input t → ∀ id,
    visible key t (w.store.step uuid sum256 input).2 id = visible key t w.store id

/-- **Finalizing can be retried**: while a chunk is missing it fails and leaves everything in place, and
then it succeeds. -/
def Retryable : Prop :=
  ∀ (input : Input uuid ρ) (owner id : String) (finish : Session → Option (List UInt8) → Except String ρ)
    (random : String), input.op = .finalize owner id finish random →
    ∀ session d metadata, w.store.place id = some (session, some d) → d.metadata = some metadata →
      ((∃ index ∈ indices metadata.size, d.files.find? (chunkFilename index) = none) →
        (∃ err, (w.store.step uuid sum256 input).1 = .finalize (.error err)) ∧ w.Keeps sum256 input) ∧
      ((∀ index ∈ indices metadata.size, d.files.find? (chunkFilename index) ≠ none) →
        session.owner = sum256 owner → input.now < session.expires → (∀ call, input.fails call = none) →
          ∃ f, (w.store.step uuid sum256 input).1 = .finalize (.ok f))

/-- **A chunk of another size leaves everything in place.** -/
def SizeSafe : Prop :=
  ∀ (input : Input uuid ρ) (owner id : String) (index : ℤ) (source : Reader) (random : String),
    input.op = .saveChunk owner id index source random →
    ∀ session d metadata, w.store.place id = some (session, some d) → d.metadata = some metadata →
      expectedChunkSize metadata.size index ≠ .ok (source.content.length : ℤ) →
        (∃ err, (w.store.step uuid sum256 input).1 = .saveChunk (.error err)) ∧ w.Keeps sum256 input

/-- **Nobody affects the sessions of another owner.** -/
def Unaffected : Prop :=
  ∀ (input : Input uuid ρ) (key : κ), (∀ owner, input.op.owner? = some owner → sum256 owner ≠ key) →
    ∀ t, Before input t → ∀ id,
      visible key t (w.store.step uuid sum256 input).2 id = visible key t w.store id

/-- The store is full: the error of `Init`. -/
def quotaExceeded : UploadError := .message "upload staging quota exceeded"

/-- **Nobody observes the sessions of another owner**, but that the store is full: where an owner has the
same, the calls return the same.  `Init` gets a new identifier, and no call of the system fails. -/
def Unobserved (w' : Uploads κ uuid ρ) : Prop :=
  ∀ (input : Input uuid ρ) (owner : String), input.op.owner? = some owner →
    (∀ id, visible (sum256 owner) input.now w.store id = visible (sum256 owner) input.now w'.store id) →
      (∀ purpose filename size u, input.op = .init owner purpose filename size u →
        (∀ call, input.fails call = none) ∧ w.store.disk.find? ("upload-" ++ uuid.string u) = none ∧
          w'.store.disk.find? ("upload-" ++ uuid.string u) = none) →
        (w.store.step uuid sum256 input).1 = (w'.store.step uuid sum256 input).1 ∨
          (w.store.step uuid sum256 input).1 = .init (.error quotaExceeded) ∨
            (w'.store.step uuid sum256 input).1 = .init (.error quotaExceeded)

variable {w} {sum256}

theorem Inv.exact (h : w.Inv) : w.Exact sum256 := by
  intro input f hf
  cases hop : input.op with
  | finalize owner id finish random =>
    have hok : (w.store.finalize uuid sum256 input.fails owner id finish random input.now).1 = .ok f := by
      rw [Store.step, hop] at hf
      exact Output.finalize.inj hf
    obtain ⟨session, d, metadata, contents, hplace, hstaged, hall, hsession, harchive, -⟩ :=
      finalize_ok h.store hok
    have hrecorded := h.recorded id session d hplace
    rw [hsession]
    exact ⟨hrecorded.announced_eq metadata hstaged.metadata_eq, contents,
      hall.imp fun index chunk hchunk => hrecorded.saved index chunk hchunk.1, harchive,
      length_flatten hstaged.bounds.1 hall⟩
  | init => rw [Store.step, hop] at hf; cases hf
  | saveChunk => rw [Store.step, hop] at hf; cases hf
  | cancel => rw [Store.step, hop] at hf; cases hf
  | sweep => rw [Store.step, hop] at hf; cases hf

/-- A session that has expired is not there any more. -/
theorem visible_eq_none {key : κ} {t : ℤ}
    (h : ∀ p, s.place id = some p → ¬Sees key t p) : visible key t s id = none :=
  Option.filter_eq_none_iff.mpr fun p hp => by simpa using h p hp

theorem Inv.unaffected (h : w.Inv) : w.Unaffected sum256 := by
  intro input key hother t ht id
  obtain ⟨hchange, -⟩ := h.store.step sum256 input
  have hchange := hchange id
  generalize hplace' : (w.store.step uuid sum256 input).2.place id = place at hchange
  cases hchange with
  | same => rw [visible, visible, hplace']
  | expired hplace hexp =>
    rw [visible, hplace', Option.filter_none, visible_eq_none]
    intro p hp hsees
    rw [hplace] at hp
    cases hp
    have hle := hexp.elim (fun hle => hle.trans ht.1) fun hle => hle.trans (ht.2 id)
    exact absurd hsees.2 (not_lt.mpr hle)
  | ended hplace howner hkey =>
    rw [visible, hplace', Option.filter_none, visible_eq_none]
    intro p hp hsees
    rw [hplace] at hp
    cases hp
    exact hother _ howner (hkey.symm.trans hsees.1)
  | saved hplace _ _ howner hkey =>
    rw [visible_eq_none, visible_eq_none]
    · intro p hp hsees
      rw [hplace] at hp
      cases hp
      exact hother _ howner (hkey.symm.trans hsees.1)
    · intro p hp hsees
      rw [hplace'] at hp
      cases hp
      exact hother _ howner (hkey.symm.trans hsees.1)
  | lost hplace _ _ howner hkey =>
    rw [visible_eq_none, visible_eq_none]
    · intro p hp hsees
      rw [hplace] at hp
      cases hp
      exact hother _ howner (hkey.symm.trans hsees.1)
    · intro p hp hsees
      rw [hplace'] at hp
      cases hp
      exact hother _ howner (hkey.symm.trans hsees.1)
  | started hgone _ _ howner hkey =>
    rw [visible_eq_none, visible_eq_none]
    · intro p hp hsees
      exact absurd hsees.2 (not_lt.mpr ((hgone p hp).trans (ht.2 id)))
    · intro p hp hsees
      rw [hplace'] at hp
      cases hp
      exact hother _ howner (hkey.symm.trans hsees.1)

/-! ### Calls that fail -/

/-- Sessions are as before, or have expired. -/
def Settled (s s' : Store κ) (now : ℤ) : Prop :=
  ∀ k, s'.place k = s.place k ∨ ∃ p, s.place k = some p ∧ p.1.expires ≤ now ∧ s'.place k = none

theorem settled_of_owning (h : s.Inv uuid) {now : ℤ}
    {r : Except UploadError Unit × Store κ} (hr : Owning sum256 fails owner id now s r)
    (herr : r.1 ≠ .ok ()) : r.1 = .error .notFound ∧ Settled s r.2 now := by
  cases hr with
  | foreign => exact ⟨rfl, fun k => .inl rfl⟩
  | expired hfind hkey hexp =>
    refine ⟨rfl, fun k => ?_⟩
    rw [h.homes.place_removeLocked]
    split_ifs with hk
    · obtain ⟨d, metadata, -, hplace, -⟩ := h.directory hfind
      exact .inr ⟨_, hk ▸ hplace, hexp, rfl⟩
    · exact .inl rfl
  | owned => exact absurd rfl herr

theorem keeps_of_settled {input : Input uuid ρ}
    (h : Settled w.store (w.store.step uuid sum256 input).2 input.now) : w.Keeps sum256 input := by
  intro key t ht id
  rcases h id with hsame | ⟨p, hp, hexp, hnone⟩
  · rw [visible, visible, hsame]
  · rw [visible, hnone, Option.filter_none, visible_eq_none]
    intro p' hp' hsees
    rw [hp] at hp'
    cases hp'
    exact absurd hsees.2 (not_lt.mpr (hexp.trans ht.1))

/-- A call that fails, and changes no session in use. -/
theorem keeps_of_error {α : Type} {input : Input uuid ρ} {out : Except UploadError α → Output ρ}
    {err : UploadError} {s' : Store κ} (hstep : w.store.step uuid sum256 input = (out (.error err), s'))
    (hsettled : Settled w.store s' input.now) :
    (∃ err, (w.store.step uuid sum256 input).1 = out (.error err)) ∧ w.Keeps sum256 input := by
  refine ⟨⟨_, by rw [hstep]⟩, keeps_of_settled ?_⟩
  rw [hstep]
  exact hsettled

/-- A call on a session: its owner has it, or nothing happens. -/
theorem owned_or_refused (h : s.Inv uuid) (sum256 : String → κ) (fails : Failures)
    (owner id : String) (now : ℤ) :
    (∃ session d metadata, s.place id = some (session, some d) ∧ Staged uuid id session d metadata ∧
        session.owner = sum256 owner ∧ now < session.expires ∧
          s.ownLocked sum256 fails owner id now = (.ok (), s)) ∨
      visible (sum256 owner) now s id = none ∧ ∃ s',
        s.ownLocked sum256 fails owner id now = (.error .notFound, s') ∧ Settled s s' now := by
  have hown := ownLocked_cases sum256 fails owner id now s
  generalize hr : s.ownLocked sum256 fails owner id now = r at hown
  have hown' := hown
  cases hown with
  | foreign hforeign =>
    refine .inr ⟨visible_eq_none ?_, s, rfl, fun k => .inl rfl⟩
    intro p hp hsees
    exact hforeign p.1 (find?_of_place hp).1 hsees.1
  | @expired session hfind hkey hexp =>
    refine .inr ⟨visible_eq_none ?_, _, rfl, (settled_of_owning h hown' fun herr => nomatch herr).2⟩
    intro p hp hsees
    obtain rfl : session = p.1 := Option.some.inj (hfind.symm.trans (find?_of_place hp).1)
    exact absurd hsees.2 (not_lt.mpr hexp)
  | owned hfind hkey hlive =>
    obtain ⟨d, metadata, -, hplace, hstaged⟩ := h.directory hfind
    exact .inl ⟨_, d, metadata, hplace, hstaged, hkey, hlive, rfl⟩

theorem settled_upsert_self (h : s.Inv uuid)
    {d : Directory} (hplace : s.place id = some (session, some d)) (now : ℤ) :
    Settled s { s with disk := s.disk.upsert id d } now :=
  fun k => .inl (h.place_upsert_self hplace k)

theorem Inv.retryable (h : w.Inv) : w.Retryable sum256 := by
  intro input owner id finish random hop session d metadata hplace hmetadata
  have hstep : w.store.step uuid sum256 input =
      (w.store.finalize uuid sum256 input.fails owner id finish random input.now).map .finalize
        fun s => s := by
    rw [Store.step, hop]
    rfl
  obtain ⟨d', metadata', hd, hstaged⟩ := h.store.staged id session _ hplace
  cases hd
  obtain rfl : metadata = metadata' := Option.some.inj (hmetadata.symm.trans hstaged.metadata_eq)
  constructor
  · rintro ⟨index, hindex, hmissing⟩
    -- the merge does not get past the chunk
    have hmerge : ∃ err, d.merge input.fails random metadata.size = (.error err, d) := by
      rcases Directory.merge_cases input.fails random metadata.size d with herr | ⟨archive, d', hchunks, -⟩
      · exact herr
      · obtain ⟨contents, hall, -⟩ := Directory.forall_of_mergeChunks_eq_ok
          (fun i hi => mem_indices_iff.mp hi) hchunks
        obtain ⟨chunk, hchunk⟩ := exists_forall₂_iff.mp ⟨contents, hall⟩ index hindex
        rw [hchunk.1] at hmissing
        cases hmissing
    obtain ⟨err, hmerge⟩ := hmerge
    rcases owned_or_refused h.store sum256 input.fails owner id input.now with
      ⟨session', d', metadata', hplace', hstaged', hkey, hlive, -⟩ | ⟨-, s', hown, hsettled⟩
    · rw [hplace] at hplace'
      cases hplace'
      have heq := finalize_eq hplace hstaged hkey hlive input.fails finish random
      rw [hmerge] at heq
      cases hread : input.fails .readFile with
      | some err =>
        rw [hread] at heq
        rw [heq] at hstep
        exact keeps_of_error hstep fun k => .inl rfl
      | none =>
        rw [hread] at heq
        rw [heq] at hstep
        exact keeps_of_error hstep (settled_upsert_self h.store hplace _)
    · have heq : w.store.finalize uuid sum256 input.fails owner id finish random input.now =
          (.error .notFound, s') := by
        rw [Store.finalize, hown]
      rw [heq] at hstep
      exact keeps_of_error hstep hsettled
  · intro hall hkey hlive hfails
    obtain ⟨contents, hchunks⟩ : ∃ contents, List.Forall₂ (d.HasChunk metadata.size)
        (indices metadata.size) contents := by
      refine exists_forall₂_iff.mpr fun index hindex => ?_
      obtain ⟨chunk, hchunk⟩ := Option.ne_none_iff_exists'.mp (hall index hindex)
      exact ⟨chunk, hchunk, hstaged.chunks index chunk hchunk⟩
    have htemp : d.files.find? ("." ++ ("merged-" ++ random ++ ".zip")) = none := by
      by_contra hne
      obtain ⟨content, hcontent⟩ := Option.ne_none_iff_exists'.mp hne
      obtain ⟨index, hindex⟩ := hstaged.names _ content hcontent
      exact chunkFilename_ne index _ hindex.symm
    have heq := finalize_eq hplace hstaged hkey hlive input.fails finish random
    rw [hfails] at heq
    dsimp only at heq
    rw [Directory.merge_eq_ok hfails htemp hchunks] at heq
    rw [hstep, heq]
    exact ⟨_, rfl⟩

/-- How a chunk is saved in a session that its owner has. -/
theorem saveChunk_eq {d : Directory}
    {metadata : Metadata} (hplace : s.place id = some (session, some d))
    (hstaged : Staged uuid id session d metadata) {now : ℤ}
    (hown : s.ownLocked sum256 fails owner id now = (.ok (), s)) (index : ℤ) (source : Reader)
    (random : String) :
    s.saveChunk uuid sum256 fails owner id index source random now =
      match fails .readFile with
      | some err => (.error (.message ("read upload metadata: " ++ err)), s)
      | none =>
        match expectedChunkSize metadata.size index with
        | .error err => (.error err, s)
        | .ok expectedSize =>
          let saved := d.saveChunk fails random index expectedSize source
          (saved.1, { s with disk := s.disk.upsert id saved.2 }) := by
  obtain ⟨-, hd⟩ := find?_of_place hplace
  rw [hstaged.directory] at hd
  rw [Store.saveChunk, hown]
  dsimp only
  rw [hstaged.load hd]
  cases fails .readFile with
  | some err => rfl
  | none =>
    dsimp only
    cases expectedChunkSize metadata.size index with
    | error err => rfl
    | ok expectedSize => exact onDirectory_eq hd _

theorem Inv.sizeSafe (h : w.Inv) : w.SizeSafe sum256 := by
  intro input owner id index source random hop session d metadata hplace hmetadata hsize
  have hstep : w.store.step uuid sum256 input =
      (w.store.saveChunk uuid sum256 input.fails owner id index source random input.now).map .saveChunk
        fun s => s := by
    rw [Store.step, hop]
    rfl
  obtain ⟨d', metadata', hd, hstaged⟩ := h.store.staged id session _ hplace
  cases hd
  obtain rfl : metadata = metadata' := Option.some.inj (hmetadata.symm.trans hstaged.metadata_eq)
  rcases owned_or_refused h.store sum256 input.fails owner id input.now with
    ⟨session', d', metadata', hplace', hstaged', -, -, hown⟩ | ⟨-, s', hown, hsettled⟩
  · rw [hplace] at hplace'
    cases hplace'
    have heq := saveChunk_eq hplace hstaged hown index source random
    cases hread : input.fails .readFile with
    | some err =>
      rw [hread] at heq
      rw [heq] at hstep
      exact keeps_of_error hstep fun k => .inl rfl
    | none =>
      rw [hread] at heq
      dsimp only at heq
      cases hexpected : expectedChunkSize metadata.size index with
      | error err =>
        rw [hexpected] at heq
        rw [heq] at hstep
        exact keeps_of_error hstep fun k => .inl rfl
      | ok expectedSize =>
        -- what is read has another size, too
        have hwrong : ((source.limited (chunkSize + 1)).1.length : ℤ) ≠ expectedSize := by
          intro heq
          rw [← heq] at hexpected
          rw [limited_eq hexpected hstaged.bounds.1] at hexpected
          exact hsize hexpected
        obtain ⟨err, hsaved⟩ := d.saveChunk_wrong_size input.fails random index hwrong
        rw [hexpected] at heq
        dsimp only at heq
        rw [hsaved] at heq
        rw [heq] at hstep
        exact keeps_of_error hstep (settled_upsert_self h.store hplace _)
  · have heq : w.store.saveChunk uuid sum256 input.fails owner id index source random input.now =
        (.error .notFound, s') := by
      rw [Store.saveChunk, hown]
    rw [heq] at hstep
    exact keeps_of_error hstep hsettled

/-! ### What an owner observes -/

/-- A call on a session returns what it returns in another store where the owner has the same. -/
theorem same_of_visible {s' : Store κ} (h : s.Inv uuid) (h' : s'.Inv uuid) {now : ℤ}
    (fails : Failures)
    (hvisible : visible (sum256 owner) now s id = visible (sum256 owner) now s' id) :
    (∃ session d metadata, s.place id = some (session, some d) ∧ s'.place id = some (session, some d) ∧
        Staged uuid id session d metadata ∧ session.owner = sum256 owner ∧ now < session.expires ∧
          s.ownLocked sum256 fails owner id now = (.ok (), s) ∧
            s'.ownLocked sum256 fails owner id now = (.ok (), s')) ∨
      ∃ r r', s.ownLocked sum256 fails owner id now = (.error .notFound, r) ∧
        s'.ownLocked sum256 fails owner id now = (.error .notFound, r') := by
  have hsees : ∀ {s : Store κ} {session d}, s.place id = some (session, some d) →
      session.owner = sum256 owner → now < session.expires →
      visible (sum256 owner) now s id = some (session, some d) := by
    intro s session d hplace hkey hlive
    have hs : Sees (sum256 owner) now ((session, some d) : Place κ) := ⟨hkey, hlive⟩
    rw [visible, hplace, Option.filter_some, if_pos (by simpa using hs)]
  rcases owned_or_refused h sum256 fails owner id now with
    ⟨session, d, metadata, hplace, hstaged, hkey, hlive, hown⟩ | ⟨hnone, r, hown, -⟩ <;>
  rcases owned_or_refused h' sum256 fails owner id now with
    ⟨session', d', metadata', hplace', hstaged', hkey', hlive', hown'⟩ | ⟨hnone', r', hown', -⟩
  · have heq := (hsees hplace hkey hlive).symm.trans (hvisible.trans (hsees hplace' hkey' hlive'))
    cases heq
    exact .inl ⟨session, d, metadata, hplace, hplace', hstaged, hkey, hlive, hown, hown'⟩
  · have heq := (hsees hplace hkey hlive).symm.trans (hvisible.trans hnone')
    cases heq
  · have heq := (hsees hplace' hkey' hlive').symm.trans (hvisible.symm.trans hnone)
    cases heq
  · exact .inr ⟨r, r', hown, hown'⟩

/-- `Init` with a new identifier: what it returns does not depend on the store, unless the store is
full. -/
theorem init_eq (sum256 : String → κ)
    (hfails : ∀ call, fails call = none) (owner purpose filename : String) (size : ℤ) {u : uuid.UUID}
    (hnew : s.disk.find? ("upload-" ++ uuid.string u) = none) (clock : String → ℤ) (now : ℤ) :
    (s.init uuid sum256 fails owner purpose filename size u clock now).1 =
        (if owner = "" then .error .notFound
        else if isKnownPurpose purpose = false then .error (.message "invalid upload purpose")
        else if size ≤ 0 ∨ sizeLimit purpose < size then
          .error (.message s!"size must be between 1 and {sizeLimit purpose} bytes")
        else .ok ⟨"upload-" ++ uuid.string u, ⟨purpose, size, filename⟩, "upload-" ++ uuid.string u, ""⟩) ∨
      (s.init uuid sum256 fails owner purpose filename size u clock now).1 = .error quotaExceeded := by
  obtain ⟨s', hclear, hnew'⟩ : ∃ s', s.clearOrphans fails = (.ok (), s') ∧
      s'.disk.find? ("upload-" ++ uuid.string u) = none := by
    unfold Store.clearOrphans
    split_ifs
    · exact ⟨s, rfl, hnew⟩
    · rw [hfails, hfails]
      dsimp only
      have hnone : ((s.disk.rows.filter fun row => (trimUpload row.1).isSome).findSome? fun row =>
          fails (.removeAll row.1)) = none := List.findSome?_eq_none_iff.mpr fun row _ => hfails _
      rw [hnone]
      refine ⟨_, rfl, ?_⟩
      dsimp only
      rw [Table.find?_deleteWhere, hnew, Option.filter_none]
  have hswept := disk_sweepLocked hnew' fails clock
  unfold Store.init
  rw [hclear]
  dsimp only
  generalize s'.sweepLocked fails clock = s₂ at hswept
  unfold Store.start
  by_cases howner : owner = ""
  · exact .inl (by rw [if_pos howner, if_pos howner])
  rw [if_neg howner, if_neg howner]
  by_cases hpurpose : isKnownPurpose purpose = false
  · exact .inl (by rw [if_pos hpurpose, if_pos hpurpose])
  rw [if_neg hpurpose, if_neg hpurpose]
  by_cases hsize : size ≤ 0 ∨ sizeLimit purpose < size
  · exact .inl (by rw [if_pos hsize, if_pos hsize])
  rw [if_neg hsize, if_neg hsize]
  dsimp only
  split
  · exact .inr rfl
  · rw [hfails, hswept, hfails]
    exact .inl rfl

theorem Inv.unobserved {w' : Uploads κ uuid ρ} (h : w.Inv) (h' : w'.Inv) : w.Unobserved sum256 w' := by
  intro input owner howner hvisible hinit
  cases hop : input.op with
  | init owner' purpose filename size u =>
    obtain ⟨hfails, hnew, hnew'⟩ := hinit purpose filename size u (by
      rw [hop] at howner ⊢
      cases howner
      rfl)
    have hstep : ∀ s : Store κ, (s.step uuid sum256 input).1 =
        .init (s.init uuid sum256 input.fails owner' purpose filename size u input.clock input.now).1 := by
      intro s
      rw [Store.step, hop]
      rfl
    rw [hstep, hstep]
    rcases init_eq sum256 hfails owner' purpose filename size hnew input.clock input.now with heq | hfull
    · rcases init_eq sum256 hfails owner' purpose filename size hnew' input.clock input.now with
        heq' | hfull'
      · exact .inl (by rw [heq, heq'])
      · exact .inr (.inr (by rw [hfull']))
    · exact .inr (.inl (by rw [hfull]))
  | saveChunk owner' id index source random =>
    rw [hop] at howner
    cases howner
    have hstep : ∀ s : Store κ, (s.step uuid sum256 input).1 =
        .saveChunk (s.saveChunk uuid sum256 input.fails owner id index source random input.now).1 := by
      intro s
      rw [Store.step, hop]
      rfl
    left
    rw [hstep, hstep]
    rcases same_of_visible h.store h'.store input.fails (hvisible id) with
      ⟨session, d, metadata, hplace, hplace', hstaged, -, -, hown, hown'⟩ | ⟨r, r', hown, hown'⟩
    · rw [saveChunk_eq hplace hstaged hown, saveChunk_eq hplace' hstaged hown']
      cases input.fails .readFile with
      | some err => rfl
      | none => cases expectedChunkSize metadata.size index <;> rfl
    · rw [Store.saveChunk, Store.saveChunk, hown, hown']
  | finalize owner' id finish random =>
    rw [hop] at howner
    cases howner
    have hstep : ∀ s : Store κ, (s.step uuid sum256 input).1 =
        .finalize (s.finalize uuid sum256 input.fails owner id finish random input.now).1 := by
      intro s
      rw [Store.step, hop]
      rfl
    left
    rw [hstep, hstep]
    rcases same_of_visible h.store h'.store input.fails (hvisible id) with
      ⟨session, d, metadata, hplace, hplace', hstaged, hkey, hlive, -, -⟩ | ⟨r, r', hown, hown'⟩
    · rw [finalize_eq hplace hstaged hkey hlive, finalize_eq hplace' hstaged hkey hlive]
      cases input.fails .readFile with
      | some err => rfl
      | none => cases hmerge : d.merge input.fails random metadata.size with
        | mk result d' => cases result <;> rfl
    · rw [Store.finalize, Store.finalize, hown, hown']
  | cancel owner' id =>
    rw [hop] at howner
    cases howner
    have hstep : ∀ s : Store κ, (s.step uuid sum256 input).1 =
        .cancel (s.cancel sum256 input.fails owner id input.now).1 := by
      intro s
      rw [Store.step, hop]
      rfl
    left
    rw [hstep, hstep]
    rcases same_of_visible h.store h'.store input.fails (hvisible id) with
      ⟨-, -, -, -, -, -, -, -, hown, hown'⟩ | ⟨r, r', hown, hown'⟩
    · rw [Store.cancel, Store.cancel, hown, hown']
    · rw [Store.cancel, Store.cancel, hown, hown']
  | sweep =>
    rw [hop] at howner
    cases howner

end Uploads

/-- **Chunked uploads.**  Over any run of calls: the archive that is handed over is what was sent; calls
that fail because of a missing chunk or of a wrong size leave everything in place, and can be retried; nobody
affects or observes what another owner has, but that the store is full; the quotas are kept. -/
theorem chunked_upload (uuid : UuidPackage) (sum256 : String → κ) (disk : Table String Directory)
    (inputs : List (Input uuid ρ)) :
    (uploads uuid sum256 disk inputs).Exact sum256 ∧ (uploads uuid sum256 disk inputs).Retryable sum256 ∧
      (uploads uuid sum256 disk inputs).SizeSafe sum256 ∧ (uploads uuid sum256 disk inputs).Unaffected sum256 ∧
        (∀ disk' inputs', (uploads uuid sum256 disk inputs).Unobserved sum256
          (uploads uuid sum256 disk' inputs')) ∧
          (uploads uuid sum256 disk inputs).store.Quotas := by
  have h := Uploads.inv_uploads sum256 disk inputs
  exact ⟨h.exact, h.retryable, h.sizeSafe, h.unaffected,
    fun disk' inputs' => h.unobserved (Uploads.inv_uploads sum256 disk' inputs'), h.store.quotas⟩

/-- An id that is never given twice. -/
def plainUuid : UuidPackage := ⟨String, some, fun u => u, fun _ => rfl⟩

/-- A call at a time, when no call of the system fails. -/
def callAt (now : ℤ) (op : Op plainUuid Unit) : Input plainUuid Unit := ⟨op, fun _ => none, fun _ => now, now⟩

/-- `finish`, which does nothing. -/
def noFinish : Session → Option (List UInt8) → Except String Unit := fun _ _ => .ok ()

example : ((uploads plainUuid id ∅
    [callAt 0 (.init "a" "theme" "theme.zip" 1 "u"), callAt 1 (.saveChunk "a" "upload-u" 0 ⟨[1, 2], none⟩ "r"),
      callAt 2 (.saveChunk "a" "upload-u" 0 ⟨[7], none⟩ "r")]).store.step plainUuid id
        (callAt 3 (.finalize "a" "upload-u" noFinish "r"))).1 =
    .finalize (.ok ⟨⟨"upload-u", ⟨"theme", 1, "theme.zip"⟩, "upload-u", "upload-u/archive.zip"⟩, some [7], .ok ()⟩) := by
  rfl

/-- A session that has expired is removed when it is finalized without its chunk; and an owner is refused
because of the sessions of another one. -/
theorem upload_expired_and_full :
    (((uploads plainUuid id ∅ [callAt 0 (.init "a" "theme" "theme.zip" 1 "u")]).store.place "upload-u").isSome ∧
      ((uploads plainUuid id ∅ [callAt 0 (.init "a" "theme" "theme.zip" 1 "u"),
        callAt lifetime (.finalize "a" "upload-u" noFinish "r")]).store.place "upload-u").isNone) ∧
      ((uploads plainUuid id ∅ [callAt 0 (.init "a" "backup" "1.zip" maxSize "1"),
        callAt 0 (.init "a" "backup" "2.zip" maxSize "2")]).store.step plainUuid id
          (callAt 0 (.init "b" "theme" "theme.zip" 1 "u"))).1 = .init (.error Uploads.quotaExceeded) ∧
        ((uploads plainUuid id ∅ ([] : List (Input plainUuid Unit))).store.step plainUuid id
          (callAt 0 (.init "b" "theme" "theme.zip" 1 "u"))).1 =
          .init (.ok ⟨"upload-u", ⟨"theme", 1, "theme.zip"⟩, "upload-u", ""⟩) := by
  refine ⟨⟨?_, ?_⟩, ?_, ?_⟩
  · rfl
  · rfl
  · rfl
  · rfl

end Upload

end Komari
