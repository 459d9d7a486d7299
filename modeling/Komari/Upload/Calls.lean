import Komari.Upload.Session

/-!
# What a call may do
-/

namespace Komari

namespace Upload

variable {κ : Type} {ρ : Type} {uuid : UuidPackage} {sum256 : String → κ}

/-- A call, and what it returned. -/
structure Event (uuid : UuidPackage) (ρ : Type) where
  input : Input uuid ρ
  output : Output ρ

/-- The chunk that a call saves under an index. -/
def Event.saved (e : Event uuid ρ) (id : String) (index : ℤ) : Option (List UInt8) :=
  match e.input.op, e.output with
  | .saveChunk _ uploadID i source _, .saveChunk (.ok ()) =>
    if uploadID = id ∧ i = index then some source.content else none
  | _, _ => none

/-- The upload that the call announces. -/
def Event.announced (e : Event uuid ρ) (id : String) : Option Metadata :=
  match e.output with
  | .init (.ok session) => if session.id = id then some session.metadata else none
  | _ => none

/-- Who calls. -/
def Op.owner? : Op uuid ρ → Option String
  | .init owner .. => some owner
  | .saveChunk owner .. => some owner
  | .finalize owner .. => some owner
  | .cancel owner _ => some owner
  | .sweep => none

namespace Store

variable {s : Store κ} {fails : Failures}

/-- What a call may do to the session with an id. -/
inductive Change (uuid : UuidPackage) (sum256 : String → κ) (s : Store κ) (e : Event uuid ρ) (id : String) :
    Option (Place κ) → Prop
  | same (hsaved : ∀ index, e.saved id index = none) (hannounced : e.announced id = none) :
      Change uuid sum256 s e id (s.place id)
  | expired {p : Place κ} (hplace : s.place id = some p)
      (hexp : p.1.expires ≤ e.input.now ∨ p.1.expires ≤ e.input.clock id) : Change uuid sum256 s e id none
  | ended {p : Place κ} {owner : String} (hplace : s.place id = some p)
      (howner : e.input.op.owner? = some owner) (hkey : p.1.owner = sum256 owner) :
      Change uuid sum256 s e id none
  /-- Its owner saves a chunk. -/
  | saved {session : OwnedSession κ} {d d' : Directory} {metadata : Metadata} {index : ℤ}
      {content : List UInt8} {owner : String} (hplace : s.place id = some (session, some d))
      (hsaved : ∀ i, e.saved id i = if index = i then some content else none)
      (hannounced : e.announced id = none) (howner : e.input.op.owner? = some owner)
      (hkey : session.owner = sum256 owner) (hstaged : Staged uuid id session d metadata)
      (hsize : expectedChunkSize metadata.size index = .ok (content.length : ℤ))
      (hmetadata : d'.metadata = d.metadata)
      (hfiles : ∀ name, d'.files.find? name =
        if name = chunkFilename index then some content else d.files.find? name) :
      Change uuid sum256 s e id (some (session, some d'))
  /-- Its owner replaces a chunk, and the new one is not published. -/
  | lost {session : OwnedSession κ} {d : Directory} {index : ℤ} {owner : String}
      (hplace : s.place id = some (session, some d)) (hsaved : ∀ i, e.saved id i = none)
      (hannounced : e.announced id = none) (howner : e.input.op.owner? = some owner)
      (hkey : session.owner = sum256 owner) :
      Change uuid sum256 s e id (some (session, some (d.remove (chunkFilename index))))
  | started {session : OwnedSession κ} {metadata : Metadata} {owner : String}
      (hgone : ∀ p, s.place id = some p → p.1.expires ≤ e.input.clock id) (hsaved : ∀ i, e.saved id i = none)
      (hannounced : e.announced id = some metadata) (howner : e.input.op.owner? = some owner)
      (hkey : session.owner = sum256 owner)
      (hstaged : Staged uuid id session ⟨some metadata, ∅⟩ metadata) :
      Change uuid sum256 s e id (some (session, some ⟨some metadata, ∅⟩))

variable {id : String}

theorem Change.of_filter {e : Event uuid ρ} {place : Option (Place κ)}
    (hplace : place = (s.place id).filter fun p => e.input.clock id < p.1.expires)
    (hsaved : ∀ index, e.saved id index = none) (hannounced : e.announced id = none) :
    Change uuid sum256 s e id place := by
  subst hplace
  cases hp : s.place id with
  | none =>
    rw [Option.filter_none, ← hp]
    exact .same hsaved hannounced
  | some p =>
    rw [Option.filter_some]
    split_ifs with hlive
    · rw [← hp]
      exact .same hsaved hannounced
    · exact .expired hp (.inr (not_lt.mp (by simpa using hlive)))

/-- A chunk that has its size is read to its end. -/
theorem limited_eq {source : Reader} {size index : ℤ}
    (h : expectedChunkSize size index = .ok ((source.limited (chunkSize + 1)).1.length : ℤ)) (hsize : 0 < size) :
    (source.limited (chunkSize + 1)).1 = source.content := by
  have hle : ((source.limited (chunkSize + 1)).1.length : ℤ) ≤ chunkSize := by
    rw [expectedChunkSize_eq h]
    split_ifs with hlast
    · have hcount : size ≤ chunkCount size * chunkSize := by
        rw [chunkCount, Int.tdiv_eq_ediv_of_nonneg (by omega)]
        unfold chunkSize
        omega
      rw [hlast, sub_mul]
      omega
    · exact le_rfl
  unfold Reader.limited at hle ⊢
  split_ifs at hle ⊢ with hlong
  · rw [List.length_take, Nat.min_eq_left hlong] at hle
    omega
  · rfl

/-! ### Init -/

variable [DecidableEq κ]

/-- What a call of `Init` may do. -/
inductive Starting (uuid : UuidPackage) (owner : κ) (s : Store κ) :
    Except UploadError Session × Store κ → Prop
  | refused {s' : Store κ} (err : UploadError) (hplace : ∀ k, s'.place k = s.place k)
      (hsessions : s'.sessions = s.sessions) (hinit : s'.initialized = s.initialized) :
      Starting uuid owner s (.error err, s')
  | accepted {s' : Store κ} {id : String} {metadata : Metadata} {session : OwnedSession κ}
      (hnone : s.place id = none) (hkey : session.owner = owner)
      (hstaged : Staged uuid id session ⟨some metadata, ∅⟩ metadata)
      (hplace : ∀ k, s'.place k =
        if k = id then some (session, some ⟨some metadata, ∅⟩) else s.place k)
      (hquotas : Quotas s') (hinit : s'.initialized = s.initialized) :
      Starting uuid owner s (.ok ⟨id, metadata, id, ""⟩, s')

theorem sizeLimit_le (purpose : String) : sizeLimit purpose ≤ maxSize := by
  unfold sizeLimit
  dsimp only
  split_ifs <;> simp [maxSize]

theorem validUploadID_string (u : uuid.UUID) : validUploadID uuid ("upload-" ++ uuid.string u) = true := by
  have htrim : trimUpload ("upload-" ++ uuid.string u) = some (uuid.string u) := by
    have hlist : ("upload-" ++ uuid.string u).toList = "upload-".toList ++ (uuid.string u).toList :=
      String.toList_append
    have hdrop : ("upload-".toList ++ (uuid.string u).toList).drop 7 = (uuid.string u).toList :=
      List.drop_left' rfl
    rw [trimUpload, hlist, if_pos (List.isPrefixOf_iff_prefix.mpr (List.prefix_append _ _)), hdrop,
      String.ofList_toList]
  rw [validUploadID, htrim, Option.bind_some, uuid.parse_string]
  exact decide_eq_true rfl

variable {session : OwnedSession κ}

theorem Quotas.upsert (h : Quotas s)
    (hnone : s.sessions.find? id = none) (hlength : s.sessions.rows.length < 4)
    (howner : (s.sessions.rows.countP fun row => row.2.owner = session.owner) < 2)
    (hsize : (s.sessions.rows.map fun row => row.2.size).sum + session.size ≤ maxStagedBytes)
    (disk : Table String Directory) (initialized : Bool) :
    Quotas (⟨disk, s.sessions.upsert id session, initialized⟩ : Store κ) := by
  have herase : s.sessions.erase id = s.sessions := by
    apply AList.ext
    refine List.filter_eq_self.mpr fun e he => ?_
    have hne : e.1 ≠ id := fun heq => AList.lookup_eq_none.mp hnone (heq ▸ List.mem_keys_of_mem he)
    simp [hne]
  have hperm := Table.rows_upsert_perm s.sessions id session
  rw [herase] at hperm
  refine ⟨?_, fun key => ?_, ?_⟩
  · rw [hperm.length_eq, List.length_cons]
    omega
  · rw [hperm.countP_eq, List.countP_cons]
    by_cases hkey : session.owner = key
    · subst hkey
      simp only [decide_true, if_true]
      omega
    · simp only [hkey, decide_false, Bool.false_eq_true, if_false, Nat.add_zero]
      exact h.owner key
  · rw [(hperm.map _).sum_eq, List.map_cons, List.sum_cons, add_comm]
    exact hsize

theorem Inv.start (h : Inv uuid s) (sum256 : String → κ) (fails : Failures)
    (owner purpose filename : String) (size : ℤ) (u : uuid.UUID) (now : ℤ) :
    Starting uuid (sum256 owner) s (s.start uuid sum256 fails owner purpose filename size u now) := by
  unfold Store.start
  split_ifs with hpurpose hsize
  · exact .refused _ (fun _ => rfl) rfl rfl
  · exact .refused _ (fun _ => rfl) rfl rfl
  · dsimp only
    split
    case isTrue => exact .refused _ (fun _ => rfl) rfl rfl
    case isFalse hquota =>
      cases hmkdir : fails .mkdir with
      | some err => exact .refused _ (fun _ => rfl) rfl rfl
      | none =>
        cases hdisk : s.disk.find? ("upload-" ++ uuid.string u) with
        | some d => exact .refused _ (fun _ => rfl) rfl rfl
        | none =>
          -- a session would have its directory
          have hnone : s.sessions.find? ("upload-" ++ uuid.string u) = none := by
            by_contra hne
            obtain ⟨session, hfind⟩ := Option.ne_none_iff_exists'.mp hne
            obtain ⟨d, metadata, hd, -⟩ := h.directory hfind
            rw [hd] at hdisk
            cases hdisk
          have hplace := place_eq_none.mpr hnone
          dsimp only
          cases hwrite : fails .writeFile with
          | some err =>
            dsimp only
            split
            · refine .refused _ (fun k => ?_) rfl rfl
              rw [h.homes.place_upsert, hplace, Option.map_none]
              split_ifs with hk
              · rw [hk, hplace]
              · rfl
            · exact .refused _ (fun _ => rfl) rfl rfl
          | none =>
            simp only [not_or, not_le, not_lt] at hsize hquota
            have hkey : (⟨"upload-" ++ uuid.string u, sum256 owner, size, now + lifetime⟩ :
                OwnedSession κ).owner = sum256 owner := rfl
            refine .accepted hplace hkey ?_ (fun k => ?_)
              (h.quotas.upsert hnone hquota.1 hquota.2.1 hquota.2.2 _ _) rfl
            · exact
                { directory := rfl
                  valid := validUploadID_string u
                  metadata_eq := rfl
                  size := rfl
                  purpose := Bool.eq_true_of_not_eq_false hpurpose
                  bounds := ⟨hsize.1, hsize.2.trans (sizeLimit_le purpose)⟩
                  chunks := fun index chunk hchunk => nomatch hchunk
                  names := fun name content hcontent => nomatch hcontent }
            · by_cases hk : k = "upload-" ++ uuid.string u
              · rw [if_pos hk, hk]
                simp [place]
              · rw [if_neg hk]
                unfold place
                dsimp only
                rw [Table.find?_upsert_ne hk]
                cases hfind : s.sessions.find? k with
                | none => rfl
                | some session =>
                  rw [Option.map_some, Option.map_some, h.homes k session hfind, Table.find?_upsert_ne hk]

theorem Starting.inv {owner : κ} {r : Except UploadError Session × Store κ} (h : Inv uuid s)
    (hinit : s.initialized = true) (hr : Starting uuid owner s r) : Inv uuid r.2 := by
  cases hr with
  | refused err hplace hsessions hinit' =>
    refine h.shrink (fun k => .inl (hplace k)) ?_ fun htrue => by rw [hinit', htrue]
    rw [hsessions]
  | @accepted s' id metadata session hnone hkey hstaged hplace hquotas hinit' =>
    refine ⟨fun hidle => ?_, fun k session' dir hk => ?_, hquotas⟩
    · rw [hinit', hinit] at hidle
      cases hidle
    · rw [hplace] at hk
      split_ifs at hk with heq
      · cases hk
        exact ⟨_, metadata, rfl, heq ▸ hstaged⟩
      · exact h.staged k session' dir hk

theorem Inv.init (h : Inv uuid s) (sum256 : String → κ) (input : Input uuid ρ)
    {owner purpose filename : String} {size : ℤ}
    {u : uuid.UUID} (hop : input.op = .init owner purpose filename size u) :
    (∀ id, Change uuid sum256 s ⟨input, (s.step uuid sum256 input).1⟩ id
      ((s.step uuid sum256 input).2.place id)) ∧ Inv uuid (s.step uuid sum256 input).2 := by
  have hsaved : ∀ output id index, (⟨input, output⟩ : Event uuid ρ).saved id index = none := by
    intro output id index
    simp [Event.saved, hop]
  have hstep : s.step uuid sum256 input = (s.init uuid sum256 input.fails owner purpose filename size u
      input.clock input.now).map .init id := by
    rw [step, hop]
  rw [hstep]
  unfold Store.init
  split_ifs with howner
  · exact ⟨fun id => .same (hsaved _ id) rfl, h⟩
  · obtain ⟨hsessions, hplace, htrue, hok⟩ := h.clearOrphans input.fails
    cases hinit : s.clearOrphans input.fails with
    | mk result s₁ =>
      rw [hinit] at hsessions hplace htrue hok
      have hinv₁ : Inv uuid s₁ := by
        refine h.shrink (fun k => .inl (hplace k)) ?_ htrue
        rw [hsessions]
      cases result with
      | error err =>
        refine ⟨fun id => ?_, hinv₁⟩
        have hsame : s₁.place id = s.place id := hplace id
        exact hsame ▸ .same (hsaved _ id) rfl
      | ok _ =>
        obtain ⟨-, -, hinit₂, hplace₂⟩ := hinv₁.homes.sweepLocked input.fails input.clock
        have hinv₂ := hinv₁.sweepLocked input.fails input.clock
        have hstart := hinv₂.start sum256 input.fails owner purpose filename size u input.now
        refine ⟨fun k => ?_, hstart.inv hinv₂ (by rw [hinit₂]; exact hok rfl)⟩
        have hswept : (s₁.sweepLocked input.fails input.clock).place k =
            (s.place k).filter fun p => input.clock k < p.1.expires := by
          rw [hplace₂ k]
          exact congrArg _ (hplace k)
        dsimp only
        cases hresult : (s₁.sweepLocked input.fails input.clock).start uuid sum256 input.fails owner purpose
            filename size u input.now with
        | mk result s₃ =>
          rw [hresult] at hstart
          cases hstart with
          | refused err hplace₃ => exact .of_filter ((hplace₃ k).trans hswept) (hsaved _ k) rfl
          | @accepted _ id metadata session hnone hkey hstaged hplace₃ =>
            show Change uuid sum256 s _ k (s₃.place k)
            rw [hplace₃ k]
            split_ifs with hk
            · subst hk
              refine .started (fun p hp => ?_) (hsaved _ k) ?_ ?_ hkey hstaged
              · rw [hswept, hp, Option.filter_some] at hnone
                by_contra hlive
                rw [if_pos (by simpa using hlive)] at hnone
                cases hnone
              · simp [Event.announced]
              · dsimp only
                rw [hop]
                rfl
            · refine .of_filter hswept (hsaved _ k) ?_
              simp [Event.announced, Ne.symm hk]

/-! ### The other calls -/

/-- Files are written in the directory of a session. -/
theorem Inv.upsert (h : Inv uuid s) {d d' : Directory}
    {metadata : Metadata} (hplace : s.place id = some (session, some d))
    (hstaged : Staged uuid id session d' metadata) :
    Inv uuid { s with disk := s.disk.upsert id d' } := by
  refine ⟨fun hidle k => ?_, fun k session' dir hk => ?_,
    ⟨h.quotas.sessions, h.quotas.owner, h.quotas.size⟩⟩
  · rw [h.idle hidle id] at hplace
    cases hplace
  · rw [h.homes.place_upsert] at hk
    split_ifs at hk with heq
    · subst heq
      rw [hplace] at hk
      cases hk
      exact ⟨d', metadata, rfl, hstaged⟩
    · exact h.staged k session' dir hk

theorem Inv.place_upsert_self (h : Inv uuid s) {d : Directory}
    (hplace : s.place id = some (session, some d)) (k : String) :
    ({ s with disk := s.disk.upsert id d } : Store κ).place k = s.place k := by
  rw [h.homes.place_upsert]
  split_ifs with hk
  · rw [hk, hplace]
    rfl
  · rfl

theorem Inv.owning (h : Inv uuid s) {e : Event uuid ρ} {owner : String}
    {r : Except UploadError Unit × Store κ} (hr : Owning sum256 fails owner id e.input.now s r)
    (herr : r.1 ≠ .ok ()) (hsaved : ∀ k index, e.saved k index = none)
    (hannounced : ∀ k, e.announced k = none) :
    (∀ k, Change uuid sum256 s e k (r.2.place k)) ∧ Inv uuid r.2 := by
  cases hr with
  | foreign => exact ⟨fun k => .same (hsaved k) (hannounced k), h⟩
  | expired hfind hkey hexp =>
    refine ⟨fun k => ?_, h.removeLocked id⟩
    dsimp only
    rw [h.homes.place_removeLocked]
    split_ifs with hk
    · obtain ⟨d, metadata, -, hplace, -⟩ := h.directory hfind
      exact .expired (hk ▸ hplace) (.inl hexp)
    · exact .same (hsaved k) (hannounced k)
  | owned => exact absurd rfl herr

omit [DecidableEq κ] in
/-- A chunk is removed. -/
theorem Staged.remove {d : Directory} {metadata : Metadata}
    (h : Staged uuid id session d metadata) (removed : String) :
    Staged uuid id session (d.remove removed) metadata := by
  refine { h with
    metadata_eq := h.metadata_eq
    chunks := fun i chunk hchunk => ?_
    names := fun name content hcontent => ?_ }
  · rw [Directory.find?_remove] at hchunk
    split_ifs at hchunk
    exact h.chunks i chunk hchunk
  · rw [Directory.find?_remove] at hcontent
    split_ifs at hcontent
    exact h.names name content hcontent

omit [DecidableEq κ] in
/-- A chunk of the right size is put in place. -/
theorem Staged.saved {d d' : Directory} {metadata : Metadata}
    (h : Staged uuid id session d metadata) {index : ℤ} {content : List UInt8}
    (hexpected : expectedChunkSize metadata.size index = .ok (content.length : ℤ))
    (hmetadata : d'.metadata = d.metadata)
    (hfiles : ∀ name, d'.files.find? name =
      if name = chunkFilename index then some content else d.files.find? name) :
    Staged uuid id session d' metadata := by
  refine { h with
    metadata_eq := hmetadata.trans h.metadata_eq
    chunks := fun i chunk hchunk => ?_
    names := fun name content hcontent => ?_ }
  · rw [hfiles] at hchunk
    split_ifs at hchunk with hi
    · cases hchunk
      rw [chunkFilename_inj hi]
      exact hexpected
    · exact h.chunks i chunk hchunk
  · rw [hfiles] at hcontent
    split_ifs at hcontent with hname
    · exact ⟨index, hname⟩
    · exact h.names name content hcontent

theorem Inv.saveChunk (h : Inv uuid s) (sum256 : String → κ) (input : Input uuid ρ)
    {owner uploadID random : String} {index : ℤ}
    {source : Reader} (hop : input.op = .saveChunk owner uploadID index source random) :
    (∀ id, Change uuid sum256 s ⟨input, (s.step uuid sum256 input).1⟩ id
      ((s.step uuid sum256 input).2.place id)) ∧ Inv uuid (s.step uuid sum256 input).2 := by
  have hstep : s.step uuid sum256 input = (s.saveChunk uuid sum256 input.fails owner uploadID index source
      random input.now).map .saveChunk id := by
    rw [step, hop]
  have herror : ∀ err k i, (⟨input, .saveChunk (.error err)⟩ : Event uuid ρ).saved k i = none := by
    intro err k i
    simp [Event.saved, hop]
  have hannounced : ∀ r k, (⟨input, .saveChunk r⟩ : Event uuid ρ).announced k = none := fun _ _ => rfl
  have howner : input.op.owner? = some owner := by
    rw [hop]
    rfl
  rw [hstep]
  unfold Store.saveChunk
  have hown := ownLocked_cases sum256 input.fails owner uploadID input.now s
  generalize s.ownLocked sum256 input.fails owner uploadID input.now = r at hown
  obtain ⟨result, s'⟩ := r
  cases result with
  | error err =>
    exact h.owning (e := ⟨input, .saveChunk (.error err)⟩) hown (fun herr => nomatch herr) (herror err) (hannounced _)
  | ok _ =>
    cases hown with
    | @owned session hfind hkey hlive =>
      obtain ⟨d, metadata, hd, hplace, hstaged⟩ := h.directory hfind
      dsimp only
      rw [hstaged.load hd]
      cases hread : input.fails .readFile with
      | some err => exact ⟨fun k => .same (herror _ k) rfl, h⟩
      | none =>
        dsimp only
        cases hexpected : expectedChunkSize metadata.size index with
        | error err => exact ⟨fun k => .same (herror _ k) rfl, h⟩
        | ok expectedSize =>
          dsimp only
          rw [onDirectory_eq hd]
          have hsaving := Directory.saveChunk_cases input.fails random index expectedSize source d
          generalize d.saveChunk input.fails random index expectedSize source = r at hsaving
          cases hsaving with
          | failed err =>
            refine ⟨fun k => ?_, h.upsert hplace hstaged⟩
            have hsame := h.place_upsert_self hplace k
            exact hsame ▸ .same (herror err k) rfl
          | lost err hsize hrename =>
            refine ⟨fun k => ?_, h.upsert hplace (hstaged.remove _)⟩
            show Change uuid sum256 s _ k
              (place { s with disk := s.disk.upsert uploadID (d.remove (chunkFilename index)) } k)
            rw [h.homes.place_upsert]
            split_ifs with hk
            · subst hk
              rw [hplace]
              exact .lost hplace (herror err k) rfl howner hkey
            · exact .same (herror err k) rfl
          | @saved d' hsize hmetadata hfiles =>
            rw [← hsize] at hexpected
            have hcontent := limited_eq hexpected hstaged.bounds.1
            rw [hcontent] at hexpected hfiles
            refine ⟨fun k => ?_, h.upsert hplace (hstaged.saved hexpected hmetadata hfiles)⟩
            show Change uuid sum256 s _ k (place { s with disk := s.disk.upsert uploadID d' } k)
            rw [h.homes.place_upsert]
            split_ifs with hk
            · subst hk
              rw [hplace]
              refine .saved hplace (fun i => ?_) rfl howner hkey hstaged hexpected hmetadata hfiles
              simp [Event.saved, hop]
            · refine .same (fun i => ?_) rfl
              simp [Event.saved, hop, Ne.symm hk]

theorem Inv.finalize (h : Inv uuid s) (sum256 : String → κ) (input : Input uuid ρ) {owner uploadID random : String}
    {finish : Session → Option (List UInt8) → Except String ρ}
    (hop : input.op = .finalize owner uploadID finish random) :
    (∀ k, Change uuid sum256 s ⟨input, (s.step uuid sum256 input).1⟩ k
      ((s.step uuid sum256 input).2.place k)) ∧ Inv uuid (s.step uuid sum256 input).2 := by
  have hstep : s.step uuid sum256 input = (s.finalize uuid sum256 input.fails owner uploadID finish random
      input.now).map .finalize id := by
    rw [step, hop]
  have hsaved : ∀ r k i, (⟨input, .finalize r⟩ : Event uuid ρ).saved k i = none := by
    intro r k i
    simp [Event.saved, hop]
  have hannounced : ∀ r k, (⟨input, .finalize r⟩ : Event uuid ρ).announced k = none := fun _ _ => rfl
  have howner : input.op.owner? = some owner := by
    rw [hop]
    rfl
  rw [hstep]
  unfold Store.finalize
  have hown := ownLocked_cases sum256 input.fails owner uploadID input.now s
  generalize s.ownLocked sum256 input.fails owner uploadID input.now = r at hown
  obtain ⟨result, s'⟩ := r
  cases result with
  | error err =>
    exact h.owning (e := ⟨input, .finalize (.error err)⟩) hown (fun herr => nomatch herr) (hsaved _) (hannounced _)
  | ok _ =>
    cases hown with
    | @owned session hfind hkey hlive =>
      obtain ⟨d, metadata, hd, hplace, hstaged⟩ := h.directory hfind
      dsimp only
      unfold Store.mergeLocked
      rw [hstaged.load hd]
      cases hread : input.fails .readFile with
      | some err => exact ⟨fun k => .same (hsaved _ k) rfl, h⟩
      | none =>
        dsimp only
        rw [onDirectory_eq hd]
        rcases Directory.merge_cases input.fails random metadata.size d with
          ⟨err, hmerge⟩ | ⟨archive, d', -, hmerge, -⟩
        · rw [hmerge]
          refine ⟨fun k => ?_, h.upsert hplace hstaged⟩
          have hsame := h.place_upsert_self hplace k
          exact hsame ▸ .same (hsaved _ k) rfl
        · rw [hmerge]
          have hhomes : Homes { s with disk := s.disk.upsert uploadID d' } := h.homes
          have hplaces : ∀ k, (Store.removeLocked input.fails uploadID { s with disk := s.disk.upsert uploadID d' }).place k =
              if k = uploadID then none else s.place k := by
            intro k
            rw [hhomes.place_removeLocked, h.homes.place_upsert]
            split_ifs <;> rfl
          refine ⟨fun k => ?_, h.shrink (fun k => ?_) (rows_removeLocked uploadID) fun htrue => ?_⟩
          · show Change uuid sum256 s _ k
              (place (Store.removeLocked input.fails uploadID { s with disk := s.disk.upsert uploadID d' }) k)
            rw [hplaces k]
            split_ifs with hk
            · exact .ended (hk ▸ hplace) howner hkey
            · exact .same (hsaved _ k) rfl
          · by_cases hk : k = uploadID
            · exact .inr ((hplaces k).trans (if_pos hk))
            · exact .inl ((hplaces k).trans (if_neg hk))
          · exact (initialized_removeLocked uploadID).trans htrue

theorem Inv.cancel (h : Inv uuid s) (sum256 : String → κ) (input : Input uuid ρ) {owner uploadID : String}
    (hop : input.op = .cancel owner uploadID) :
    (∀ k, Change uuid sum256 s ⟨input, (s.step uuid sum256 input).1⟩ k
      ((s.step uuid sum256 input).2.place k)) ∧ Inv uuid (s.step uuid sum256 input).2 := by
  have hstep : s.step uuid sum256 input =
      (s.cancel sum256 input.fails owner uploadID input.now).map .cancel id := by
    rw [step, hop]
  have hsaved : ∀ r k i, (⟨input, .cancel r⟩ : Event uuid ρ).saved k i = none := by
    intro r k i
    simp [Event.saved, hop]
  rw [hstep]
  unfold Store.cancel
  have hown := ownLocked_cases sum256 input.fails owner uploadID input.now s
  generalize s.ownLocked sum256 input.fails owner uploadID input.now = r at hown
  obtain ⟨result, s'⟩ := r
  cases result with
  | error err =>
    exact h.owning (e := ⟨input, .cancel (.error err)⟩) hown (fun herr => nomatch herr) (hsaved _) fun _ => rfl
  | ok _ =>
    cases hown with
    | owned hfind hkey hlive =>
      obtain ⟨d, metadata, -, hplace, -⟩ := h.directory hfind
      refine ⟨fun k => ?_, h.removeLocked uploadID⟩
      show Change uuid sum256 s _ k ((s.removeLocked input.fails uploadID).place k)
      rw [h.homes.place_removeLocked]
      split_ifs with hk
      · exact .ended (hk ▸ hplace) (by rw [hop]; rfl) hkey
      · exact .same (hsaved _ k) rfl

theorem Inv.sweep (h : Inv uuid s) (sum256 : String → κ) (input : Input uuid ρ) (hop : input.op = .sweep) :
    (∀ k, Change uuid sum256 s ⟨input, (s.step uuid sum256 input).1⟩ k
      ((s.step uuid sum256 input).2.place k)) ∧ Inv uuid (s.step uuid sum256 input).2 := by
  have hstep : s.step uuid sum256 input = (.sweep, s.sweepLocked input.fails input.clock) := by
    rw [step, hop]
  obtain ⟨-, -, -, hplace⟩ := h.homes.sweepLocked input.fails input.clock
  rw [hstep]
  refine ⟨fun k => .of_filter (hplace k) (fun i => ?_) rfl, h.sweepLocked _ _⟩
  simp [Event.saved, hop]

/-- **What a call may do.** -/
theorem Inv.step (h : Inv uuid s) (sum256 : String → κ) (input : Input uuid ρ) :
    (∀ id, Change uuid sum256 s ⟨input, (s.step uuid sum256 input).1⟩ id
      ((s.step uuid sum256 input).2.place id)) ∧ Inv uuid (s.step uuid sum256 input).2 := by
  cases hop : input.op with
  | init => exact h.init sum256 input hop
  | saveChunk => exact h.saveChunk sum256 input hop
  | finalize => exact h.finalize sum256 input hop
  | cancel => exact h.cancel sum256 input hop
  | sweep => exact h.sweep sum256 input hop

end Store

end Upload

end Komari
