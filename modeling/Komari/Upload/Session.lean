import Komari.Upload.Merge
import Mathlib.Algebra.Order.BigOperators.Group.List

/-!
# Sessions and their directories
-/

namespace Komari

namespace Upload

namespace Store

variable {κ : Type} {uuid : UuidPackage} {s : Store κ} {fails : Failures}

/-- An upload and its directory. -/
abbrev Place (κ : Type) := OwnedSession κ × Option Directory

/-- The session with an id, and its directory. -/
def place (s : Store κ) (id : String) : Option (Place κ) :=
  (s.sessions.find? id).map fun session => (session, s.disk.find? session.directory)

section

variable [DecidableEq κ]

/-- The owner has the session at a time. -/
def Sees (key : κ) (t : ℤ) (p : Place κ) : Prop := p.1.owner = key ∧ t < p.1.expires

instance (key : κ) (t : ℤ) (p : Place κ) : Decidable (Sees key t p) := inferInstanceAs (Decidable (_ ∧ _))

/-- What an owner has at a time. -/
def visible (key : κ) (t : ℤ) (s : Store κ) (id : String) : Option (Place κ) :=
  (s.place id).filter fun p => Sees key t p

end

/-- A session that is well staged in its directory. -/
structure Staged (uuid : UuidPackage) (id : String) (session : OwnedSession κ) (d : Directory)
    (metadata : Metadata) : Prop where
  /-- The directory has the name of the session. -/
  directory : session.directory = id
  valid : validUploadID uuid id = true
  metadata_eq : d.metadata = some metadata
  /-- It has the size of the session. -/
  size : metadata.size = session.size
  purpose : isKnownPurpose metadata.purpose = true
  bounds : 0 < metadata.size ∧ metadata.size ≤ maxSize
  /-- The chunks have their sizes. -/
  chunks : ∀ index chunk, d.files.find? (chunkFilename index) = some chunk →
    expectedChunkSize metadata.size index = .ok (chunk.length : ℤ)
  names : ∀ name content, d.files.find? name = some content → ∃ index, name = chunkFilename index

/-- **The quotas**: four sessions, two for each owner, and 512 MiB. -/
structure Quotas [DecidableEq κ] (s : Store κ) : Prop where
  sessions : s.sessions.rows.length ≤ 4
  /-- Two sessions for each owner. -/
  owner : ∀ key, (s.sessions.rows.countP fun row => row.2.owner = key) ≤ 2
  size : (s.sessions.rows.map fun row => row.2.size).sum ≤ maxStagedBytes

/-- The invariant of the store: every session has its metadata, and chunks of the right size; the
quotas are kept. -/
structure Inv [DecidableEq κ] (uuid : UuidPackage) (s : Store κ) : Prop where
  /-- There are no sessions before the first `Init`. -/
  idle : s.initialized = false → ∀ id, s.place id = none
  staged : ∀ id session dir, s.place id = some (session, dir) →
    ∃ d metadata, dir = some d ∧ Staged uuid id session d metadata
  quotas : Quotas s

variable {id : String}

variable {session : OwnedSession κ}

theorem find?_of_place {dir : Option Directory} (h : s.place id = some (session, dir)) :
    s.sessions.find? id = some session ∧ s.disk.find? session.directory = dir := by
  simp only [place, Option.map_eq_some_iff, Prod.mk.injEq] at h
  obtain ⟨session', hfind, rfl, hdir⟩ := h
  exact ⟨hfind, hdir⟩

theorem place_eq_none : s.place id = none ↔ s.sessions.find? id = none :=
  Option.map_eq_none_iff

/-- Every session has the directory of its name. -/
def Homes (s : Store κ) : Prop := ∀ id session, s.sessions.find? id = some session → session.directory = id

theorem Inv.homes [DecidableEq κ] (h : Inv uuid s) : Homes s := by
  intro id session hfind
  have hplace : s.place id = some (session, s.disk.find? session.directory) := by rw [place, hfind]; rfl
  obtain ⟨d, metadata, -, hstaged⟩ := h.staged id session _ hplace
  exact hstaged.directory

theorem Inv.directory [DecidableEq κ] (h : Inv uuid s)
    (hfind : s.sessions.find? id = some session) :
    ∃ d metadata, s.disk.find? id = some d ∧ s.place id = some (session, some d) ∧
      Staged uuid id session d metadata := by
  have hplace : s.place id = some (session, s.disk.find? session.directory) := by rw [place, hfind]; rfl
  obtain ⟨d, metadata, hd, hstaged⟩ := h.staged id session _ hplace
  rw [hd] at hplace
  rw [hstaged.directory] at hd
  exact ⟨d, metadata, hd, hplace, hstaged⟩

theorem place_of_homes (h : Homes s) (id : String) :
    s.place id = (s.sessions.find? id).map fun session => (session, s.disk.find? id) := by
  unfold place
  cases hfind : s.sessions.find? id with
  | none => rfl
  | some session => rw [Option.map_some, Option.map_some, h id session hfind]

/-! ### Removal -/

theorem find?_removeLocked (id k : String) :
    (s.removeLocked fails id).sessions.find? k = if k = id then none else s.sessions.find? k := by
  unfold removeLocked
  cases hfind : s.sessions.find? id with
  | none =>
    split_ifs with hk
    · rw [hk]
      exact hfind
    · rfl
  | some session => exact Table.find?_erase _ _ _

theorem initialized_removeLocked (id : String) :
    (s.removeLocked fails id).initialized = s.initialized := by
  unfold removeLocked
  split <;> rfl

theorem rows_removeLocked (id : String) :
    (s.removeLocked fails id).sessions.rows.Sublist s.sessions.rows := by
  unfold removeLocked
  split
  · exact List.Sublist.refl _
  · dsimp only
    rw [Table.erase, Table.rows_deleteWhere]
    exact List.filter_sublist

theorem Homes.disk_removeLocked (h : Homes s) {k : String} (hk : k ≠ id) :
    (s.removeLocked fails id).disk.find? k = s.disk.find? k := by
  unfold removeLocked
  cases hfind : s.sessions.find? id with
  | none => rfl
  | some session =>
    dsimp only
    split_ifs
    · rfl
    · rw [Table.find?_erase, h id session hfind, if_neg hk]

theorem Homes.removeLocked (h : Homes s) (fails : Failures) (id : String) : Homes (s.removeLocked fails id) := by
  intro k session hfind
  rw [find?_removeLocked] at hfind
  split_ifs at hfind
  exact h k session hfind

theorem Homes.place_removeLocked (h : Homes s) (id k : String) :
    (s.removeLocked fails id).place k = if k = id then none else s.place k := by
  rw [place_of_homes (h.removeLocked fails id), place_of_homes h, find?_removeLocked]
  split_ifs with hk
  · rfl
  · rw [h.disk_removeLocked hk]

theorem Homes.sweepRows (fails : Failures) (clock : String → ℤ) (rows : List (String × OwnedSession κ)) (h : Homes s)
    (hrows : ∀ row ∈ rows, ∀ session, s.sessions.find? row.1 = some session → session = row.2) :
    let s' := rows.foldl
      (fun s row => if row.2.expires ≤ clock row.1 then s.removeLocked fails row.1 else s) s
    Homes s' ∧ s'.sessions.rows.Sublist s.sessions.rows ∧ s'.initialized = s.initialized ∧
      ∀ k, s'.place k = if k ∈ rows.map Prod.fst then (s.place k).filter fun p => clock k < p.1.expires
        else s.place k := by
  induction rows generalizing s with
  | nil => exact ⟨h, List.Sublist.refl _, rfl, fun k => by simp⟩
  | cons row rows ih =>
    have hkept : ∀ s' : Store κ, (∀ k session, s'.sessions.find? k = some session →
        s.sessions.find? k = some session) → ∀ row' ∈ rows, ∀ session,
        s'.sessions.find? row'.1 = some session → session = row'.2 :=
      fun s' hsub row' hrow' session hfind =>
        hrows row' (List.mem_cons_of_mem _ hrow') session (hsub _ _ hfind)
    -- the session of the row, if it is still there
    have hfilter : ∀ p, s.place row.1 = some p → p.1 = row.2 := fun p hp =>
      hrows row List.mem_cons_self p.1 (find?_of_place hp).1
    rw [List.foldl_cons]
    by_cases hexp : row.2.expires ≤ clock row.1
    · rw [if_pos hexp]
      obtain ⟨hhomes, hsub, hinit, hplace⟩ := ih (h.removeLocked fails row.1) (hkept _ fun k session hfind => by
        rw [find?_removeLocked] at hfind
        split_ifs at hfind
        exact hfind)
      refine ⟨hhomes, hsub.trans (rows_removeLocked row.1), hinit.trans (initialized_removeLocked row.1),
        fun k => ?_⟩
      rw [hplace k, h.place_removeLocked]
      by_cases hk : k = row.1
      · subst hk
        rw [if_pos rfl, List.map_cons, if_pos List.mem_cons_self, Option.filter_none, ite_self]
        symm
        refine Option.filter_eq_none_iff.mpr fun p hp => ?_
        rw [hfilter p hp]
        simpa using hexp
      · simp only [hk, if_false, List.map_cons, List.mem_cons, false_or]
    · rw [if_neg hexp]
      obtain ⟨hhomes, hsub, hinit, hplace⟩ := ih h (hkept s fun _ _ hfind => hfind)
      refine ⟨hhomes, hsub, hinit, fun k => ?_⟩
      rw [hplace k]
      by_cases hk : k = row.1
      · subst hk
        rw [List.map_cons, if_pos List.mem_cons_self]
        have hself : ((s.place row.1).filter fun p => clock row.1 < p.1.expires) = s.place row.1 := by
          cases hp : s.place row.1 with
          | none => rfl
          | some p =>
            rw [Option.filter_some, hfilter p hp, if_pos (by simpa using hexp)]
        rw [hself, ite_self]
      · simp only [hk, List.map_cons, List.mem_cons, false_or]

/-- **A sweep** removes the sessions that have expired. -/
theorem Homes.sweepLocked (h : Homes s) (fails : Failures) (clock : String → ℤ) :
    Homes (s.sweepLocked fails clock) ∧
      (s.sweepLocked fails clock).sessions.rows.Sublist s.sessions.rows ∧
      (s.sweepLocked fails clock).initialized = s.initialized ∧
      ∀ k, (s.sweepLocked fails clock).place k = (s.place k).filter fun p => clock k < p.1.expires := by
  obtain ⟨hhomes, hsub, hinit, hplace⟩ := h.sweepRows fails clock s.sessions.rows
    fun row hrow session hfind => by
      rw [Table.mem_rows.mp (show (row.1, row.2) ∈ s.sessions.rows from hrow)] at hfind
      exact (Option.some.inj hfind).symm
  refine ⟨hhomes, hsub, hinit, fun k => ?_⟩
  rw [Store.sweepLocked, hplace k]
  split_ifs with hk
  · rfl
  · have hnone : s.sessions.find? k = none := by
      by_contra hne
      obtain ⟨session, hfind⟩ := Option.ne_none_iff_exists'.mp hne
      exact hk (List.mem_map.mpr ⟨(k, session), Table.mem_rows.mpr hfind, rfl⟩)
    rw [place_eq_none.mpr hnone, Option.filter_none]

theorem disk_sweepLocked {name : String} (h : s.disk.find? name = none) (fails : Failures)
    (clock : String → ℤ) : (s.sweepLocked fails clock).disk.find? name = none := by
  have hremove : ∀ (s : Store κ) (id : String), s.disk.find? name = none →
      (s.removeLocked fails id).disk.find? name = none := by
    intro s id h
    unfold Store.removeLocked
    split
    · exact h
    · dsimp only
      split_ifs
      · exact h
      · rw [Table.find?_erase, h, ite_self]
  unfold Store.sweepLocked
  generalize s.sessions.rows = rows
  induction rows generalizing s with
  | nil => exact h
  | cons row rows ih =>
    rw [List.foldl_cons]
    split_ifs
    · exact ih (hremove s row.1 h)
    · exact ih h

/-! ### The parts of a call -/

theorem Staged.load {d : Directory} {metadata : Metadata}
    (h : Staged uuid id session d metadata) (hd : s.disk.find? id = some d) :
    s.load uuid fails id = match fails .readFile with
      | some err => .error (.message ("read upload metadata: " ++ err))
      | none => .ok ⟨id, metadata, id, ""⟩ := by
  have hvalid : ¬validUploadID uuid id = false := by simp [h.valid]
  have hgood : ¬(isKnownPurpose metadata.purpose = false ∨ metadata.size ≤ 0 ∨ maxSize < metadata.size) := by
    have hbounds := h.bounds
    simp only [h.purpose, Bool.true_eq_false, false_or, not_or, not_le, not_lt]
    exact hbounds
  rw [Store.load, if_neg hvalid, hd, Option.bind_some, h.metadata_eq]
  cases fails .readFile with
  | some err => rfl
  | none => exact if_neg hgood

theorem onDirectory_eq {d : Directory} (hd : s.disk.find? id = some d)
    (f : Directory → Except UploadError Unit × Directory) :
    s.onDirectory id f = ((f d).1, { s with disk := s.disk.upsert id (f d).2 }) := by
  rw [onDirectory, hd]

theorem Homes.place_upsert (h : Homes s) (id k : String) (d' : Directory) :
    ({ s with disk := s.disk.upsert id d' } : Store κ).place k =
      if k = id then (s.place id).map fun p => (p.1, some d') else s.place k := by
  rw [place_of_homes (s := { s with disk := s.disk.upsert id d' }) h, place_of_homes h,
    place_of_homes h]
  simp only [Table.find?_upsert]
  by_cases hk : k = id
  · subst hk
    simp [Option.map_map, Function.comp_def]
  · simp [hk]

section

variable [DecidableEq κ] {sum256 : String → κ}

/-- What is left of a good store is good. -/
theorem Inv.shrink {s' : Store κ} (h : Inv uuid s)
    (hplace : ∀ k, s'.place k = s.place k ∨ s'.place k = none)
    (hrows : s'.sessions.rows.Sublist s.sessions.rows)
    (hinit : s.initialized = true → s'.initialized = true) : Inv uuid s' where
  idle hidle k := by
    have hfalse : s.initialized = false := by
      by_contra hne
      rw [hinit (Bool.eq_true_of_not_eq_false hne)] at hidle
      cases hidle
    rcases hplace k with heq | hnone
    · exact heq.trans (h.idle hfalse k)
    · exact hnone
  staged k session dir hk := by
    rcases hplace k with heq | hnone
    · exact h.staged k session dir (heq.symm.trans hk)
    · rw [hnone] at hk
      cases hk
  quotas := by
    have hsize : ∀ size ∈ s.sessions.rows.map fun row => row.2.size, 0 ≤ size := by
      intro size hsize
      obtain ⟨row, hrow, rfl⟩ := List.mem_map.mp hsize
      obtain ⟨d, metadata, -, -, hstaged⟩ := h.directory (Table.mem_rows.mp
        (show (row.1, row.2) ∈ s.sessions.rows from hrow))
      rw [← hstaged.size]
      exact hstaged.bounds.1.le
    exact
      { sessions := hrows.length_le.trans h.quotas.sessions
        owner := fun key => (hrows.countP_le).trans (h.quotas.owner key)
        size := ((hrows.map _).sum_le_sum hsize).trans h.quotas.size }

theorem Inv.removeLocked (h : Inv uuid s) (id : String) : Inv uuid (s.removeLocked fails id) := by
  refine h.shrink (fun k => ?_) (rows_removeLocked id) fun hinit => by rwa [initialized_removeLocked]
  rw [h.homes.place_removeLocked]
  split_ifs
  · exact .inr rfl
  · exact .inl rfl

theorem Inv.sweepLocked (h : Inv uuid s) (fails : Failures) (clock : String → ℤ) :
    Inv uuid (s.sweepLocked fails clock) := by
  obtain ⟨-, hrows, hinit, hplace⟩ := h.homes.sweepLocked fails clock
  refine h.shrink (fun k => ?_) hrows fun htrue => by rwa [hinit]
  rw [hplace k]
  cases s.place k with
  | none => exact .inr rfl
  | some p =>
    rw [Option.filter_some]
    split_ifs
    · exact .inl rfl
    · exact .inr rfl

/-- What `ownLocked` does. -/
inductive Owning (sum256 : String → κ) (fails : Failures) (owner id : String) (now : ℤ) (s : Store κ) :
    Except UploadError Unit × Store κ → Prop
  /-- The owner has no such session. -/
  | foreign (h : ∀ session, s.sessions.find? id = some session → session.owner ≠ sum256 owner) :
      Owning sum256 fails owner id now s (.error .notFound, s)
  | expired {session : OwnedSession κ} (hfind : s.sessions.find? id = some session)
      (hkey : session.owner = sum256 owner) (hexp : session.expires ≤ now) :
      Owning sum256 fails owner id now s (.error .notFound, s.removeLocked fails id)
  /-- The owner has the session. -/
  | owned {session : OwnedSession κ} (hfind : s.sessions.find? id = some session)
      (hkey : session.owner = sum256 owner) (hlive : now < session.expires) :
      Owning sum256 fails owner id now s (.ok (), s)

theorem ownLocked_cases (sum256 : String → κ) (fails : Failures) (owner id : String) (now : ℤ)
    (s : Store κ) :
    Owning sum256 fails owner id now s (s.ownLocked sum256 fails owner id now) := by
  unfold ownLocked
  cases hfind : s.sessions.find? id with
  | none =>
    refine .foreign fun session hsession => ?_
    rw [hfind] at hsession
    cases hsession
  | some session =>
    dsimp only
    split_ifs with hkey hexp
    · refine .foreign fun session' hsession => ?_
      rw [hfind] at hsession
      cases hsession
      exact hkey
    · exact .expired hfind (not_not.mp hkey) hexp
    · exact .owned hfind (not_not.mp hkey) (not_le.mp hexp)

/-- The first `Init` finds no sessions, and leaves none. -/
theorem Inv.clearOrphans (h : Inv uuid s) (fails : Failures) :
    (s.clearOrphans fails).2.sessions = s.sessions ∧
      (∀ k, (s.clearOrphans fails).2.place k = s.place k) ∧
        (s.initialized = true → (s.clearOrphans fails).2.initialized = true) ∧
          ((s.clearOrphans fails).1 = .ok () → (s.clearOrphans fails).2.initialized = true) := by
  unfold Store.clearOrphans
  cases hinit : s.initialized with
  | true => exact ⟨rfl, fun _ => rfl, fun _ => hinit, fun _ => hinit⟩
  | false =>
    have hnone := h.idle hinit
    have hplace : ∀ disk initialized k,
        (⟨disk, s.sessions, initialized⟩ : Store κ).place k = s.place k := by
      intro disk initialized k
      rw [hnone k, place_eq_none]
      show s.sessions.find? k = none
      exact place_eq_none.mp (hnone k)
    rw [if_neg Bool.false_ne_true]
    cases hmkdir : fails .mkdirAll with
    | some err => exact ⟨rfl, fun _ => rfl, fun hfalse => absurd hfalse Bool.false_ne_true, fun herr => nomatch herr⟩
    | none =>
      cases hread : fails .readDir with
      | some err => exact ⟨rfl, fun _ => rfl, fun hfalse => absurd hfalse Bool.false_ne_true, fun herr => nomatch herr⟩
      | none =>
        dsimp only
        split
        · exact ⟨rfl, hplace _ _, fun hfalse => absurd hfalse Bool.false_ne_true, fun herr => nomatch herr⟩
        · exact ⟨rfl, hplace _ _, fun _ => rfl, fun _ => rfl⟩

end

end Store

end Upload

end Komari
