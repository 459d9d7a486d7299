import Komari.Upload.Chunk

/-!
# The files of a session
-/

namespace Komari

/-- Every element is related to one of a list. -/
theorem exists_forall₂_iff {α β : Type*} {R : α → β → Prop} {l : List α} :
    (∃ m, List.Forall₂ R l m) ↔ ∀ a ∈ l, ∃ b, R a b := by
  induction l with
  | nil => exact ⟨fun _ _ h => absurd h List.not_mem_nil, fun _ => ⟨[], .nil⟩⟩
  | cons a l ih =>
    rw [List.forall_mem_cons, ← ih]
    constructor
    · rintro ⟨_, _ | ⟨hab, hall⟩⟩
      exact ⟨⟨_, hab⟩, _, hall⟩
    · rintro ⟨⟨b, hab⟩, m, hall⟩
      exact ⟨b :: m, .cons hab hall⟩

namespace Table

variable {κ α : Type*} [DecidableEq κ]

/-- A row that was not there is inserted and deleted. -/
theorem erase_upsert {t : Table κ α} {k : κ} (h : t.find? k = none) (v : α) :
    (t.upsert k v).erase k = t := by
  have hmem : k ∉ t := AList.lookup_eq_none.mp h
  apply AList.ext
  simp only [erase, deleteWhere, upsert, AList.entries_insert_of_notMem hmem, List.filter_cons, beq_self_eq_true,
    Bool.not_true, Bool.false_eq_true, if_false]
  refine List.filter_eq_self.mpr fun e he => ?_
  have hne : e.1 ≠ k := fun heq => hmem (heq ▸ List.mem_keys_of_mem he)
  simp [hne]

theorem erase_comm (t : Table κ α) (k k' : κ) : (t.erase k).erase k' = (t.erase k').erase k :=
  deleteWhere_comm t _ _

theorem erase_erase_upsert {t : Table κ α} {k : κ} (h : t.find? k = none) (k' : κ) (v : α) :
    ((t.upsert k v).erase k').erase k = t.erase k' := by
  rw [erase_comm, erase_upsert h]

end Table

namespace Upload

/-! ### Names -/

theorem chunkFilename_inj {i j : ℤ} (h : chunkFilename i = chunkFilename j) : i = j := by
  have h' : i.repr.toList ++ ".part".toList = j.repr.toList ++ ".part".toList := by
    rw [← String.toList_append, ← String.toList_append]
    exact congrArg String.toList h
  exact Int.repr_injective (String.toList_inj.mp (List.append_cancel_right h'))

theorem head?_repr (n : ℕ) : n.repr.toList.head? ≠ some '.' := by
  intro h
  rw [Nat.repr_eq_ofList_toDigits, String.toList_ofList] at h
  exact absurd (Nat.isDigit_of_mem_toDigits (by decide) (by decide) (List.mem_of_head? h)) (by decide)

theorem chunkFilename_ne (index : ℤ) (rest : String) : chunkFilename index ≠ "." ++ rest := by
  intro h
  have h' := congrArg (fun s => s.toList.head?) h
  simp only [chunkFilename, String.toList_append] at h'
  have hdot : (".".toList ++ rest.toList).head? = some '.' := rfl
  have hne : ∀ n : ℕ, n.repr.toList ≠ [] := by
    intro n hnil
    rw [Nat.repr_eq_ofList_toDigits, String.toList_ofList] at hnil
    exact Nat.toDigits_ne_nil hnil
  rw [hdot, Int.repr_eq_if] at h'
  split_ifs at h'
  · rw [List.head?_append_of_ne_nil _ (hne _)] at h'
    exact head?_repr _ h'
  · rw [String.toList_append] at h'
    exact absurd h' (by simp)

/-! ### Files -/

namespace Directory

variable {d : Directory} {fails : Failures}

@[simp] theorem metadata_write (d : Directory) (name : String) (content : List UInt8) :
    (d.write name content).metadata = d.metadata := rfl

@[simp] theorem metadata_remove (d : Directory) (name : String) :
    (d.remove name).metadata = d.metadata := rfl

@[simp] theorem metadata_rename (d : Directory) (name newName : String) :
    (d.rename name newName).metadata = d.metadata := by
  unfold rename
  split <;> rfl

theorem find?_write (d : Directory) (name name' : String) (content : List UInt8) :
    (d.write name content).files.find? name' =
      if name' = name then some content else d.files.find? name' :=
  Table.find?_upsert _ _ _ _

theorem find?_remove (d : Directory) (name name' : String) :
    (d.remove name).files.find? name' = if name' = name then none else d.files.find? name' :=
  Table.find?_erase _ _ _

theorem find?_rename {name : String} {content : List UInt8} (h : d.files.find? name = some content)
    (newName name' : String) : (d.rename name newName).files.find? name' =
      if name' = newName then some content else if name' = name then none else d.files.find? name' := by
  rw [rename, h]
  dsimp only
  rw [find?_write, find?_remove]

theorem remove_write {name : String} (h : d.files.find? name = none) (content : List UInt8) :
    (d.write name content).remove name = d := by
  simp only [remove, write, Table.erase_upsert h]

theorem remove_remove_write {name : String} (h : d.files.find? name = none) (name' : String)
    (content : List UInt8) : ((d.write name content).remove name').remove name = d.remove name' := by
  simp only [remove, write, Table.erase_erase_upsert h]

theorem publish {temporary name : String} (hne : name ≠ temporary) (h : d.files.find? temporary = none)
    (content : List UInt8) (name' : String) :
    ((((d.write temporary content).remove name).rename temporary name).remove temporary).files.find? name' =
      if name' = name then some content else d.files.find? name' := by
  have htemp : ((d.write temporary content).remove name).files.find? temporary = some content := by
    rw [find?_remove, if_neg (Ne.symm hne), find?_write, if_pos rfl]
  rw [find?_remove, find?_rename htemp, find?_remove, find?_write]
  by_cases ht : name' = temporary
  · subst ht
    rw [if_pos rfl, if_neg (Ne.symm hne), h]
  · by_cases hn : name' = name
    · simp [hn, hne]
    · simp [ht, hn]

/-- How the saving of a chunk may end. -/
inductive Saving (fails : Failures) (index expectedSize : ℤ) (content : List UInt8) (d : Directory) :
    Except UploadError Unit × Directory → Prop
  | saved {d' : Directory} (hsize : (content.length : ℤ) = expectedSize)
      (hmetadata : d'.metadata = d.metadata)
      (hfiles : ∀ name, d'.files.find? name =
        if name = chunkFilename index then some content else d.files.find? name) :
      Saving fails index expectedSize content d (.ok (), d')
  /-- It fails before the files change. -/
  | failed (err : UploadError) : Saving fails index expectedSize content d (.error err, d)
  /-- The earlier chunk is removed, and the new one is not published. -/
  | lost (err : UploadError) (hsize : (content.length : ℤ) = expectedSize) (hrename : fails .rename ≠ none) :
      Saving fails index expectedSize content d (.error err, d.remove (chunkFilename index))

theorem saveChunk_cases (fails : Failures) (random : String) (index expectedSize : ℤ) (source : Reader)
    (d : Directory) : Saving fails index expectedSize (source.limited (chunkSize + 1)).1 d
      (d.saveChunk fails random index expectedSize source) := by
  have hne := chunkFilename_ne index (index.repr ++ "-" ++ random ++ ".part")
  unfold saveChunk
  dsimp only
  cases hcreate : fails .createTemp with
  | some err => exact .failed _
  | none =>
    cases htemp : d.files.find? ("." ++ (index.repr ++ "-" ++ random ++ ".part")) with
    | some content => exact .failed _
    | none =>
      dsimp only
      cases hcopy : (fails .copy).or (source.limited (chunkSize + 1)).2 with
      | some err =>
        dsimp only
        rw [remove_write htemp]
        exact .failed _
      | none =>
        cases hclose : fails .close with
        | some err =>
          dsimp only
          rw [remove_write htemp]
          exact .failed _
        | none =>
          dsimp only
          split_ifs with hsize
          · rw [remove_write htemp]
            exact .failed _
          · have hsize := not_not.mp hsize
            cases hremove : fails .remove with
            | some err =>
              dsimp only
              rw [remove_write htemp]
              exact .failed _
            | none =>
              cases hrename : fails .rename with
              | some err =>
                dsimp only
                rw [remove_remove_write htemp]
                exact .lost _ hsize (by rw [hrename]; exact Option.some_ne_none _)
              | none =>
                refine .saved hsize ?_ (publish hne htemp _)
                simp

theorem saveChunk_wrong_size (d : Directory) (fails : Failures) (random : String) (index : ℤ)
    {expectedSize : ℤ} {source : Reader} (h : ((source.limited (chunkSize + 1)).1.length : ℤ) ≠ expectedSize) :
    ∃ err, d.saveChunk fails random index expectedSize source = (.error err, d) := by
  cases heq : d.saveChunk fails random index expectedSize source with
  | mk result d' =>
    have hcases := saveChunk_cases fails random index expectedSize source d
    rw [heq] at hcases
    cases hcases with
    | saved hsize => exact absurd hsize h
    | failed err => exact ⟨err, rfl⟩
    | lost err hsize => exact absurd hsize h

/-- The chunk is there with its size. -/
def HasChunk (d : Directory) (size index : ℤ) (chunk : List UInt8) : Prop :=
  d.files.find? (chunkFilename index) = some chunk ∧ expectedChunkSize size index = .ok (chunk.length : ℤ)

theorem forall_of_mergeChunks_eq_ok {size : ℤ} {chunks : List ℤ} {merged archive : List UInt8}
    (hindex : ∀ index ∈ chunks, ∃ n, expectedChunkSize size index = .ok n)
    (h : d.mergeChunks fails size chunks merged = .ok archive) :
    ∃ contents, List.Forall₂ (d.HasChunk size) chunks contents ∧ archive = merged ++ contents.flatten := by
  induction chunks generalizing merged with
  | nil =>
    cases h
    exact ⟨[], .nil, by simp⟩
  | cons index rest ih =>
    obtain ⟨⟨n, hn⟩, hrest⟩ := List.forall_mem_cons.mp hindex
    unfold mergeChunks at h
    cases hstat : fails (.stat index) with
    | some err => rw [hstat] at h; cases h
    | none =>
      cases hfind : d.files.find? (chunkFilename index) with
      | none => rw [hstat, hfind] at h; cases h
      | some chunk =>
        rw [hstat, hfind] at h
        dsimp only at h
        split_ifs at h with hsize
        rw [hn, not_not] at hsize
        replace hsize : (chunk.length : ℤ) = n := hsize
        split at h
        · cases h
        · cases h
        · cases h
        · obtain ⟨contents, hall, rfl⟩ := ih hrest h
          exact ⟨chunk :: contents, .cons ⟨hfind, by rw [hn, hsize]⟩ hall, by simp⟩

/-- A merge succeeds when no call fails and every chunk is there. -/
theorem mergeChunks_eq_ok {size : ℤ} {chunks : List ℤ} {contents : List (List UInt8)}
    (hfails : ∀ call, fails call = none) (h : List.Forall₂ (d.HasChunk size) chunks contents)
    (merged : List UInt8) : d.mergeChunks fails size chunks merged = .ok (merged ++ contents.flatten) := by
  induction h generalizing merged with
  | nil => simp [mergeChunks]
  | @cons index chunk rest contents hchunk _ ih =>
    rw [mergeChunks, hfails, hchunk.1]
    dsimp only
    rw [hchunk.2, if_neg (by simp [Except.toOption]), hfails, hfails, hfails]
    dsimp only
    rw [ih, List.flatten_cons, List.append_assoc]

/-- How the chunks are merged: the archive is published, or everything is as before. -/
theorem merge_cases (fails : Failures) (random : String) (size : ℤ) (d : Directory) :
    (∃ err, d.merge fails random size = (.error err, d)) ∨
      ∃ archive d', d.mergeChunks fails size (indices size) [] = .ok archive ∧
        d.merge fails random size = (.ok (), d') ∧ d'.files.find? "archive.zip" = some archive := by
  have hne : "archive.zip" ≠ "." ++ ("merged-" ++ random ++ ".zip") := by
    intro h
    have h' := congrArg (fun s => s.toList.head?) h
    simp only [String.toList_append] at h'
    exact absurd h' (by simp)
  unfold merge
  dsimp only
  cases hcreate : fails .createTemp with
  | some err => exact .inl ⟨_, rfl⟩
  | none =>
    cases htemp : d.files.find? ("." ++ ("merged-" ++ random ++ ".zip")) with
    | some content => exact .inl ⟨_, rfl⟩
    | none =>
      dsimp only
      cases hmerge : d.mergeChunks fails size (indices size) [] with
      | error err =>
        dsimp only
        rw [remove_write htemp]
        exact .inl ⟨_, rfl⟩
      | ok archive =>
        dsimp only
        cases hclose : fails .close with
        | some err =>
          dsimp only
          rw [remove_write htemp]
          exact .inl ⟨_, rfl⟩
        | none =>
          cases hrename : fails .rename with
          | some err =>
            dsimp only
            rw [remove_write htemp]
            exact .inl ⟨_, rfl⟩
          | none =>
            refine .inr ⟨archive, _, rfl, rfl, ?_⟩
            have htemp' : (d.write ("." ++ ("merged-" ++ random ++ ".zip")) archive).files.find?
                ("." ++ ("merged-" ++ random ++ ".zip")) = some archive := by
              rw [find?_write, if_pos rfl]
            rw [find?_remove, if_neg hne, find?_rename htemp', if_pos rfl]

/-- A merge succeeds when no call fails and every chunk is there. -/
theorem merge_eq_ok {random : String} {size : ℤ} {contents : List (List UInt8)}
    (hfails : ∀ call, fails call = none) (htemp : d.files.find? ("." ++ ("merged-" ++ random ++ ".zip")) = none)
    (h : List.Forall₂ (d.HasChunk size) (indices size) contents) :
    (d.merge fails random size).1 = .ok () := by
  rw [merge]
  dsimp only
  rw [hfails, htemp, mergeChunks_eq_ok hfails h, hfails, hfails]

end Directory

/-! ### Sizes -/

theorem mem_indices {size index : ℤ} : index ∈ indices size ↔ 0 ≤ index ∧ index < chunkCount size := by
  simp only [indices, List.mem_map, List.mem_range, Int.ofNat_eq_natCast]
  constructor
  · rintro ⟨n, hn, rfl⟩
    omega
  · intro h
    exact ⟨index.toNat, by omega, by omega⟩

theorem mem_indices_iff {size index : ℤ} :
    index ∈ indices size ↔ ∃ n, expectedChunkSize size index = .ok n := by
  rw [mem_indices, expectedChunkSize]
  split_ifs with hbad hlast
  · refine iff_of_false (by omega) ?_
    rintro ⟨n, hn⟩
    cases hn
  · exact iff_of_true (by omega) ⟨_, rfl⟩
  · exact iff_of_true (by omega) ⟨_, rfl⟩

theorem chunkCount_pos {size : ℤ} (h : 0 < size) : 0 < chunkCount size := by
  rw [chunkCount, Int.tdiv_eq_ediv_of_nonneg (by omega)]
  unfold chunkSize
  omega

theorem expectedChunkSize_eq {size index n : ℤ} (h : expectedChunkSize size index = .ok n) :
    n = if index = chunkCount size - 1 then size - index * chunkSize else (chunkSize : ℤ) := by
  rw [expectedChunkSize] at h
  split_ifs at h ⊢
  · exact (Except.ok.inj h).symm
  · exact (Except.ok.inj h).symm

theorem length_flatten {d : Directory} {size : ℤ} (hsize : 0 < size) {contents : List (List UInt8)}
    (h : List.Forall₂ (d.HasChunk size) (indices size) contents) :
    (contents.flatten.length : ℤ) = size := by
  have hlengths : ∀ {chunks : List ℤ} {contents : List (List UInt8)},
      List.Forall₂ (d.HasChunk size) chunks contents → (contents.flatten.length : ℤ) =
        (chunks.map fun index =>
          if index = chunkCount size - 1 then size - index * chunkSize else (chunkSize : ℤ)).sum := by
    intro chunks contents h
    induction h with
    | nil => rfl
    | cons hchunk _ ih =>
      rw [List.flatten_cons, List.length_append, Nat.cast_add, ih, List.map_cons, List.sum_cons,
        expectedChunkSize_eq hchunk.2]
  -- all chunks but the last one are full
  obtain ⟨k, hk⟩ : ∃ k : ℕ, chunkCount size = k + 1 :=
    ⟨(chunkCount size - 1).toNat, by have := chunkCount_pos hsize; omega⟩
  have hfull : ∀ index ∈ (List.range k).map Int.ofNat,
      (if index = chunkCount size - 1 then size - index * chunkSize else (chunkSize : ℤ)) = chunkSize := by
    intro index hindex
    obtain ⟨i, hi, rfl⟩ := List.mem_map.mp hindex
    have hi := List.mem_range.mp hi
    rw [if_neg]
    simp only [Int.ofNat_eq_natCast]
    omega
  have hcount : (chunkCount size).toNat = k + 1 := by omega
  have hlast : (Int.ofNat k) = chunkCount size - 1 := by
    rw [hk, Int.ofNat_eq_natCast, add_sub_cancel_right]
  have hfront := List.sum_eq_card_nsmul _ (chunkSize : ℤ) (List.forall_mem_map.mpr hfull)
  rw [hlengths h, indices, hcount, List.range_succ, List.map_append, List.map_append, List.sum_append,
    hfront, List.map_singleton, List.map_singleton, List.sum_singleton, if_pos hlast]
  simp

end Upload

end Komari
