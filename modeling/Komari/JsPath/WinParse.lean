import Komari.JsPath.WinShape

/-!
# Directories and names of paths with backslashes
-/

namespace Komari

namespace JsPath

open Lexical

/-! ### The source -/

/-- `basename`. -/
def winPathBasename (value : List Char) : List Char :=
  let value := value.rdropWhile isWinSeparator
  if value = [] then []
  else
    let start := (value.rdropWhile fun c => !isWinSeparator c).length
    let drive := winDriveVolume value
    let start := if drive ≠ [] ∧ start < drive.length then drive.length else start
    value.drop start

/-- `parse`. -/
def winPathParse (value : List Char) : ParsedPath :=
  let value := toBackslash value
  let s := splitWinPath value
  if ['\\', '\\'] <+: s.volume ∧ s.rest = [] then
    let root := if ['\\'] <:+ value then s.volume ++ ['\\'] else s.volume
    ⟨root, root, [], [], []⟩
  else
    let root := s.volume ++ s.root
    let root := if s.volume ≠ [] ∧ s.root = [] then s.volume else root
    -- up to `end`, then from `start` to `end`, and up to `start`
    let rest := s.rest.rdropWhile isWinSeparator
    let base := rest.rtakeWhile fun c => !isWinSeparator c
    let before := rest.rdropWhile fun c => !isWinSeparator c
    let dir := if before = [] then root else root ++ before.dropLast
    let extension := nodeExtname base true
    ⟨root, dir, base, extension, trimEnd base extension⟩

/-- `dirname`. -/
def winPathDirname (value : List Char) : List Char :=
  let s := splitWinPath value
  let trimmed := value.rdropWhile isWinSeparator
  let index : ℤ := (trimmed.rdropWhile fun c => !isWinSeparator c).length - 1
  if index < s.volume.length then
    if s.root ≠ [] then s.volume ++ s.root
    else if s.volume ≠ [] then s.volume else ['.']
  else
    let result := (trimmed.take index.toNat).rdropWhile isWinSeparator
    if result = s.volume then s.volume ++ s.root else result

/-- A share and nothing behind it. -/
def BareShare (value : List Char) : Prop :=
  ['\\', '\\'] <+: (splitWinPath value).volume ∧ (splitWinPath value).rest = []

/-! ### Separators -/

variable {p s before volume root rest dir word after : List Char}

theorem isWinSeparator_toBackslash (c : Char) :
    isWinSeparator (if c = '/' then '\\' else c) = isWinSeparator c := by
  by_cases hc : c = '/'
  · rw [if_pos hc, hc]
    decide
  · rw [if_neg hc]

theorem blank_toBackslash : Blank isWinSeparator (toBackslash p) ↔ Blank isWinSeparator p := by
  simp [Blank, toBackslash, isWinSeparator_toBackslash]

theorem blank_isBackslash (h : Blank isBackslash s) : Blank isWinSeparator s := by
  intro c hc
  have := h c hc
  simp_all [isBackslash, isWinSeparator]

theorem toBackslash_name (h : Name isWinSeparator word) : toBackslash word = word := by
  refine toBackslash_of_notMem fun hmem => ?_
  exact absurd (h.2 '/' hmem) (by decide)

theorem Ends.toBackslash (h : Ends isWinSeparator p before word after) :
    Ends isWinSeparator (toBackslash p) (toBackslash before) word (toBackslash after) := by
  have hmap := h.map isWinSeparator_toBackslash
  change Ends isWinSeparator (JsPath.toBackslash p) (JsPath.toBackslash before) (JsPath.toBackslash word)
    (JsPath.toBackslash after) at hmap
  rwa [toBackslash_name h.name] at hmap

theorem winDriveVolume_cons (c d : Char) (rest : List Char) :
    winDriveVolume (c :: d :: rest) =
      if d = ':' ∧ ('A' ≤ c ∧ c ≤ 'Z' ∨ 'a' ≤ c ∧ c ≤ 'z') then [c, ':'] else [] := by
  by_cases hd : d = ':'
  · rw [hd, winDriveVolume]
    simp
  · rw [if_neg fun h => hd h.1, winDriveVolume]
    intro _ _ heq
    exact hd (List.cons.inj (List.cons.inj heq).2).1

theorem winDriveVolume_toBackslash (p : List Char) : winDriveVolume (toBackslash p) = winDriveVolume p := by
  rcases p with _ | ⟨c, _ | ⟨d, rest⟩⟩
  · rfl
  · rfl
  · have hd : (if d = '/' then '\\' else d) = ':' ↔ d = ':' := by
      by_cases hd : d = '/'
      · simp [hd]
      · simp [hd]
    rw [toBackslash, List.map_cons, List.map_cons, winDriveVolume_cons, winDriveVolume_cons]
    simp only [hd]
    by_cases hc : c = '/'
    · simp [hc]
    · simp [hc]

/-! ### Cuts -/

/-- A path that is cut before its rest. -/
structure Cut (p before volume root rest : List Char) : Prop where
  eq : toBackslash p = before ++ rest
  opens : Opens before volume root rest

theorem exists_cut (p : List Char) : ∃ before volume root rest, Cut p before volume root rest := by
  obtain ⟨before, volume, root, rest, heq, hopens⟩ := exists_opens (toBackslash p)
  exact ⟨before, volume, root, rest, heq, hopens⟩

theorem Cut.split (h : Cut p before volume root rest) : splitWinPath p = ⟨volume, root, rest⟩ :=
  splitWinPath_eq h.eq h.opens

theorem Cut.slash (h : Cut p before volume root rest) : '/' ∉ before ∧ '/' ∉ rest := by
  have hslash := slash_notMem_toBackslash p
  rw [h.eq, List.mem_append, not_or] at hslash
  exact hslash

theorem Opens.head (h : Opens before volume root rest) : rest.head? ≠ some '\\' := by
  cases h with
  | plain drive head => exact head
  | rooted ne blank head few => exact head
  | drive drive blank head => exact head
  | share two blank server_name ne blank' share_name blank'' last head => exact head

theorem Opens.nil (h : Opens before volume root rest) (hnil : before = []) :
    volume = [] ∧ root = [] ∧ winDriveVolume rest = [] := by
  cases h with
  | plain drive head => exact ⟨rfl, rfl, drive⟩
  | rooted ne blank head few => exact absurd hnil ne
  | drive drive blank head => cases hnil
  | @share l server l' share l'' _ two blank server_name ne blank' share_name blank'' last head =>
    exact absurd (by simp_all) server_name.1

/-- A rest has a name, if there is one. -/
theorem Cut.exists_ends (h : Cut p before volume root rest) (hrest : rest ≠ []) :
    ∃ dir word after, Ends isWinSeparator rest dir word after := by
  refine Lexical.exists_ends fun hblank => ?_
  obtain ⟨c, rest, rfl⟩ := List.exists_cons_of_ne_nil hrest
  have hc := hblank c (by simp)
  rw [isWinSeparator, decide_eq_true_eq] at hc
  rcases hc with rfl | rfl
  · exact h.opens.head rfl
  · exact h.slash.2 (by simp)

/-- Before the rest there is a break, or a drive without a root. -/
theorem Opens.atBreak (h : Opens before volume root rest) (hrest : rest ≠ []) :
    AtBreak isWinSeparator before ∨
      ∃ c, before = [c, ':'] ∧ volume = [c, ':'] ∧ root = [] ∧ winDriveVolume [c, ':'] = [c, ':'] := by
  have hbehind : ∀ {l : List Char}, Blank isBackslash l → l ≠ [] → ∀ t, AtBreak isWinSeparator (t ++ l) := by
    intro l hl hne t c hc
    rw [List.getLast?_append_of_ne_nil _ hne] at hc
    exact (blank_isBackslash hl).atBreak c hc
  cases h with
  | plain drive head => exact .inl (by simp [AtBreak])
  | rooted ne blank head few => exact .inl (blank_isBackslash blank).atBreak
  | @drive c l _ drive blank head =>
    by_cases hl : l = []
    · exact .inr ⟨c, by rw [hl], rfl, if_pos hl, drive⟩
    · exact .inl (hbehind blank hl [c, ':'])
  | @share l server l' share l'' _ two blank server_name ne blank' share_name blank'' last head =>
    have hassoc : l ++ (server ++ (l' ++ (share ++ l''))) = (l ++ (server ++ (l' ++ share))) ++ l'' := by simp
    rw [hassoc]
    exact .inl (hbehind blank'' (last.resolve_left hrest) _)

/-- The last name of a path that is cut at a break. -/
theorem Cut.ends (h : Cut p before volume root rest) (hends : Ends isWinSeparator rest dir word after)
    (hbreak : dir ≠ [] ∨ AtBreak isWinSeparator before) :
    ∃ before₀ after₀, Ends isWinSeparator p before₀ word after₀ ∧ toBackslash before₀ = before ++ dir := by
  have hpath : Ends isWinSeparator (toBackslash p) (before ++ dir) word after := by
    rw [h.eq]
    exact hends.append_left fun hnil => hbreak.resolve_left fun hne => hne hnil
  have hp : ¬Blank isWinSeparator p := fun hblank => hpath.not_blank (blank_toBackslash.mpr hblank)
  obtain ⟨before₀, word₀, after₀, hends₀⟩ := Lexical.exists_ends hp
  obtain ⟨hbefore, rfl⟩ := (Ends.toBackslash hends₀).unique hpath
  exact ⟨before₀, after₀, hends₀, hbefore⟩

/-- The last name of a path behind a drive. -/
theorem Cut.ends_drive {c : Char} (h : Cut p [c, ':'] volume root rest)
    (hends : Ends isWinSeparator rest [] word after) (hdrive : winDriveVolume [c, ':'] = [c, ':']) :
    ∃ after₀, Ends isWinSeparator p [] (c :: ':' :: word) after₀ := by
  have hc : isWinSeparator c = false := by
    obtain ⟨d, r, heq, -, hd, hd'⟩ := winDriveVolume_spec (by rw [hdrive]; simp : winDriveVolume [c, ':'] ≠ [])
    obtain ⟨rfl, -⟩ := List.cons.inj heq
    simp [isWinSeparator, hd, hd']
  have hname : Name isWinSeparator (c :: ':' :: word) := by
    refine ⟨by simp, fun d hd => ?_⟩
    rcases List.mem_cons.mp hd with rfl | hd
    · exact hc
    rcases List.mem_cons.mp hd with rfl | hd
    · decide
    · exact hends.name.2 d hd
  have hpath : Ends isWinSeparator (toBackslash p) [] (c :: ':' :: word) after := by
    refine ⟨?_, blank_nil.atBreak, hname, hends.blank⟩
    rw [h.eq, hends.eq]
    simp
  have hp : ¬Blank isWinSeparator p := fun hblank => hpath.not_blank (blank_toBackslash.mpr hblank)
  obtain ⟨before₀, word₀, after₀, hends₀⟩ := Lexical.exists_ends hp
  obtain ⟨hbefore, rfl⟩ := (Ends.toBackslash hends₀).unique hpath
  obtain rfl : before₀ = [] := List.map_eq_nil_iff.mp hbefore
  exact ⟨after₀, hends₀⟩

/-! ### The name -/

theorem winDriveVolume_append_blank (h : Blank isWinSeparator s) (t : List Char) :
    winDriveVolume (t ++ s) = winDriveVolume t := by
  have hletter : ∀ c, isWinSeparator c = true → ¬('A' ≤ c ∧ c ≤ 'Z' ∨ 'a' ≤ c ∧ c ≤ 'z') ∧ c ≠ ':' := by
    intro c hc
    rw [isWinSeparator, decide_eq_true_eq] at hc
    rcases hc with rfl | rfl <;> decide
  rcases t with _ | ⟨c, _ | ⟨d, t⟩⟩
  · rcases s with _ | ⟨e, _ | ⟨f, s⟩⟩
    · rfl
    · rfl
    · rw [List.nil_append, winDriveVolume_cons, if_neg fun hcond => (hletter e (h e (by simp))).1 hcond.2]
      rfl
  · rcases s with _ | ⟨e, s⟩
    · rfl
    · rw [List.singleton_append, winDriveVolume_cons, if_neg fun hcond => (hletter e (h e (by simp))).2 hcond.1]
      rfl
  · rw [List.cons_append, List.cons_append, winDriveVolume_cons, winDriveVolume_cons]

theorem length_before_drive (hbreak : AtBreak isWinSeparator before)
    (hdrive : winDriveVolume (before ++ word) ≠ []) (hne : before ≠ []) : 2 ≤ before.length := by
  obtain ⟨c, r, heq, -, hc, hc'⟩ := winDriveVolume_spec hdrive
  rcases before with _ | ⟨d, _ | ⟨e, before⟩⟩
  · exact absurd rfl hne
  · obtain ⟨rfl, -⟩ := List.cons.inj heq
    have hsep := hbreak d rfl
    simp [isWinSeparator, hc, hc'] at hsep
  · simp

theorem winPathBasename_of_ends (h : Ends isWinSeparator p before word after) :
    winPathBasename p = if winDriveVolume p ≠ [] ∧ before = [] then word.drop 2 else word := by
  have hne : before ++ word ≠ [] := by simp [h.name.1]
  have hcut := h.cutLast
  have hvolume : winDriveVolume p = winDriveVolume (before ++ word) := by
    rw [h.eq, winDriveVolume_append_blank h.blank]
  rw [h.trimmed] at hcut
  rw [winPathBasename, h.trimmed, if_neg hne]
  simp only [hcut, ← hvolume]
  by_cases hdrive : winDriveVolume p = []
  · simp [hdrive]
  · obtain ⟨c, r, -, hlength, -, -⟩ := winDriveVolume_spec hdrive
    by_cases hnil : before = []
    · simp [hnil, hlength]
    · have htwo := length_before_drive h.atBreak (by rwa [← hvolume]) hnil
      have hlt : ¬before.length < 2 := by omega
      simp [hnil, hlength, hlt]

theorem winPathBasename_blank (h : Blank isWinSeparator p) : winPathBasename p = [] := by
  rw [winPathBasename, h.rdropWhile, if_pos rfl]

theorem Cut.drive (h : Cut p before volume root rest) : winDriveVolume p = winDriveVolume (before ++ rest) := by
  rw [← h.eq, winDriveVolume_toBackslash]

/-- **`basename` finds the last name** of the rest. -/
theorem Cut.basename (h : Cut p before volume root rest) (hends : Ends isWinSeparator rest dir word after) :
    winPathBasename p = word := by
  have hrest : rest ≠ [] := by
    rintro rfl
    exact hends.not_blank blank_nil
  by_cases hbreak : dir ≠ [] ∨ AtBreak isWinSeparator before
  · obtain ⟨before₀, after₀, hends₀, hbefore⟩ := h.ends hends hbreak
    rw [winPathBasename_of_ends hends₀]
    refine if_neg ?_
    rintro ⟨hdrive, rfl⟩
    obtain ⟨rfl, rfl⟩ := List.append_eq_nil_iff.mp hbefore.symm
    rw [h.drive] at hdrive
    exact hdrive (h.opens.nil rfl).2.2
  · rw [not_or, not_not] at hbreak
    obtain ⟨rfl, hbreak⟩ := hbreak
    obtain ⟨c, rfl, rfl, rfl, hdrive⟩ := (h.opens.atBreak hrest).resolve_left hbreak
    obtain ⟨after₀, hends₀⟩ := h.ends_drive hends hdrive
    have hne : winDriveVolume p ≠ [] := by
      rw [h.drive, winDriveVolume_append (by rw [hdrive]; simp), hdrive]
      simp
    rw [winPathBasename_of_ends hends₀, if_pos ⟨hne, rfl⟩]
    rfl

/-- A path without a rest is blank, or a drive with a root or without one, or a share. -/
theorem Cut.nil (h : Cut p before volume root []) (hshare : ¬['\\', '\\'] <+: volume) :
    volume = [] ∧ Blank isWinSeparator p ∨
      ∃ c after, volume = [c, ':'] ∧ Ends isWinSeparator p [] [c, ':'] after ∧ winDriveVolume p = [c, ':'] := by
  obtain ⟨heq, hopens⟩ := h
  have hdrive := winDriveVolume_toBackslash p
  rw [List.append_nil] at heq
  cases hopens with
  | plain drive head =>
    have hp : p = [] := List.map_eq_nil_iff.mp heq
    exact .inl ⟨rfl, by rw [hp]; exact blank_nil⟩
  | rooted ne blank head few =>
    refine .inl ⟨rfl, blank_toBackslash.mp ?_⟩
    rw [heq]
    exact blank_isBackslash blank
  | @drive c l _ drive blank head =>
    have hvolume : winDriveVolume p = [c, ':'] := by
      rw [← hdrive, heq]
      exact drive
    obtain ⟨d, after, hp, hdrive', hc, hc'⟩ := winDriveVolume_spec (by rw [hvolume]; simp)
    rw [hvolume, List.cons.injEq] at hdrive'
    obtain ⟨rfl, -⟩ := hdrive'
    have hafter : toBackslash after = l := by
      rw [hp, toBackslash, List.map_cons, List.map_cons] at heq
      exact (List.cons.inj (List.cons.inj heq).2).2
    refine .inr ⟨c, after, rfl, ⟨hp, by simp [AtBreak], ⟨by simp, ?_⟩, ?_⟩, hvolume⟩
    · simp [isWinSeparator, hc, hc']
    · rw [← blank_toBackslash, hafter]
      exact blank_isBackslash blank
  | @share l server l' share l'' _ two blank server_name ne blank' share_name blank'' last head =>
    exact absurd ⟨server ++ ['\\'] ++ share, by simp⟩ hshare

theorem Cut.basename_nil (h : Cut p before volume root []) (hshare : ¬['\\', '\\'] <+: volume) :
    winPathBasename p = [] := by
  obtain ⟨-, hblank⟩ | ⟨c, after, -, hends, hdrive⟩ := h.nil hshare
  · exact winPathBasename_blank hblank
  · rw [winPathBasename_of_ends hends, hdrive]
    rfl

/-! ### Parsing -/

theorem winPathParse_eq (p : List Char) (h : ¬BareShare p) :
    (winPathParse p).base =
        ((splitWinPath p).rest.rdropWhile isWinSeparator).rtakeWhile (fun c => !isWinSeparator c) ∧
      (winPathParse p).dir =
        if ((splitWinPath p).rest.rdropWhile isWinSeparator).rdropWhile (fun c => !isWinSeparator c) = [] then
          (splitWinPath p).volume ++ (splitWinPath p).root
        else
          (splitWinPath p).volume ++ (splitWinPath p).root ++
            (((splitWinPath p).rest.rdropWhile isWinSeparator).rdropWhile fun c => !isWinSeparator c).dropLast := by
  have hbare : ¬(['\\', '\\'] <+: (splitWinPath p).volume ∧ (splitWinPath p).rest = []) := h
  rw [winPathParse, splitWinPath_toBackslash, if_neg hbare]
  have hroot : (if (splitWinPath p).volume ≠ [] ∧ (splitWinPath p).root = [] then (splitWinPath p).volume
      else (splitWinPath p).volume ++ (splitWinPath p).root) =
        (splitWinPath p).volume ++ (splitWinPath p).root := by
    split_ifs with hvolume
    · rw [hvolume.2, List.append_nil]
    · rfl
  simp only [hroot]
  exact ⟨trivial, trivial⟩

/-- **`parse` finds the last name**, and the directory before it without its last separator. -/
theorem Cut.parse (h : Cut p before volume root rest) (hends : Ends isWinSeparator rest dir word after) :
    (winPathParse p).base = word ∧
      (winPathParse p).dir = if dir = [] then volume ++ root else volume ++ root ++ dir.dropLast := by
  have hbare : ¬BareShare p := by
    rintro ⟨-, hrest⟩
    rw [h.split] at hrest
    obtain rfl : rest = [] := hrest
    exact hends.not_blank blank_nil
  have hparse := winPathParse_eq p hbare
  rw [h.split] at hparse
  simp only [hends.takeLast, hends.cutLast] at hparse
  exact hparse

theorem Cut.parse_nil (h : Cut p before volume root []) (hshare : ¬['\\', '\\'] <+: volume) :
    (winPathParse p).base = [] ∧ (winPathParse p).dir = volume ++ root := by
  have hbare : ¬BareShare p := by
    rintro ⟨hvolume, -⟩
    rw [h.split] at hvolume
    exact hshare hvolume
  have hparse := winPathParse_eq p hbare
  rw [h.split] at hparse
  simpa using hparse

/-! ### The directory -/

/-- The volume is shorter than what stands before the last name. -/
theorem Opens.length_volume (h : Opens before volume root rest) (hrest : rest ≠ [])
    (hbreak : dir ≠ [] ∨ AtBreak isWinSeparator before) (hne : before ++ dir ≠ []) :
    volume.length < (before ++ dir).length := by
  have hpos := List.length_pos_iff.mpr hne
  cases h with
  | plain drive head => exact hpos
  | rooted ne blank head few => exact hpos
  | @drive c l _ drive blank head =>
    have hcolon : ¬AtBreak isWinSeparator [c, ':'] := fun h => absurd (h ':' rfl) (by decide)
    have hmore : 0 < (l ++ dir).length := by
      refine List.length_pos_iff.mpr fun hnil => ?_
      obtain ⟨rfl, rfl⟩ := List.append_eq_nil_iff.mp hnil
      exact hcolon (hbreak.resolve_left fun hne => hne rfl)
    simp only [List.length_append, List.length_cons, List.length_nil] at hmore ⊢
    omega
  | @share l server l' share l'' _ two blank server_name ne blank' share_name blank'' last head =>
    have hl' := List.length_pos_iff.mpr ne
    have hl'' := List.length_pos_iff.mpr (last.resolve_left hrest)
    simp only [List.length_append, List.length_cons, List.length_nil]
    omega

theorem winPathDirname_of_ends (h : Ends isWinSeparator p before word after)
    (hlength : (splitWinPath p).volume.length < before.length) :
    winPathDirname p =
      if before.rdropWhile isWinSeparator = (splitWinPath p).volume then
        (splitWinPath p).volume ++ (splitWinPath p).root
      else before.rdropWhile isWinSeparator := by
  have hcut := h.cutLast
  have hindex : ¬((before.length : ℤ) - 1 < (splitWinPath p).volume.length) := by omega
  have hne : before ≠ [] := by
    rintro rfl
    simp at hlength
  have hlast : isWinSeparator (before.getLast hne) = true := h.atBreak _ (List.getLast?_eq_some_getLast hne)
  have hdrop : before.rdropWhile isWinSeparator = before.dropLast.rdropWhile isWinSeparator := by
    conv_lhs => rw [← List.dropLast_append_getLast hne, List.rdropWhile_concat_pos _ _ _ hlast]
  have htake : (before ++ word).take ((before.length : ℤ) - 1).toNat = before.dropLast := by
    have hnat : ((before.length : ℤ) - 1).toNat = before.length - 1 := by omega
    rw [hnat, List.take_append_of_le_length (by omega), List.dropLast_eq_take]
  rw [winPathDirname]
  simp only [hcut]
  rw [if_neg hindex, h.trimmed, htake, ← hdrop]

/-- The directory of a path with nothing before its name. -/
theorem winPathDirname_of_nil
    (h : (p.rdropWhile isWinSeparator).rdropWhile (fun c => !isWinSeparator c) = []) :
    winPathDirname p =
      if (splitWinPath p).volume ++ (splitWinPath p).root = [] then ['.']
      else (splitWinPath p).volume ++ (splitWinPath p).root := by
  rw [winPathDirname]
  have hindex : (([] : List Char).length : ℤ) - 1 < (splitWinPath p).volume.length := by
    rw [List.length_nil]
    omega
  simp only [h]
  rw [if_pos hindex]
  by_cases hroot : (splitWinPath p).root = []
  · by_cases hvolume : (splitWinPath p).volume = []
    · simp [hroot, hvolume]
    · simp [hroot, hvolume]
  · simp [hroot]

end JsPath

end Komari
