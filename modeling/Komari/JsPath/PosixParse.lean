import Komari.JsPath.Extname

/-!
# Directories and names of paths with slashes
-/

namespace Komari

namespace JsPath

open Lexical

/-! ### The source -/

/-- What `parse` returns. -/
structure ParsedPath where
  root : List Char
  dir : List Char
  base : List Char
  ext : List Char
  name : List Char
deriving DecidableEq

/-- `path.Dir`. -/
def posixDirname (value : List Char) : List Char := pathClean (value.rdropWhile fun c => !isSlash c)

/-- `basename`. -/
def posixPathBasename (value : List Char) : List Char :=
  let value := value.rdropWhile isSlash
  if value = [] then [] else value.rtakeWhile fun c => !isSlash c

/-- `parse`. -/
def posixPathParse (value : List Char) : ParsedPath :=
  let root := if rooted value then ['/'] else []
  -- from `rootEnd` to `end`, then from `start` to `end`, and from `rootEnd` to `start`
  let rest := (value.drop root.length).rdropWhile isSlash
  let base := rest.rtakeWhile fun c => !isSlash c
  let before := rest.rdropWhile fun c => !isSlash c
  let dir :=
    if before = [] then root
    else
      let dir := root ++ before.dropLast
      if dir = [] ∧ root ≠ [] then root else dir
  let extension := nodeExtname base false
  ⟨root, dir, base, extension, trimEnd base extension⟩

/-! ### A path with a last name -/

variable {p before word after s : List Char}

theorem posixPathBasename_of_ends (h : Ends isSlash p before word after) : posixPathBasename p = word := by
  have hne : p.rdropWhile isSlash ≠ [] := fun hnil => h.not_blank (List.rdropWhile_eq_nil_iff.mp hnil)
  rw [posixPathBasename, if_neg hne, h.takeLast]

theorem posixPathBasename_blank (h : Blank isSlash p) : posixPathBasename p = [] := by
  rw [posixPathBasename, if_pos h.rdropWhile]

theorem rooted_iff {value : List Char} : rooted value = true ↔ ∃ rest, value = '/' :: rest := by
  cases value with
  | nil => simp [rooted]
  | cons c rest => simp [rooted]

/-- A rooted path with a last name has a slash before it. -/
theorem rooted_before (h : Ends isSlash p before word after) : rooted before = rooted p := by
  obtain ⟨c, word, rfl⟩ := List.exists_cons_of_ne_nil h.name.1
  have hc : c ≠ '/' := fun heq => absurd (h.name.2 c (by simp)) (by simp [isSlash, heq])
  rw [h.eq]
  cases before with
  | nil => simp [rooted, hc]
  | cons d before => rfl

theorem ends_tail {rest before : List Char} (h : Ends isSlash ('/' :: rest) ('/' :: before) word after) :
    Ends isSlash rest before word after := by
  refine ⟨(List.cons.inj h.eq).2, fun c hc => ?_, h.name, h.blank⟩
  have hne : before ≠ [] := by
    rintro rfl
    cases hc
  refine h.atBreak c ?_
  rwa [List.getLast?_cons_of_ne_nil hne]

/-- **`parse` finds the last name**, and the directory before it without its last slash. -/
theorem posixPathParse_of_ends (h : Ends isSlash p before word after) :
    (posixPathParse p).base = word ∧
      (posixPathParse p).dir = if before = ['/'] then ['/'] else before.dropLast := by
  have hroot := rooted_before h
  cases hp : rooted p with
  | false =>
    rw [hp] at hroot
    have hne : before ≠ ['/'] := by
      rintro rfl
      cases hroot
    simp only [posixPathParse, hp, Bool.false_eq_true, if_false, List.length_nil, List.drop_zero, h.takeLast,
      h.cutLast, hne, List.nil_append, ne_eq, not_true, and_false]
    refine ⟨trivial, ?_⟩
    split_ifs with hnil
    · rw [hnil]
      rfl
    · rfl
  | true =>
    rw [hp] at hroot
    obtain ⟨rest, rfl⟩ := rooted_iff.mp hp
    obtain ⟨before, rfl⟩ := rooted_iff.mp hroot
    have htail := ends_tail h
    simp only [posixPathParse, hp, if_true, List.length_singleton, List.drop_one, List.tail_cons, htail.takeLast,
      htail.cutLast]
    refine ⟨trivial, ?_⟩
    by_cases hnil : before = []
    · simp [hnil]
    · simp [hnil, List.dropLast_cons_of_ne_nil]

theorem posixPathParse_blank (h : Blank isSlash p) :
    (posixPathParse p).base = [] ∧ (posixPathParse p).dir = if p = [] then [] else ['/'] := by
  cases p with
  | nil => exact ⟨rfl, rfl⟩
  | cons c rest =>
    obtain rfl : c = '/' := of_decide_eq_true (h c (by simp))
    have hrest : rest.rdropWhile isSlash = [] := Blank.rdropWhile fun d hd => h d (by simp [hd])
    simp [posixPathParse, rooted, hrest]

theorem posixPathParse_ext (p : List Char) :
    (posixPathParse p).ext = nodeExtname (posixPathParse p).base false ∧
      (posixPathParse p).name = trimEnd (posixPathParse p).base (posixPathParse p).ext := ⟨rfl, rfl⟩

/-! ### Directory and name -/

theorem pathClean_ne (value : List Char) : pathClean value ≠ [] := by
  rw [pathClean_eq]
  split_ifs with hnil
  · simp
  · exact hnil

theorem pathClean_append_slash {value : List Char} (hne : value ≠ []) :
    pathClean (value ++ ['/']) = pathClean value := by
  have hrooted := rooted_append hne ['/']
  rw [pathClean_eq, pathClean_eq, posixParts, posixParts, hrooted, fields_append_singleton isSlash_slash]

theorem pathClean_blank (h : Blank isSlash p) (hne : p ≠ []) : pathClean p = ['/'] := by
  obtain ⟨c, rest, rfl⟩ := List.exists_cons_of_ne_nil hne
  obtain rfl : c = '/' := of_decide_eq_true (h c (by simp))
  have hfields := h.fields
  have hroot : rooted ('/' :: rest) = true := rfl
  rw [pathClean_eq, posixParts, hfields, hroot]
  decide

/-- **A directory and a name** are clean together as their path is. -/
theorem pathClean_join (h : Ends isSlash p before word after) :
    pathClean (pathClean before ++ '/' :: word) = pathClean p := by
  have hrooted : rooted (pathClean before ++ '/' :: word) = rooted p := by
    rw [rooted_append (pathClean_ne before), rooted_pathClean, rooted_before h]
  have hbefore : clean isDot dotdot (rooted p) (fields isSlash (pathClean before)) =
      clean isDot dotdot (rooted p) (fields isSlash before) := by
    have hparts := @posixParts_pathClean_append before [] (.inl rfl)
    rwa [List.append_nil, posixParts, posixParts, rooted_pathClean, rooted_before h] at hparts
  have hparts : posixParts (pathClean before ++ '/' :: word) = posixParts p := by
    rw [posixParts, posixParts, hrooted, fields_append_sep isSlash_slash, fields_name h.name, h.fields,
      clean_append, clean_append, hbefore]
  rw [pathClean_eq (pathClean before ++ '/' :: word), pathClean_eq p, hparts, hrooted]

theorem getLast_name {s : List Char} (h : Name isSlash word) : (s ++ word).getLast? ≠ some '/' := by
  intro hlast
  rw [List.getLast?_append_of_ne_nil _ h.1] at hlast
  exact absurd (h.2 '/' (List.mem_of_getLast? hlast)) (by decide)

theorem Ends.after_eq_nil (h : Ends isSlash p before word after) (hlast : p.getLast? ≠ some '/') : after = [] := by
  by_contra hne
  refine hlast ?_
  rw [h.eq, List.getLast?_append_of_ne_nil _ hne, List.getLast?_eq_some_getLast hne]
  rw [Option.some.injEq]
  exact of_decide_eq_true (h.blank _ (List.getLast_mem hne))

theorem posixDirname_of_ends (h : Ends isSlash p before word []) : posixDirname p = pathClean before := by
  have hcut : p.rdropWhile (fun c => !isSlash c) = before := by
    rw [h.eq, List.append_nil, rdropWhile_append_of_all h.name.all_not, h.atBreak.rdropWhile_not]
  rw [posixDirname, hcut]

theorem posixPathNormalize_of_last (hne : p ≠ []) (hlast : p.getLast? ≠ some '/') :
    posixPathNormalize p = pathClean p := by
  rw [posixPathNormalize_of_ne hne]
  exact if_neg fun h => hlast h.1

/-- The directory and the name of a path without a slash behind its last name. -/
theorem posixPathJoin_dirname (h : Ends isSlash p before word []) :
    posixPathNormalize (posixPathJoin [posixDirname p, posixPathBasename p]) = posixPathNormalize p := by
  have hjoin : posixPathJoin [pathClean before, word] =
      posixPathNormalize (pathClean before ++ '/' :: word) := by
    have hfilter : [pathClean before, word].filter (fun part => part ≠ []) = [pathClean before, word] := by
      simp [pathClean_ne before, h.name.1]
    rw [posixPathJoin_eq, hfilter, join_cons_cons]
    simp [join]
  have hp : p = before ++ word := by rw [h.eq, List.append_nil]
  have hsplit : pathClean before ++ '/' :: word = (pathClean before ++ ['/']) ++ word := by simp
  rw [posixDirname_of_ends h, posixPathBasename_of_ends h, hjoin, posixPathNormalize_idem,
    posixPathNormalize_of_last (by simp) (by rw [hsplit]; exact getLast_name h.name),
    posixPathNormalize_of_last (by rw [hp]; simp [h.name.1]) (by rw [hp]; exact getLast_name h.name),
    pathClean_join h]

theorem posixPathJoin_blank (h : Blank isSlash p) :
    posixPathNormalize (posixPathJoin [posixDirname p, posixPathBasename p]) = posixPathNormalize p := by
  have hdirname : posixDirname p = pathClean p := by rw [posixDirname, h.atBreak.rdropWhile_not]
  rw [hdirname, posixPathBasename_blank h]
  by_cases hne : p = []
  · rw [hne]
    decide
  · rw [posixPathNormalize_of_ne hne, pathClean_blank h hne]
    simp
    decide

/-- What holds of directory, name and extension of a path with slashes. -/
structure PosixDecomposed (p : List Char) : Prop where
  base : posixPathBasename p = (posixPathParse p).base
  ext : nodeExtname p false = (posixPathParse p).ext
  name : (posixPathParse p).name ++ (posixPathParse p).ext = (posixPathParse p).base
  /-- Slashes behind a path do not change its name. -/
  appended : ∀ s, Blank isSlash s → posixPathBasename (p ++ s) = posixPathBasename p
  /-- The directory is that of `parse` where that is a clean one, if no slash stands behind the last name. -/
  dir : p.getLast? ≠ some '/' ∨ Blank isSlash p → (posixPathParse p).dir ≠ [] →
    pathClean (posixPathParse p).dir = (posixPathParse p).dir → posixDirname p = (posixPathParse p).dir
  /-- Directory and name lead back. -/
  joined : p.getLast? ≠ some '/' ∨ Blank isSlash p →
    posixPathNormalize (posixPathJoin [posixDirname p, posixPathBasename p]) = posixPathNormalize p

theorem pathClean_dir (h : (if before = ['/'] then ['/'] else before.dropLast) ≠ [])
    (hbreak : AtBreak isSlash before) :
    pathClean before = pathClean (if before = ['/'] then ['/'] else before.dropLast) := by
  split_ifs at h ⊢ with hroot
  · rw [hroot]
  · have hne : before ≠ [] := by
      rintro rfl
      exact h rfl
    have hlast : before.getLast hne = '/' :=
      of_decide_eq_true (hbreak _ (List.getLast?_eq_some_getLast hne))
    have hsplit : before = before.dropLast ++ ['/'] := by
      rw [← hlast, List.dropLast_append_getLast hne]
    rw [hsplit, pathClean_append_slash h, ← hsplit]

theorem noSlash_base (p : List Char) : ∀ c ∈ (posixPathParse p).base, isSeparator false c = false := by
  rw [isSeparator_false]
  intro c hc
  have := List.mem_rtakeWhile_imp hc
  simpa using this

/-- **Directory, name and extension of paths with slashes agree.** -/
theorem posixDecomposed (p : List Char) : PosixDecomposed p := by
  have hname : (posixPathParse p).name ++ (posixPathParse p).ext = (posixPathParse p).base :=
    trimEnd_extname (noSlash_base p)
  by_cases hblank : Blank isSlash p
  · obtain ⟨hbase, hdir⟩ := posixPathParse_blank hblank
    refine ⟨?_, ?_, hname, fun s hs => ?_, fun _ hne _ => ?_, fun _ => posixPathJoin_blank hblank⟩
    · rw [hbase, posixPathBasename_blank hblank]
    · rw [(posixPathParse_ext p).1, hbase]
      exact nodeExtname_blank (by rwa [isSeparator_false])
    · rw [posixPathBasename_blank hblank, posixPathBasename_blank (blank_append.mpr ⟨hblank, hs⟩)]
    · have hp : p ≠ [] := fun hp => hne (by rw [hdir, if_pos hp])
      rw [hdir, if_neg hp, posixDirname, hblank.atBreak.rdropWhile_not, pathClean_blank hblank hp]
  · obtain ⟨before, word, after, h⟩ := exists_ends hblank
    obtain ⟨hbase, hdir⟩ := posixPathParse_of_ends h
    refine ⟨?_, ?_, hname, fun s hs => ?_, fun hlast hne hclean => ?_, fun hlast => ?_⟩
    · rw [hbase, posixPathBasename_of_ends h]
    · rw [(posixPathParse_ext p).1, hbase]
      exact nodeExtname_name (by rwa [isSeparator_false])
    · rw [posixPathBasename_of_ends h, posixPathBasename_of_ends (h.append_blank hs)]
    · obtain rfl := Ends.after_eq_nil h (hlast.resolve_right hblank)
      rw [← hclean]
      rw [hdir] at hne ⊢
      rw [posixDirname_of_ends h, pathClean_dir hne h.atBreak]
    · obtain rfl := Ends.after_eq_nil h (hlast.resolve_right hblank)
      exact posixPathJoin_dirname h

end JsPath

end Komari
