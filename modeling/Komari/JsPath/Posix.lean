import Komari.Lexical.Clean
import Mathlib.Data.List.Forall2

/-!
# Paths with slashes

The `posix` flavour of the paths of plugins.
-/

namespace Komari

namespace JsPath

open Lexical

/-- A part that is left out. -/
def isDot (part : List Char) : Bool := part = [] ∨ part = ['.']

/-- One step up. -/
def dotdot : List Char := ['.', '.']

/-- The separator of posix. -/
def isSlash (c : Char) : Bool := c = '/'

/-- The path is absolute. -/
def rooted (value : List Char) : Bool := value.head? = some '/'

/-- The names of a path, without those that say nothing. -/
def posixParts (value : List Char) : List (List Char) :=
  clean isDot dotdot (rooted value) (fields isSlash value)

/-- `path.Clean`. -/
def pathClean (value : List Char) : List Char :=
  let body := (if rooted value then ['/'] else []) ++ join '/' (posixParts value)
  if body = [] then ['.'] else body

/-- `normalize`. -/
def posixPathNormalize (value : List Char) : List Char :=
  if value = [] then ['.']
  else
    let trailingSeparator := value.getLast? = some '/'
    let result := pathClean value
    if trailingSeparator ∧ result ≠ ['/'] then result ++ ['/'] else result

/-- `join`. -/
def posixPathJoin (parts : List (List Char)) : List Char :=
  let nonEmpty := parts.filter fun part => part ≠ []
  if nonEmpty.length = 0 then ['.'] else posixPathNormalize (join '/' nonEmpty)

/-- The drive in front of a path. -/
def winDriveVolume (value : List Char) : List Char :=
  match value with
  | c :: ':' :: _ => if 'A' ≤ c ∧ c ≤ 'Z' ∨ 'a' ≤ c ∧ c ≤ 'z' then [c, ':'] else []
  | _ => []

/-- The directory that `posixPathResolve` starts from. -/
def posixCwd (cwd : List Char) : List Char :=
  let cwd := cwd.map fun c => if c = '\\' then '/' else c
  let cwd := cwd.drop (winDriveVolume cwd).length
  if rooted cwd then cwd else '/' :: cwd

/-- The loop of `posixPathResolve`, over the parts from the last to the first, and the directory. -/
def posixLoop : List (List Char) → List Char → List Char
  | [], resolved => resolved
  | part :: parts, resolved =>
    if part = [] then posixLoop parts resolved
    else if rooted part then part ++ '/' :: resolved
    else posixLoop parts (part ++ '/' :: resolved)

/-- `resolve`. -/
def posixPathResolve (cwd : List Char) (parts : List (List Char)) : List Char :=
  let result := pathClean (posixLoop (parts.reverse ++ [posixCwd cwd]) [])
  if rooted result then result else '/' :: result.dropWhile isSlash

/-- The names of a path. -/
def posixPathParts (value : List Char) : List (List Char) :=
  let value := ((value.dropWhile isSlash).reverse.dropWhile isSlash).reverse
  if value = [] then [] else value.splitOn '/'

/-- The length of the part that two lists have in common. -/
def common {α : Type} (same : α → α → Bool) : List α → List α → ℕ
  | a :: as, b :: bs => if same a b then common same as bs + 1 else 0
  | _, _ => 0

/-- The names that lead from one list of names to the other. -/
def relativeParts (same : List Char → List Char → Bool) (fromParts toParts : List (List Char)) :
    List (List Char) :=
  let common := common same fromParts toParts
  List.replicate (fromParts.length - common) dotdot ++ toParts.drop common

/-- `relative`. -/
def posixPathRelative (cwd source target : List Char) : List Char :=
  let source := posixPathResolve cwd [source]
  let target := posixPathResolve cwd [target]
  if source = target then []
  else join '/' (relativeParts (fun a b => a = b) (posixPathParts source) (posixPathParts target))

/-! ### Clean paths -/

theorem isDot_dotdot : isDot dotdot = false := by decide

theorem isSlash_slash : isSlash '/' = true := by decide

variable {value : List Char}

theorem name_posixParts {word : List Char} (h : word ∈ posixParts value) : Name isSlash word :=
  name_of_mem_fields (mem_clean h)

/-- Names as a path. -/
def posixPath (absolute : Bool) (parts : List (List Char)) : List Char :=
  (if absolute then ['/'] else []) ++ join '/' parts

/-- Names that cleaning leaves. -/
structure CleanParts (absolute : Bool) (parts : List (List Char)) : Prop where
  name : ∀ w ∈ parts, Name isSlash w
  normal : Normal isDot dotdot absolute parts

theorem cleanParts_posixParts (value : List Char) : CleanParts (rooted value) (posixParts value) :=
  ⟨fun _ => name_posixParts, normal_clean isDot_dotdot _⟩

variable {absolute : Bool} {parts : List (List Char)}

theorem rooted_append {s : List Char} (h : s ≠ []) (t : List Char) : rooted (s ++ t) = rooted s := by
  cases s with
  | nil => exact absurd rfl h
  | cons c s => rfl

theorem rooted_posixPath (h : CleanParts absolute parts) : rooted (posixPath absolute parts) = absolute := by
  cases absolute with
  | true => rfl
  | false =>
    have hhead := @head_join Char isSlash '/' parts h.name
    rw [posixPath, if_neg Bool.false_ne_true, List.nil_append, rooted, decide_eq_false_iff_not]
    intro heq
    exact absurd (hhead '/' heq) (by decide)

theorem fields_posixPath (h : CleanParts absolute parts) : fields isSlash (posixPath absolute parts) = parts := by
  rw [posixPath]
  cases absolute with
  | true =>
    rw [if_pos rfl, List.singleton_append, fields_cons_sep isSlash_slash, fields_join isSlash_slash h.name]
  | false => rw [if_neg Bool.false_ne_true, List.nil_append, fields_join isSlash_slash h.name]

theorem posixPath_eq_nil_iff (h : CleanParts absolute parts) :
    posixPath absolute parts = [] ↔ absolute = false ∧ parts = [] := by
  cases absolute with
  | true => simp [posixPath]
  | false => simp [posixPath, join_eq_nil_iff '/' h.name]

/-- `path.Clean`, of a path with these names. -/
theorem pathClean_eq (value : List Char) :
    pathClean value =
      if posixPath (rooted value) (posixParts value) = [] then ['.']
      else posixPath (rooted value) (posixParts value) := rfl

theorem posixParts_of_fields (h : CleanParts absolute parts) (hrooted : rooted value = absolute)
    (hfields : fields isSlash value = parts) : posixParts value = parts := by
  rw [posixParts, hrooted, hfields, clean_of_normal isDot_dotdot h.normal]

theorem rooted_pathClean (value : List Char) : rooted (pathClean value) = rooted value := by
  have h := cleanParts_posixParts value
  rw [pathClean_eq]
  split_ifs with hnil
  · rw [((posixPath_eq_nil_iff h).mp hnil).1]
    rfl
  · exact rooted_posixPath h

theorem posixParts_pathClean_append {s : List Char} (hs : s = [] ∨ s = ['/']) :
    posixParts (pathClean value ++ s) = posixParts value := by
  have h := cleanParts_posixParts value
  have hne : pathClean value ≠ [] := by
    rw [pathClean_eq]
    split_ifs with hnil
    · simp
    · exact hnil
  have hrooted : rooted (pathClean value ++ s) = rooted value := by
    rw [rooted_append hne, rooted_pathClean]
  have hfields : fields isSlash (pathClean value ++ s) = fields isSlash (pathClean value) := by
    rcases hs with rfl | rfl
    · rw [List.append_nil]
    · exact fields_append_singleton isSlash_slash _
  rw [posixParts, hrooted, hfields, pathClean_eq]
  split_ifs with hnil
  · obtain ⟨habsolute, hparts⟩ := (posixPath_eq_nil_iff h).mp hnil
    rw [habsolute, hparts]
    decide
  · rw [fields_posixPath h, clean_of_normal isDot_dotdot h.normal]

theorem rooted_pathClean_append (value s : List Char) : rooted (pathClean value ++ s) = rooted value := by
  have hne : pathClean value ≠ [] := by
    rw [pathClean_eq]
    split_ifs with hnil
    · simp
    · exact hnil
  rw [rooted_append hne, rooted_pathClean]

/-- **A clean path is clean**, also with a slash behind it. -/
theorem pathClean_pathClean_append {s : List Char} (hs : s = [] ∨ s = ['/']) :
    pathClean (pathClean value ++ s) = pathClean value := by
  rw [pathClean_eq, rooted_pathClean_append, posixParts_pathClean_append hs]
  rfl

theorem pathClean_pathClean (value : List Char) : pathClean (pathClean value) = pathClean value := by
  have h := @pathClean_pathClean_append value [] (.inl rfl)
  rwa [List.append_nil] at h

/-- A clean path ends with a slash only if it is one. -/
theorem getLast_posixPath (h : CleanParts absolute parts) (hlast : (posixPath absolute parts).getLast? = some '/') :
    posixPath absolute parts = ['/'] := by
  have hjoin := @getLast_join Char isSlash '/' parts h.name
  have hnot : (join '/' parts).getLast? ≠ some '/' := fun heq => absurd (hjoin '/' heq) (by decide)
  rw [posixPath] at hlast ⊢
  by_cases hnil : join '/' parts = []
  · rw [hnil, List.append_nil] at hlast ⊢
    cases absolute with
    | true => rfl
    | false => cases hlast
  · rw [List.getLast?_append_of_ne_nil _ hnil] at hlast
    exact absurd hlast hnot

theorem getLast_pathClean (hlast : (pathClean value).getLast? = some '/') :
    pathClean value = ['/'] := by
  rw [pathClean_eq] at hlast ⊢
  split_ifs at hlast ⊢
  · cases hlast
  · exact getLast_posixPath (cleanParts_posixParts value) hlast

/-! ### Normal paths -/

theorem posixPathNormalize_of_ne (h : value ≠ []) :
    posixPathNormalize value =
      if value.getLast? = some '/' ∧ pathClean value ≠ ['/'] then pathClean value ++ ['/'] else pathClean value := by
  rw [posixPathNormalize, if_neg h]

/-- **A normal path stays as it is.** -/
theorem posixPathNormalize_idem (value : List Char) :
    posixPathNormalize (posixPathNormalize value) = posixPathNormalize value := by
  by_cases hne : value = []
  · rw [hne]
    decide
  have hclean : pathClean value ≠ [] := fun hnil => by
    have hrooted := @pathClean_pathClean_append value [] (.inl rfl)
    rw [hnil] at hrooted
    exact absurd hrooted (by decide)
  rw [posixPathNormalize_of_ne hne]
  split_ifs with htrailing
  · rw [posixPathNormalize_of_ne (by simp), pathClean_pathClean_append (.inr rfl),
      if_pos ⟨by simp, htrailing.2⟩]
  · rw [posixPathNormalize_of_ne hclean, pathClean_pathClean]
    refine if_neg fun h => h.2 (getLast_pathClean h.1)

/-- **A path stays absolute or relative.** -/
theorem rooted_posixPathNormalize (value : List Char) : rooted (posixPathNormalize value) = rooted value := by
  by_cases hne : value = []
  · rw [hne]
    decide
  rw [posixPathNormalize_of_ne hne]
  split_ifs
  · exact rooted_pathClean_append value ['/']
  · exact rooted_pathClean value

theorem posixPathJoin_eq (parts : List (List Char)) :
    posixPathJoin parts = posixPathNormalize (join '/' (parts.filter fun part => part ≠ [])) := by
  rw [posixPathJoin]
  split_ifs with hnone
  · rw [List.length_eq_zero_iff.mp hnone]
    decide
  · rfl

theorem pathClean_posixPath (h : CleanParts true parts) : pathClean (posixPath true parts) = posixPath true parts := by
  have hrooted := rooted_posixPath h
  rw [pathClean_eq, posixParts_of_fields h hrooted (fields_posixPath h), hrooted]
  exact if_neg (by simp [posixPath])

theorem posixPathNormalize_posixPath (h : CleanParts true parts) :
    posixPathNormalize (posixPath true parts) = posixPath true parts := by
  rw [posixPathNormalize_of_ne (by simp [posixPath]), pathClean_posixPath h]
  exact if_neg fun hlast => hlast.2 (getLast_posixPath h hlast.1)

/-! ### Resolved paths -/

theorem posixLoop_eq (parts : List (List Char)) (resolved : List Char) :
    posixLoop parts resolved = posixLoop parts [] ++ resolved := by
  induction parts generalizing resolved with
  | nil => rfl
  | cons part parts ih =>
    rw [posixLoop, posixLoop]
    split_ifs
    · exact ih resolved
    · simp
    · rw [ih, ih (part ++ ['/'])]
      simp

theorem rooted_posixCwd (cwd : List Char) : rooted (posixCwd cwd) = true := by
  rw [posixCwd]
  split_ifs with h
  · exact h
  · rfl

theorem rooted_posixLoop (parts : List (List Char)) {cwd : List Char} (h : rooted cwd = true) (resolved : List Char) :
    rooted (posixLoop (parts ++ [cwd]) resolved) = true ∧
      ∃ base, posixLoop (parts ++ [cwd]) [] = base ++ ['/'] := by
  have hne : cwd ≠ [] := fun hnil => by
    rw [hnil] at h
    exact absurd h (by decide)
  induction parts generalizing resolved with
  | nil =>
    rw [List.nil_append, posixLoop, if_neg hne, if_pos h, posixLoop, if_neg hne, if_pos h, rooted_append hne]
    exact ⟨h, cwd, rfl⟩
  | cons part parts ih =>
    rw [List.cons_append, posixLoop, posixLoop]
    split_ifs with hnil hrooted
    · exact ih resolved
    · rw [rooted_append hnil]
      exact ⟨hrooted, part, rfl⟩
    · refine ⟨(ih _).1, ?_⟩
      rw [posixLoop_eq]
      exact ⟨_, by rw [List.append_assoc]⟩

/-- The names of the result of `resolve`. -/
def resolvedParts (cwd : List Char) (parts : List (List Char)) : List (List Char) :=
  clean isDot dotdot true (fields isSlash (posixLoop (parts.reverse ++ [posixCwd cwd]) []))

theorem cleanParts_resolvedParts (cwd : List Char) (parts : List (List Char)) :
    CleanParts true (resolvedParts cwd parts) :=
  ⟨fun _ h => name_of_mem_fields (mem_clean h), normal_clean isDot_dotdot _⟩

/-- **A resolved path** is absolute and has clean names. -/
theorem posixPathResolve_eq (cwd : List Char) (parts : List (List Char)) :
    posixPathResolve cwd parts = posixPath true (resolvedParts cwd parts) := by
  have hrooted := (rooted_posixLoop parts.reverse (rooted_posixCwd cwd) []).1
  have hclean : pathClean (posixLoop (parts.reverse ++ [posixCwd cwd]) []) =
      posixPath true (resolvedParts cwd parts) := by
    rw [pathClean_eq, posixParts, hrooted]
    exact if_neg (by simp [posixPath])
  rw [posixPathResolve, hclean]
  exact if_pos (rooted_posixPath (cleanParts_resolvedParts cwd parts))

theorem resolvedParts_posixPath (cwd : List Char) (h : CleanParts true parts) :
    resolvedParts cwd [posixPath true parts] = parts := by
  have hne : posixPath true parts ≠ [] := by simp [posixPath]
  rw [resolvedParts, List.reverse_singleton, List.singleton_append, posixLoop, if_neg hne,
    if_pos (rooted_posixPath h), fields_append_singleton isSlash_slash, fields_posixPath h,
    clean_of_normal isDot_dotdot h.normal]

theorem resolvedParts_append_singleton (cwd : List Char) (parts : List (List Char)) {part : List Char}
    (h : rooted part = false) : resolvedParts cwd (parts ++ [part]) =
      clean isDot dotdot true (resolvedParts cwd parts ++ fields isSlash part) := by
  obtain ⟨base, hbase⟩ := (rooted_posixLoop parts.reverse (rooted_posixCwd cwd) []).2
  rw [resolvedParts, resolvedParts, clean_clean_append isDot_dotdot, List.reverse_append, List.reverse_singleton,
    List.singleton_append, List.cons_append, posixLoop]
  congr 1
  split_ifs with hnil hrooted
  · rw [hnil, fields_nil, List.append_nil]
  · rw [hrooted] at h
    cases h
  · rw [posixLoop_eq, hbase, List.append_assoc, List.singleton_append, fields_append_sep isSlash_slash,
      fields_append_singleton isSlash_slash, fields_append_singleton isSlash_slash]

/-! ### Relative paths -/

theorem posixPathParts_posixPath (h : CleanParts true parts) : posixPathParts (posixPath true parts) = parts := by
  have hfirst : (posixPath true parts).dropWhile isSlash = join '/' parts := by
    have hhead := @head_join Char isSlash '/' parts h.name
    rw [posixPath, if_pos rfl, List.singleton_append, List.dropWhile_cons_of_pos isSlash_slash]
    cases hjoin : join '/' parts with
    | nil => rfl
    | cons c s =>
      rw [hjoin] at hhead
      exact List.dropWhile_cons_of_neg (by simp [hhead c rfl])
  have hlast : ((join '/' parts).reverse.dropWhile isSlash).reverse = join '/' parts := by
    have hend := @getLast_join Char isSlash '/' parts h.name
    rw [← List.head?_reverse] at hend
    cases hjoin : (join '/' parts).reverse with
    | nil => rw [← List.reverse_reverse (join '/' parts), hjoin]; rfl
    | cons c s =>
      rw [hjoin] at hend
      rw [List.dropWhile_cons_of_neg (by simp [hend c rfl]), ← hjoin, List.reverse_reverse]
  rw [posixPathParts, hfirst, hlast]
  split_ifs with hnil
  · exact ((join_eq_nil_iff '/' h.name).mp hnil).symm
  · refine List.splitOn_intercalate '/' (fun w hw hmem => ?_) fun hparts => hnil (by rw [hparts]; rfl)
    exact absurd ((h.name w hw).2 '/' hmem) (by decide)

theorem common_spec {α : Type} (same : α → α → Bool) (as bs : List α) :
    common same as bs ≤ as.length ∧
      List.Forall₂ (fun a b => same a b = true) (as.take (common same as bs)) (bs.take (common same as bs)) := by
  induction as generalizing bs with
  | nil => exact ⟨Nat.zero_le _, by simp [common]⟩
  | cons a as ih =>
    cases bs with
    | nil => exact ⟨Nat.zero_le _, by simp [common]⟩
    | cons b bs =>
      rw [common]
      split_ifs with hsame
      · obtain ⟨hle, hall⟩ := ih bs
        exact ⟨Nat.succ_le_succ hle, .cons hsame hall⟩
      · exact ⟨Nat.zero_le _, .nil⟩

/-- **The names that lead from one path to another lead there**, from the names that are the same. -/
theorem clean_relativeParts (same : List Char → List Char → Bool) {P Q : List (List Char)}
    (hP : Normal isDot dotdot true P) (hQ : Normal isDot dotdot true Q) :
    clean isDot dotdot true (P ++ relativeParts same P Q) =
      P.take (common same P Q) ++ Q.drop (common same P Q) := by
  have hlength : (P.drop (common same P Q)).length = P.length - common same P Q := List.length_drop
  have hrel := @clean_relative _ _ isDot dotdot isDot_dotdot (P.take (common same P Q)) (P.drop (common same P Q))
    (Q.drop (common same P Q)) (by rwa [List.take_append_drop]) fun x hx => hQ.proper x (List.mem_of_mem_drop hx)
  rwa [List.take_append_drop, hlength] at hrel

theorem name_relativeParts {sep : Char → Bool} (hsep : sep '.' = false) (same : List Char → List Char → Bool)
    {P Q : List (List Char)} (hQ : ∀ w ∈ Q, Name sep w) : ∀ w ∈ relativeParts same P Q, Name sep w := by
  intro w hw
  rcases List.mem_append.mp hw with hw | hw
  · rw [List.eq_of_mem_replicate hw]
    exact ⟨by decide, by simp [dotdot, hsep]⟩
  · exact hQ w (List.mem_of_mem_drop hw)

theorem rooted_join {words : List (List Char)} (h : ∀ w ∈ words, Name isSlash w) :
    rooted (join '/' words) = false := by
  rw [rooted, decide_eq_false_iff_not]
  intro heq
  exact absurd (head_join h '/' heq) (by decide)

theorem clean_relativeParts_eq {P Q : List (List Char)} (hP : CleanParts true P) (hQ : CleanParts true Q) :
    clean isDot dotdot true (P ++ relativeParts (fun a b => a = b) P Q) = Q := by
  have hall := (common_spec (fun a b : List Char => (a = b : Bool)) P Q).2
  have hsame : P.take (common (fun a b => a = b) P Q) = Q.take (common (fun a b => a = b) P Q) := by
    rw [← List.forall₂_eq_eq_eq]
    exact hall.imp fun a b h => of_decide_eq_true h
  rw [clean_relativeParts _ hP.normal hQ.normal, hsame, List.take_append_drop]

/-- **A relative path leads back.** -/
theorem posixPathResolve_relative (cwd source target : List Char) :
    posixPathResolve cwd [source, posixPathRelative cwd source target] = posixPathResolve cwd [target] := by
  have hsource := cleanParts_resolvedParts cwd [source]
  have htarget := cleanParts_resolvedParts cwd [target]
  have hsplit : ∀ part, [source, part] = [source] ++ [part] := fun _ => rfl
  rw [posixPathRelative]
  split_ifs with heq
  · rw [← heq, posixPathResolve_eq, posixPathResolve_eq, hsplit, resolvedParts_append_singleton cwd [source] rfl,
      fields_nil, List.append_nil, clean_of_normal isDot_dotdot hsource.normal]
  · have hname := @name_relativeParts isSlash (by decide) (fun a b => a = b) (resolvedParts cwd [source]) _
      htarget.name
    rw [posixPathResolve_eq cwd [source], posixPathResolve_eq cwd [target], posixPathParts_posixPath hsource,
      posixPathParts_posixPath htarget, posixPathResolve_eq, hsplit,
      resolvedParts_append_singleton cwd [source] (rooted_join hname), fields_join isSlash_slash hname,
      clean_relativeParts_eq hsource htarget]

end JsPath

end Komari
