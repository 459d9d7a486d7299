import Komari.JsPath.WinResolve

/-!
# Relative paths

* `paths` : the laws of both flavours.
-/

namespace Komari

namespace JsPath

open Lexical

variable {fold : Char → Char} {cwd : List Char} {st : Resolving}

/-! ### A part that is not absolute -/

/-- With more text behind the tail. -/
def Resolving.behind (st : Resolving) (t : List Char) : Resolving := ⟨st.device, st.tail ++ t, st.absolute⟩

theorem tailAfter_behind (st : Resolving) (part t : List Char) :
    tailAfter (st.behind t) part = tailAfter st part ++ t := by
  rw [tailAfter, tailAfter]
  split_ifs
  · simp [Resolving.behind]
  · rfl

theorem winStep_behind (fold : Char → Char) (st : Resolving) (part t : List Char) :
    winStep fold (st.behind t) part = (winStep fold st part).behind t := by
  by_cases hne : part = []
  · rw [hne, winStep_nil, winStep_nil]
  by_cases helse : Elsewhere fold st part
  · have hbehind : Elsewhere fold (st.behind t) part := helse
    rw [winStep_elsewhere helse, winStep_elsewhere hbehind]
  have hbehind : ¬Elsewhere fold (st.behind t) part := helse
  cases habsolute : st.absolute with
  | true =>
    rw [winStep_absolute hne helse habsolute, winStep_absolute hne hbehind habsolute]
    rfl
  | false =>
    rw [winStep_relative hne helse habsolute, winStep_relative hne hbehind habsolute, tailAfter_behind]
    rfl

/-- **Names behind the last part stay behind.** -/
theorem winLoop_behind (fold : Char → Char) (cwd : List Char) (parts : List (List Char)) (st : Resolving)
    (t : List Char) : winLoop fold cwd parts (st.behind t) = (winLoop fold cwd parts st).behind t := by
  induction parts generalizing st with
  | nil => exact winStep_behind fold st _ t
  | cons part parts ih =>
    rw [winLoop, winLoop, winStep_behind]
    by_cases hbreak : (winStep fold st part).absolute = true ∧ (winStep fold st part).device ≠ []
    · rw [if_pos hbreak]
      exact if_pos hbreak
    · rw [if_neg hbreak]
      exact (if_neg hbreak).trans (ih _)

/-- One more part, that has no volume and is not absolute. -/
theorem winResolving_append_singleton (fold : Char → Char) (cwd : List Char) (parts : List (List Char))
    {part : List Char} (hvolume : (splitWinPath part).volume = []) (hroot : (splitWinPath part).root = []) :
    winResolving fold cwd (parts ++ [part]) =
      (winResolving fold cwd parts).behind (tailAfter .initial part) := by
  have hstep : winStep fold .initial part = Resolving.initial.behind (tailAfter .initial part) := by
    by_cases hne : part = []
    · rw [hne]
      rfl
    · have hnot : ¬Elsewhere fold .initial part := fun helse => helse.2.1 rfl
      rw [winStep_relative hne hnot rfl, deviceAfter, if_neg (not_not.mpr hvolume), hroot]
      rfl
  rw [winResolving, List.reverse_append, List.reverse_singleton, List.singleton_append, winLoop, hstep]
  rw [if_neg fun hbreak => Bool.false_ne_true hbreak.1]
  exact winLoop_behind fold cwd _ .initial _

theorem winPathResolve_append_nil (fold : Char → Char) (cwd : List Char) (parts : List (List Char)) :
    winPathResolve fold cwd (parts ++ [[]]) = winPathResolve fold cwd parts := by
  have hloop : winLoop fold cwd (parts ++ [[]]).reverse .initial = winLoop fold cwd parts.reverse .initial := by
    rw [List.reverse_append, List.reverse_singleton, List.singleton_append, winLoop, winStep_nil]
    exact if_neg fun hbreak => Bool.false_ne_true hbreak.1
  rw [Resolving.initial] at hloop
  rw [winPathResolve, winPathResolve, hloop]

theorem fields_tailAfter (part : List Char) :
    fields isWinSeparator (tailAfter .initial part) = fields isWinSeparator (splitWinPath part).rest := by
  rw [tailAfter]
  split_ifs with hrest
  · exact fields_append_singleton isWinSeparator_backslash _
  · rw [not_not.mp hrest]
    rfl

theorem Resolving.Sound.fields_behind (h : st.Sound) (t : List Char) :
    fields isWinSeparator (st.tail ++ t) = fields isWinSeparator st.tail ++ fields isWinSeparator t := by
  rcases h.tail with htail | ⟨base, htail⟩
  · rw [htail]
    rfl
  · rw [htail, fields_append_singleton isWinSeparator_backslash, List.append_assoc, List.singleton_append,
      fields_append_sep isWinSeparator_backslash]

/-- **The names behind** a resolved path. -/
theorem winNames_append_singleton (fold : Char → Char) (cwd : List Char) (parts : List (List Char))
    {part : List Char} (hvolume : (splitWinPath part).volume = []) (hroot : (splitWinPath part).root = []) :
    winNames fold cwd (parts ++ [part]) =
      clean isDot dotdot true (winNames fold cwd parts ++ fields isWinSeparator (splitWinPath part).rest) := by
  have hsound : (winResolving fold cwd parts).Sound := sound_initial.loop cwd _
  have hstate := winResolving_append_singleton fold cwd parts hvolume hroot
  rw [winNames, hstate, winNames, cleanWinParts, cleanWinParts, clean_clean_append isDot_dotdot]
  refine congrArg (clean isDot dotdot true) ?_
  exact (hsound.fields_behind _).trans (congrArg _ (fields_tailAfter part))

/-! ### Relative paths -/

theorem equalFold_append {s s' t t' : List Char} (hs : equalFold fold s s' = true) (ht : equalFold fold t t' = true) :
    equalFold fold (s ++ t) (s' ++ t') = true := by
  have hs' : s.map fold = s'.map fold := of_decide_eq_true hs
  have ht' : t.map fold = t'.map fold := of_decide_eq_true ht
  exact decide_eq_true (by rw [List.map_append, List.map_append, hs', ht'])

/-- Names that are the same up to the case of letters, joined. -/
theorem equalFold_join {words words' : List (List Char)}
    (h : List.Forall₂ (fun w w' => equalFold fold w w' = true) words words') :
    equalFold fold (join '\\' words) (join '\\' words') = true := by
  induction h with
  | nil => exact equalFold_refl _
  | @cons w w' words words' hword hwords ih =>
    cases hwords with
    | nil =>
      rw [join_singleton, join_singleton]
      exact hword
    | cons _ _ =>
      rw [join_cons_cons, join_cons_cons]
      exact equalFold_append hword (equalFold_append (s := ['\\']) (equalFold_refl _) ih)

/-- The volume of the result of `resolve`. -/
def winVolume (fold : Char → Char) (cwd path : List Char) : List Char := (winResolving fold cwd [path]).device

theorem winPathRelative_eq (fold : Char → Char) (hcwd : winIsAbs cwd = true) (source target : List Char) :
    winPathRelative fold cwd source target =
      if equalFold fold (winPathResolve fold cwd [source]) (winPathResolve fold cwd [target]) then []
      else if ¬equalFold fold (winVolume fold cwd source) (winVolume fold cwd target) then
        winPathResolve fold cwd [target]
      else join '\\' (relativeParts (equalFold fold) (winNames fold cwd [source]) (winNames fold cwd [target])) := by
  have hrest : ∀ path, cleanWinParts (winPath (winResolving fold cwd [path]).device (winNames fold cwd [path])).rest true =
      winNames fold cwd [path] := by
    intro path
    have hnames := cleanWinParts_winNames fold cwd [path]
    have htail := cleanWinParts_winTail hnames ['\\'] false
    rwa [winTail_root] at htail
  have hunfold : winPathRelative fold cwd source target =
      if equalFold fold (winPathResolve fold cwd [source]) (winPathResolve fold cwd [target]) then []
      else if ¬equalFold fold (splitWinPath (winPathResolve fold cwd [source])).volume
          (splitWinPath (winPathResolve fold cwd [target])).volume then
        winPathResolve fold cwd [target]
      else join '\\' (relativeParts (equalFold fold)
        (cleanWinParts (splitWinPath (winPathResolve fold cwd [source])).rest true)
        (cleanWinParts (splitWinPath (winPathResolve fold cwd [target])).rest true)) := rfl
  rw [hunfold, splitWinPath_resolve fold hcwd, splitWinPath_resolve fold hcwd]
  rw [hrest, hrest]
  rfl

/-- A resolved path with a volume is resolved already, whatever stands before it. -/
theorem winPathResolve_append_resolve (hcwd : winIsAbs cwd = true) (parts : List (List Char)) {path : List Char}
    (h : winVolume fold cwd path ≠ []) :
    winPathResolve fold cwd (parts ++ [winPathResolve fold cwd [path]]) = winPathResolve fold cwd [path] := by
  have hsound : (winResolving fold cwd [path]).Sound := sound_initial.loop cwd _
  have hclean := cleanWinParts_winNames fold cwd [path]
  have hstate : winResolving fold cwd (parts ++ [winPathResolve fold cwd [path]]) =
      ⟨winVolume fold cwd path, restTail (winNames fold cwd [path]), true⟩ := by
    rw [winResolving, List.reverse_append, List.reverse_singleton, List.singleton_append, winLoop,
      winPathResolve_eq fold hcwd, winStep_winPath hsound.device hclean]
    exact if_pos ⟨rfl, h⟩
  rw [winPathResolve_eq fold hcwd (_ ++ _), winNames, hstate]
  simp only [cleanWinParts_restTail hclean]
  exact (winPathResolve_eq fold hcwd [path]).symm

/-- A relative path leads from the one path to the other. -/
structure Leads (fold : Char → Char) (cwd source target : List Char) : Prop where
  /-- The target has a volume, if the source has another. -/
  volume : ¬equalFold fold (winVolume fold cwd source) (winVolume fold cwd target) = true →
    winVolume fold cwd target ≠ []
  /-- On one volume, the names that lead there do not begin with a drive. -/
  drive : equalFold fold (winVolume fold cwd source) (winVolume fold cwd target) = true →
    winDriveVolume (join '\\'
      (relativeParts (equalFold fold) (winNames fold cwd [source]) (winNames fold cwd [target]))) = []

/-- The names from the one path to the other, of the same volume. -/
theorem winPathResolve_relativeParts (hcwd : winIsAbs cwd = true) {source target : List Char}
    (h : Leads fold cwd source target)
    (hvolume : equalFold fold (winVolume fold cwd source) (winVolume fold cwd target) = true) :
    equalFold fold
      (winPathResolve fold cwd [source,
        join '\\' (relativeParts (equalFold fold) (winNames fold cwd [source]) (winNames fold cwd [target]))])
      (winPathResolve fold cwd [target]) = true := by
  have hP := cleanWinParts_winNames fold cwd [source]
  have hQ := cleanWinParts_winNames fold cwd [target]
  have hname := @name_relativeParts isWinSeparator (by decide) (equalFold fold) (winNames fold cwd [source]) _ hQ.name
  have hclean := clean_relativeParts (equalFold fold) hP.normal hQ.normal
  have hcommon := (common_spec (equalFold fold) (winNames fold cwd [source]) (winNames fold cwd [target])).2
  have hdrive := h.drive hvolume
  generalize relativeParts (equalFold fold) (winNames fold cwd [source]) (winNames fold cwd [target]) = rel at *
  generalize common (equalFold fold) (winNames fold cwd [source]) (winNames fold cwd [target]) = k at *
  have hsplit : splitWinPath (join '\\' rel) = ⟨[], [], join '\\' rel⟩ :=
    splitWinPath_path (s := ⟨[], [], join '\\' rel⟩)
      ⟨.inl rfl, .inl rfl, fun _ _ => hdrive, slash_notMem_join hname, head_join_win hname⟩
  have hnone : (splitWinPath (join '\\' rel)).volume = [] := by rw [hsplit]
  have hroot : (splitWinPath (join '\\' rel)).root = [] := by rw [hsplit]
  have hnames := winNames_append_singleton fold cwd [source] hnone hroot
  have hstate := winResolving_append_singleton fold cwd [source] hnone hroot
  rw [hsplit, fields_join isWinSeparator_backslash hname, hclean] at hnames
  have hall : List.Forall₂ (fun w w' => equalFold fold w w' = true)
      ((winNames fold cwd [source]).take k ++ (winNames fold cwd [target]).drop k) (winNames fold cwd [target]) := by
    have hrefl : ∀ words : List (List Char), List.Forall₂ (fun w w' => equalFold fold w w' = true) words words :=
      fun words => List.forall₂_same.mpr fun w _ => equalFold_refl w
    have hback : List.Forall₂ (fun w w' => equalFold fold w w' = true)
        ((winNames fold cwd [source]).take k ++ (winNames fold cwd [target]).drop k)
        ((winNames fold cwd [target]).take k ++ (winNames fold cwd [target]).drop k) :=
      List.rel_append hcommon (hrefl _)
    rwa [List.take_append_drop] at hback
  have hpair : [source, join '\\' rel] = [source] ++ [join '\\' rel] := rfl
  rw [hpair, winPathResolve_eq fold hcwd, winPathResolve_eq fold hcwd [target], hnames, hstate]
  exact equalFold_append (equalFold_append hvolume (equalFold_refl _)) (equalFold_join hall)

/-- **A relative path leads back**, up to the case of letters. -/
theorem winPathResolve_relative (hcwd : winIsAbs cwd = true) {source target : List Char}
    (h : Leads fold cwd source target) :
    equalFold fold (winPathResolve fold cwd [source, winPathRelative fold cwd source target])
      (winPathResolve fold cwd [target]) = true := by
  rw [winPathRelative_eq fold hcwd]
  split_ifs with hsame hvolume
  · have hskip := winPathResolve_append_nil fold cwd [source]
    rw [List.singleton_append] at hskip
    rw [hskip]
    exact hsame
  · exact winPathResolve_relativeParts hcwd h hvolume
  · have hback := winPathResolve_append_resolve hcwd [source] (h.volume hvolume)
    rw [List.singleton_append] at hback
    rw [hback]
    exact equalFold_refl _

/-! ### The laws -/

/-- **Normal paths are stable, and relative paths lead back.** A `win32` path keeps its volume and root if
cleaning it does not leave a name at its beginning that reads as a drive; a relative one leads back if it does
not begin with a drive, and if its target has a volume where its source has another. -/
theorem paths (fold : Char → Char) :
    (∀ value, posixPathNormalize (posixPathNormalize value) = posixPathNormalize value ∧
      rooted (posixPathNormalize value) = rooted value) ∧
    (∀ parts, posixPathJoin parts = posixPathNormalize (join '/' (parts.filter fun part => part ≠ []))) ∧
    (∀ cwd path, rooted (posixPathResolve cwd [path]) = true ∧
      posixPathNormalize (posixPathResolve cwd [path]) = posixPathResolve cwd [path] ∧
      posixPathResolve cwd [posixPathResolve cwd [path]] = posixPathResolve cwd [path]) ∧
    (∀ cwd source target,
      posixPathResolve cwd [source, posixPathRelative cwd source target] = posixPathResolve cwd [target]) ∧
    (∀ value, ¬Exposed value → winPathNormalize (winPathNormalize value) = winPathNormalize value ∧
      (splitWinPath (winPathNormalize value)).volume = (splitWinPath value).volume ∧
      (splitWinPath (winPathNormalize value)).root = (splitWinPath value).root) ∧
    (∀ parts, winPathJoin parts = winPathNormalize (join '\\' (parts.filter fun part => part ≠ []))) ∧
    (∀ cwd path, winIsAbs cwd = true → winIsAbs (winPathResolve fold cwd [path]) = true ∧
      winPathNormalize (winPathResolve fold cwd [path]) = winPathResolve fold cwd [path] ∧
      winPathResolve fold cwd [winPathResolve fold cwd [path]] = winPathResolve fold cwd [path]) ∧
    (∀ cwd source target, winIsAbs cwd = true → Leads fold cwd source target →
      equalFold fold (winPathResolve fold cwd [source, winPathRelative fold cwd source target])
        (winPathResolve fold cwd [target]) = true) := by
  refine ⟨fun value => ⟨posixPathNormalize_idem value, rooted_posixPathNormalize value⟩, posixPathJoin_eq, ?_,
    posixPathResolve_relative, ?_, winPathJoin_eq, ?_, fun _ _ _ hcwd h => winPathResolve_relative hcwd h⟩
  · intro cwd path
    have hclean := cleanParts_resolvedParts cwd [path]
    have heq := posixPathResolve_eq cwd [path]
    refine ⟨?_, ?_, ?_⟩
    · rw [heq]
      exact rooted_posixPath hclean
    · rw [heq]
      exact posixPathNormalize_posixPath hclean
    · rw [heq, posixPathResolve_eq, resolvedParts_posixPath cwd hclean]
  · intro value h
    refine ⟨winPathNormalize_idem h, ?_⟩
    by_cases hne : value = []
    · rw [hne]
      decide
    · rw [splitWinPath_normalize hne h]
      exact ⟨rfl, rfl⟩
  · intro cwd path hcwd
    refine ⟨?_, winPathNormalize_resolve fold hcwd [path], winPathResolve_winPathResolve hcwd [path]⟩
    rw [winIsAbs, splitWinPath_resolve fold hcwd]
    rfl

theorem paths_siblings :
    winPathResolve Char.toLower ['C', ':', '\\'] [['A'], ['.', '.', '\\', 'b']] = ['C', ':', '\\', 'b'] ∧
      equalFold Char.toLower
        (winPathResolve Char.toLower ['C', ':', '\\'] [['A'], winPathRelative Char.toLower ['C', ':', '\\'] ['A'] ['b']])
        (winPathResolve Char.toLower ['C', ':', '\\'] [['b']]) = true :=
  ⟨by decide +kernel, (paths Char.toLower).2.2.2.2.2.2.2 ['C', ':', '\\'] ['A'] ['b'] (by decide +kernel)
    ⟨by decide +kernel, by decide +kernel⟩⟩

/-- Empty parts are not joined; cleaning `a\..\C:\x` leaves a drive at the beginning; cleaning `.\C:` twice is not
the same as once; from `C:\` to `C:\D:` the relative path is another drive; and without a volume of the directory,
a target without one is not reached from another volume. -/
theorem not_paths :
    posixPathJoin [[], ['a']] ≠ posixPathNormalize (join '/' [[], ['a']]) ∧
      (splitWinPath ['a', '\\', '.', '.', '\\', 'C', ':', '\\', 'x']).volume = [] ∧
      (splitWinPath (winPathNormalize ['a', '\\', '.', '.', '\\', 'C', ':', '\\', 'x'])).volume = ['C', ':'] ∧
      winPathNormalize (winPathNormalize ['.', '\\', 'C', ':']) ≠ winPathNormalize ['.', '\\', 'C', ':'] ∧
      equalFold Char.toLower
        (winPathResolve Char.toLower ['C', ':', '\\'] [['C', ':', '\\'],
          winPathRelative Char.toLower ['C', ':', '\\'] ['C', ':', '\\'] ['\\', 'D', ':', '\\', 'x']])
        (winPathResolve Char.toLower ['C', ':', '\\'] [['\\', 'D', ':', '\\', 'x']]) = false ∧
      equalFold Char.toLower
        (winPathResolve Char.toLower ['\\'] [['C', ':', '\\', 'x'],
          winPathRelative Char.toLower ['\\'] ['C', ':', '\\', 'x'] ['\\', 'y']])
        (winPathResolve Char.toLower ['\\'] [['\\', 'y']]) = false := by decide +kernel

end JsPath

end Komari
