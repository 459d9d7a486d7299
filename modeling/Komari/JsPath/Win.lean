import Komari.JsPath.Posix

/-!
# Paths with backslashes

The `win32` flavour of the paths of plugins.
-/

namespace Komari

namespace JsPath

open Lexical

/-- Both kinds of slashes. -/
def isWinSeparator (c : Char) : Bool := c = '\\' ∨ c = '/'

/-- One separator of win32. -/
def isBackslash (c : Char) : Bool := c = '\\'

/-- `strings.TrimPrefix`. -/
def trimStart (s start : List Char) : List Char := if start <+: s then s.drop start.length else s

/-- What `splitWinPath` returns. -/
structure WinSplit where
  volume : List Char
  root : List Char
  rest : List Char
deriving DecidableEq

/-- The volume of a path, its root, and the rest. -/
def splitWinPath (value : List Char) : WinSplit :=
  let value := value.map fun c => if c = '/' then '\\' else c
  let drive := winDriveVolume value
  if drive ≠ [] then
    let rest := value.drop drive.length
    if rest.head?.any isWinSeparator then ⟨drive, ['\\'], rest.dropWhile isBackslash⟩ else ⟨drive, [], rest⟩
  else
    let parts :=
      if ['\\', '\\'] <+: value then fields isBackslash (value.dropWhile isBackslash) else []
    match parts with
    | server :: share :: _ =>
      let rest := trimStart (value.dropWhile isBackslash) server
      let rest := trimStart (rest.dropWhile isBackslash) share
      ⟨['\\', '\\'] ++ server ++ ['\\'] ++ share, ['\\'], rest.dropWhile isBackslash⟩
    | _ =>
      if value.head? = some '\\' then ⟨[], ['\\'], value.dropWhile isBackslash⟩ else ⟨[], [], value⟩

/-- The names behind volume and root. -/
def cleanWinParts (rest : List Char) (absolute : Bool) : List (List Char) :=
  clean isDot dotdot absolute (fields isWinSeparator rest)

/-- `normalize`. -/
def winPathNormalize (value : List Char) : List Char :=
  if value = [] then ['.']
  else
    let trailing := value.getLast?.any isWinSeparator
    let s := splitWinPath value
    let parts := cleanWinParts s.rest (s.root ≠ [])
    let result := s.volume ++ s.root ++ join '\\' parts
    let result :=
      if result = [] then ['.']
      else if s.volume ≠ [] ∧ s.root = [] ∧ parts.length = 0 then s.volume ++ ['.'] else result
    if trailing ∧ 0 < parts.length ∧ ¬['\\'] <:+ result then result ++ ['\\'] else result

/-- `join`. -/
def winPathJoin (parts : List (List Char)) : List Char :=
  let nonEmpty := parts.filter fun part => part ≠ []
  if nonEmpty.length = 0 then ['.'] else winPathNormalize (join '\\' nonEmpty)

/-! ### Volumes and roots -/

/-- The path of a volume, a root and a rest. -/
def WinSplit.path (s : WinSplit) : List Char := s.volume ++ s.root ++ s.rest

/-- A volume of a server and a share. -/
def IsShare (volume : List Char) : Prop :=
  ∃ server share, Name isWinSeparator server ∧ Name isWinSeparator share ∧
    volume = ['\\', '\\'] ++ server ++ ['\\'] ++ share

/-- What `splitWinPath` can return. -/
structure WinSplit.Valid (s : WinSplit) : Prop where
  /-- The volume is missing, a drive, or a share with a root. -/
  volume : s.volume = [] ∨ s.volume ≠ [] ∧ winDriveVolume s.volume = s.volume ∨ IsShare s.volume ∧ s.root = ['\\']
  /-- The root is missing, or a backslash. -/
  root : s.root = [] ∨ s.root = ['\\']
  /-- Without a volume and a root, the rest does not begin with a drive. -/
  drive : s.volume = [] → s.root = [] → winDriveVolume s.rest = []
  slash : '/' ∉ s.rest
  /-- The rest does not begin with a backslash. -/
  head : s.rest.head? ≠ some '\\'

variable {value : List Char}

theorem winDriveVolume_spec (h : winDriveVolume value ≠ []) :
    ∃ c rest, value = c :: ':' :: rest ∧ winDriveVolume value = [c, ':'] ∧ c ≠ '\\' ∧ c ≠ '/' := by
  rcases value with _ | ⟨c, _ | ⟨d, rest⟩⟩
  · exact absurd rfl h
  · exact absurd rfl h
  by_cases hcolon : d = ':'
  · subst hcolon
    have hcons : winDriveVolume (c :: ':' :: rest) =
        if 'A' ≤ c ∧ c ≤ 'Z' ∨ 'a' ≤ c ∧ c ≤ 'z' then [c, ':'] else [] := rfl
    rw [hcons] at h ⊢
    split_ifs at h ⊢ with hletter
    · refine ⟨c, rest, rfl, rfl, ?_, ?_⟩
      · rintro rfl
        exact absurd hletter (by decide)
      · rintro rfl
        exact absurd hletter (by decide)
    · exact absurd rfl h
  · refine absurd ?_ h
    unfold winDriveVolume
    split
    · exact absurd (by simp_all) hcolon
    · rfl

theorem winDriveVolume_append (h : winDriveVolume value ≠ []) (t : List Char) :
    winDriveVolume (value ++ t) = winDriveVolume value := by
  obtain ⟨c, rest, rfl, -, -, -⟩ := winDriveVolume_spec h
  rfl

theorem winDriveVolume_backslash (t : List Char) : winDriveVolume ('\\' :: t) = [] := by
  by_contra h
  obtain ⟨c, rest, heq, -, hne, -⟩ := winDriveVolume_spec h
  exact hne (List.cons.inj heq).1.symm

theorem head_dropWhile (s : List Char) : (s.dropWhile isBackslash).head? ≠ some '\\' := by
  intro heq
  have hnot := List.head?_dropWhile_not isBackslash s
  rw [heq] at hnot
  exact absurd hnot (by decide)

theorem dropWhile_of_head {s : List Char} (h : s.head? ≠ some '\\') : s.dropWhile isBackslash = s := by
  cases s with
  | nil => rfl
  | cons c s =>
    refine List.dropWhile_cons_of_neg fun hc => h ?_
    rw [List.head?_cons, of_decide_eq_true hc]

theorem trimStart_append (s t : List Char) : trimStart (s ++ t) s = t := by
  rw [trimStart, if_pos (List.prefix_append s t), List.drop_left]

theorem notMem_trimStart {c : Char} {s start : List Char} (h : c ∉ s) : c ∉ trimStart s start := by
  rw [trimStart]
  split_ifs
  · exact fun hmem => h (List.mem_of_mem_drop hmem)
  · exact h

theorem notMem_dropWhile {c : Char} {s : List Char} (h : c ∉ s) : c ∉ s.dropWhile isBackslash :=
  fun hmem => h ((List.dropWhile_sublist _).mem hmem)

theorem fields_isBackslash {s : List Char} (h : '/' ∉ s) : fields isBackslash s = fields isWinSeparator s := by
  refine fields_congr fun c hc => ?_
  have hne : c ≠ '/' := fun heq => h (heq ▸ hc)
  simp [isBackslash, isWinSeparator, hne]

/-- **What is split off is valid.** -/
theorem splitWinPath_valid (value : List Char) : (splitWinPath value).Valid := by
  have hslash : '/' ∉ value.map fun c => if c = '/' then '\\' else c := by
    intro hmem
    obtain ⟨c, -, hc⟩ := List.mem_map.mp hmem
    split_ifs at hc with heq
    · exact absurd hc (by decide)
    · exact heq hc
  rw [splitWinPath]
  generalize (value.map fun c => if c = '/' then '\\' else c) = value at hslash
  simp only
  by_cases hdrive : winDriveVolume value = []
  · rw [if_neg (not_not.mpr hdrive)]
    split
    case h_1 server share words hparts =>
      have hfields : fields isBackslash (value.dropWhile isBackslash) = server :: share :: words := by
        split_ifs at hparts
        exact hparts
      have hname : ∀ w ∈ server :: share :: words, Name isWinSeparator w := by
        intro w hw
        rw [← hfields, fields_isBackslash (notMem_dropWhile hslash)] at hw
        exact name_of_mem_fields hw
      refine ⟨.inr (.inr ⟨⟨server, share, hname server (by simp), hname share (by simp), rfl⟩, rfl⟩), .inr rfl,
        fun h => ?_, ?_, head_dropWhile _⟩
      · simp at h
      · exact notMem_dropWhile (notMem_trimStart (notMem_dropWhile (notMem_trimStart (notMem_dropWhile hslash))))
    case h_2 =>
      split_ifs with hhead
      · exact ⟨.inl rfl, .inr rfl, fun _ h => by simp at h, notMem_dropWhile hslash, head_dropWhile _⟩
      · exact ⟨.inl rfl, .inl rfl, fun _ _ => hdrive, hslash, hhead⟩
  · obtain ⟨c, rest, rfl, hvolume, hne, hne'⟩ := winDriveVolume_spec hdrive
    have hrest : '/' ∉ rest := fun hmem => hslash (by simp [hmem])
    have hfixed : winDriveVolume [c, ':'] = [c, ':'] := hvolume
    rw [hvolume, if_pos (by simp)]
    have hdrop : (c :: ':' :: rest).drop [c, ':'].length = rest := rfl
    rw [hdrop]
    split_ifs with hhead
    · exact ⟨.inr (.inl ⟨by simp, hfixed⟩), .inr rfl, fun h => by simp at h, notMem_dropWhile hrest, head_dropWhile _⟩
    · refine ⟨.inr (.inl ⟨by simp, hfixed⟩), .inl rfl, fun h => by simp at h, hrest, fun heq => hhead ?_⟩
      rw [heq]
      rfl

theorem map_of_noSlash {t : List Char} (h : '/' ∉ t) : (t.map fun c => if c = '/' then '\\' else c) = t := by
  have hid : ∀ c ∈ t, (if c = '/' then '\\' else c) = id c := by
    intro c hc
    refine if_neg fun heq => h ?_
    rw [← heq]
    exact hc
  rw [List.map_congr_left hid, List.map_id]

theorem splitWinPath_drive {c : Char} {root rest : List Char} (hdrive : winDriveVolume [c, ':'] = [c, ':'])
    (hroot : root = [] ∨ root = ['\\']) (hslash : '/' ∉ rest) (hhead : rest.head? ≠ some '\\') :
    splitWinPath ([c, ':'] ++ root ++ rest) = ⟨[c, ':'], root, rest⟩ := by
  obtain ⟨d, r, heq, -, -, hc⟩ := winDriveVolume_spec (by rw [hdrive]; simp : winDriveVolume [c, ':'] ≠ [])
  obtain ⟨rfl, -⟩ := List.cons.inj heq
  have hvolume : winDriveVolume ([c, ':'] ++ root ++ rest) = [c, ':'] := hdrive
  have hdrop : ([c, ':'] ++ root ++ rest).drop [c, ':'].length = root ++ rest := by simp
  have hno : '/' ∉ [c, ':'] ++ root ++ rest := by
    rcases hroot with rfl | rfl <;> simp [hslash, hc.symm]
  rw [splitWinPath, map_of_noSlash hno, hvolume, if_pos (by simp), hdrop]
  rcases hroot with rfl | rfl
  · have hnot : ¬(([] ++ rest).head?.any isWinSeparator) = true := by
      cases rest with
      | nil => simp
      | cons e rest =>
        have he : e ≠ '\\' := fun heq => hhead (by rw [heq]; rfl)
        have he' : e ≠ '/' := fun heq => hslash (by rw [heq]; exact List.mem_cons_self)
        simp [isWinSeparator, he, he']
    rw [if_neg hnot]
    rfl
  · have hyes : ((['\\'] ++ rest).head?.any isWinSeparator) = true := rfl
    have hrest : (['\\'] ++ rest).dropWhile isBackslash = rest :=
      (List.dropWhile_cons_of_pos (by decide)).trans (dropWhile_of_head hhead)
    rw [if_pos hyes, hrest]

theorem splitWinPath_share {server share rest : List Char} (hserver : Name isWinSeparator server)
    (hshare : Name isWinSeparator share) (hslash : '/' ∉ rest) (hhead : rest.head? ≠ some '\\') :
    splitWinPath (['\\', '\\'] ++ server ++ ['\\'] ++ share ++ ['\\'] ++ rest) =
      ⟨['\\', '\\'] ++ server ++ ['\\'] ++ share, ['\\'], rest⟩ := by
  have hno : ∀ w : List Char, Name isWinSeparator w → '/' ∉ w := by
    intro w hw hmem
    exact absurd (hw.2 '/' hmem) (by decide)
  have hfirst : ∀ w : List Char, Name isWinSeparator w → ∀ t, (w ++ t).head? ≠ some '\\' := by
    intro w hw t
    obtain ⟨c, w, rfl⟩ := List.exists_cons_of_ne_nil hw.1
    intro heq
    have hc := hw.2 c List.mem_cons_self
    rw [List.cons_append, List.head?_cons, Option.some.injEq] at heq
    rw [heq] at hc
    exact absurd hc (by decide)
  have hassoc : ['\\', '\\'] ++ server ++ ['\\'] ++ share ++ ['\\'] ++ rest =
      '\\' :: '\\' :: (server ++ '\\' :: (share ++ '\\' :: rest)) := by simp
  have hnone : '/' ∉ '\\' :: '\\' :: (server ++ '\\' :: (share ++ '\\' :: rest)) := by
    simp [hno server hserver, hno share hshare, hslash]
  have htrim : ('\\' :: '\\' :: (server ++ '\\' :: (share ++ '\\' :: rest))).dropWhile isBackslash =
      server ++ '\\' :: (share ++ '\\' :: rest) :=
    (List.dropWhile_cons_of_pos (by decide)).trans
      ((List.dropWhile_cons_of_pos (by decide)).trans (dropWhile_of_head (hfirst server hserver _)))
  have hname : ∀ w : List Char, Name isWinSeparator w → Name isBackslash w := by
    intro w hw
    refine ⟨hw.1, fun c hc => ?_⟩
    have hsep := hw.2 c hc
    simp only [isWinSeparator, decide_eq_false_iff_not, not_or] at hsep
    exact decide_eq_false hsep.1
  have hfields : fields isBackslash (server ++ '\\' :: (share ++ '\\' :: rest)) =
      server :: share :: fields isBackslash rest := by
    rw [fields_append_sep (by decide), fields_append_sep (by decide), fields_name (hname server hserver),
      fields_name (hname share hshare)]
    rfl
  have hsecond : ('\\' :: (share ++ '\\' :: rest)).dropWhile isBackslash = share ++ '\\' :: rest :=
    (List.dropWhile_cons_of_pos (by decide)).trans (dropWhile_of_head (hfirst share hshare _))
  have hthird : ('\\' :: rest).dropWhile isBackslash = rest :=
    (List.dropWhile_cons_of_pos (by decide)).trans (dropWhile_of_head hhead)
  rw [hassoc, splitWinPath, map_of_noSlash hnone, winDriveVolume_backslash, if_neg (not_not.mpr rfl), htrim,
    if_pos ⟨_, rfl⟩, hfields]
  simp only [trimStart_append, hsecond, hthird]

/-- **Valid volumes, roots and rests are found again** in their path. -/
theorem splitWinPath_path {s : WinSplit} (h : s.Valid) : splitWinPath s.path = s := by
  obtain ⟨volume, root, rest⟩ := s
  have hslash : '/' ∉ rest := h.slash
  have hhead : rest.head? ≠ some '\\' := h.head
  rcases h.volume with hvolume | ⟨hne, hdrive⟩ | ⟨⟨server, share, hserver, hshare, hvolume⟩, hroot⟩
  · simp only at hvolume
    subst hvolume
    have hnone : ∀ t : List Char, t.head? ≠ some '\\' → ¬['\\', '\\'] <+: '\\' :: t ∧ ¬['\\', '\\'] <+: t := by
      intro t ht
      cases t with
      | nil => exact ⟨by decide, by decide⟩
      | cons c t =>
        have hc : c ≠ '\\' := fun heq => ht (by rw [heq]; rfl)
        simp [List.cons_prefix_cons, hc.symm]
    rcases h.root with hroot | hroot
    · simp only at hroot
      subst hroot
      rw [WinSplit.path, splitWinPath]
      simp only [List.nil_append, map_of_noSlash hslash, h.drive rfl rfl]
      rw [if_neg (not_not.mpr rfl), if_neg (hnone rest hhead).2]
      simp only
      rw [if_neg hhead]
    · simp only at hroot
      subst hroot
      have hno : '/' ∉ '\\' :: rest := by simp [hslash]
      have hrest : ('\\' :: rest).dropWhile isBackslash = rest :=
        (List.dropWhile_cons_of_pos (by decide)).trans (dropWhile_of_head hhead)
      rw [WinSplit.path, splitWinPath]
      simp only [List.nil_append, List.singleton_append, map_of_noSlash hno, winDriveVolume_backslash, hrest]
      rw [if_neg (not_not.mpr rfl), if_neg (hnone rest hhead).1]
      exact if_pos rfl
  · simp only at hne hdrive
    obtain ⟨c, r, hvolume, hletter, -, -⟩ := winDriveVolume_spec (hdrive.symm ▸ hne : winDriveVolume volume ≠ [])
    rw [hdrive] at hletter
    subst hletter
    exact splitWinPath_drive hdrive h.root hslash hhead
  · simp only at hvolume hroot
    subst hvolume hroot
    exact splitWinPath_share hserver hshare hslash hhead

/-! ### Normal paths -/

/-- What stands after the volume and the root of a normal path. -/
def winTail (root : List Char) (parts : List (List Char)) (trailing : Bool) : List Char :=
  if root = [] ∧ parts = [] then ['.']
  else join '\\' parts ++ if trailing = true ∧ parts ≠ [] then ['\\'] else []

/-- The names that cleaning leaves. -/
def winParts (value : List Char) : List (List Char) :=
  cleanWinParts (splitWinPath value).rest ((splitWinPath value).root ≠ [])

/-- The path ends with a separator. -/
def trailing (value : List Char) : Bool := value.getLast?.any isWinSeparator

/-- Names that cleaning leaves. -/
structure CleanWinParts (absolute : Bool) (parts : List (List Char)) : Prop where
  name : ∀ w ∈ parts, Name isWinSeparator w
  normal : Normal isDot dotdot absolute parts

theorem cleanWinParts_spec (rest : List Char) (absolute : Bool) :
    CleanWinParts absolute (cleanWinParts rest absolute) :=
  ⟨fun _ h => name_of_mem_fields (mem_clean h), normal_clean isDot_dotdot _⟩

theorem isWinSeparator_backslash : isWinSeparator '\\' = true := by decide

variable {parts : List (List Char)}

theorem getLast_join_win (h : ∀ w ∈ parts, Name isWinSeparator w) :
    (join '\\' parts).getLast? ≠ some '\\' := by
  intro heq
  exact absurd (getLast_join h '\\' heq) (by decide)

/-- **A normal path** has the volume and the root of the path, and its names. -/
theorem winPathNormalize_eq (hne : value ≠ []) :
    winPathNormalize value = (splitWinPath value).volume ++ (splitWinPath value).root ++
      winTail (splitWinPath value).root (winParts value) (trailing value) := by
  have hvalid := splitWinPath_valid value
  have hparts : CleanWinParts _ (winParts value) := cleanWinParts_spec _ _
  have hunfold : winPathNormalize value =
      let result := (splitWinPath value).volume ++ (splitWinPath value).root ++ join '\\' (winParts value)
      let result :=
        if result = [] then ['.']
        else if (splitWinPath value).volume ≠ [] ∧ (splitWinPath value).root = [] ∧ (winParts value).length = 0 then
          (splitWinPath value).volume ++ ['.'] else result
      if trailing value = true ∧ 0 < (winParts value).length ∧ ¬['\\'] <:+ result then result ++ ['\\'] else result := by
    rw [winPathNormalize, if_neg hne]
    rfl
  rw [hunfold]
  generalize (splitWinPath value).volume = volume
  generalize (splitWinPath value).root = root at hparts
  generalize trailing value = trailing
  generalize winParts value = parts at hparts
  simp only
  by_cases hnil : parts = []
  · subst hnil
    by_cases hroot : root = [] <;> by_cases hvolume : volume = [] <;> simp [hroot, hvolume, winTail]
  · have hjoin : join '\\' parts ≠ [] := fun h => hnil ((join_eq_nil_iff '\\' hparts.name).mp h)
    have hresult : volume ++ root ++ join '\\' parts ≠ [] := by simp [hjoin]
    have hsuffix : ¬['\\'] <:+ volume ++ root ++ join '\\' parts := by
      rw [List.singleton_suffix_iff_getLast?_eq_some, List.getLast?_append_of_ne_nil _ hjoin]
      exact getLast_join_win hparts.name
    have hkeep : (if volume ++ root ++ join '\\' parts = [] then ['.']
        else if volume ≠ [] ∧ root = [] ∧ parts.length = 0 then volume ++ ['.']
          else volume ++ root ++ join '\\' parts) = volume ++ root ++ join '\\' parts := by
      rw [if_neg hresult, if_neg fun h => hnil (List.length_eq_zero_iff.mp h.2.2)]
    have hdot : ¬(root = [] ∧ parts = []) := fun h => hnil h.2
    rw [hkeep, winTail, if_neg hdot]
    by_cases htrailing : trailing = true
    · rw [if_pos ⟨htrailing, List.length_pos_iff.mpr hnil, hsuffix⟩, if_pos ⟨htrailing, hnil⟩]
      simp
    · rw [if_neg (fun h => htrailing h.1), if_neg (fun h => htrailing h.1), List.append_nil]

/-- A path without volume and root, whose first clean name reads as a drive. -/
def Exposed (value : List Char) : Prop :=
  (splitWinPath value).volume = [] ∧ (splitWinPath value).root = [] ∧
    winDriveVolume (join '\\' (winParts value)) ≠ []

theorem slash_notMem_join (h : ∀ w ∈ parts, Name isWinSeparator w) : '/' ∉ join '\\' parts := by
  intro hmem
  rcases mem_join hmem with heq | ⟨w, hw, hc⟩
  · exact absurd heq (by decide)
  · exact absurd ((h w hw).2 '/' hc) (by decide)

theorem head_join_win (h : ∀ w ∈ parts, Name isWinSeparator w) :
    (join '\\' parts).head? ≠ some '\\' := by
  intro heq
  exact absurd (head_join h '\\' heq) (by decide)

theorem winDriveVolume_append_backslash {s : List Char} (h : winDriveVolume s = []) :
    winDriveVolume (s ++ ['\\']) = [] := by
  by_contra hne
  obtain ⟨c, rest, heq, -, -, -⟩ := winDriveVolume_spec hne
  rcases s with _ | ⟨d, _ | ⟨e, s⟩⟩
  · cases heq
  · exact absurd heq (by simp)
  · rw [List.cons_append, List.cons_append, List.cons.injEq, List.cons.injEq] at heq
    obtain ⟨rfl, rfl, -⟩ := heq
    exact hne h

/-- What stands behind the volume and the root of a normal path is valid. -/
theorem WinSplit.Valid.winTail {s : WinSplit} (h : s.Valid)
    (hparts : ∀ w ∈ parts, Name isWinSeparator w)
    (hdrive : s.volume = [] → s.root = [] → winDriveVolume (join '\\' parts) = []) (trailing : Bool) :
    (⟨s.volume, s.root, winTail s.root parts trailing⟩ : WinSplit).Valid := by
  by_cases hdot : s.root = [] ∧ parts = []
  · have htail : JsPath.winTail s.root parts trailing = ['.'] := if_pos hdot
    rw [htail]
    exact ⟨h.volume, h.root, fun _ _ => rfl, by simp, by simp⟩
  · have htail : JsPath.winTail s.root parts trailing =
        join '\\' parts ++ if trailing = true ∧ parts ≠ [] then ['\\'] else [] := if_neg hdot
    rw [htail]
    split_ifs with htrailing
    · have hjoin : join '\\' parts ≠ [] := fun hnil => htrailing.2 ((join_eq_nil_iff '\\' hparts).mp hnil)
      refine ⟨h.volume, h.root, fun hvolume hroot => winDriveVolume_append_backslash (hdrive hvolume hroot), ?_, ?_⟩
      · simp [slash_notMem_join hparts]
      · simp only
        rw [List.head?_append_of_ne_nil _ hjoin]
        exact head_join_win hparts
    · rw [List.append_nil]
      exact ⟨h.volume, h.root, hdrive, slash_notMem_join hparts, head_join_win hparts⟩

/-- **A path keeps its volume and root**, if no name at its beginning reads as a drive. -/
theorem splitWinPath_normalize (hne : value ≠ []) (h : ¬Exposed value) :
    splitWinPath (winPathNormalize value) =
      ⟨(splitWinPath value).volume, (splitWinPath value).root,
        winTail (splitWinPath value).root (winParts value) (trailing value)⟩ := by
  have hparts : CleanWinParts _ (winParts value) := cleanWinParts_spec _ _
  rw [winPathNormalize_eq hne]
  refine splitWinPath_path ((splitWinPath_valid value).winTail hparts.name (fun hvolume hroot => ?_) _)
  by_contra hdrive
  exact h ⟨hvolume, hroot, hdrive⟩

/-- The names behind the volume and the root of a normal path. -/
theorem cleanWinParts_winTail {absolute : Bool} (h : CleanWinParts absolute parts)
    (root : List Char) (trailing : Bool) : cleanWinParts (winTail root parts trailing) absolute = parts := by
  rw [winTail]
  split_ifs with hdot htrailing
  · rw [hdot.2]
    cases absolute <;> decide
  · rw [cleanWinParts, fields_append_singleton isWinSeparator_backslash, fields_join isWinSeparator_backslash h.name,
      clean_of_normal isDot_dotdot h.normal]
  · rw [List.append_nil, cleanWinParts, fields_join isWinSeparator_backslash h.name,
      clean_of_normal isDot_dotdot h.normal]

/-- A normal path with names ends with a separator as it is told. -/
theorem trailing_winTail (h : ∀ w ∈ parts, Name isWinSeparator w) (hne : parts ≠ [])
    (before root : List Char) (trailing : Bool) :
    JsPath.trailing (before ++ winTail root parts trailing) = trailing := by
  have hjoin : join '\\' parts ≠ [] := fun hnil => hne ((join_eq_nil_iff '\\' h).mp hnil)
  rw [winTail, if_neg (fun hdot => hne hdot.2), JsPath.trailing]
  cases trailing with
  | true =>
    rw [if_pos ⟨rfl, hne⟩, ← List.append_assoc, List.getLast?_append_of_ne_nil _ (by simp)]
    rfl
  | false =>
    rw [if_neg (fun hcond => absurd hcond.1 (by decide)), List.append_nil, List.getLast?_append_of_ne_nil _ hjoin]
    cases hlast : (join '\\' parts).getLast? with
    | none => rfl
    | some c => exact getLast_join h c hlast

/-- **A normal path stays as it is**, if no name at its beginning reads as a drive. -/
theorem winPathNormalize_idem (h : ¬Exposed value) :
    winPathNormalize (winPathNormalize value) = winPathNormalize value := by
  by_cases hne : value = []
  · rw [hne]
    decide
  have hparts : CleanWinParts _ (winParts value) := cleanWinParts_spec _ _
  have hsplit := splitWinPath_normalize hne h
  have hsame : winParts (winPathNormalize value) = winParts value := by
    rw [winParts, hsplit]
    exact cleanWinParts_winTail hparts _ _
  have hne' : winPathNormalize value ≠ [] := by
    intro hnil
    rw [winPathNormalize_eq hne, List.append_eq_nil_iff, List.append_eq_nil_iff] at hnil
    have htail := hnil.2
    rw [winTail] at htail
    split_ifs at htail with hdot htrailing
    · simp at htail
    · refine hdot ⟨hnil.1.2, (join_eq_nil_iff '\\' hparts.name).mp ?_⟩
      simpa using htail
  rw [winPathNormalize_eq hne', hsame, hsplit]
  by_cases hnil : winParts value = []
  · have htail : ∀ root trailing, winTail root [] trailing = if root = [] then ['.'] else [] := by
      intro root trailing
      simp [winTail]
    rw [winPathNormalize_eq hne, hnil, htail, htail]
  · have htrailing := trailing_winTail hparts.name hnil
      ((splitWinPath value).volume ++ (splitWinPath value).root) (splitWinPath value).root (trailing value)
    rw [← winPathNormalize_eq hne] at htrailing
    rw [htrailing, winPathNormalize_eq hne]

theorem winPathJoin_eq (parts : List (List Char)) :
    winPathJoin parts = winPathNormalize (join '\\' (parts.filter fun part => part ≠ [])) := by
  rw [winPathJoin]
  split_ifs with hnone
  · rw [List.length_eq_zero_iff.mp hnone]
    decide
  · rfl

end JsPath

end Komari
