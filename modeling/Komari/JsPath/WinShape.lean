import Komari.JsPath.PosixParse

/-!
# What stands before the rest of a path with backslashes

`splitWinPath` passes over repeated separators. Here is what it has passed over.
-/

namespace Komari

namespace JsPath

open Lexical

/-- Every slash the other way. -/
def toBackslash (value : List Char) : List Char := value.map fun c => if c = '/' then '\\' else c

/-- A text before the rest of a path, with the volume and the root that it stands for. -/
inductive Opens : List Char → List Char → List Char → List Char → Prop
  | plain {rest : List Char} (drive : winDriveVolume rest = []) (head : rest.head? ≠ some '\\') :
      Opens [] [] [] rest
  | rooted {l rest : List Char} (ne : l ≠ []) (blank : Blank isBackslash l) (head : rest.head? ≠ some '\\')
      (few : l.length = 1 ∨ (fields isBackslash rest).length ≤ 1) : Opens l [] ['\\'] rest
  | drive {c : Char} {l rest : List Char} (drive : winDriveVolume [c, ':'] = [c, ':'])
      (blank : Blank isBackslash l) (head : rest.head? ≠ some '\\') :
      Opens (c :: ':' :: l) [c, ':'] (if l = [] then [] else ['\\']) rest
  | share {l server l' share l'' rest : List Char} (two : 2 ≤ l.length) (blank : Blank isBackslash l)
      (server_name : Name isBackslash server) (ne : l' ≠ []) (blank' : Blank isBackslash l')
      (share_name : Name isBackslash share) (blank'' : Blank isBackslash l'') (last : rest = [] ∨ l'' ≠ [])
      (head : rest.head? ≠ some '\\') :
      Opens (l ++ (server ++ (l' ++ (share ++ l'')))) (['\\', '\\'] ++ server ++ ['\\'] ++ share) ['\\'] rest

variable {value before volume root rest t : List Char}

/-! ### Slashes -/

theorem slash_notMem_toBackslash (value : List Char) : '/' ∉ toBackslash value := by
  intro hmem
  obtain ⟨c, -, hc⟩ := List.mem_map.mp hmem
  split_ifs at hc with heq
  · exact absurd hc (by decide)
  · exact heq hc

theorem toBackslash_of_notMem (h : '/' ∉ value) : toBackslash value = value := map_of_noSlash h

theorem toBackslash_append (s t : List Char) : toBackslash (s ++ t) = toBackslash s ++ toBackslash t :=
  List.map_append

theorem splitWinPath_toBackslash (value : List Char) : splitWinPath (toBackslash value) = splitWinPath value := by
  have hmap : ((toBackslash value).map fun c => if c = '/' then '\\' else c) =
      value.map fun c => if c = '/' then '\\' else c :=
    toBackslash_of_notMem (slash_notMem_toBackslash value)
  rw [splitWinPath, splitWinPath, hmap]

/-! ### Splitting -/

theorem isBackslash_backslash : isBackslash '\\' = true := by decide

variable {l : List Char}

theorem dropWhile_blank_append (h : Blank isBackslash l) (ht : t.head? ≠ some '\\') :
    (l ++ t).dropWhile isBackslash = t := by
  rw [List.dropWhile_append_of_pos h, dropWhile_of_head ht]

theorem head_name_append {word : List Char} (h : Name isBackslash word) (t : List Char) :
    (word ++ t).head? ≠ some '\\' := by
  obtain ⟨c, word, rfl⟩ := List.exists_cons_of_ne_nil h.1
  intro heq
  rw [List.cons_append, List.head?_cons, Option.some.injEq] at heq
  exact absurd (h.2 c (by simp)) (by simp [isBackslash, heq])

theorem head_of_blank (h : Blank isBackslash l) : ∀ c ∈ l.head?, isBackslash c = true :=
  fun c hc => h c (List.mem_of_mem_head? hc)

theorem blank_eq_cons (h : Blank isBackslash l) (hne : l ≠ []) :
    ∃ l', l = '\\' :: l' ∧ Blank isBackslash l' := by
  obtain ⟨c, l, rfl⟩ := List.exists_cons_of_ne_nil hne
  obtain rfl : c = '\\' := of_decide_eq_true (h c (by simp))
  exact ⟨l, rfl, fun d hd => h d (by simp [hd])⟩

theorem two_backslashes (h : Blank isBackslash l) (htwo : 2 ≤ l.length) (t : List Char) :
    ['\\', '\\'] <+: l ++ t := by
  obtain ⟨l, rfl, hl⟩ := blank_eq_cons h (by rintro rfl; simp at htwo)
  obtain ⟨l, rfl, -⟩ := blank_eq_cons hl (by rintro rfl; simp at htwo)
  exact ⟨l ++ t, rfl⟩

theorem winDriveVolume_blank (h : Blank isBackslash l) (hne : l ≠ []) (t : List Char) :
    winDriveVolume (l ++ t) = [] := by
  obtain ⟨l, rfl, -⟩ := blank_eq_cons h hne
  exact winDriveVolume_backslash _

/-- Repeated separators around a server and a share are passed over. -/
theorem splitWinPath_opens_share {server l' share l'' rest : List Char} (htwo : 2 ≤ l.length)
    (hl : Blank isBackslash l) (hserver : Name isBackslash server) (hne : l' ≠ []) (hl' : Blank isBackslash l')
    (hshare : Name isBackslash share) (hl'' : Blank isBackslash l'') (hlast : rest = [] ∨ l'' ≠ [])
    (hhead : rest.head? ≠ some '\\') (hslash : '/' ∉ l ++ (server ++ (l' ++ (share ++ l''))) ++ rest) :
    splitWinPath (l ++ (server ++ (l' ++ (share ++ l''))) ++ rest) =
      ⟨['\\', '\\'] ++ server ++ ['\\'] ++ share, ['\\'], rest⟩ := by
  have hassoc : l ++ (server ++ (l' ++ (share ++ l''))) ++ rest =
      l ++ (server ++ (l' ++ (share ++ (l'' ++ rest)))) := by simp
  have hlne : l ≠ [] := by
    rintro rfl
    simp at htwo
  rw [hassoc] at hslash ⊢
  have hbehind : ∀ c ∈ (l'' ++ rest).head?, isBackslash c = true := by
    obtain rfl | hne'' := hlast
    · rw [List.append_nil]
      exact head_of_blank hl''
    · rw [List.head?_append_of_ne_nil _ hne'']
      exact head_of_blank hl''
  have hmiddle : ∀ c ∈ (l' ++ (share ++ (l'' ++ rest))).head?, isBackslash c = true := by
    rw [List.head?_append_of_ne_nil _ hne]
    exact head_of_blank hl'
  have hfields : fields isBackslash (server ++ (l' ++ (share ++ (l'' ++ rest)))) =
      server :: share :: fields isBackslash rest := by
    rw [fields_name_append hserver hmiddle, fields_blank_append hl', fields_name_append hshare hbehind,
      fields_blank_append hl'']
  rw [splitWinPath, map_of_noSlash hslash, winDriveVolume_blank hl hlne, if_neg (not_not.mpr rfl),
    if_pos (two_backslashes hl htwo _), dropWhile_blank_append hl (head_name_append hserver _), hfields]
  simp only [trimStart_append, dropWhile_blank_append hl' (head_name_append hshare _),
    dropWhile_blank_append hl'' hhead]

theorem splitWinPath_opens_rooted {rest : List Char} (hne : l ≠ []) (hl : Blank isBackslash l)
    (hhead : rest.head? ≠ some '\\') (hfew : l.length = 1 ∨ (fields isBackslash rest).length ≤ 1)
    (hslash : '/' ∉ l ++ rest) : splitWinPath (l ++ rest) = ⟨[], ['\\'], rest⟩ := by
  have hdrop := dropWhile_blank_append hl hhead
  have hparts : ∀ server share words,
      (if ['\\', '\\'] <+: l ++ rest then fields isBackslash ((l ++ rest).dropWhile isBackslash) else []) ≠
        server :: share :: words := by
    intro server share words hcons
    rw [hdrop] at hcons
    split_ifs at hcons with htwo
    obtain hone | hfew := hfew
    · obtain ⟨c, rfl⟩ := List.length_eq_one_iff.mp hone
      obtain ⟨t, ht⟩ := htwo
      rw [List.singleton_append, List.cons_append, List.cons_append, List.cons.injEq, List.nil_append] at ht
      rw [← ht.2] at hhead
      exact hhead rfl
    · rw [hcons] at hfew
      simp at hfew
  have hfirst : (l ++ rest).head? = some '\\' := by
    obtain ⟨l, rfl, -⟩ := blank_eq_cons hl hne
    rfl
  rw [splitWinPath, map_of_noSlash hslash, winDriveVolume_blank hl hne, if_neg (not_not.mpr rfl)]
  generalize (if ['\\', '\\'] <+: l ++ rest then fields isBackslash ((l ++ rest).dropWhile isBackslash) else []) =
    parts at hparts ⊢
  rcases parts with _ | ⟨server, _ | ⟨share, words⟩⟩
  · simp [hfirst, hdrop]
  · simp [hfirst, hdrop]
  · exact absurd rfl (hparts server share words)

/-- **What opens a path is split off.** -/
theorem splitWinPath_of_opens (h : Opens before volume root rest) (hslash : '/' ∉ before ++ rest) :
    splitWinPath (before ++ rest) = ⟨volume, root, rest⟩ := by
  cases h with
  | plain drive head =>
    have hpath := @splitWinPath_path ⟨[], [], rest⟩
      ⟨.inl rfl, .inl rfl, fun _ _ => drive, by simpa using hslash, head⟩
    simpa [WinSplit.path] using hpath
  | rooted ne blank head few => exact splitWinPath_opens_rooted ne blank head few hslash
  | @drive c l _ drive blank head =>
    obtain ⟨d, r, heq, -, -, -⟩ := winDriveVolume_spec (by rw [drive]; simp : winDriveVolume [c, ':'] ≠ [])
    obtain ⟨rfl, -⟩ := List.cons.inj heq
    have hvolume : winDriveVolume (c :: ':' :: (l ++ rest)) = [c, ':'] := drive
    have hdrop : (c :: ':' :: (l ++ rest)).drop [c, ':'].length = l ++ rest := rfl
    rw [List.cons_append, List.cons_append] at hslash ⊢
    rw [splitWinPath, map_of_noSlash hslash, hvolume, if_pos (by simp), hdrop]
    simp only
    by_cases hl : l = []
    · have hany : ¬rest.head?.any isWinSeparator = true := by
        cases rest with
        | nil => simp
        | cons e rest =>
          have he : e ≠ '\\' := fun heq => head (by rw [heq]; rfl)
          have he' : e ≠ '/' := fun heq => hslash (by simp [heq])
          simp [isWinSeparator, he, he']
      rw [if_pos hl, hl, List.nil_append, if_neg hany]
    · have hany : (l ++ rest).head?.any isWinSeparator = true := by
        obtain ⟨l, rfl, -⟩ := blank_eq_cons blank hl
        rfl
      rw [if_neg hl, dropWhile_blank_append blank head, if_pos hany]
  | share two blank server_name ne blank' share_name blank'' last head =>
    exact splitWinPath_opens_share two blank server_name ne blank' share_name blank'' last head hslash

theorem blank_takeWhile (s : List Char) : Blank isBackslash (s.takeWhile isBackslash) :=
  fun _ hc => List.mem_takeWhile_imp hc

theorem two_le_takeWhile {m : List Char} (h : ['\\', '\\'] <+: m) :
    2 ≤ (m.takeWhile isBackslash).length := by
  obtain ⟨t, rfl⟩ := h
  simp [isBackslash]

/-- A path that begins with two separators and two names. -/
theorem exists_opens_share {m server share : List Char} {words : List (List Char)} (htwo : ['\\', '\\'] <+: m)
    (hfields : fields isBackslash m = server :: share :: words) :
    ∃ before volume root rest, m = before ++ rest ∧ Opens before volume root rest := by
  have hname : ∀ w ∈ server :: share :: words, Name isBackslash w :=
    fun w hw => name_of_mem_fields (by rwa [hfields])
  obtain ⟨t, hserver, hbreak, hwords⟩ := fields_eq_cons hfields
  obtain ⟨t', hshare, hbreak', -⟩ := fields_eq_cons hwords
  have hm : m = m.takeWhile isBackslash ++ (server ++ (t.takeWhile isBackslash ++
      (share ++ (t'.takeWhile isBackslash ++ t'.dropWhile isBackslash)))) := by
    rw [List.takeWhile_append_dropWhile, ← hshare, List.takeWhile_append_dropWhile, ← hserver,
      List.takeWhile_append_dropWhile]
  have hne : t.takeWhile isBackslash ≠ [] := by
    cases t with
    | nil => cases hwords
    | cons c t =>
      have hc : isBackslash c = true := hbreak c rfl
      simp [hc]
  have hlast : t'.dropWhile isBackslash = [] ∨ t'.takeWhile isBackslash ≠ [] := by
    cases t' with
    | nil => exact .inl rfl
    | cons c t' =>
      have hc : isBackslash c = true := hbreak' c rfl
      exact .inr (by simp [hc])
  refine ⟨_, _, _, t'.dropWhile isBackslash, ?_, .share (two_le_takeWhile htwo) (blank_takeWhile m)
    (hname server (by simp)) hne (blank_takeWhile t) (hname share (by simp)) (blank_takeWhile t') hlast
    (head_dropWhile t')⟩
  simpa using hm

theorem exists_opens_rooted {m : List Char} (hhead : m.head? = some '\\')
    (hfew : ['\\', '\\'] <+: m → (fields isBackslash m).length ≤ 1) :
    ∃ before volume root rest, m = before ++ rest ∧ Opens before volume root rest := by
  obtain ⟨m, rfl⟩ := List.head?_eq_some_iff.mp hhead
  have hne : ('\\' :: m).takeWhile isBackslash ≠ [] := by simp [isBackslash]
  have hcut : ('\\' :: m).takeWhile isBackslash ++ ('\\' :: m).dropWhile isBackslash = '\\' :: m :=
    List.takeWhile_append_dropWhile
  refine ⟨('\\' :: m).takeWhile isBackslash, _, _, ('\\' :: m).dropWhile isBackslash, hcut.symm,
    .rooted hne (blank_takeWhile _) (head_dropWhile _) ?_⟩
  by_cases htwo : ['\\', '\\'] <+: '\\' :: m
  · have hfields := fields_blank_append (blank_takeWhile ('\\' :: m)) (('\\' :: m).dropWhile isBackslash)
    rw [hcut] at hfields
    rw [← hfields]
    exact .inr (hfew htwo)
  · left
    cases m with
    | nil => rfl
    | cons c m =>
      have hc : isBackslash c = false := by
        rw [isBackslash, decide_eq_false_iff_not]
        rintro rfl
        exact htwo ⟨m, rfl⟩
      simp [isBackslash_backslash, hc]

/-- **Every path is opened** by some text. -/
theorem exists_opens (m : List Char) :
    ∃ before volume root rest, m = before ++ rest ∧ Opens before volume root rest := by
  by_cases hdrive : winDriveVolume m = []
  · by_cases hhead : m.head? = some '\\'
    · by_cases hshare : ∃ server share words,
          ['\\', '\\'] <+: m ∧ fields isBackslash m = server :: share :: words
      · obtain ⟨server, share, words, htwo, hfields⟩ := hshare
        exact exists_opens_share htwo hfields
      · refine exists_opens_rooted hhead fun htwo => ?_
        rcases hfields : fields isBackslash m with _ | ⟨server, _ | ⟨share, words⟩⟩
        · simp
        · simp
        · exact absurd ⟨server, share, words, htwo, hfields⟩ hshare
    · exact ⟨[], [], [], m, rfl, .plain hdrive hhead⟩
  · obtain ⟨c, rest, rfl, hvolume, -, -⟩ := winDriveVolume_spec hdrive
    refine ⟨c :: ':' :: rest.takeWhile isBackslash, _, _, rest.dropWhile isBackslash, ?_,
      .drive hvolume (blank_takeWhile rest) (head_dropWhile rest)⟩
    rw [List.cons_append, List.cons_append, List.takeWhile_append_dropWhile]

/-- What opens the text with backslashes, opens the path. -/
theorem splitWinPath_eq (hvalue : toBackslash value = before ++ rest) (h : Opens before volume root rest) :
    splitWinPath value = ⟨volume, root, rest⟩ := by
  rw [← splitWinPath_toBackslash, hvalue]
  refine splitWinPath_of_opens h ?_
  rw [← hvalue]
  exact slash_notMem_toBackslash value

/-- **The same text opens another rest**, that has no more names than are needed to tell a share. -/
theorem Opens.replace (h : Opens before volume root rest) (hrest : rest ≠ []) (hhead : t.head? ≠ some '\\')
    (hdrive : before = [] → winDriveVolume t = [])
    (hfew : (fields isBackslash t).length ≤ 1 ∨ 1 < (fields isBackslash rest).length) :
    Opens before volume root t := by
  cases h with
  | plain drive head => exact .plain (hdrive rfl) hhead
  | rooted ne blank head few =>
    refine .rooted ne blank hhead ?_
    omega
  | drive drive blank head => exact .drive drive blank hhead
  | share two blank server_name ne blank' share_name blank'' last head =>
    exact .share two blank server_name ne blank' share_name blank'' (.inr (last.resolve_left hrest)) hhead

end JsPath

end Komari
