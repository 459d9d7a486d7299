import Komari.JsPath.WinParse

/-!
# Directories of paths with backslashes
-/

namespace Komari

namespace JsPath

open Lexical

variable {p q s t before volume root rest dir word after : List Char}

/-! ### Volume and root -/

theorem Opens.canonical (h : Opens before volume root rest) : Opens (volume ++ root) volume root rest := by
  have hback : Blank isBackslash ['\\'] := by simp [Blank, isBackslash]
  cases h with
  | plain drive head => exact .plain drive head
  | rooted ne blank head few => exact .rooted (by simp) hback head (.inl rfl)
  | @drive c l _ drive blank head =>
    by_cases hl : l = []
    · rw [if_pos hl]
      exact @Opens.drive c [] rest drive blank_nil head
    · rw [if_neg hl]
      exact @Opens.drive c ['\\'] rest drive hback head
  | @share l server l' share l'' _ two blank server_name ne blank' share_name blank'' last head =>
    have hopens := @Opens.share ['\\', '\\'] server ['\\'] share ['\\'] rest (by simp)
      (by simp [Blank, isBackslash]) server_name (by simp) hback share_name hback (.inr (by simp)) head
    simpa using hopens

theorem Opens.slash (h : Opens before volume root rest) (hslash : '/' ∉ before) : '/' ∉ volume ++ root := by
  cases h with
  | plain drive head => exact hslash
  | rooted ne blank head few => simp
  | @drive c l _ drive blank head =>
    split_ifs <;> simp_all
  | share two blank server_name ne blank' share_name blank'' last head => simp_all

/-- The same volume, root and names have the same normal path. -/
theorem winPathNormalize_congr (hp : p ≠ []) (hq : q ≠ []) (hvolume : (splitWinPath p).volume = (splitWinPath q).volume)
    (hroot : (splitWinPath p).root = (splitWinPath q).root) (hparts : winParts p = winParts q)
    (htrailing : trailing p = trailing q) : winPathNormalize p = winPathNormalize q := by
  rw [winPathNormalize_eq hp, winPathNormalize_eq hq, hvolume, hroot, hparts, htrailing]

theorem winParts_congr (hroot : (splitWinPath p).root = (splitWinPath q).root)
    (hfields : fields isWinSeparator (splitWinPath p).rest = fields isWinSeparator (splitWinPath q).rest) :
    winParts p = winParts q := by
  rw [winParts, winParts, cleanWinParts, cleanWinParts, hfields, hroot]

theorem winPathJoin_two (hp : p ≠ []) (hq : q ≠ []) : winPathJoin [p, q] = winPathNormalize (p ++ '\\' :: q) := by
  have hfilter : [p, q].filter (fun part => part ≠ []) = [p, q] := by simp [hp, hq]
  rw [winPathJoin_eq, hfilter, join_cons_cons]
  simp [join]

theorem trailing_append (hq : q ≠ []) (p : List Char) : trailing (p ++ q) = trailing q := by
  rw [trailing, trailing, List.getLast?_append_of_ne_nil _ hq]

theorem trailing_behind (hq : q ≠ []) (p : List Char) : trailing (p ++ '\\' :: q) = trailing q := by
  have hsplit : p ++ '\\' :: q = (p ++ ['\\']) ++ q := by simp
  rw [hsplit, trailing_append hq]

theorem toBackslash_rdropWhile (s : List Char) :
    (toBackslash s).rdropWhile isWinSeparator = toBackslash (s.rdropWhile isWinSeparator) := by
  induction s using List.reverseRecOn with
  | nil => rfl
  | append_singleton s c ih =>
    have hc := isWinSeparator_toBackslash c
    rw [toBackslash_append]
    change (toBackslash s ++ [if c = '/' then '\\' else c]).rdropWhile isWinSeparator = _
    cases hsep : isWinSeparator c with
    | true =>
      rw [List.rdropWhile_concat_pos _ _ _ (by rw [hc, hsep]), List.rdropWhile_concat_pos _ _ _ hsep, ih]
    | false =>
      rw [List.rdropWhile_concat_neg _ _ _ (by rw [hc, hsep]; simp),
        List.rdropWhile_concat_neg _ _ _ (by simp [hsep]), toBackslash_append]
      rfl

/-- A text without backslashes was written as it is. -/
theorem eq_of_toBackslash (h : toBackslash s = t) (ht : '\\' ∉ t) : s = t := by
  rw [← h]
  refine (toBackslash_of_notMem fun hmem => ht ?_).symm
  rw [← h]
  exact List.mem_map.mpr ⟨'/', hmem, rfl⟩

/-- Names before a backslash decide whether there is a drive. -/
theorem winDriveVolume_before_backslash (hs : s ≠ []) (p q : List Char) :
    winDriveVolume (s ++ '\\' :: p) = winDriveVolume (s ++ '\\' :: q) := by
  rcases s with _ | ⟨c, _ | ⟨d, s⟩⟩
  · exact absurd rfl hs
  · rw [List.singleton_append, List.singleton_append, winDriveVolume_cons, winDriveVolume_cons]
  · rw [List.cons_append, List.cons_append, List.cons_append, List.cons_append, winDriveVolume_cons,
      winDriveVolume_cons]

theorem fields_ne_nil {sep : Char → Bool} (h : ¬Blank sep s) : fields sep s ≠ [] := by
  obtain ⟨dir, word, after, hends⟩ := exists_ends h
  rw [hends.fields]
  simp

/-! ### Text behind a directory -/

theorem Opens.dir_not_blank (h : Opens before volume root rest) (hslash : '/' ∉ rest)
    (hends : Ends isWinSeparator rest dir word after) (hdir : dir ≠ []) : ¬Blank isWinSeparator dir := by
  intro hblank
  obtain ⟨c, dir, rfl⟩ := List.exists_cons_of_ne_nil hdir
  have hc := hblank c (by simp)
  rw [isWinSeparator, decide_eq_true_eq] at hc
  rcases hc with rfl | rfl
  · exact h.head (by rw [hends.eq]; rfl)
  · exact hslash (by rw [hends.eq]; simp)

theorem Opens.dir_ne_nil (h : Opens before volume root rest) (hslash : '/' ∉ rest)
    (hends : Ends isWinSeparator rest dir word after) (hdir : dir ≠ []) : dir.rdropWhile isWinSeparator ≠ [] :=
  fun hnil => h.dir_not_blank hslash hends hdir (List.rdropWhile_eq_nil_iff.mp hnil)

/-- A rest with a directory, and other text in the place of its last name. -/
theorem Opens.replace_name (h : Opens before volume root rest) (hslash : '/' ∉ rest)
    (hends : Ends isWinSeparator rest dir word after) (hdir : dir = s ++ t) (hs : s ≠ []) (ht : t ≠ [])
    (hblank : Blank isWinSeparator t) (q : List Char) :
    Opens before volume root (s ++ '\\' :: toBackslash q) := by
  have hrest : rest = s ++ (t ++ word ++ after) := by
    rw [hends.eq, hdir]
    simp
  obtain ⟨e, t', rfl⟩ := List.exists_cons_of_ne_nil ht
  have he : e = '\\' := by
    have hsep := hblank e (by simp)
    rw [isWinSeparator, decide_eq_true_eq] at hsep
    refine hsep.resolve_right ?_
    rintro rfl
    exact hslash (by rw [hrest]; simp)
  have hhead : (s ++ '\\' :: toBackslash q).head? ≠ some '\\' := by
    rw [List.head?_append_of_ne_nil _ hs]
    have hhead := h.head
    rwa [hrest, List.head?_append_of_ne_nil _ hs] at hhead
  have hrest' : rest ≠ [] := by
    rw [hrest]
    simp [hs]
  refine h.replace hrest' hhead (fun hnil => ?_) (.inr ?_)
  · have hdrive := (h.nil hnil).2.2
    rw [hrest, he] at hdrive
    rw [← hdrive]
    exact winDriveVolume_before_backslash hs _ _
  · have hnames := h.dir_not_blank hslash hends (by rw [hdir]; simp)
    have hpos := List.length_pos_iff.mpr (fields_ne_nil hnames)
    rw [fields_isBackslash hslash, hends.fields, List.length_append, List.length_singleton]
    omega

theorem splitWinPath_behind_share {l server l' share : List Char} (two : 2 ≤ l.length) (blank : Blank isBackslash l)
    (server_name : Name isBackslash server) (ne : l' ≠ []) (blank' : Blank isBackslash l')
    (share_name : Name isBackslash share) (hp : toBackslash p = l ++ (server ++ (l' ++ share)) ++ '\\' :: toBackslash q) :
    splitWinPath p =
      ⟨['\\', '\\'] ++ server ++ ['\\'] ++ share, ['\\'], (toBackslash q).dropWhile isBackslash⟩ := by
  have hback : Blank isBackslash ('\\' :: (toBackslash q).takeWhile isBackslash) := by
    intro c hc
    rcases List.mem_cons.mp hc with rfl | hc
    · exact isBackslash_backslash
    · exact blank_takeWhile _ c hc
  have hopens := Opens.share two blank server_name ne blank' share_name hback (.inr (by simp))
    (head_dropWhile (toBackslash q))
  refine splitWinPath_eq ?_ hopens
  rw [hp]
  simp

theorem Opens.canonical_double (h : Opens before volume root rest) (hroot : root ≠ []) (hhead : t.head? ≠ some '\\')
    (hfew : (fields isBackslash t).length ≤ 1) : Opens (volume ++ root ++ ['\\']) volume root t := by
  have hback : Blank isBackslash ['\\', '\\'] := by simp [Blank, isBackslash]
  cases h with
  | plain drive head => exact absurd rfl hroot
  | rooted ne blank head few => exact @Opens.rooted ['\\', '\\'] t (by simp) hback hhead (.inr hfew)
  | @drive c l _ drive blank head =>
    have hl : l ≠ [] := fun hnil => hroot (if_pos hnil)
    rw [if_neg hl]
    exact @Opens.drive c ['\\', '\\'] t drive hback hhead
  | @share l server l' share l'' _ two blank server_name ne blank' share_name blank'' last head =>
    have hopens := @Opens.share ['\\', '\\'] server ['\\'] share ['\\', '\\'] t (by simp) hback server_name
      (by simp) (by simp [Blank, isBackslash]) share_name hback (.inr (by simp)) hhead
    simpa using hopens

/-! ### The directory -/

theorem Opens.length_volume_le (h : Opens before volume root rest) : volume.length ≤ before.length := by
  cases h with
  | plain drive head => exact le_rfl
  | rooted ne blank head few => exact Nat.zero_le _
  | drive drive blank head => simp
  | share two blank server_name ne blank' share_name blank'' last head =>
    have hpos := List.length_pos_iff.mpr ne
    simp only [List.length_append, List.length_cons, List.length_nil]
    omega

theorem Opens.volume_root_ne (h : Opens before volume root rest) (hne : before ≠ []) : volume ++ root ≠ [] := by
  cases h with
  | plain drive head => exact absurd rfl hne
  | rooted ne blank head few => simp
  | drive drive blank head => simp
  | share two blank server_name ne blank' share_name blank'' last head => simp

theorem name_of_isBackslash (h : Name isBackslash word) (hslash : '/' ∉ word) : Name isWinSeparator word := by
  refine ⟨h.1, fun c hc => ?_⟩
  have hne : c ≠ '/' := fun heq => hslash (heq ▸ hc)
  have hback := h.2 c hc
  simp_all [isBackslash, isWinSeparator]

theorem length_toBackslash (s : List Char) : (toBackslash s).length = s.length := List.length_map _

theorem Ends.rest_ne (h : Ends isWinSeparator rest dir word after) : rest ≠ [] := by
  rintro rfl
  exact h.not_blank blank_nil

/-- A directory with names is the text before the last name, as it was written. -/
theorem Cut.dirname_of_ne (h : Cut p before volume root rest) (hends : Ends isWinSeparator rest dir word after)
    (hdir : dir ≠ []) :
    winPathDirname p <+: p ∧ toBackslash (winPathDirname p) = before ++ dir.rdropWhile isWinSeparator := by
  obtain ⟨before₀, after₀, hends₀, hbefore⟩ := h.ends hends (.inl hdir)
  have htrim := h.opens.dir_ne_nil h.slash.2 hends hdir
  have hvolume : (splitWinPath p).volume = volume := congrArg WinSplit.volume h.split
  have hcount : before₀.length = (before ++ dir).length := by rw [← hbefore, length_toBackslash]
  have hlength : (splitWinPath p).volume.length < before₀.length := by
    rw [hvolume, hcount]
    exact h.opens.length_volume (Ends.rest_ne hends) (.inl hdir) (by simp [hdir])
  have hresult : toBackslash (before₀.rdropWhile isWinSeparator) = before ++ dir.rdropWhile isWinSeparator := by
    rw [← toBackslash_rdropWhile, hbefore, rdropWhile_append_of_ne htrim]
  have hne : before₀.rdropWhile isWinSeparator ≠ (splitWinPath p).volume := by
    intro heq
    have hle := h.opens.length_volume_le
    have hpos := List.length_pos_iff.mpr htrim
    have hsame := congrArg List.length hresult
    rw [length_toBackslash, heq, hvolume, List.length_append] at hsame
    omega
  rw [winPathDirname_of_ends hends₀ hlength, if_neg hne, hresult]
  exact ⟨hends₀.begins, rfl⟩

/-- Volume and root are the directory, or there is none, or it is a share that was written otherwise. -/
theorem Cut.dirname_of_nil (h : Cut p before volume root rest) (hends : Ends isWinSeparator rest [] word after) :
    volume ++ root = [] ∧ winPathDirname p = ['.'] ∨
      volume ++ root ≠ [] ∧ winPathDirname p = volume ++ root ∨
      ∃ l server l' share, 2 ≤ l.length ∧ Blank isBackslash l ∧ Name isBackslash server ∧ l' ≠ [] ∧
        Blank isBackslash l' ∧ Name isBackslash share ∧
        winPathDirname p <+: p ∧ toBackslash (winPathDirname p) = l ++ (server ++ (l' ++ share)) ∧
        winPathDirname p ≠ volume ∧
        volume = ['\\', '\\'] ++ server ++ ['\\'] ++ share ∧ root = ['\\'] := by
  have hrest := Ends.rest_ne hends
  by_cases hbreak : AtBreak isWinSeparator before
  · obtain ⟨before₀, after₀, hends₀, hbefore⟩ := h.ends hends (.inr hbreak)
    rw [List.append_nil] at hbefore
    by_cases hnil : before = []
    · obtain ⟨rfl, rfl, -⟩ := h.opens.nil hnil
      obtain rfl : before₀ = [] := List.map_eq_nil_iff.mp (hbefore.trans hnil)
      have hdirname := winPathDirname_of_nil hends₀.cutLast
      rw [h.split] at hdirname
      exact .inl ⟨rfl, hdirname⟩
    · have hvolume : (splitWinPath p).volume = volume := congrArg WinSplit.volume h.split
      have hcount : before₀.length = before.length := by rw [← hbefore, length_toBackslash]
      have hlength : (splitWinPath p).volume.length < before₀.length := by
        have hlt := @Opens.length_volume before volume root rest [] h.opens hrest (.inr hbreak) (by simpa using hnil)
        rwa [hvolume, hcount, ← List.append_nil before]
      have hdirname := winPathDirname_of_ends hends₀ hlength
      have hresult : toBackslash (before₀.rdropWhile isWinSeparator) = before.rdropWhile isWinSeparator := by
        rw [← toBackslash_rdropWhile, hbefore]
      rw [h.split] at hdirname
      simp only at hdirname
      by_cases heq : before₀.rdropWhile isWinSeparator = volume
      · rw [if_pos heq] at hdirname
        exact .inr (.inl ⟨h.opens.volume_root_ne hnil, hdirname⟩)
      · rw [if_neg heq] at hdirname
        have hbegins : winPathDirname p <+: p := by
          rw [hdirname]
          exact hends₀.begins
        rw [← hdirname] at hresult heq
        obtain ⟨hcut, hopens⟩ := id h
        have hslash := h.slash.1
        cases hopens with
        | plain drive head => exact absurd rfl hnil
        | rooted ne blank head few =>
          rw [(blank_isBackslash blank).rdropWhile] at hresult
          exact absurd (List.map_eq_nil_iff.mp hresult) heq
        | @drive c l _ drive blank head =>
          have htrim : (c :: ':' :: l).rdropWhile isWinSeparator = [c, ':'] := by
            have hsplit : c :: ':' :: l = [c, ':'] ++ l := rfl
            rw [hsplit, (blank_isBackslash blank).rdropWhile_append]
            exact List.rdropWhile_concat_neg _ [c] ':' (by decide)
          obtain ⟨d, r, hletters, -, hback, -⟩ :=
            winDriveVolume_spec (by rw [drive]; simp : winDriveVolume [c, ':'] ≠ [])
          obtain ⟨rfl, -⟩ := List.cons.inj hletters
          exact absurd (eq_of_toBackslash (hresult.trans htrim) (by simp [hback.symm])) heq
        | @share l server l' share l'' _ two blank server_name ne blank' share_name blank'' last head =>
          have hname : Name isWinSeparator share := name_of_isBackslash share_name fun hmem => hslash (by simp [hmem])
          have hsplit : l ++ (server ++ (l' ++ (share ++ l''))) = (l ++ (server ++ l')) ++ share ++ l'' := by simp
          rw [hsplit, (blank_isBackslash blank'').rdropWhile_append, hname.rdropWhile_append] at hresult
          exact .inr (.inr ⟨l, server, l', share, two, blank, server_name, ne, blank', share_name,
            hbegins, by simpa using hresult, heq, rfl, rfl⟩)
  · obtain ⟨c, rfl, rfl, rfl, hdrive⟩ := (h.opens.atBreak hrest).resolve_left hbreak
    obtain ⟨after₀, hends₀⟩ := h.ends_drive hends hdrive
    have hdirname := winPathDirname_of_nil hends₀.cutLast
    rw [h.split] at hdirname
    exact .inr (.inl ⟨by simp, by simpa using hdirname⟩)

theorem Cut.not_share (h : Cut p before volume root []) (hbare : ¬BareShare p) : ¬['\\', '\\'] <+: volume := by
  intro hvolume
  rw [BareShare, h.split] at hbare
  exact hbare ⟨hvolume, rfl⟩

/-- Without a rest, volume and root are the directory. -/
theorem Cut.dirname_rest_nil (h : Cut p before volume root []) (hshare : ¬['\\', '\\'] <+: volume) :
    winPathDirname p = if volume ++ root = [] then ['.'] else volume ++ root := by
  have hcut : (p.rdropWhile isWinSeparator).rdropWhile (fun c => !isWinSeparator c) = [] := by
    obtain ⟨-, hblank⟩ | ⟨c, after, -, hends, -⟩ := h.nil hshare
    · rw [hblank.rdropWhile]
      rfl
    · exact hends.cutLast
  rw [winPathDirname_of_nil hcut, h.split]

/-- Separators behind a path with names do not change its volume and its root. -/
theorem Cut.append_blank (h : Cut p before volume root rest) (hrest : rest ≠ []) (hs : Blank isWinSeparator s) :
    Cut (p ++ s) before volume root (rest ++ toBackslash s) := by
  have hblank : Blank isWinSeparator (toBackslash s) := blank_toBackslash.mpr hs
  have hslash : '/' ∉ rest ++ toBackslash s := by
    rw [List.mem_append, not_or]
    exact ⟨h.slash.2, slash_notMem_toBackslash s⟩
  refine ⟨by rw [toBackslash_append, h.eq, List.append_assoc], h.opens.replace hrest ?_ (fun hnil => ?_) ?_⟩
  · rw [List.head?_append_of_ne_nil _ hrest]
    exact h.opens.head
  · rw [winDriveVolume_append_blank hblank]
    exact (h.opens.nil hnil).2.2
  · rw [fields_isBackslash hslash, fields_append_blank hblank, fields_isBackslash h.slash.2]
    omega

/-- Separators behind a path with names do not change its directory. -/
theorem winPathDirname_append_blank (hrest : (splitWinPath p).rest ≠ []) (hs : Blank isWinSeparator s) :
    winPathDirname (p ++ s) = winPathDirname p := by
  obtain ⟨before, volume, root, rest, h⟩ := exists_cut p
  rw [h.split] at hrest
  rw [winPathDirname, winPathDirname, hs.rdropWhile_append, (h.append_blank hrest hs).split, h.split]

theorem winPathBasename_append_blank (hs : Blank isWinSeparator s) (p : List Char) :
    winPathBasename (p ++ s) = winPathBasename p := by
  rw [winPathBasename, winPathBasename, hs.rdropWhile_append]

/-! ### Joined paths -/

theorem winPathJoin_congr {x y t t' : List Char} (hx : x ≠ []) (hy : y ≠ []) (hq : q ≠ [])
    (hsplit : splitWinPath (x ++ '\\' :: q) = ⟨volume, root, t⟩)
    (hsplit' : splitWinPath (y ++ '\\' :: q) = ⟨volume, root, t'⟩)
    (hfields : fields isWinSeparator t = fields isWinSeparator t') : winPathJoin [x, q] = winPathJoin [y, q] := by
  rw [winPathJoin_two hx hq, winPathJoin_two hy hq]
  refine winPathNormalize_congr (by simp) (by simp) ?_ ?_ (winParts_congr ?_ ?_) ?_
  · rw [hsplit, hsplit']
  · rw [hsplit, hsplit']
  · rw [hsplit, hsplit']
  · rw [hsplit, hsplit']
    exact hfields
  · rw [trailing_behind hq, trailing_behind hq]

/-- Text behind a directory that is cut from a path. -/
theorem Opens.split_behind {x front : List Char} (h : Opens front volume root rest) (hslash : '/' ∉ rest)
    (hends : Ends isWinSeparator rest dir word after) (hdir : dir = s ++ t) (hs : s ≠ []) (ht : t ≠ [])
    (hblank : Blank isWinSeparator t) (hx : toBackslash x = front ++ s) (q : List Char) :
    splitWinPath (x ++ '\\' :: q) = ⟨volume, root, s ++ '\\' :: toBackslash q⟩ := by
  refine splitWinPath_eq ?_ (h.replace_name hslash hends hdir hs ht hblank q)
  rw [toBackslash_append, hx, List.append_assoc]
  rfl

theorem Ends.dir_split (h : Ends isWinSeparator rest dir word after) (hdir : dir ≠ []) :
    ∃ c, isWinSeparator c = true ∧ dir = dir.dropLast ++ [c] ∧
      dir = dir.rdropWhile isWinSeparator ++ dir.rtakeWhile isWinSeparator ∧
      dir.rtakeWhile isWinSeparator ≠ [] ∧ Blank isWinSeparator (dir.rtakeWhile isWinSeparator) := by
  have hlast := List.dropLast_append_getLast hdir
  have hsep : isWinSeparator (dir.getLast hdir) = true := h.atBreak _ (List.getLast?_eq_some_getLast hdir)
  refine ⟨_, hsep, hlast.symm, List.rdropWhile_append_rtakeWhile.symm, ?_, fun c hc => List.mem_rtakeWhile_imp hc⟩
  rw [← hlast, List.rtakeWhile_concat_pos _ _ _ hsep]
  simp

/-- **The directory, and that of `parse`, are the same directory**: what is joined behind them is the same
path. -/
theorem winPathJoin_dirname (hbare : ¬BareShare p) (hdir : (winPathParse p).dir ≠ []) (hq : q ≠ []) :
    winPathJoin [winPathDirname p, q] = winPathJoin [(winPathParse p).dir, q] := by
  obtain ⟨before, volume, root, rest, h⟩ := exists_cut p
  by_cases hrest : rest = []
  · subst hrest
    have hshare := h.not_share hbare
    rw [(h.parse_nil hshare).2] at hdir ⊢
    rw [h.dirname_rest_nil hshare, if_neg hdir]
  obtain ⟨dir, word, after, hends⟩ := h.exists_ends hrest
  obtain ⟨-, hparse⟩ := h.parse hends
  by_cases hnil : dir = []
  · subst hnil
    rw [if_pos rfl] at hparse
    rw [hparse] at hdir ⊢
    rcases h.dirname_of_nil hends with ⟨hempty, -⟩ | ⟨-, heq⟩ |
      ⟨l, server, l', share, two, blank, server_name, ne, blank', share_name, -, hdirname, -, rfl, rfl⟩
    · exact absurd hempty hdir
    · rw [heq]
    · have hback : Blank isBackslash ['\\'] := by simp [Blank, isBackslash]
      have hne : winPathDirname p ≠ [] := fun hnil => server_name.1 (by simp_all [toBackslash])
      have hslash := h.opens.slash h.slash.1
      have hsplit := @splitWinPath_behind_share (winPathDirname p ++ '\\' :: q) q l server l' share two blank
        server_name ne blank' share_name (by rw [toBackslash_append, hdirname]; rfl)
      have hsplit' := @splitWinPath_behind_share (['\\', '\\'] ++ server ++ ['\\'] ++ share ++ ['\\'] ++ '\\' :: q)
        ('\\' :: q) ['\\', '\\'] server ['\\'] share (by simp) (by simp [Blank, isBackslash]) server_name
        (by simp) hback share_name (by rw [toBackslash_append, toBackslash_of_notMem hslash]; simp [toBackslash])
      exact winPathJoin_congr hne hdir hq hsplit hsplit' (by simp [toBackslash, isBackslash])
  · obtain ⟨c, hc, hlast, hcut, htake, hblank⟩ := Ends.dir_split hends hnil
    have hnames := h.opens.dir_not_blank h.slash.2 hends hnil
    have hdrop := h.opens.dir_ne_nil h.slash.2 hends hnil
    have hinit : dir.dropLast ≠ [] := by
      intro hinit
      rw [hinit, List.nil_append] at hlast
      exact hnames (by rw [hlast]; simpa [Blank] using hc)
    have hslash : '/' ∉ volume ++ root ++ dir.dropLast := by
      rw [List.mem_append, not_or]
      refine ⟨h.opens.slash h.slash.1, fun hmem => h.slash.2 ?_⟩
      rw [hends.eq]
      simp [List.mem_of_mem_dropLast hmem]
    rw [if_neg hnil] at hparse
    rw [hparse] at hdir ⊢
    have hdirname := (h.dirname_of_ne hends hnil).2
    have hne : winPathDirname p ≠ [] := by
      intro hd
      rw [hd] at hdirname
      exact hdrop (List.append_eq_nil_iff.mp hdirname.symm).2
    refine winPathJoin_congr hne hdir hq (h.opens.split_behind h.slash.2 hends hcut hdrop htake hblank hdirname q)
      (h.opens.canonical.split_behind h.slash.2 hends hlast hinit (by simp) (by simpa [Blank] using hc)
        (toBackslash_of_notMem hslash) q) ?_
    rw [fields_append_sep isWinSeparator_backslash, fields_append_sep isWinSeparator_backslash]
    conv_rhs => rw [← fields_append_blank (by simpa [Blank] using hc : Blank isWinSeparator [c]), ← hlast]
    rw [← fields_append_blank hblank, ← hcut]

/-! ### Directory and name lead back -/

/-- The last name stands right behind a drive. -/
def BehindDrive (value : List Char) : Prop :=
  (splitWinPath value).volume ≠ [] ∧ (splitWinPath value).root = [] ∧ (splitWinPath value).rest ≠ [] ∧
    ((splitWinPath value).rest.rdropWhile isWinSeparator).rdropWhile (fun c => !isWinSeparator c) = []

/-- A directory and a name, joined, have the names of the path. -/
theorem Cut.split_joined (h : Cut p before volume root rest) (hends : Ends isWinSeparator rest dir word after)
    (hdrive : ¬BehindDrive p) :
    volume ++ root = [] ∧ dir = [] ∧ winPathDirname p = ['.'] ∨
      winPathDirname p ≠ [] ∧ ∃ t, splitWinPath (winPathDirname p ++ '\\' :: word) = ⟨volume, root, t⟩ ∧
        fields isWinSeparator t = fields isWinSeparator rest := by
  have hword : toBackslash word = word := toBackslash_name hends.name
  have hname : fields isWinSeparator word = [word] := fields_name hends.name
  have hhead : word.head? ≠ some '\\' := by
    intro heq
    exact absurd (hends.name.2 '\\' (List.mem_of_mem_head? heq)) (by decide)
  have hfields := hends.fields
  by_cases hnil : dir = []
  · subst hnil
    rw [fields_nil, List.nil_append] at hfields
    rcases h.dirname_of_nil hends with ⟨hempty, heq⟩ | ⟨hne, heq⟩ |
      ⟨l, server, l', share, two, blank, server_name, ne, blank', share_name, -, hdirname, -, rfl, rfl⟩
    · exact .inl ⟨hempty, rfl, heq⟩
    · right
      have hroot : root ≠ [] := by
        rintro rfl
        refine hdrive ?_
        rw [BehindDrive, h.split]
        exact ⟨by simpa using hne, rfl, Ends.rest_ne hends, hends.cutLast⟩
      have hslash : '/' ∉ volume ++ root ++ ['\\'] := by
        rw [List.mem_append, not_or]
        exact ⟨h.opens.slash h.slash.1, by simp⟩
      have hfew : (fields isBackslash word).length ≤ 1 := by
        rw [fields_isBackslash fun hmem => absurd (hends.name.2 '/' hmem) (by decide), hname]
        rfl
      rw [heq]
      refine ⟨hne, word, splitWinPath_eq ?_ (h.opens.canonical_double hroot hhead hfew), by rw [hname, hfields]⟩
      have hsplit : volume ++ root ++ '\\' :: word = volume ++ root ++ ['\\'] ++ word := by simp
      rw [hsplit, toBackslash_append, toBackslash_of_notMem hslash, hword]
    · right
      have hne : winPathDirname p ≠ [] := fun hnil => server_name.1 (by simp_all [toBackslash])
      have hsplit := @splitWinPath_behind_share (winPathDirname p ++ '\\' :: word) word l server l' share two blank
        server_name ne blank' share_name (by rw [toBackslash_append, hdirname]; rfl)
      rw [hword, dropWhile_of_head hhead] at hsplit
      exact ⟨hne, word, hsplit, by rw [hname, hfields]⟩
  · right
    obtain ⟨-, -, -, hcut, htake, hblank⟩ := Ends.dir_split hends hnil
    have hdrop := h.opens.dir_ne_nil h.slash.2 hends hnil
    have hdirname := (h.dirname_of_ne hends hnil).2
    have hne : winPathDirname p ≠ [] := by
      intro hd
      rw [hd] at hdirname
      exact hdrop (List.append_eq_nil_iff.mp hdirname.symm).2
    refine ⟨hne, _, h.opens.split_behind h.slash.2 hends hcut hdrop htake hblank hdirname word, ?_⟩
    rw [hword, fields_append_sep isWinSeparator_backslash, hname, hfields, ← fields_append_blank hblank, ← hcut]

theorem trailing_name (h : Name isWinSeparator word) : trailing word = false := by
  rw [trailing, List.getLast?_eq_some_getLast h.1]
  exact h.2 _ (List.getLast_mem h.1)

/-- Directory and name are joined to a path with the same volume, root and names. -/
theorem exists_joined (hbare : ¬BareShare p) (hdrive : ¬BehindDrive p) :
    ∃ x, x ≠ [] ∧ winPathJoin [winPathDirname p, winPathBasename p] = winPathNormalize x ∧
      (splitWinPath x).volume = (splitWinPath p).volume ∧ (splitWinPath x).root = (splitWinPath p).root ∧
      winParts x = winParts p ∧ (winParts p ≠ [] → trailing x = false) := by
  obtain ⟨before, volume, root, rest, h⟩ := exists_cut p
  by_cases hrest : rest = []
  · subst hrest
    have hshare := h.not_share hbare
    have hparts : winParts p = [] := by
      rw [winParts, h.split]
      cases root <;> rfl
    have hjoin : ∀ x, x ≠ [] → winPathJoin [x, []] = winPathNormalize x := by
      intro x hx
      rw [winPathJoin_eq]
      simp [hx, join]
    rw [h.basename_nil hshare, h.dirname_rest_nil hshare]
    by_cases hempty : volume ++ root = []
    · obtain ⟨rfl, rfl⟩ := List.append_eq_nil_iff.mp hempty
      refine ⟨['.'], by simp, by rw [if_pos hempty, hjoin _ (by simp)], ?_, ?_, ?_, fun hne => absurd hparts hne⟩
      · rw [h.split]
        decide
      · rw [h.split]
        decide
      · rw [hparts]
        decide
    · have hslash := h.opens.slash h.slash.1
      have hsplit : splitWinPath (volume ++ root) = ⟨volume, root, []⟩ :=
        splitWinPath_eq (by rw [toBackslash_of_notMem hslash, List.append_nil]) h.opens.canonical
      refine ⟨volume ++ root, hempty, by rw [if_neg hempty, hjoin _ hempty], ?_, ?_, ?_, fun hne => absurd hparts hne⟩
      · rw [hsplit, h.split]
      · rw [hsplit, h.split]
      · rw [winParts, winParts, hsplit, h.split]
  obtain ⟨dir, word, after, hends⟩ := h.exists_ends hrest
  have htrailing : ∀ d, trailing (d ++ '\\' :: word) = false := fun d => by
    rw [trailing_behind hends.name.1, trailing_name hends.name]
  rw [h.basename hends]
  rcases h.split_joined hends hdrive with ⟨hempty, rfl, heq⟩ | ⟨hne, t, hsplit, hfields⟩
  · obtain ⟨rfl, rfl⟩ := List.append_eq_nil_iff.mp hempty
    have hopens : Opens [] [] [] ('.' :: '\\' :: word) := .plain (by rw [winDriveVolume_cons]; simp) (by simp)
    have hsplit : splitWinPath (['.'] ++ '\\' :: word) = ⟨[], [], '.' :: '\\' :: word⟩ := by
      refine splitWinPath_eq ?_ hopens
      rw [List.singleton_append, List.nil_append]
      exact congrArg (fun w => '.' :: '\\' :: w) (toBackslash_name hends.name)
    have hdot : fields isWinSeparator ('.' :: '\\' :: word) = ['.'] :: fields isWinSeparator word := by
      have hfields := @fields_append_sep _ isWinSeparator '\\' isWinSeparator_backslash ['.'] word
      have hone : fields isWinSeparator ['.'] = [['.']] := by decide
      rwa [hone] at hfields
    rw [heq, winPathJoin_two (by simp) hends.name.1]
    refine ⟨_, by simp, rfl, by rw [hsplit, h.split], by rw [hsplit, h.split], ?_, fun _ => htrailing _⟩
    rw [winParts, winParts, hsplit, h.split, cleanWinParts, cleanWinParts, hdot, hends.fields, fields_nil,
      fields_name hends.name]
    rfl
  · rw [winPathJoin_two hne hends.name.1]
    refine ⟨_, by simp, rfl, by rw [hsplit, h.split], by rw [hsplit, h.split], winParts_congr ?_ ?_,
      fun _ => htrailing _⟩
    · rw [hsplit, h.split]
    · rw [hsplit, h.split]
      exact hfields

/-- **Directory and name lead back** to the normal path, without the separator behind its names. -/
theorem winPathNormalize_joined (hbare : ¬BareShare p) (hdrive : ¬BehindDrive p) (hexposed : ¬Exposed p) :
    winPathNormalize p = winPathNormalize (winPathJoin [winPathDirname p, winPathBasename p]) ++
      if trailing p = true ∧ winParts p ≠ [] then ['\\'] else [] := by
  obtain ⟨x, hx, hjoin, hvolume, hroot, hparts, htrailing⟩ := exists_joined hbare hdrive
  have hexposed' : ¬Exposed x := by rwa [Exposed, hvolume, hroot, hparts]
  rw [hjoin, winPathNormalize_idem hexposed', winPathNormalize_eq hx, hvolume, hroot, hparts]
  by_cases hp : p = []
  · subst hp
    have hnil : winParts [] = [] := by decide
    have htail : ∀ b, winTail [] [] b = ['.'] := fun b => if_pos ⟨rfl, rfl⟩
    rw [hnil, show (splitWinPath []).root = [] from rfl, htail]
    decide
  rw [winPathNormalize_eq hp, winTail, winTail]
  by_cases hnil : winParts p = []
  · simp [hnil]
  · simp [hnil, htrailing hnil]

end JsPath

end Komari
