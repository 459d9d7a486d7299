import Komari.JsPath.WinDecompose

/-!
# Directory, name and extension

* `decomposition` : those of the paths of both flavours.
-/

namespace Komari

namespace JsPath

open Lexical

variable {p q s t l before volume root rest dir word after : List Char}

/-! ### The extension -/

/-- The last name stands right behind a drive, and it begins with its last dot or is the parent. -/
def DriveDot (value : List Char) : Prop :=
  BehindDrive value ∧
    ∃ v, (splitWinPath value).rest.rdropWhile isWinSeparator = '.' :: v ∧ ('.' ∉ v ∨ v = ['.'])

theorem Cut.extname (h : Cut p before volume root rest) (hends : Ends isWinSeparator rest dir word after)
    (hdot : ¬DriveDot p) : nodeExtname p true = nodeExtname word true := by
  by_cases hbreak : dir ≠ [] ∨ AtBreak isWinSeparator before
  · obtain ⟨before₀, after₀, hends₀, -⟩ := h.ends hends hbreak
    rw [← isSeparator_true] at hends₀
    exact nodeExtname_name hends₀
  · rw [not_or, not_not] at hbreak
    obtain ⟨rfl, hbreak⟩ := hbreak
    have hrest := Ends.rest_ne hends
    obtain ⟨c, rfl, rfl, rfl, hdrive⟩ := (h.opens.atBreak hrest).resolve_left hbreak
    obtain ⟨after₀, hends₀⟩ := h.ends_drive hends hdrive
    have hbehind : BehindDrive p := by
      rw [BehindDrive, h.split]
      exact ⟨by simp, rfl, hrest, hends.cutLast⟩
    have htrimmed : (splitWinPath p).rest.rdropWhile isWinSeparator = word := by
      rw [h.split]
      exact hends.trimmed
    have hname := hends.name
    rw [← isSeparator_true] at hends₀ hname
    by_cases hmem : '.' ∈ word
    · obtain ⟨u, v, rfl, hv⟩ := exists_last_dot hmem
      have hword : nodeExtname p true = '.' :: v := by
        have hext := @nodeExtname_of_dot true (c :: ':' :: u) v [] after₀ p hends₀ hv
        rwa [if_neg (by simp)] at hext
      rw [hword, nodeExtname_of_dot (ends_name hname) hv, if_neg]
      rintro (rfl | ⟨rfl, rfl⟩)
      · exact hdot ⟨hbehind, v, htrimmed, .inl hv⟩
      · exact hdot ⟨hbehind, ['.'], htrimmed, .inr rfl⟩
    · have hc : c ≠ '.' := by
        rintro rfl
        exact absurd hdrive (by decide)
      rw [nodeExtname_of_notMem hends₀ (by simp [hc.symm, hmem]), nodeExtname_of_notMem (ends_name hname) hmem]

theorem winPathParse_ext (h : ¬BareShare p) :
    (winPathParse p).ext = nodeExtname (winPathParse p).base true := by
  have hbare : ¬(['\\', '\\'] <+: (splitWinPath p).volume ∧ (splitWinPath p).rest = []) := h
  rw [winPathParse, splitWinPath_toBackslash, if_neg hbare]

theorem winPathParse_name (p : List Char) :
    (winPathParse p).name ++ (winPathParse p).ext = (winPathParse p).base := by
  have hbase : ∀ s : List Char, ∀ c ∈ s.rtakeWhile (fun c => !isWinSeparator c), isSeparator true c = false := by
    intro s c hc
    rw [isSeparator_true]
    simpa using List.mem_rtakeWhile_imp hc
  by_cases hbare : ['\\', '\\'] <+: (splitWinPath p).volume ∧ (splitWinPath p).rest = []
  · rw [winPathParse, splitWinPath_toBackslash, if_pos hbare]
    rfl
  · rw [winPathParse, splitWinPath_toBackslash, if_neg hbare]
    exact trimEnd_extname (hbase _)

/-- **`extname` finds the extension of the last name.** -/
theorem nodeExtname_eq_parse (hbare : ¬BareShare p) (hdot : ¬DriveDot p) :
    nodeExtname p true = (winPathParse p).ext := by
  obtain ⟨before, volume, root, rest, h⟩ := exists_cut p
  rw [winPathParse_ext hbare]
  by_cases hrest : rest = []
  · subst hrest
    have hshare := h.not_share hbare
    rw [(h.parse_nil hshare).1]
    obtain ⟨-, hblank⟩ | ⟨c, after, -, hends, hdrive⟩ := h.nil hshare
    · rw [← isSeparator_true] at hblank
      exact nodeExtname_blank hblank
    · have hc : c ≠ '.' := by
        rintro rfl
        rw [hends.eq, List.nil_append, List.cons_append, List.cons_append, winDriveVolume_cons,
          if_neg (by decide)] at hdrive
        cases hdrive
      rw [← isSeparator_true] at hends
      rw [nodeExtname_of_notMem hends (by simp [hc.symm])]
      rfl
  · obtain ⟨dir, word, after, hends⟩ := h.exists_ends hrest
    rw [h.extname hends hdot, (h.parse hends).1]

/-! ### Plain paths -/

/-- A path that is written with backslashes, none of which is doubled, but for the first one. -/
def Plain (value : List Char) : Prop := '/' ∉ value ∧ ∀ x y, value = x ++ '\\' :: '\\' :: y → x = []

theorem Plain.alone (h : Plain p) (hp : p = s ++ (l ++ t)) (hs : s ≠ []) (hl : Blank isBackslash l) (hne : l ≠ []) :
    l = ['\\'] := by
  have hback : ∀ c ∈ l, c = '\\' := fun c hc => of_decide_eq_true (hl c hc)
  rcases l with _ | ⟨c, _ | ⟨d, l⟩⟩
  · exact absurd rfl hne
  · rw [hback c (by simp)]
  · refine absurd (h.2 s (l ++ t) ?_) hs
    rw [hp, hback c (by simp), hback d (by simp)]
    rfl

theorem Plain.share {server l' share : List Char} (h : Plain p) (hp : p = l ++ (server ++ (l' ++ share)) ++ t)
    (two : 2 ≤ l.length) (blank : Blank isBackslash l) (server_name : Name isBackslash server) (ne : l' ≠ [])
    (blank' : Blank isBackslash l') :
    l ++ (server ++ (l' ++ share)) = ['\\', '\\'] ++ server ++ ['\\'] ++ share := by
  have hl' : l' = ['\\'] := by
    refine h.alone (by rw [hp]; simp : p = (l ++ server) ++ (l' ++ (share ++ t))) ?_ blank' ne
    simp [server_name.1]
  rcases l with _ | ⟨c, l⟩
  · simp at two
  obtain rfl : c = '\\' := of_decide_eq_true (blank c (by simp))
  have hl : l = ['\\'] := by
    refine h.alone (by rw [hp]; simp : p = ['\\'] ++ (l ++ (server ++ (l' ++ share) ++ t))) (by simp)
      (fun c hc => blank c (by simp [hc])) ?_
    rintro rfl
    simp at two
  rw [hl, hl']
  simp

/-- Volume and root open a plain path with two names. -/
theorem Plain.opens (h : Plain p) (hopens : Opens before volume root rest) (hp : p = before ++ rest)
    (hrest : rest ≠ []) (hmany : 1 < (fields isBackslash rest).length) : before = volume ++ root := by
  cases hopens with
  | plain drive head => rfl
  | rooted ne blank head few =>
    obtain ⟨c, rfl⟩ := List.length_eq_one_iff.mp (few.resolve_right (by omega))
    rw [show c = '\\' from of_decide_eq_true (blank c (by simp))]
    rfl
  | @drive c l _ drive blank head =>
    by_cases hl : l = []
    · rw [hl, if_pos rfl]
      rfl
    · rw [if_neg hl, h.alone (by rw [hp]; rfl : p = [c, ':'] ++ (l ++ rest)) (by simp) blank hl]
      rfl
  | @share l server l' share l'' _ two blank server_name ne blank' share_name blank'' last head =>
    have hshare := h.share (by rw [hp]; simp : p = l ++ (server ++ (l' ++ share)) ++ (l'' ++ rest)) two blank
      server_name ne blank'
    have hl'' : l'' = ['\\'] := by
      refine h.alone (by rw [hp]; simp : p = (l ++ (server ++ (l' ++ share))) ++ (l'' ++ rest)) ?_ blank''
        (last.resolve_left hrest)
      simp [server_name.1]
    have hassoc : l ++ (server ++ (l' ++ (share ++ l''))) = (l ++ (server ++ (l' ++ share))) ++ l'' := by simp
    rw [hassoc, hshare, hl'']

/-- **The directory of a plain path is that of `parse`.** -/
theorem winPathDirname_of_plain (h : Plain p) (hbare : ¬BareShare p) (hdir : (winPathParse p).dir ≠ []) :
    winPathDirname p = (winPathParse p).dir := by
  obtain ⟨before, volume, root, rest, hcut⟩ := exists_cut p
  have hp : p = before ++ rest := by rw [← hcut.eq, toBackslash_of_notMem h.1]
  have hslash : winPathDirname p <+: p → toBackslash (winPathDirname p) = winPathDirname p :=
    fun hbegins => toBackslash_of_notMem fun hmem => h.1 (hbegins.subset hmem)
  by_cases hrest : rest = []
  · subst hrest
    have hshare := hcut.not_share hbare
    rw [(hcut.parse_nil hshare).2] at hdir ⊢
    rw [hcut.dirname_rest_nil hshare, if_neg hdir]
  obtain ⟨dir, word, after, hends⟩ := hcut.exists_ends hrest
  obtain ⟨-, hparse⟩ := hcut.parse hends
  by_cases hnil : dir = []
  · subst hnil
    rw [if_pos rfl] at hparse
    rw [hparse] at hdir ⊢
    rcases hcut.dirname_of_nil hends with ⟨hempty, -⟩ | ⟨-, heq⟩ |
      ⟨l, server, l', share, two, blank, server_name, ne, blank', share_name, hbegins, hdirname, hne, rfl, rfl⟩
    · exact absurd hempty hdir
    · exact heq
    · rw [hslash hbegins] at hdirname
      obtain ⟨t, ht⟩ := id hbegins
      rw [hdirname] at ht
      exact absurd (hdirname.trans (h.share ht.symm two blank server_name ne blank')) hne
  · obtain ⟨hbegins, hdirname⟩ := hcut.dirname_of_ne hends hnil
    obtain ⟨c, hc, hlast, hsplit, htake, hblank⟩ := Ends.dir_split hends hnil
    have hdrop := hcut.opens.dir_ne_nil hcut.slash.2 hends hnil
    have hnames := List.length_pos_iff.mpr (fields_ne_nil (hcut.opens.dir_not_blank hcut.slash.2 hends hnil))
    have hmany : 1 < (fields isBackslash rest).length := by
      rw [fields_isBackslash hcut.slash.2, hends.fields, List.length_append, List.length_singleton]
      omega
    -- one backslash stands behind the directory
    have hone : dir.rtakeWhile isWinSeparator = ['\\'] := by
      have hwhole : p = (before ++ dir.rdropWhile isWinSeparator) ++
          (dir.rtakeWhile isWinSeparator ++ (word ++ after)) := by
        rw [hp, hends.eq, List.append_assoc before, ← List.append_assoc (dir.rdropWhile _), ← hsplit]
        simp
      refine h.alone hwhole (by simp [hdrop]) (fun d hd => ?_) htake
      have hmem : d ≠ '/' := by
        rintro rfl
        exact h.1 (by rw [hwhole]; simp [hd])
      have hsep := hblank d hd
      rw [isWinSeparator, decide_eq_true_eq] at hsep
      exact decide_eq_true (hsep.resolve_right hmem)
    have hinit : dir.dropLast = dir.rdropWhile isWinSeparator := by
      conv_lhs => rw [hsplit, hone, List.dropLast_concat]
    rw [hparse, if_neg hnil, ← hslash hbegins, hdirname, h.opens hcut.opens hp hrest hmany, hinit]

/-! ### Both flavours -/

/-- What holds of directory, name and extension of a path with backslashes. -/
structure WinDecomposed (p : List Char) : Prop where
  base : ¬BareShare p → winPathBasename p = (winPathParse p).base
  ext : ¬BareShare p → ¬DriveDot p → nodeExtname p true = (winPathParse p).ext
  name : (winPathParse p).name ++ (winPathParse p).ext = (winPathParse p).base
  /-- Separators behind a path do not change its name. -/
  appended : ∀ s, Blank isWinSeparator s → winPathBasename (p ++ s) = winPathBasename p
  /-- Separators behind a path with names do not change its directory. -/
  behind : (splitWinPath p).rest ≠ [] → ∀ s, Blank isWinSeparator s → winPathDirname (p ++ s) = winPathDirname p
  /-- The directory of a plain path is that of `parse`. -/
  dir : ¬BareShare p → (winPathParse p).dir ≠ [] → Plain p → winPathDirname p = (winPathParse p).dir
  /-- Other paths have the same directory, but for the spelling of its separators. -/
  same : ¬BareShare p → (winPathParse p).dir ≠ [] → ∀ q, q ≠ [] →
    winPathJoin [winPathDirname p, q] = winPathJoin [(winPathParse p).dir, q]
  /-- Directory and name lead back, without the separator behind the names. -/
  joined : ¬BareShare p → ¬BehindDrive p → ¬Exposed p →
    winPathNormalize p = winPathNormalize (winPathJoin [winPathDirname p, winPathBasename p]) ++
      if trailing p = true ∧ winParts p ≠ [] then ['\\'] else []

theorem winPathBasename_eq_parse (hbare : ¬BareShare p) : winPathBasename p = (winPathParse p).base := by
  obtain ⟨before, volume, root, rest, h⟩ := exists_cut p
  by_cases hrest : rest = []
  · subst hrest
    have hshare := h.not_share hbare
    rw [h.basename_nil hshare, (h.parse_nil hshare).1]
  · obtain ⟨dir, word, after, hends⟩ := h.exists_ends hrest
    rw [h.basename hends, (h.parse hends).1]

theorem winDecomposed (p : List Char) : WinDecomposed p where
  base := winPathBasename_eq_parse
  ext := nodeExtname_eq_parse
  name := winPathParse_name p
  appended _ hs := winPathBasename_append_blank hs p
  behind hrest _ hs := winPathDirname_append_blank hrest hs
  dir hbare hdir hplain := winPathDirname_of_plain hplain hbare hdir
  same hbare hdir _ hq := winPathJoin_dirname hbare hdir hq
  joined := winPathNormalize_joined

/-- **Directory, name and extension agree**, for the paths of both flavours. -/
theorem decomposition (p : List Char) : PosixDecomposed p ∧ WinDecomposed p := ⟨posixDecomposed p, winDecomposed p⟩

/-- With slashes, a directory differs from that of `parse` where a slash stands behind the name or is
doubled.  With backslashes, it differs where slashes are written; a name behind a drive gets a separator
and may be an extension, a share alone has a name, and so may a drive that cleaning leaves in front. -/
theorem not_decomposed :
    (posixDirname "a/b/".toList ≠ (posixPathParse "a/b/".toList).dir ∧
      posixDirname "a/b/".toList ≠ posixDirname "a/b".toList ∧
      posixPathNormalize (posixPathJoin [posixDirname "a/b/".toList, posixPathBasename "a/b/".toList]) ≠
        posixPathNormalize "a/b".toList ∧
      posixDirname "a//b/c".toList ≠ (posixPathParse "a//b/c".toList).dir) ∧
    (winPathDirname "a/b/c".toList ≠ (winPathParse "a/b/c".toList).dir ∧
      winPathDirname "\\".toList ≠ winPathDirname "".toList ∧
      nodeExtname "C:.a".toList true ≠ (winPathParse "C:.a".toList).ext ∧
      winPathBasename "\\\\h\\s".toList ≠ (winPathParse "\\\\h\\s".toList).base) ∧
    winPathNormalize (winPathJoin [winPathDirname "C:a".toList, winPathBasename "C:a".toList]) ≠
      winPathNormalize "C:a".toList ∧
    winPathNormalize (winPathJoin [winPathDirname ".\\C:".toList, winPathBasename ".\\C:".toList]) ≠
      winPathNormalize ".\\C:".toList := by
  decide +kernel

end JsPath

end Komari
