import Komari.JsPath.Win

/-!
# Resolved paths with backslashes
-/

namespace Komari

namespace JsPath

open Lexical

/-- `strings.EqualFold`, with what a letter is folded to. -/
def equalFold (fold : Char → Char) (s t : List Char) : Bool := s.map fold = t.map fold

/-- The variables of `winPathResolve`. -/
structure Resolving where
  /-- `resolvedDevice`. -/
  device : List Char
  /-- `resolvedTail`. -/
  tail : List Char
  /-- `resolvedAbsolute`. -/
  absolute : Bool
deriving DecidableEq

/-- The loop of `winPathResolve` for one part. -/
def winStep (fold : Char → Char) (st : Resolving) (part : List Char) : Resolving :=
  if part = [] then st
  else
    let s := splitWinPath part
    if s.volume ≠ [] ∧ st.device ≠ [] ∧ ¬equalFold fold s.volume st.device then st
    else
      let device := if s.volume ≠ [] then s.volume else st.device
      if st.absolute then { st with device := device }
      else
        { device := device
          tail := if s.rest ≠ [] then s.rest ++ '\\' :: st.tail else st.tail
          absolute := s.root ≠ [] }

/-- The directory that a drive stands for. -/
def cwdPart (fold : Char → Char) (cwd device : List Char) : List Char :=
  if device = [] then cwd
  else
    let s := splitWinPath cwd
    if equalFold fold s.volume device ∧ s.root ≠ [] then cwd else device ++ ['\\']

/-- The loop of `winPathResolve`, over the parts from the last to the first. -/
def winLoop (fold : Char → Char) (cwd : List Char) : List (List Char) → Resolving → Resolving
  | [], st => winStep fold st (cwdPart fold cwd st.device)
  | part :: parts, st =>
    let st := winStep fold st part
    if st.absolute ∧ st.device ≠ [] then st else winLoop fold cwd parts st

/-- `resolve`. -/
def winPathResolve (fold : Char → Char) (cwd : List Char) (parts : List (List Char)) : List Char :=
  let st := winLoop fold cwd parts.reverse ⟨[], [], false⟩
  let tail := join '\\' (cleanWinParts st.tail st.absolute)
  if st.absolute then (if st.device ≠ [] then st.device ++ ['\\'] else ['\\']) ++ tail
  else if st.device ++ tail = [] then ['.'] else st.device ++ tail

/-- `relative`. -/
def winPathRelative (fold : Char → Char) (cwd source target : List Char) : List Char :=
  let source := winPathResolve fold cwd [source]
  let target := winPathResolve fold cwd [target]
  if equalFold fold source target then []
  else
    let s := splitWinPath source
    let t := splitWinPath target
    if ¬equalFold fold s.volume t.volume then target
    else join '\\' (relativeParts (equalFold fold) (cleanWinParts s.rest true) (cleanWinParts t.rest true))

/-- `path.isAbsolute`. -/
def winIsAbs (value : List Char) : Bool := (splitWinPath value).root ≠ []

variable {fold : Char → Char} {cwd : List Char} {st : Resolving}

/-! ### The loop -/

/-- A volume that a path can have. -/
def IsVolume (volume : List Char) : Prop :=
  volume = [] ∨ volume ≠ [] ∧ winDriveVolume volume = volume ∨ IsShare volume

theorem isVolume_splitWinPath (value : List Char) : IsVolume (splitWinPath value).volume :=
  (splitWinPath_valid value).volume.imp_right fun h => h.imp_right And.left

/-- Names behind a volume. -/
def winPath (volume : List Char) (parts : List (List Char)) : WinSplit := ⟨volume, ['\\'], join '\\' parts⟩

theorem valid_winPath {volume : List Char} (hvolume : IsVolume volume) {parts : List (List Char)}
    (hparts : ∀ w ∈ parts, Name isWinSeparator w) : (winPath volume parts).Valid where
  volume := hvolume.imp_right fun h => h.imp_right fun hshare => ⟨hshare, rfl⟩
  root := .inr rfl
  drive := fun _ h => by simp [winPath] at h
  slash := slash_notMem_join hparts
  head := head_join_win hparts

/-- Holds while the loop runs. -/
structure Resolving.Sound (st : Resolving) : Prop where
  device : IsVolume st.device
  /-- The names of the tail end with a backslash. -/
  tail : st.tail = [] ∨ ∃ base, st.tail = base ++ ['\\']

/-- The device, when a part was read. -/
def deviceAfter (st : Resolving) (part : List Char) : List Char :=
  if (splitWinPath part).volume ≠ [] then (splitWinPath part).volume else st.device

/-- The tail after a part, of a path that is not absolute yet. -/
def tailAfter (st : Resolving) (part : List Char) : List Char :=
  if (splitWinPath part).rest ≠ [] then (splitWinPath part).rest ++ '\\' :: st.tail else st.tail

/-- The part is on another volume. -/
def Elsewhere (fold : Char → Char) (st : Resolving) (part : List Char) : Prop :=
  (splitWinPath part).volume ≠ [] ∧ st.device ≠ [] ∧ ¬equalFold fold (splitWinPath part).volume st.device = true

theorem winStep_nil (fold : Char → Char) (st : Resolving) : winStep fold st [] = st := if_pos rfl

variable {part : List Char}

theorem winStep_elsewhere (h : Elsewhere fold st part) : winStep fold st part = st := by
  by_cases hne : part = []
  · rw [hne, winStep_nil]
  · rw [winStep, if_neg hne]
    exact if_pos h

theorem winStep_absolute (hne : part ≠ []) (h : ¬Elsewhere fold st part)
    (habsolute : st.absolute = true) : winStep fold st part = ⟨deviceAfter st part, st.tail, true⟩ := by
  rw [winStep, if_neg hne]
  refine (if_neg h).trans ((if_pos habsolute).trans ?_)
  rw [deviceAfter, habsolute]

theorem winStep_relative (hne : part ≠ []) (h : ¬Elsewhere fold st part)
    (habsolute : st.absolute = false) :
    winStep fold st part = ⟨deviceAfter st part, tailAfter st part, (splitWinPath part).root ≠ []⟩ := by
  rw [winStep, if_neg hne]
  exact (if_neg h).trans (if_neg (by simp [habsolute]))

/-- **What a part can do**: nothing, if it is empty or elsewhere; give a device to an absolute path; or be put
before a path that is not absolute. -/
theorem winStep_cases (fold : Char → Char) (st : Resolving) (part : List Char) :
    winStep fold st part = st ∨
      st.absolute = true ∧ winStep fold st part = ⟨deviceAfter st part, st.tail, true⟩ ∨
        st.absolute = false ∧
          winStep fold st part = ⟨deviceAfter st part, tailAfter st part, (splitWinPath part).root ≠ []⟩ := by
  by_cases hne : part = []
  · rw [hne]
    exact .inl (winStep_nil fold st)
  by_cases helse : Elsewhere fold st part
  · exact .inl (winStep_elsewhere helse)
  cases habsolute : st.absolute with
  | true => exact .inr (.inl ⟨rfl, winStep_absolute hne helse habsolute⟩)
  | false => exact .inr (.inr ⟨rfl, winStep_relative hne helse habsolute⟩)

theorem isVolume_deviceAfter (h : IsVolume st.device) (part : List Char) : IsVolume (deviceAfter st part) := by
  rw [deviceAfter]
  split_ifs
  · exact isVolume_splitWinPath part
  · exact h

theorem Resolving.Sound.step (h : st.Sound) (part : List Char) : (winStep fold st part).Sound := by
  rcases winStep_cases fold st part with heq | ⟨-, heq⟩ | ⟨-, heq⟩
  · rw [heq]
    exact h
  · rw [heq]
    exact ⟨isVolume_deviceAfter h.device part, h.tail⟩
  · rw [heq]
    refine ⟨isVolume_deviceAfter h.device part, ?_⟩
    simp only [tailAfter]
    split_ifs
    · rcases h.tail with htail | ⟨base, htail⟩
      · exact .inr ⟨(splitWinPath part).rest, by rw [htail]⟩
      · exact .inr ⟨(splitWinPath part).rest ++ '\\' :: base, by rw [htail]; simp⟩
    · exact h.tail

theorem Resolving.Sound.loop (h : st.Sound) (cwd : List Char) (parts : List (List Char)) :
    (winLoop fold cwd parts st).Sound := by
  induction parts generalizing st with
  | nil => exact h.step _
  | cons part parts ih =>
    rw [winLoop]
    split_ifs
    · exact h.step part
    · exact ih (h.step part)

theorem absolute_winStep (habsolute : st.absolute = true) (part : List Char) :
    (winStep fold st part).absolute = true := by
  rcases winStep_cases fold st part with heq | ⟨-, heq⟩ | ⟨hfalse, heq⟩
  · rw [heq, habsolute]
  · rw [heq]
  · rw [habsolute] at hfalse
    cases hfalse

theorem equalFold_refl (s : List Char) : equalFold fold s s = true := decide_eq_true rfl

/-- The last part is the directory, or the root of the device. -/
theorem cwdPart_cases (fold : Char → Char) (cwd device : List Char) :
    cwdPart fold cwd device = cwd ∧ (device = [] ∨ equalFold fold (splitWinPath cwd).volume device = true) ∨
      device ≠ [] ∧ cwdPart fold cwd device = device ++ ['\\'] := by
  by_cases hdevice : device = []
  · exact .inl ⟨if_pos hdevice, .inl hdevice⟩
  rw [cwdPart, if_neg hdevice]
  by_cases hsame : equalFold fold (splitWinPath cwd).volume device = true ∧ (splitWinPath cwd).root ≠ []
  · exact .inl ⟨if_pos hsame, .inr hsame.1⟩
  · exact .inr ⟨hdevice, if_neg hsame⟩

theorem splitWinPath_root {volume : List Char} (h : IsVolume volume) :
    splitWinPath (volume ++ ['\\']) = ⟨volume, ['\\'], []⟩ := by
  have hpath : (winPath volume []).path = volume ++ ['\\'] := by
    rw [WinSplit.path, winPath, join_nil, List.append_nil]
  rw [← hpath, splitWinPath_path (valid_winPath h (by simp))]
  rfl

/-- The directory, or the root of the device, makes the path absolute. -/
theorem absolute_cwdPart (hcwd : winIsAbs cwd = true) (h : st.Sound) :
    (winStep fold st (cwdPart fold cwd st.device)).absolute = true := by
  cases habsolute : st.absolute with
  | true => exact absolute_winStep habsolute _
  | false =>
    have hroot : (splitWinPath cwd).root ≠ [] := of_decide_eq_true hcwd
    rcases cwdPart_cases fold cwd st.device with ⟨heq, hsame⟩ | ⟨hdevice, heq⟩
    · have hne : cwd ≠ [] := by
        rintro rfl
        exact hroot (by decide)
      have hnot : ¬Elsewhere fold st cwd := fun helse => hsame.elim helse.2.1 helse.2.2
      rw [heq, winStep_relative hne hnot habsolute]
      exact decide_eq_true hroot
    · have hsplit := splitWinPath_root h.device
      have hnot : ¬Elsewhere fold st (st.device ++ ['\\']) := by
        rintro ⟨-, -, helse⟩
        rw [hsplit] at helse
        exact helse (equalFold_refl _)
      rw [heq, winStep_relative (by simp) hnot habsolute, hsplit]
      rfl

theorem absolute_winLoop (hcwd : winIsAbs cwd = true) (h : st.Sound) (parts : List (List Char)) :
    (winLoop fold cwd parts st).absolute = true := by
  induction parts generalizing st with
  | nil => exact absolute_cwdPart hcwd h
  | cons part parts ih =>
    rw [winLoop]
    split_ifs with hbreak
    · exact hbreak.1
    · exact ih (h.step part)

/-! ### Resolved paths -/

/-- No part was read. -/
def Resolving.initial : Resolving := ⟨[], [], false⟩

theorem sound_initial : Resolving.initial.Sound := ⟨.inl rfl, .inl rfl⟩

/-- What the loop leaves. -/
def winResolving (fold : Char → Char) (cwd : List Char) (parts : List (List Char)) : Resolving :=
  winLoop fold cwd parts.reverse .initial

/-- The names of the result of `resolve`. -/
def winNames (fold : Char → Char) (cwd : List Char) (parts : List (List Char)) : List (List Char) :=
  cleanWinParts (winResolving fold cwd parts).tail true

theorem cleanWinParts_winNames (fold : Char → Char) (cwd : List Char) (parts : List (List Char)) :
    CleanWinParts true (winNames fold cwd parts) := cleanWinParts_spec _ _

/-- **A resolved path** has a volume, a root and clean names. -/
theorem winPathResolve_eq (fold : Char → Char) (hcwd : winIsAbs cwd = true) (parts : List (List Char)) :
    winPathResolve fold cwd parts =
      (winPath (winResolving fold cwd parts).device (winNames fold cwd parts)).path := by
  have habsolute : (winResolving fold cwd parts).absolute = true := absolute_winLoop hcwd sound_initial _
  have hunfold : winPathResolve fold cwd parts =
      if (winResolving fold cwd parts).absolute then
        (if (winResolving fold cwd parts).device ≠ [] then (winResolving fold cwd parts).device ++ ['\\'] else ['\\']) ++
          join '\\' (cleanWinParts (winResolving fold cwd parts).tail (winResolving fold cwd parts).absolute)
      else if (winResolving fold cwd parts).device ++
          join '\\' (cleanWinParts (winResolving fold cwd parts).tail (winResolving fold cwd parts).absolute) = [] then ['.']
        else (winResolving fold cwd parts).device ++
          join '\\' (cleanWinParts (winResolving fold cwd parts).tail (winResolving fold cwd parts).absolute) := rfl
  rw [hunfold, if_pos habsolute, habsolute, WinSplit.path, winPath, winNames]
  split_ifs with hdevice
  · rfl
  · rw [not_not.mp hdevice]
    rfl

theorem splitWinPath_resolve (fold : Char → Char) (hcwd : winIsAbs cwd = true) (parts : List (List Char)) :
    splitWinPath (winPathResolve fold cwd parts) =
      winPath (winResolving fold cwd parts).device (winNames fold cwd parts) := by
  have hsound : (winResolving fold cwd parts).Sound := sound_initial.loop cwd _
  rw [winPathResolve_eq fold hcwd]
  exact splitWinPath_path (valid_winPath hsound.device (cleanWinParts_winNames fold cwd parts).name)

theorem winTail_root (parts : List (List Char)) : winTail ['\\'] parts false = join '\\' parts := by
  simp [winTail]

theorem winPath_path_ne (volume : List Char) (parts : List (List Char)) : (winPath volume parts).path ≠ [] := by
  simp [winPath, WinSplit.path]

/-- **A resolved path is normal.** -/
theorem winPathNormalize_resolve (fold : Char → Char) (hcwd : winIsAbs cwd = true) (parts : List (List Char)) :
    winPathNormalize (winPathResolve fold cwd parts) = winPathResolve fold cwd parts := by
  have hnames := cleanWinParts_winNames fold cwd parts
  have hne : winPathResolve fold cwd parts ≠ [] := by
    rw [winPathResolve_eq fold hcwd]
    exact winPath_path_ne _ _
  have hsplit := splitWinPath_resolve fold hcwd parts
  have hparts : winParts (winPathResolve fold cwd parts) = winNames fold cwd parts := by
    rw [winParts, hsplit]
    have htail := cleanWinParts_winTail hnames ['\\'] false
    rw [winTail, if_neg (by simp), if_neg (by simp), List.append_nil] at htail
    exact htail
  have hplain : winTail ['\\'] (winNames fold cwd parts) (trailing (winPathResolve fold cwd parts)) =
      join '\\' (winNames fold cwd parts) := by
    by_cases hnil : winNames fold cwd parts = []
    · rw [hnil]
      simp [winTail]
    · have htrailing := trailing_winTail hnames.name hnil
        ((winResolving fold cwd parts).device ++ ['\\']) ['\\'] false
      rw [winTail_root] at htrailing
      rw [winPathResolve_eq fold hcwd]
      exact (congrArg _ htrailing).trans (winTail_root _)
  rw [winPathNormalize_eq hne, hsplit, hparts]
  exact (congrArg _ hplain).trans (winPathResolve_eq fold hcwd parts).symm

theorem device_winStep (h : (winStep fold st part).device = []) : st.device = [] := by
  have hafter : deviceAfter st part = [] → st.device = [] := by
    intro hnil
    rw [deviceAfter] at hnil
    split_ifs at hnil with hvolume
    · exact absurd hnil hvolume
    · exact hnil
  rcases winStep_cases fold st part with heq | ⟨-, heq⟩ | ⟨-, heq⟩
  · rwa [heq] at h
  · rw [heq] at h
    exact hafter h
  · rw [heq] at h
    exact hafter h

theorem ne_nil_of_winIsAbs (hcwd : winIsAbs cwd = true) : cwd ≠ [] := by
  rintro rfl
  exact absurd hcwd (by decide)

/-- A resolved path has no volume only if the directory has none. -/
theorem volume_of_winLoop (hcwd : winIsAbs cwd = true) (parts : List (List Char))
    (h : (winLoop fold cwd parts st).device = []) : (splitWinPath cwd).volume = [] := by
  induction parts generalizing st with
  | nil =>
    rw [winLoop] at h
    have hdevice := device_winStep h
    have hcwdPart : cwdPart fold cwd st.device = cwd := if_pos hdevice
    have hnot : ¬Elsewhere fold st cwd := fun helse => helse.2.1 hdevice
    have hafter : deviceAfter st cwd = [] := by
      rw [hcwdPart] at h
      cases habsolute : st.absolute with
      | true => rwa [winStep_absolute (ne_nil_of_winIsAbs hcwd) hnot habsolute] at h
      | false => rwa [winStep_relative (ne_nil_of_winIsAbs hcwd) hnot habsolute] at h
    by_contra hvolume
    rw [deviceAfter, if_pos hvolume] at hafter
    exact hvolume hafter
  | cons part parts ih =>
    rw [winLoop] at h
    split_ifs at h with hbreak
    · exact absurd h hbreak.2
    · exact ih h

/-- The tail of a path that is resolved. -/
def restTail (parts : List (List Char)) : List Char :=
  if join '\\' parts ≠ [] then join '\\' parts ++ ['\\'] else []

theorem cleanWinParts_restTail {parts : List (List Char)} (h : CleanWinParts true parts) :
    cleanWinParts (restTail parts) true = parts := by
  rw [restTail]
  split_ifs with hjoin
  · rw [cleanWinParts, fields_append_singleton isWinSeparator_backslash, fields_join isWinSeparator_backslash h.name,
      clean_of_normal isDot_dotdot h.normal]
  · rw [(join_eq_nil_iff '\\' h.name).mp (not_not.mp hjoin)]
    rfl

theorem winStep_winPath {volume : List Char} (hvolume : IsVolume volume) {parts : List (List Char)}
    (h : CleanWinParts true parts) :
    winStep fold .initial (winPath volume parts).path = ⟨volume, restTail parts, true⟩ := by
  have hsplit := splitWinPath_path (valid_winPath hvolume h.name)
  have hnot : ¬Elsewhere fold .initial (winPath volume parts).path := fun helse => helse.2.1 rfl
  rw [winStep_relative (winPath_path_ne _ _) hnot rfl, deviceAfter, tailAfter, hsplit]
  simp only [winPath, Resolving.initial, restTail, Resolving.mk.injEq]
  refine ⟨?_, rfl, by simp⟩
  by_cases hne : volume = [] <;> simp [hne]

/-- **A resolved path is resolved already.** -/
theorem winResolving_resolve (hcwd : winIsAbs cwd = true) (parts : List (List Char)) :
    winResolving fold cwd [winPathResolve fold cwd parts] =
      ⟨(winResolving fold cwd parts).device, restTail (winNames fold cwd parts), true⟩ := by
  have hsound : (winResolving fold cwd parts).Sound := sound_initial.loop cwd _
  have hfirst := @winStep_winPath fold _ hsound.device _ (cleanWinParts_winNames fold cwd parts)
  rw [winResolving, List.reverse_singleton, winLoop, winPathResolve_eq fold hcwd, hfirst]
  split_ifs with hbreak
  · rfl
  have hdevice : (winResolving fold cwd parts).device = [] := by
    by_contra hne
    exact hbreak ⟨rfl, hne⟩
  have hvolume := volume_of_winLoop hcwd _ hdevice
  have hcwdPart : cwdPart fold cwd [] = cwd := rfl
  have hnot : ∀ tail, ¬Elsewhere fold ⟨[], tail, true⟩ cwd := fun tail helse => helse.2.1 rfl
  rw [winLoop, hdevice, hcwdPart, winStep_absolute (ne_nil_of_winIsAbs hcwd) (hnot _) rfl, deviceAfter,
    if_neg (not_not.mpr hvolume)]

theorem winPathResolve_winPathResolve (hcwd : winIsAbs cwd = true) (parts : List (List Char)) :
    winPathResolve fold cwd [winPathResolve fold cwd parts] = winPathResolve fold cwd parts := by
  have hstate := @winResolving_resolve fold cwd hcwd parts
  have hnames := cleanWinParts_restTail (cleanWinParts_winNames fold cwd parts)
  rw [winPathResolve_eq fold hcwd [_], winNames, hstate]
  simp only [hnames]
  exact (winPathResolve_eq fold hcwd parts).symm

end JsPath

end Komari
