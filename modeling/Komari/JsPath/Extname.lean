import Komari.JsPath.Win
import Komari.Lexical.Last

/-!
# Extensions

The scan of a path from its last letter to its first one, for the extension of its last name.
-/

namespace Komari

namespace JsPath

open Lexical

/-! ### The source -/

/-- The variables of `nodeExtname`; `stop` is `end`. -/
structure Extension where
  startDot : ℤ
  startPart : ℤ
  stop : ℤ
  matchedSlash : Bool
  preDotState : ℤ

/-- A character between names. -/
def isSeparator (windows : Bool) (c : Char) : Bool := c = '/' || windows && c = '\\'

/-- The loop for a letter that is no separator. -/
def extLetter (index : ℤ) (character : Char) (st : Extension) : Extension :=
  let st := if st.stop = -1 then { st with matchedSlash := false, stop := index + 1 } else st
  if character = '.' then
    if st.startDot = -1 then { st with startDot := index }
    else if st.preDotState ≠ 1 then { st with preDotState := 1 } else st
  else if st.startDot ≠ -1 then { st with preDotState := -1 } else st

/-- The loop of `nodeExtname`, over the letters from the last to the first. -/
def extLoop (windows : Bool) : List Char → Extension → Extension
  | [], st => st
  | c :: rest, st =>
    if isSeparator windows c then
      if st.matchedSlash then extLoop windows rest st else { st with startPart := rest.length + 1 }
    else extLoop windows rest (extLetter rest.length c st)

/-- Nothing was read. -/
def Extension.initial : Extension := ⟨-1, 0, -1, true, 0⟩

/-- The function of the module, with its loop `extLoop`. -/
def nodeExtname (value : List Char) (windows : Bool) : List Char :=
  let st := extLoop windows value.reverse Extension.initial
  if st.startDot = -1 ∨ st.stop = -1 ∨ st.preDotState = 0 ∨
      st.preDotState = 1 ∧ st.startDot = st.stop - 1 ∧ st.startDot = st.startPart + 1 then []
  else (value.take st.stop.toNat).drop st.startDot.toNat

/-- `strings.TrimSuffix`. -/
def trimEnd (s ending : List Char) : List Char :=
  if ending <:+ s then s.take (s.length - ending.length) else s

/-! ### The loop -/

theorem isSeparator_false : isSeparator false = isSlash := by
  funext c
  simp [isSeparator, isSlash]

theorem isSeparator_true : isSeparator true = isWinSeparator := by
  funext c
  simp [isSeparator, isWinSeparator, or_comm]

variable {windows : Bool} {st : Extension} {s t r u v before word after value : List Char}

theorem extLoop_blank (h : Blank (isSeparator windows) s) (hst : st.matchedSlash = true) (r : List Char) :
    extLoop windows (s ++ r) st = extLoop windows r st := by
  induction s with
  | nil => rfl
  | cons c s ih =>
    rw [List.cons_append, extLoop, if_pos (h c (by simp)), if_pos hst]
    exact ih fun d hd => h d (by simp [hd])

/-- Letters behind the last dot, after the first of them. -/
theorem extLoop_behind (h : ∀ c ∈ s, isSeparator windows c = false) (hdot : '.' ∉ s) (hstop : st.stop ≠ -1)
    (hst : st.startDot = -1) (r : List Char) : extLoop windows (s ++ r) st = extLoop windows r st := by
  induction s with
  | nil => rfl
  | cons c s ih =>
    have hc : c ≠ '.' := fun heq => hdot (by simp [heq])
    have hletter : extLetter (s ++ r).length c st = st := by simp [extLetter, hstop, hc, hst]
    rw [List.cons_append, extLoop, if_neg (by simp [h c]), hletter]
    exact ih (fun d hd => h d (by simp [hd])) fun hmem => hdot (by simp [hmem])

/-- The state after the letter at which the last name ends. -/
def Extension.within (startDot stop : ℤ) : Extension := ⟨startDot, 0, stop, false, 0⟩

theorem extLoop_noDot (h : Name (isSeparator windows) word) (hdot : '.' ∉ word) (r : List Char) :
    extLoop windows (word ++ r) .initial = extLoop windows r (.within (-1) ((word ++ r).length : ℤ)) := by
  obtain ⟨hne, hname⟩ := h
  obtain ⟨c, word, rfl⟩ := List.exists_cons_of_ne_nil hne
  have hc : c ≠ '.' := fun heq => hdot (by simp [heq])
  have hletter : extLetter (word ++ r).length c .initial = .within (-1) ((c :: word ++ r).length : ℤ) := by
    simp [extLetter, Extension.initial, Extension.within, hc]
  rw [List.cons_append, extLoop, if_neg (by simp [hname c]), hletter]
  have hstop : ((c :: word ++ r).length : ℤ) ≠ -1 := by omega
  exact extLoop_behind (fun d hd => hname d (by simp [hd])) (fun hmem => hdot (by simp [hmem])) hstop rfl r

theorem extLetter_dot (hstop : st.stop ≠ -1) (hst : st.startDot = -1) (index : ℤ) :
    extLetter index '.' st = { st with startDot := index } := by
  simp [extLetter, hstop, hst]

theorem extLoop_dot (h : ∀ c ∈ v, isSeparator windows c = false) (hdot : '.' ∉ v) (r : List Char) :
    extLoop windows (v ++ '.' :: r) .initial =
      extLoop windows r (.within r.length ((v ++ '.' :: r).length : ℤ)) := by
  have hsep : isSeparator windows '.' = false := by simp [isSeparator]
  have hstep : ∀ st : Extension, extLoop windows ('.' :: r) st = extLoop windows r (extLetter r.length '.' st) := by
    intro st
    rw [extLoop, if_neg (by simp [hsep])]
  cases v with
  | nil =>
    rw [List.nil_append, hstep]
    simp [extLetter, Extension.initial, Extension.within]
  | cons c v =>
    have hstop : ((c :: v ++ '.' :: r).length : ℤ) ≠ -1 := by omega
    rw [extLoop_noDot ⟨by simp, h⟩ hdot, hstep, extLetter_dot hstop rfl]
    rfl

/-- Letters before the last dot: the first of them is remembered. -/
theorem extLoop_before (h : ∀ c ∈ u, isSeparator windows c = false) (hstop : st.stop ≠ -1)
    (hst : st.startDot ≠ -1) (r : List Char) :
    extLoop windows (u ++ r) st = extLoop windows r
      { st with preDotState := (u.getLast?.map fun c => if c = '.' then 1 else -1).getD st.preDotState } := by
  induction u generalizing st with
  | nil => rfl
  | cons c u ih =>
    have hletter : extLetter (u ++ r).length c st =
        { st with preDotState := if c = '.' then 1 else -1 } := by
      by_cases hc : c = '.'
      · by_cases hpre : st.preDotState = 1
        · cases st
          simp_all [extLetter]
        · simp [extLetter, hstop, hst, hc, hpre]
      · simp [extLetter, hstop, hst, hc]
    rw [List.cons_append, extLoop, if_neg (by simp [h c]), hletter,
      ih (fun d hd => h d (by simp [hd])) (by exact hstop) (by exact hst)]
    congr 1
    cases u with
    | nil => rfl
    | cons d u => simp [List.getLast?_eq_some_getLast]

theorem extLoop_break (h : AtBreak (isSeparator windows) before) (hst : st.matchedSlash = false)
    (hpart : st.startPart = 0) :
    extLoop windows before.reverse st = { st with startPart := before.length } := by
  induction before using List.reverseRecOn with
  | nil =>
    cases st
    simp_all [extLoop]
  | append_singleton before c =>
    rw [List.reverse_append, List.reverse_singleton, List.singleton_append, extLoop, if_pos (h c (by simp)),
      if_neg (by simp [hst])]
    simp

/-! ### The extension -/

theorem nodeExtname_blank (h : Blank (isSeparator windows) value) : nodeExtname value windows = [] := by
  have hloop : extLoop windows value.reverse .initial = .initial := by
    have hblank : Blank (isSeparator windows) value.reverse := fun c hc => h c (by simpa using hc)
    have hloop := extLoop_blank hblank (rfl : Extension.initial.matchedSlash = true) []
    rwa [List.append_nil] at hloop
  rw [nodeExtname, hloop]
  exact if_pos (.inl rfl)

theorem nodeExtname_of_notMem (h : Ends (isSeparator windows) value before word after) (hdot : '.' ∉ word) :
    nodeExtname value windows = [] := by
  have hreverse : value.reverse = after.reverse ++ (word.reverse ++ before.reverse) := by
    rw [h.eq]
    simp
  have hblank : Blank (isSeparator windows) after.reverse := fun c hc => h.blank c (by simpa using hc)
  have hname : Name (isSeparator windows) word.reverse :=
    ⟨by simpa using h.name.1, fun c hc => h.name.2 c (by simpa using hc)⟩
  have hloop : (extLoop windows value.reverse .initial).startDot = -1 := by
    rw [hreverse, extLoop_blank hblank rfl, extLoop_noDot hname (by simpa using hdot),
      extLoop_break h.atBreak rfl rfl]
    rfl
  simp [nodeExtname, hloop]

/-- **The extension begins at the last dot**, unless the name begins with it or is the parent. -/
theorem nodeExtname_of_dot (h : Ends (isSeparator windows) value before (u ++ '.' :: v) after) (hdot : '.' ∉ v) :
    nodeExtname value windows = if u = [] ∨ u = ['.'] ∧ v = [] then [] else '.' :: v := by
  have hreverse : value.reverse = after.reverse ++ (v.reverse ++ '.' :: (u.reverse ++ before.reverse)) := by
    rw [h.eq]
    simp
  have hblank : Blank (isSeparator windows) after.reverse := fun c hc => h.blank c (by simpa using hc)
  have hv : ∀ c ∈ v.reverse, isSeparator windows c = false :=
    fun c hc => h.name.2 c (by simp [List.mem_reverse.mp hc])
  have hu : ∀ c ∈ u.reverse, isSeparator windows c = false :=
    fun c hc => h.name.2 c (by simp [List.mem_reverse.mp hc])
  have hloop : extLoop windows value.reverse .initial =
      ⟨before.length + u.length, before.length, before.length + u.length + 1 + v.length, false,
        (u.head?.map fun c => if c = '.' then 1 else -1).getD 0⟩ := by
    rw [hreverse, extLoop_blank hblank rfl, extLoop_dot hv (by simpa using hdot), extLoop_before hu,
      extLoop_break h.atBreak rfl rfl]
    · simp only [Extension.within, List.getLast?_reverse, List.length_append, List.length_reverse,
        List.length_cons, Extension.mk.injEq, and_true, true_and]
      omega
    · simp only [Extension.within]
      omega
    · simp only [Extension.within]
      omega
  have hslice : (value.take (before.length + u.length + 1 + v.length)).drop (before.length + u.length) =
      '.' :: v := by
    have hvalue : value = (before ++ u) ++ ('.' :: v) ++ after := by
      rw [h.eq]
      simp
    have hlength : before.length + u.length + 1 + v.length = ((before ++ u) ++ ('.' :: v)).length := by
      simp
      omega
    rw [hvalue, hlength, List.take_left, ← List.length_append, List.drop_left]
  have hcast : ((before.length : ℤ) + u.length).toNat = before.length + u.length ∧
      ((before.length : ℤ) + u.length + 1 + v.length).toNat = before.length + u.length + 1 + v.length := by
    omega
  simp only [nodeExtname, hloop, hcast.1, hcast.2, hslice]
  refine if_congr ?_ rfl rfl
  cases u with
  | nil => simp
  | cons c u =>
    by_cases hc : c = '.'
    · simp [hc, ← List.length_eq_zero_iff]
      omega
    · simp [hc]
      omega

theorem exists_last_dot (h : '.' ∈ s) : ∃ u v, s = u ++ '.' :: v ∧ '.' ∉ v := by
  obtain ⟨t, r, hsplit, ht⟩ := List.eq_append_cons_of_mem (List.mem_reverse.mpr h)
  refine ⟨r.reverse, t.reverse, ?_, by simpa using ht⟩
  rw [← List.reverse_reverse s, hsplit]
  simp

/-- **Only the last name matters.** -/
theorem nodeExtname_name (h : Ends (isSeparator windows) value before word after) :
    nodeExtname value windows = nodeExtname word windows := by
  by_cases hdot : '.' ∈ word
  · obtain ⟨u, v, rfl, hv⟩ := exists_last_dot hdot
    rw [nodeExtname_of_dot h hv, nodeExtname_of_dot (ends_name h.name) hv]
  · rw [nodeExtname_of_notMem h hdot, nodeExtname_of_notMem (ends_name h.name) hdot]

theorem nodeExtname_suffix (h : ∀ c ∈ word, isSeparator windows c = false) : nodeExtname word windows <:+ word := by
  by_cases hne : word = []
  · rw [hne]
    exact ⟨[], rfl⟩
  by_cases hdot : '.' ∈ word
  · obtain ⟨u, v, rfl, hv⟩ := exists_last_dot hdot
    rw [nodeExtname_of_dot (ends_name ⟨hne, h⟩) hv]
    split_ifs
    · exact List.nil_suffix
    · exact List.suffix_append u _
  · rw [nodeExtname_of_notMem (ends_name ⟨hne, h⟩) hdot]
    exact List.nil_suffix

theorem trimEnd_append (s t : List Char) : trimEnd (s ++ t) t = s := by
  rw [trimEnd, if_pos (List.suffix_append s t)]
  simp

/-- **A name without its extension, and the extension.** -/
theorem trimEnd_extname (h : ∀ c ∈ word, isSeparator windows c = false) :
    trimEnd word (nodeExtname word windows) ++ nodeExtname word windows = word := by
  obtain ⟨s, hs⟩ := nodeExtname_suffix h
  generalize nodeExtname word windows = ext at hs
  rw [← hs, trimEnd_append]

end JsPath

end Komari
