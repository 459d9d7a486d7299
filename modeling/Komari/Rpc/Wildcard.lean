import Mathlib.Data.List.TakeWhile
import Komari.Glob.Matches

/-!
# Matching method names

`wildcardMatch` walks along the pattern and the name with two pointers. At a star it remembers both places,
and on a mismatch it goes back to the last star, which then takes one more byte.

A byte of the pattern is compared with the name before it is known to be a star, so that a star in the name
takes up a star of the pattern.
-/

namespace Komari

namespace Rpc

open Glob (Matches)

/-- The wildcard, `*`. -/
def star : UInt8 := 0x2a

/-! ### The two pointers -/

/-- The loop of `wildcardMatch`. -/
def scan (pattern s : List UInt8) (p str : ℕ) (last : Option ℕ) (strBackup : ℕ)
    (hle : strBackup ≤ str) : Bool :=
  if str < s.length then
    if p < pattern.length ∧ pattern[p]? = s[str]? then
      scan pattern s (p + 1) (str + 1) last strBackup (Nat.le_succ_of_le hle)
    else if p < pattern.length ∧ pattern[p]? = some star then
      scan pattern s (p + 1) str (some p) str le_rfl
    else
      match last with
      | some k => scan pattern s (k + 1) (strBackup + 1) (some k) (strBackup + 1) le_rfl
      | none => false
  else ((pattern.drop p).dropWhile (· == star)).isEmpty
termination_by (s.length - strBackup, pattern.length - p)
decreasing_by all_goals (simp only [Prod.lex_def, true_and]; omega)

/-- The loop from the beginning. -/
def wildcardMatch (pattern s : List UInt8) : Bool := scan pattern s 0 0 none 0 le_rfl

/-! ### What is left to match -/

variable {pattern s : List UInt8} {p str strBackup k : ℕ} {last : Option ℕ}

/-- The way from the last star: the bytes since then are the same in the pattern and in the name, with no
star among them unless the name is at its end. -/
def Since (pattern s : List UInt8) (p str strBackup k : ℕ) : Prop :=
  ∃ w, pattern.drop (k + 1) = w ++ pattern.drop p ∧ s.drop strBackup = w ++ s.drop str ∧
    (star ∉ w ∨ s.drop str = [])

/-- What can still be matched: the rest of the name, or more of it from the last star. -/
def Open (pattern s : List UInt8) (p str : ℕ) (last : Option ℕ) (strBackup : ℕ) : Prop :=
  Matches star (pattern.drop p) (s.drop str) ∨
    ∃ k, last = some k ∧ ∃ n, Matches star (pattern.drop (k + 1)) (s.drop (strBackup + 1 + n))

theorem since_self (pattern s : List UInt8) (k str : ℕ) : Since pattern s (k + 1) str str k :=
  ⟨[], rfl, rfl, Or.inl List.not_mem_nil⟩

theorem drop_eq_cons {l : List UInt8} {n : ℕ} {b : UInt8} (h : l[n]? = some b) :
    l.drop n = b :: l.drop (n + 1) := by
  obtain ⟨hlt, rfl⟩ := List.getElem?_eq_some_iff.mp h
  exact List.drop_eq_getElem_cons hlt

/-- At most the last byte of the name is a star. -/
theorem drop_succ_of_star (hs : star ∉ s.dropLast) (h : s[str]? = some star) : s.drop (str + 1) = [] := by
  obtain ⟨hlt, hget⟩ := List.getElem?_eq_some_iff.mp h
  by_contra hne
  rw [List.drop_eq_nil_iff] at hne
  refine hs (List.mem_iff_getElem.mpr ⟨str, by rw [List.length_dropLast]; omega, ?_⟩)
  rw [List.getElem_dropLast, hget]

theorem matches_pass (hs : star ∉ s.dropLast) {b : UInt8} (hp : pattern[p]? = some b)
    (hb : s[str]? = some b) :
    Matches star (pattern.drop p) (s.drop str) ↔ Matches star (pattern.drop (p + 1)) (s.drop (str + 1)) := by
  rw [drop_eq_cons hp, drop_eq_cons hb]
  by_cases hstar : b = star
  · subst hstar
    -- the star of the name is taken for the star of the pattern, with nothing after it
    rw [drop_succ_of_star hs hb]
    constructor
    · intro h
      exact Matches.matches_nil (w := [star]) h (List.suffix_refl _)
    · exact fun h => .star [star] h
  · rw [Glob.matches_cons_cons_iff hstar]
    exact and_iff_right rfl

theorem since_pass (h : Since pattern s p str strBackup k) (hs : star ∉ s.dropLast) {b : UInt8}
    (hp : pattern[p]? = some b) (hb : s[str]? = some b) :
    Since pattern s (p + 1) (str + 1) strBackup k := by
  obtain ⟨w, hpattern, hname, hw⟩ := h
  rw [drop_eq_cons hb] at hw hname
  rw [drop_eq_cons hp] at hpattern
  refine ⟨w ++ [b], by simpa using hpattern, by simpa using hname, ?_⟩
  by_cases hstar : b = star
  · exact Or.inr (drop_succ_of_star hs (hstar ▸ hb))
  · exact Or.inl (by simpa [Ne.symm hstar] using hw)

/-- A new star takes over from the last one. -/
theorem open_star (h : ∀ k, last = some k → Since pattern s p str strBackup k) (hlt : str < s.length)
    (hp : pattern[p]? = some star) :
    Open pattern s p str last strBackup ↔ Open pattern s (p + 1) str (some p) str := by
  have hnew : Open pattern s (p + 1) str (some p) str ↔
      ∃ n, Matches star (pattern.drop (p + 1)) ((s.drop str).drop n) := by
    constructor
    · rintro (h | ⟨k, hk, n, h⟩)
      · exact ⟨0, h⟩
      · cases hk
        exact ⟨n + 1, by rwa [List.drop_drop, ← Nat.add_assoc, Nat.add_right_comm]⟩
    · rintro ⟨n, h⟩
      cases n with
      | zero => exact Or.inl h
      | succ n =>
        exact Or.inr ⟨p, rfl, n, by rwa [List.drop_drop, ← Nat.add_assoc, Nat.add_right_comm] at h⟩
  rw [hnew, Open, drop_eq_cons hp, Glob.matches_star_cons_iff]
  constructor
  · rintro (h' | ⟨k, rfl, n, h'⟩)
    · exact h'
    · obtain ⟨w, hpattern, hname, hw⟩ := h k rfl
      have hne : s.drop str ≠ [] := by simpa using hlt
      rw [hpattern, drop_eq_cons hp, Glob.matches_append_iff (hw.resolve_right hne)] at h'
      obtain ⟨t, ht, h'⟩ := h'
      obtain ⟨m, h'⟩ := Glob.matches_star_cons_iff.mp h'
      refine ⟨1 + n + m, ?_⟩
      have hrest : t = (s.drop str).drop (1 + n) := by
        have := congrArg (List.drop w.length) ht
        rw [List.drop_left, List.drop_drop] at this
        have hname' := congrArg (List.drop (w.length + (1 + n))) hname
        rw [List.drop_length_add_append, List.drop_drop] at hname'
        rw [← this, ← hname']
        congr 1
        omega
      rwa [hrest, List.drop_drop] at h'
  · exact Or.inl

/-- A byte that the pattern does not have cannot be passed. -/
theorem not_matches_of_mismatch (hlt : str < s.length)
    (hpass : ¬(p < pattern.length ∧ pattern[p]? = s[str]?))
    (hstar : ¬(p < pattern.length ∧ pattern[p]? = some star)) :
    ¬Matches star (pattern.drop p) (s.drop str) := by
  rw [drop_eq_cons (List.getElem?_eq_getElem hlt)]
  by_cases hp : p < pattern.length
  · rw [List.getElem?_eq_getElem hp] at hpass hstar
    rw [List.getElem?_eq_getElem hlt] at hpass
    simp only [hp, true_and, Option.some_inj] at hpass hstar
    rw [drop_eq_cons (List.getElem?_eq_getElem hp), Glob.matches_cons_cons_iff hstar]
    exact fun h => hpass h.1
  · rw [List.drop_eq_nil_iff.mpr (by omega), Glob.matches_nil_left_iff]
    exact List.cons_ne_nil _ _

/-- On a mismatch, the last star takes one more byte. -/
theorem open_back (h : ¬Matches star (pattern.drop p) (s.drop str)) :
    Open pattern s p str (some k) strBackup ↔
      Open pattern s (k + 1) (strBackup + 1) (some k) (strBackup + 1) := by
  constructor
  · rintro (h' | ⟨_, hk, n, h'⟩)
    · exact absurd h' h
    · cases hk
      cases n with
      | zero => exact Or.inl h'
      | succ n => exact Or.inr ⟨k, rfl, n, by rwa [Nat.add_assoc _ 1 n, Nat.add_comm 1 n]⟩
  · rintro (h' | ⟨_, hk, n, h'⟩)
    · exact Or.inr ⟨k, rfl, 0, h'⟩
    · cases hk
      exact Or.inr ⟨k, rfl, n + 1, by rwa [Nat.add_assoc _ 1 n, Nat.add_comm 1 n] at h'⟩

/-- At the end of the name, only stars may be left of the pattern. -/
theorem open_end (h : ∀ k, last = some k → Since pattern s p str strBackup k) (hend : ¬str < s.length) :
    Open pattern s p str last strBackup ↔ ∀ a ∈ pattern.drop p, a = star := by
  have hnil : s.drop str = [] := List.drop_eq_nil_iff.mpr (by omega)
  rw [Open, hnil, ← Glob.matches_nil_right_iff]
  constructor
  · rintro (h' | ⟨k, hk, n, h'⟩)
    · exact h'
    · obtain ⟨w, hpattern, hname, -⟩ := h k hk
      rw [hpattern] at h'
      refine h'.matches_nil ?_
      rw [hnil, List.append_nil] at hname
      rw [← hname, Nat.add_assoc, ← List.drop_drop]
      exact List.drop_suffix _ _
  · exact Or.inl

theorem isEmpty_dropWhile_iff (l : List UInt8) :
    (l.dropWhile (· == star)).isEmpty = true ↔ ∀ a ∈ l, a = star := by
  simp [List.dropWhile_eq_nil_iff]

/-- **The two pointers find out whether the rest can be matched.** -/
theorem scan_iff_open (hs : star ∉ s.dropLast) (hle : strBackup ≤ str)
    (h : ∀ k, last = some k → Since pattern s p str strBackup k) :
    scan pattern s p str last strBackup hle = true ↔ Open pattern s p str last strBackup := by
  fun_induction scan pattern s p str last strBackup hle with
  | case1 p str last strBackup hle hlt hpass ih =>
    obtain ⟨b, hb⟩ : ∃ b, s[str]? = some b := ⟨_, List.getElem?_eq_getElem hlt⟩
    have hp := hpass.2.trans hb
    rw [ih fun k hk => since_pass (h k hk) hs hp hb, Open, Open, matches_pass hs hp hb]
  | case2 p str last strBackup hle hlt _ hstar ih =>
    rw [open_star h hlt hstar.2]
    refine ih fun k hk => ?_
    cases hk
    exact since_self pattern s p str
  | case3 p str strBackup hle hlt hpass hstar k ih =>
    rw [open_back (not_matches_of_mismatch hlt hpass hstar)]
    refine ih fun k' hk => ?_
    cases hk
    exact since_self pattern s k (strBackup + 1)
  | case4 p str strBackup hle hlt hpass hstar =>
    simp [Open, not_matches_of_mismatch hlt hpass hstar]
  | case5 p str last strBackup hle hend =>
    rw [open_end h hend, isEmpty_dropWhile_iff]

/-- **With a star at most at the end of the name, a name matches as the pattern says.** -/
theorem wildcardMatch_iff_matches {s : List UInt8} (hs : star ∉ s.dropLast) (pattern : List UInt8) :
    wildcardMatch pattern s = true ↔ Matches star pattern s := by
  rw [wildcardMatch, scan_iff_open hs le_rfl (by simp)]
  simp [Open]

end Rpc

end Komari
