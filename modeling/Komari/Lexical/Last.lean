import Komari.Lexical.Clean
import Mathlib.Data.List.DropRight

/-!
# The first and the last name in a text
-/

namespace Komari

namespace Lexical

variable {γ : Type*} {sep : γ → Bool} {s t before word after : List γ}

/-! ### Separators -/

/-- Separators only. -/
def Blank (sep : γ → Bool) (s : List γ) : Prop := ∀ c ∈ s, sep c = true

/-- The text is empty or ends with a separator. -/
def AtBreak (sep : γ → Bool) (s : List γ) : Prop := ∀ c ∈ s.getLast?, sep c = true

theorem blank_nil : Blank sep [] := by simp [Blank]

theorem blank_append : Blank sep (s ++ t) ↔ Blank sep s ∧ Blank sep t := by
  simp [Blank, or_imp, forall_and]

theorem Blank.atBreak (h : Blank sep s) : AtBreak sep s := fun c hc => h c (List.mem_of_getLast? hc)

theorem Blank.rdropWhile (h : Blank sep s) : s.rdropWhile sep = [] := List.rdropWhile_eq_nil_iff.mpr h

theorem rdropWhile_append_of_all {p : γ → Bool} (h : ∀ c ∈ t, p c = true) (s : List γ) :
    (s ++ t).rdropWhile p = s.rdropWhile p := by
  induction t using List.reverseRecOn with
  | nil => rw [List.append_nil]
  | append_singleton t c ih =>
    rw [← List.append_assoc, List.rdropWhile_concat_pos p _ c (h c (by simp))]
    exact ih fun d hd => h d (by simp [hd])

theorem rdropWhile_append_of_ne {p : γ → Bool} (h : t.rdropWhile p ≠ []) (s : List γ) :
    (s ++ t).rdropWhile p = s ++ t.rdropWhile p := by
  induction t using List.reverseRecOn with
  | nil => exact absurd rfl h
  | append_singleton t c ih =>
    rw [← List.append_assoc]
    by_cases hc : p c = true
    · rw [List.rdropWhile_concat_pos _ _ _ hc] at h
      rw [List.rdropWhile_concat_pos _ _ _ hc, List.rdropWhile_concat_pos _ _ _ hc, ih h]
    · rw [List.rdropWhile_concat_neg _ _ _ hc, List.rdropWhile_concat_neg _ _ _ hc, List.append_assoc]

theorem Blank.rdropWhile_append (h : Blank sep t) (s : List γ) : (s ++ t).rdropWhile sep = s.rdropWhile sep :=
  rdropWhile_append_of_all h s

theorem fields_append_blank (h : Blank sep t) (s : List γ) : fields sep (s ++ t) = fields sep s := by
  induction t using List.reverseRecOn with
  | nil => rw [List.append_nil]
  | append_singleton t c ih =>
    rw [blank_append] at h
    rw [← List.append_assoc, fields_append_singleton (h.2 c (by simp)), ih h.1]

theorem fields_blank_append (h : Blank sep t) (s : List γ) : fields sep (t ++ s) = fields sep s := by
  induction t with
  | nil => rfl
  | cons c t ih =>
    rw [List.cons_append, fields_cons_sep (h c (by simp)), ih fun d hd => h d (by simp [hd])]

theorem Blank.fields (h : Blank sep s) : fields sep s = [] := by
  rw [← List.nil_append s, fields_append_blank h, fields_nil]

/-- A text before a break, and what stands behind it. -/
theorem AtBreak.fields_append (h : AtBreak sep s) (t : List γ) :
    Lexical.fields sep (s ++ t) = Lexical.fields sep s ++ Lexical.fields sep t := by
  induction s using List.reverseRecOn with
  | nil => rfl
  | append_singleton s c =>
    have hc : sep c = true := h c (by simp)
    rw [List.append_assoc, List.singleton_append, fields_append_sep hc, fields_append_singleton hc]

/-! ### The last name -/

/-- A text, cut before and behind its last name. -/
structure Ends (sep : γ → Bool) (s before word after : List γ) : Prop where
  eq : s = before ++ word ++ after
  atBreak : AtBreak sep before
  name : Name sep word
  blank : Blank sep after

theorem ends_name (h : Name sep word) : Ends sep word [] word [] :=
  ⟨by simp, blank_nil.atBreak, h, blank_nil⟩

theorem Name.rdropWhile_append (h : Name sep word) (s : List γ) : (s ++ word).rdropWhile sep = s ++ word := by
  rw [List.rdropWhile_eq_self_iff]
  intro hne
  rw [List.getLast_append_of_ne_nil _ h.1]
  simp [h.2 _ (List.getLast_mem h.1)]

theorem Name.all_not (h : Name sep word) : ∀ c ∈ word, (!sep c) = true := fun c hc => by simp [h.2 c hc]

theorem AtBreak.rdropWhile_not (h : AtBreak sep s) : s.rdropWhile (fun c => !sep c) = s := by
  rw [List.rdropWhile_eq_self_iff]
  intro hne
  simp [h _ (List.getLast?_eq_some_getLast hne)]

section

variable (h : Ends sep s before word after)

include h

theorem Ends.trimmed : s.rdropWhile sep = before ++ word := by
  rw [h.eq, h.blank.rdropWhile_append, h.name.rdropWhile_append]

theorem Ends.cutLast : (s.rdropWhile sep).rdropWhile (fun c => !sep c) = before := by
  rw [h.trimmed, rdropWhile_append_of_all h.name.all_not, h.atBreak.rdropWhile_not]

theorem Ends.takeLast : (s.rdropWhile sep).rtakeWhile (fun c => !sep c) = word := by
  have hsplit := @List.rdropWhile_append_rtakeWhile _ (fun c => !sep c) (s.rdropWhile sep)
  rw [h.cutLast, h.trimmed] at hsplit
  rw [h.trimmed]
  exact List.append_cancel_left hsplit

theorem Ends.unique {before' word' after' : List γ}
    (h' : Ends sep s before' word' after') : before = before' ∧ word = word' :=
  ⟨h.cutLast.symm.trans h'.cutLast, h.takeLast.symm.trans h'.takeLast⟩

end

theorem atBreak_rdropWhile_not (s : List γ) : AtBreak sep (s.rdropWhile fun c => !sep c) := by
  intro c hc
  have hne : s.rdropWhile (fun c => !sep c) ≠ [] := by
    intro hnil
    rw [hnil] at hc
    cases hc
  have hlast := List.rdropWhile_last_not (fun c => !sep c) s hne
  rw [List.getLast?_eq_some_getLast hne, Option.mem_some_iff] at hc
  rw [← hc]
  simpa using hlast

theorem Ends.append_blank (h : Ends sep s before word after) (ht : Blank sep t) :
    Ends sep (s ++ t) before word (after ++ t) :=
  ⟨by rw [h.eq, List.append_assoc], h.atBreak, h.name, blank_append.mpr ⟨h.blank, ht⟩⟩

/-- **Every text that is not blank has a last name.** -/
theorem exists_ends (h : ¬Blank sep s) : ∃ before word after, Ends sep s before word after := by
  induction s using List.reverseRecOn with
  | nil => exact absurd blank_nil h
  | append_singleton s c ih =>
    cases hc : sep c with
    | true =>
      have hblank : Blank sep [c] := by simp [Blank, hc]
      obtain ⟨before, word, after, hs⟩ := ih fun hs => h (blank_append.mpr ⟨hs, hblank⟩)
      exact ⟨before, word, after ++ [c], hs.append_blank hblank⟩
    | false =>
      refine ⟨s.rdropWhile fun c => !sep c, (s.rtakeWhile fun c => !sep c) ++ [c], [], ?_,
        atBreak_rdropWhile_not s, ⟨by simp, ?_⟩, blank_nil⟩
      · rw [List.append_nil, ← List.append_assoc, List.rdropWhile_append_rtakeWhile]
      · intro d hd
        rcases List.mem_append.mp hd with hd | hd
        · simpa using List.mem_rtakeWhile_imp hd
        · rw [List.mem_singleton.mp hd, hc]

theorem Ends.begins (h : Ends sep s before word after) : before.rdropWhile sep <+: s := by
  have hbefore := List.rdropWhile_prefix sep before
  exact hbefore.trans ⟨word ++ after, by rw [h.eq, List.append_assoc]⟩

theorem Ends.not_blank (h : Ends sep s before word after) : ¬Blank sep s := by
  intro hs
  obtain ⟨c, word, rfl⟩ := List.exists_cons_of_ne_nil h.name.1
  have hc := h.name.2 c (by simp)
  rw [hs c (by simp [h.eq])] at hc
  cases hc

/-- More text at the beginning, that ends with a separator if the name stood at the beginning. -/
theorem Ends.append_left (h : Ends sep s before word after) (ht : before = [] → AtBreak sep t) :
    Ends sep (t ++ s) (t ++ before) word after := by
  refine ⟨by rw [h.eq]; simp, ?_, h.name, h.blank⟩
  by_cases hnil : before = []
  · rw [hnil, List.append_nil]
    exact ht hnil
  · intro c hc
    rw [List.getLast?_append_of_ne_nil _ hnil] at hc
    exact h.atBreak c hc

theorem Ends.map {δ : Type*} {sep' : δ → Bool} {f : γ → δ} (hf : ∀ c, sep' (f c) = sep c)
    (h : Ends sep s before word after) : Ends sep' (s.map f) (before.map f) (word.map f) (after.map f) := by
  refine ⟨by rw [h.eq]; simp, fun c hc => ?_, ⟨by simpa using h.name.1, fun c hc => ?_⟩, fun c hc => ?_⟩
  · rw [List.getLast?_map] at hc
    obtain ⟨d, hd, rfl⟩ := Option.map_eq_some_iff.mp hc
    rw [hf, h.atBreak d hd]
  · obtain ⟨d, hd, rfl⟩ := List.mem_map.mp hc
    rw [hf, h.name.2 d hd]
  · obtain ⟨d, hd, rfl⟩ := List.mem_map.mp hc
    rw [hf, h.blank d hd]

/-- The last name is the last of the names. -/
theorem Ends.fields (h : Ends sep s before word after) :
    Lexical.fields sep s = Lexical.fields sep before ++ [word] := by
  rw [h.eq, fields_append_blank h.blank, h.atBreak.fields_append, fields_name h.name]

/-! ### The first name -/

/-- A name that stands before a separator or the end. -/
theorem fields_name_append (hword : Name sep word) (ht : ∀ c ∈ t.head?, sep c = true) :
    fields sep (word ++ t) = word :: fields sep t := by
  cases t with
  | nil => rw [List.append_nil, fields_name hword, fields_nil]
  | cons c t =>
    have hc : sep c = true := ht c rfl
    rw [fields_append_sep hc, fields_name hword, fields_cons_sep hc, List.singleton_append]

/-- **The first name of a text**, and the names behind it. -/
theorem fields_eq_cons {words : List (List γ)} (h : fields sep s = word :: words) :
    ∃ t, s.dropWhile sep = word ++ t ∧ (∀ c ∈ t.head?, sep c = true) ∧ fields sep t = words := by
  have hfields : fields sep (s.dropWhile sep) = word :: words := by
    rw [← h]
    have hblank : Blank sep (s.takeWhile sep) := fun c hc => List.mem_takeWhile_imp hc
    rw [← fields_blank_append hblank (s.dropWhile sep), List.takeWhile_append_dropWhile]
  have hfirst := List.head?_dropWhile_not sep s
  generalize s.dropWhile sep = r at hfields hfirst
  have hne : r ≠ [] := by
    rintro rfl
    cases hfields
  obtain ⟨c, r, rfl⟩ := List.exists_cons_of_ne_nil hne
  have hcut : (c :: r).takeWhile (fun c => !sep c) ++ (c :: r).dropWhile (fun c => !sep c) = c :: r :=
    List.takeWhile_append_dropWhile
  have hname : Name sep ((c :: r).takeWhile fun c => !sep c) := by
    refine ⟨by simpa using hfirst, fun d hd => ?_⟩
    simpa using List.mem_takeWhile_imp hd
  have hbreak : ∀ d ∈ ((c :: r).dropWhile fun c => !sep c).head?, sep d = true := by
    intro d hd
    have hnot := List.head?_dropWhile_not (fun c => !sep c) (c :: r)
    rw [hd] at hnot
    simpa using hnot
  rw [← hcut, fields_name_append hname hbreak, List.cons.injEq] at hfields
  refine ⟨_, ?_, hbreak, hfields.2⟩
  rw [← hfields.1, hcut]

end Lexical

end Komari
