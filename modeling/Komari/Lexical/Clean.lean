import Mathlib.Data.List.Basic
import Mathlib.Data.List.Infix

/-!
# Lexical paths

A path is a list of names, in which some names say nothing, and one leads to the parent.
-/

namespace Komari

namespace Lexical

/-! ### Clean paths -/

section Clean

variable {α : Type*} [DecidableEq α]

/-- One part of a path. -/
def step (skip : α → Bool) (up : α) (absolute : Bool) (result : List α) (part : α) : List α :=
  if skip part then result
  else if part = up then
    match result.getLast? with
    | some last =>
      if last ≠ up then result.dropLast else if absolute then result else result ++ [part]
    | none => if absolute then result else result ++ [part]
  else result ++ [part]

/-- The path without such names; only parents at its beginning are left, and none if it is absolute.
-/
def clean (skip : α → Bool) (up : α) (absolute : Bool) (parts : List α) : List α :=
  parts.foldl (step skip up absolute) []

/-- Neither skipped nor a step up. -/
def Proper (skip : α → Bool) (up : α) (x : α) : Prop := skip x = false ∧ x ≠ up

/-- Parents, if any, stand at the beginning, and only of a path that is not absolute. -/
def Normal (skip : α → Bool) (up : α) (absolute : Bool) (parts : List α) : Prop :=
  ∃ n names, parts = List.replicate n up ++ names ∧ (∀ x ∈ names, Proper skip up x) ∧
    (absolute = true → n = 0)

variable {skip : α → Bool} {up : α} {absolute : Bool}

theorem step_skip {part : α} (h : skip part = true) (result : List α) :
    step skip up absolute result part = result := by
  rw [step, if_pos h]

theorem step_proper {part : α} (h : Proper skip up part) (result : List α) :
    step skip up absolute result part = result ++ [part] := by
  rw [step, if_neg (by simp [h.1]), if_neg h.2]

section

variable (hup : skip up = false)

include hup

theorem step_up_append_singleton {x : α} (hx : x ≠ up) (result : List α) :
    step skip up absolute (result ++ [x]) up = result := by
  simp [step, hup, hx]

theorem step_up_replicate (n : ℕ) :
    step skip up absolute (List.replicate n up) up =
      if absolute then List.replicate n up else List.replicate (n + 1) up := by
  have hlast : ∀ x, (List.replicate n up).getLast? = some x → x = up := by
    intro x hx
    exact List.eq_of_mem_replicate (List.mem_of_getLast? hx)
  rw [step, if_neg (by simp [hup]), if_pos rfl]
  split
  case h_1 x hx =>
    rw [if_neg (not_not.mpr (hlast x hx)), ← List.replicate_succ']
  case h_2 => rw [← List.replicate_succ']

theorem Normal.step {result : List α} (h : Normal skip up absolute result) (part : α) :
    Normal skip up absolute (step skip up absolute result part) := by
  obtain ⟨n, names, rfl, hnames, hzero⟩ := h
  by_cases hskip : skip part = true
  · rw [step_skip hskip]
    exact ⟨n, names, rfl, hnames, hzero⟩
  rw [Bool.not_eq_true] at hskip
  by_cases hpart : part = up
  · subst hpart
    rcases List.eq_nil_or_concat names with rfl | ⟨names', x, rfl⟩
    · rw [List.append_nil, step_up_replicate hup]
      split_ifs with habsolute
      · exact ⟨n, [], (List.append_nil _).symm, by simp, hzero⟩
      · exact ⟨n + 1, [], (List.append_nil _).symm, by simp, fun h => absurd h habsolute⟩
    · have hx := hnames x (by simp)
      rw [List.concat_eq_append, ← List.append_assoc, step_up_append_singleton hup hx.2]
      exact ⟨n, names', rfl, fun y hy => hnames y (by simp [hy]), hzero⟩
  · rw [step_proper ⟨hskip, hpart⟩, List.append_assoc]
    refine ⟨n, names ++ [part], rfl, fun x hx => ?_, hzero⟩
    rcases List.mem_append.mp hx with hx | hx
    · exact hnames x hx
    · rw [List.mem_singleton.mp hx]
      exact ⟨hskip, hpart⟩

theorem normal_foldl (parts : List α) {result : List α} (h : Normal skip up absolute result) :
    Normal skip up absolute (parts.foldl (step skip up absolute) result) := by
  induction parts generalizing result with
  | nil => exact h
  | cons part parts ih => exact ih (h.step hup part)

/-- **The form of a clean path.** -/
theorem normal_clean (parts : List α) : Normal skip up absolute (clean skip up absolute parts) :=
  normal_foldl hup parts ⟨0, [], rfl, by simp, fun _ => rfl⟩

end

theorem foldl_proper (result : List α) {names : List α} (h : ∀ x ∈ names, Proper skip up x) :
    names.foldl (step skip up absolute) result = result ++ names := by
  induction names generalizing result with
  | nil => exact (List.append_nil result).symm
  | cons x names ih =>
    rw [List.foldl_cons, step_proper (h x List.mem_cons_self), ih _ fun y hy => h y (List.mem_cons_of_mem _ hy),
      List.append_assoc, List.singleton_append]

/-- **A clean path is clean.** -/
theorem clean_of_normal (hup : skip up = false) {parts : List α} (h : Normal skip up absolute parts) :
    clean skip up absolute parts = parts := by
  obtain ⟨n, names, rfl, hnames, hzero⟩ := h
  rw [clean, List.foldl_append]
  have hparents : (List.replicate n up).foldl (step skip up absolute) [] = List.replicate n up := by
    cases absolute with
    | true => rw [hzero rfl]; rfl
    | false =>
      clear hzero
      induction n with
      | zero => rfl
      | succ n ih =>
        rw [List.replicate_succ', List.foldl_append, ih, List.foldl_cons, List.foldl_nil, step_up_replicate hup,
          if_neg Bool.false_ne_true, List.replicate_succ']
  rw [hparents, foldl_proper _ hnames]

theorem clean_append (parts parts' : List α) :
    clean skip up absolute (parts ++ parts') =
      parts'.foldl (step skip up absolute) (clean skip up absolute parts) := List.foldl_append

theorem clean_clean_append (hup : skip up = false) (parts parts' : List α) :
    clean skip up absolute (clean skip up absolute parts ++ parts') =
      clean skip up absolute (parts ++ parts') := by
  rw [clean_append, clean_append, clean_of_normal hup (normal_clean hup parts)]

theorem foldl_up (hup : skip up = false) (result : List α) {names : List α} (h : ∀ x ∈ names, x ≠ up) :
    (List.replicate names.length up).foldl (step skip up absolute) (result ++ names) = result := by
  induction names using List.reverseRecOn with
  | nil => simp
  | append_singleton names x ih =>
    rw [List.length_append, List.length_singleton, List.replicate_succ, List.foldl_cons, ← List.append_assoc,
      step_up_append_singleton hup (h x (by simp))]
    exact ih fun y hy => h y (by simp [hy])

omit [DecidableEq α] in
theorem Normal.proper {parts : List α} (h : Normal skip up true parts) : ∀ x ∈ parts, Proper skip up x := by
  obtain ⟨n, names, rfl, hnames, hzero⟩ := h
  rw [hzero rfl]
  simpa using hnames

/-- **From one absolute path up to what it shares with another, and on to the other.** -/
theorem clean_relative (hup : skip up = false) {shared rest rest' : List α}
    (h : Normal skip up true (shared ++ rest)) (h' : ∀ x ∈ rest', Proper skip up x) :
    clean skip up true (shared ++ rest ++ (List.replicate rest.length up ++ rest')) = shared ++ rest' := by
  have hrest : ∀ x ∈ rest, x ≠ up := fun x hx => (h.proper x (List.mem_append_right _ hx)).2
  rw [clean_append, clean_of_normal hup h, List.foldl_append, foldl_up hup shared hrest, foldl_proper _ h']

theorem mem_step {result : List α} {part x : α} (h : x ∈ step skip up absolute result part) :
    x ∈ result ∨ x = part := by
  have happend : x ∈ result ++ [part] → x ∈ result ∨ x = part := by simp
  by_cases hskip : skip part = true
  · rw [step_skip hskip] at h
    exact .inl h
  by_cases hup : part = up
  · rw [step, if_neg hskip, if_pos hup] at h
    cases hlast : result.getLast? with
    | none =>
      simp only [hlast] at h
      split_ifs at h
      · exact .inl h
      · exact happend h
    | some last =>
      simp only [hlast] at h
      split_ifs at h
      · exact .inl (List.mem_of_mem_dropLast h)
      · exact .inl h
      · exact happend h
  · rw [step, if_neg hskip, if_neg hup] at h
    exact happend h

theorem mem_clean {parts : List α} {x : α} (h : x ∈ clean skip up absolute parts) : x ∈ parts := by
  have hall : ∀ (parts result : List α), x ∈ parts.foldl (step skip up absolute) result →
      x ∈ result ∨ x ∈ parts := by
    intro parts
    induction parts with
    | nil => exact fun result h => .inl h
    | cons part parts ih =>
      intro result h
      rcases ih _ h with hstep | hrest
      · rcases mem_step hstep with hmem | rfl
        · exact .inl hmem
        · exact .inr List.mem_cons_self
      · exact .inr (List.mem_cons_of_mem _ hrest)
  exact (hall parts [] h).resolve_left List.not_mem_nil

end Clean

/-! ### Names in a text -/

section Fields

variable {γ : Type*} (sep : γ → Bool)

/-- The names in a text, after the letters of a name that has begun. -/
def fieldsFrom (word : List γ) : List γ → List (List γ)
  | [] => if word.isEmpty then [] else [word]
  | c :: s =>
    if sep c then if word.isEmpty then fieldsFrom [] s else word :: fieldsFrom [] s
    else fieldsFrom (word ++ [c]) s

/-- `strings.FieldsFunc`: the names in a text, between separators. -/
def fields (s : List γ) : List (List γ) := fieldsFrom sep [] s

/-- `strings.Join`. -/
def join (c : γ) (parts : List (List γ)) : List γ := [c].intercalate parts

/-- A name that is not empty and has no separator in it. -/
def Name (word : List γ) : Prop := word ≠ [] ∧ ∀ c ∈ word, sep c = false

variable {sep}

variable {c : γ}

theorem fieldsFrom_sep (h : sep c = true) (word s t : List γ) :
    fieldsFrom sep word (s ++ c :: t) = fieldsFrom sep word s ++ fields sep t := by
  induction s generalizing word with
  | nil =>
    simp only [List.nil_append, fieldsFrom, if_pos h]
    split_ifs <;> rfl
  | cons d s ih =>
    rw [List.cons_append, fieldsFrom, fieldsFrom]
    split_ifs
    · exact ih []
    · rw [ih [], List.cons_append]
    · exact ih _

theorem fields_append_sep (h : sep c = true) (s t : List γ) :
    fields sep (s ++ c :: t) = fields sep s ++ fields sep t := fieldsFrom_sep h [] s t

@[simp] theorem fields_nil : fields sep [] = [] := rfl

theorem fields_cons_sep (h : sep c = true) (s : List γ) : fields sep (c :: s) = fields sep s :=
  fields_append_sep h [] s

theorem fields_append_singleton (h : sep c = true) (s : List γ) :
    fields sep (s ++ [c]) = fields sep s := by
  rw [fields_append_sep h, fields_nil, List.append_nil]

theorem fieldsFrom_word {word s : List γ} (hs : ∀ c ∈ s, sep c = false) (hne : word ++ s ≠ []) :
    fieldsFrom sep word s = [word ++ s] := by
  induction s generalizing word with
  | nil =>
    rw [List.append_nil] at hne ⊢
    rw [fieldsFrom, if_neg (by simpa using hne)]
  | cons c s ih =>
    rw [fieldsFrom, if_neg (by simp [hs c List.mem_cons_self]),
      ih (fun d hd => hs d (List.mem_cons_of_mem _ hd)) (by simp), List.append_assoc, List.singleton_append]

theorem fields_name {word : List γ} (h : Name sep word) : fields sep word = [word] :=
  fieldsFrom_word h.2 h.1

theorem name_of_mem_fields {s word : List γ} (h : word ∈ fields sep s) : Name sep word := by
  have hall : ∀ (s begun : List γ), (∀ c ∈ begun, sep c = false) → ∀ w ∈ fieldsFrom sep begun s, Name sep w := by
    intro s
    induction s with
    | nil =>
      intro begun hbegun w hw
      rw [fieldsFrom] at hw
      split_ifs at hw with hempty
      · cases hw
      · rw [List.mem_singleton.mp hw]
        exact ⟨by simpa using hempty, hbegun⟩
    | cons c s ih =>
      intro begun hbegun w hw
      rw [fieldsFrom] at hw
      split_ifs at hw with hsep hempty
      · exact ih [] (by simp) w hw
      · rcases List.mem_cons.mp hw with rfl | hw
        · exact ⟨by simpa using hempty, hbegun⟩
        · exact ih [] (by simp) w hw
      · refine ih (begun ++ [c]) (fun d hd => ?_) w hw
        rcases List.mem_append.mp hd with hd | hd
        · exact hbegun d hd
        · rw [List.mem_singleton.mp hd]
          simpa using hsep
  exact hall s [] (by simp) word h

theorem fields_congr {sep' : γ → Bool} {s : List γ} (h : ∀ c ∈ s, sep c = sep' c) :
    fields sep s = fields sep' s := by
  have hall : ∀ (s word : List γ), (∀ c ∈ s, sep c = sep' c) → fieldsFrom sep word s = fieldsFrom sep' word s := by
    intro s
    induction s with
    | nil => exact fun _ _ => rfl
    | cons c s ih =>
      intro word h
      have hrest : ∀ d ∈ s, sep d = sep' d := fun d hd => h d (List.mem_cons_of_mem _ hd)
      rw [fieldsFrom, fieldsFrom, h c List.mem_cons_self, ih [] hrest, ih _ hrest]
  exact hall s [] h

/-! ### Joined names -/

@[simp] theorem join_nil (c : γ) : join c ([] : List (List γ)) = [] := rfl

@[simp] theorem join_singleton (c : γ) (word : List γ) : join c [word] = word := by
  simp [join, List.intercalate]

theorem join_cons_cons (c : γ) (word word' : List γ) (words : List (List γ)) :
    join c (word :: word' :: words) = word ++ c :: join c (word' :: words) := by
  simp [join, List.intercalate_cons_cons]

variable {words : List (List γ)}

/-- **Names that are joined are found again.** -/
theorem fields_join (hc : sep c = true) (h : ∀ w ∈ words, Name sep w) :
    fields sep (join c words) = words := by
  induction words with
  | nil => rfl
  | cons word words ih =>
    cases words with
    | nil => rw [join_singleton, fields_name (h word List.mem_cons_self)]
    | cons word' words =>
      rw [join_cons_cons, fields_append_sep hc, fields_name (h word List.mem_cons_self),
        ih fun w hw => h w (List.mem_cons_of_mem _ hw), List.singleton_append]

theorem join_eq_nil_iff (c : γ) (h : ∀ w ∈ words, Name sep w) : join c words = [] ↔ words = [] := by
  cases words with
  | nil => simp
  | cons word words =>
    have hne := (h word List.mem_cons_self).1
    cases words with
    | nil => simp [hne]
    | cons word' words => simp [join_cons_cons]

theorem head_join (h : ∀ w ∈ words, Name sep w) : ∀ d ∈ (join c words).head?, sep d = false := by
  cases words with
  | nil => simp
  | cons word words =>
    obtain ⟨hne, hsep⟩ := h word List.mem_cons_self
    obtain ⟨d, word, rfl⟩ := List.exists_cons_of_ne_nil hne
    have hd := hsep d List.mem_cons_self
    cases words with
    | nil => simpa using hd
    | cons word' words => simpa [join_cons_cons] using hd

theorem getLast_join (h : ∀ w ∈ words, Name sep w) :
    ∀ d ∈ (join c words).getLast?, sep d = false := by
  induction words with
  | nil => simp
  | cons word words ih =>
    obtain ⟨hne, hsep⟩ := h word List.mem_cons_self
    have hrest : ∀ w ∈ words, Name sep w := fun w hw => h w (List.mem_cons_of_mem _ hw)
    cases words with
    | nil =>
      rw [join_singleton]
      exact fun d hd => hsep d (List.mem_of_getLast? hd)
    | cons word' words =>
      have hne' : join c (word' :: words) ≠ [] := fun hnil => by
        simpa using (join_eq_nil_iff c hrest).mp hnil
      intro d hd
      rw [join_cons_cons, List.getLast?_append_of_ne_nil _ (by simp), List.getLast?_cons_of_ne_nil hne'] at hd
      exact ih hrest d hd

theorem mem_join {d : γ} (h : d ∈ join c words) : d = c ∨ ∃ w ∈ words, d ∈ w := by
  induction words with
  | nil => cases h
  | cons word words ih =>
    cases words with
    | nil =>
      rw [join_singleton] at h
      exact .inr ⟨word, List.mem_cons_self, h⟩
    | cons word' words =>
      rw [join_cons_cons, List.mem_append, List.mem_cons] at h
      rcases h with h | rfl | h
      · exact .inr ⟨word, List.mem_cons_self, h⟩
      · exact .inl rfl
      · refine (ih h).imp_right fun ⟨w, hw, hd⟩ => ⟨w, List.mem_cons_of_mem _ hw, hd⟩

end Fields

end Lexical

end Komari
