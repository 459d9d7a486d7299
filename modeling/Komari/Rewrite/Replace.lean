import Mathlib.Data.List.Infix
import Mathlib.Tactic.Linarith
import Mathlib.Tactic.Ring

/-!
# Replacing a word

All occurrences of a word in a text are replaced, from left to right.
-/

namespace Komari

namespace Rewrite

variable {α : Type*}

section

variable [DecidableEq α]

/-- `strings.ReplaceAll`, of a word that is not empty, after a number of letters that are skipped. -/
def replaceFrom (word new : List α) : ℕ → List α → List α
  | _, [] => []
  | skip + 1, _ :: s => replaceFrom word new skip s
  | 0, c :: s =>
    if word <+: c :: s then new ++ replaceFrom word new (word.length - 1) s
    else c :: replaceFrom word new 0 s

/-- `strings.ReplaceAll`, of a word that is not empty. -/
def replaceAll (word new s : List α) : List α := replaceFrom word new 0 s

/-- The number of places at which a word begins. -/
def occurrences (word s : List α) : ℕ := s.tails.countP fun t => word <+: t

end

/-- A word that is not empty and does not overlap itself. -/
def Unbordered (word : List α) : Prop :=
  word ≠ [] ∧ ∀ n, 0 < n → n < word.length → ¬word.drop n <+: word

/-- A text with marks, which stand for a word. -/
def flat (word : List α) (marked : List (Option α)) : List α :=
  marked.flatMap fun x => x.elim word fun c => [c]

/-! ### Occurrences -/

variable {word new : List α}

@[simp] theorem flat_nil : flat word ([] : List (Option α)) = [] := rfl

@[simp] theorem flat_none (marked : List (Option α)) : flat word (none :: marked) = word ++ flat word marked := rfl

@[simp] theorem flat_some (c : α) (marked : List (Option α)) :
    flat word (some c :: marked) = c :: flat word marked := rfl

theorem flat_map_some_append (l : List α) (marked : List (Option α)) :
    flat word (l.map some ++ marked) = l ++ flat word marked := by
  induction l with
  | nil => rfl
  | cons c l ih => rw [List.map_cons, List.cons_append, flat_some, ih, List.cons_append]

theorem Unbordered.ne_nil (h : Unbordered word) : word ≠ [] := h.1

theorem Unbordered.not_prefix (h : Unbordered word) {n : ℕ} (hpos : 0 < n) (hlt : n < word.length)
    (s : List α) : ¬word <+: word.drop n ++ s := by
  intro hocc
  refine h.2 n hpos hlt ?_
  exact List.prefix_of_prefix_length_le (List.prefix_append _ _) hocc (by simp)

variable [DecidableEq α]

theorem occurrences_nil (h : word ≠ []) : occurrences word [] = 0 := by
  simp [occurrences, h]

theorem occurrences_cons (c : α) (s : List α) :
    occurrences word (c :: s) = occurrences word s + if word <+: c :: s then 1 else 0 := by
  rw [occurrences, List.tails_cons, List.countP_cons]
  simp only [occurrences, decide_eq_true_eq]

theorem replaceFrom_append (n : ℕ) (s t : List α) (h : s.length = n) :
    replaceFrom word new n (s ++ t) = replaceFrom word new 0 t := by
  induction n generalizing s with
  | zero => rw [List.length_eq_zero_iff.mp h, List.nil_append]
  | succ n ih =>
    cases s with
    | nil => cases h
    | cons c s =>
      rw [List.cons_append, replaceFrom]
      exact ih s (Nat.succ.inj h)

theorem replaceAll_append (hne : word ≠ []) (s : List α) :
    replaceAll word new (word ++ s) = new ++ replaceAll word new s := by
  cases word with
  | nil => exact absurd rfl hne
  | cons c w =>
    rw [replaceAll, List.cons_append, replaceFrom, if_pos (by simp)]
    rw [List.length_cons, Nat.add_sub_cancel, replaceFrom_append w.length w s rfl]
    rfl

/-- Without an occurrence at the beginning the letter stays. -/
theorem replaceAll_cons_of_not {c : α} {s : List α} (h : ¬word <+: c :: s) :
    replaceAll word new (c :: s) = c :: replaceAll word new s := by
  rw [replaceAll, replaceFrom, if_neg h]
  rfl

theorem occurrences_drop_append (h : Unbordered word) {n : ℕ} (hpos : 0 < n) (hle : n ≤ word.length)
    (s : List α) : occurrences word (word.drop n ++ s) = occurrences word s := by
  induction hk : word.length - n generalizing n with
  | zero =>
    have hn : word.drop n = [] := List.drop_eq_nil_of_le (by omega)
    rw [hn, List.nil_append]
  | succ k ih =>
    have hlt : n < word.length := by omega
    have hnot := h.not_prefix hpos hlt s
    rw [List.drop_eq_getElem_cons hlt, List.cons_append] at hnot ⊢
    rw [occurrences_cons, if_neg hnot, Nat.add_zero]
    exact ih (Nat.succ_pos n) hlt (by omega)

theorem occurrences_append (h : Unbordered word) (s : List α) :
    occurrences word (word ++ s) = occurrences word s + 1 := by
  obtain ⟨c, w, rfl⟩ := List.exists_cons_of_ne_nil h.ne_nil
  rw [List.cons_append, occurrences_cons, if_pos (by simp)]
  congr 1
  exact occurrences_drop_append h (n := 1) Nat.one_pos (by simp) s

theorem count_le_occurrences (h : Unbordered word) (marked : List (Option α)) :
    marked.count none ≤ occurrences word (flat word marked) := by
  induction marked with
  | nil => simp
  | cons x marked ih =>
    cases x with
    | none =>
      rw [flat_none, occurrences_append h, List.count_cons_self]
      omega
    | some c =>
      rw [flat_some, occurrences_cons, List.count_cons_of_ne (by simp)]
      omega

/-- With no other occurrences, the marked ones are replaced. -/
theorem replaceAll_flat (h : Unbordered word) {marked : List (Option α)}
    (hcount : occurrences word (flat word marked) = marked.count none) :
    replaceAll word new (flat word marked) = flat new marked := by
  induction marked with
  | nil => rfl
  | cons x marked ih =>
    cases x with
    | none =>
      rw [flat_none, occurrences_append h, List.count_cons_self, Nat.add_right_cancel_iff] at hcount
      rw [flat_none, replaceAll_append h.ne_nil, ih hcount, flat_none]
    | some c =>
      rw [flat_some, occurrences_cons, List.count_cons_of_ne (by simp)] at hcount
      have hle := count_le_occurrences h marked
      have hnot : ¬word <+: c :: flat word marked := by
        intro hocc
        rw [if_pos hocc] at hcount
        omega
      rw [if_neg hnot] at hcount
      rw [flat_some, replaceAll_cons_of_not hnot, ih hcount, flat_some]

/-! ### Other occurrences -/

theorem replace_induction {motive : List α → Prop} (hne : word ≠ []) (nil : motive [])
    (occurrence : ∀ t, motive t → motive (word ++ t))
    (letter : ∀ c t, ¬word <+: c :: t → motive t → motive (c :: t)) (s : List α) : motive s := by
  induction hn : s.length using Nat.strong_induction_on generalizing s with
  | _ n ih =>
    cases s with
    | nil => exact nil
    | cons c t =>
      by_cases hocc : word <+: c :: t
      · obtain ⟨t', ht'⟩ := hocc
        rw [← ht'] at hn ⊢
        have hpos := List.length_pos_iff.mpr hne
        rw [List.length_append] at hn
        exact occurrence t' (ih t'.length (by omega) t' rfl)
      · rw [List.length_cons] at hn
        exact letter c t hocc (ih t.length (by omega) t rfl)

theorem length_replaceAll (h : Unbordered word) (s : List α) :
    (replaceAll word new s).length + occurrences word s * word.length =
      s.length + occurrences word s * new.length := by
  induction s using replace_induction h.ne_nil with
  | nil => simp [replaceAll, replaceFrom, occurrences_nil h.ne_nil]
  | occurrence t ih =>
    rw [replaceAll_append h.ne_nil, occurrences_append h, List.length_append, List.length_append]
    linarith
  | letter c t hnot ih =>
    rw [replaceAll_cons_of_not hnot, occurrences_cons, if_neg hnot, List.length_cons, List.length_cons]
    linarith

theorem length_flat (marked : List (Option α)) :
    (flat new marked).length + marked.count none * word.length =
      (flat word marked).length + marked.count none * new.length := by
  induction marked with
  | nil => simp
  | cons x marked ih =>
    cases x with
    | none =>
      rw [flat_none, flat_none, List.count_cons_self, List.length_append, List.length_append]
      linarith
    | some c =>
      rw [flat_some, flat_some, List.count_cons_of_ne (by simp), List.length_cons, List.length_cons]
      linarith

omit [DecidableEq α] in
/-- The rest of an occurrence has no mark in it. -/
theorem exists_of_flat_eq (h : Unbordered word) {marked : List (Option α)} {n : ℕ} (hpos : 0 < n)
    (hle : n ≤ word.length) {rest : List α} (heq : flat word marked = word.drop n ++ rest) :
    ∃ marked', marked = (word.drop n).map some ++ marked' ∧ flat word marked' = rest := by
  induction hk : word.length - n generalizing n marked with
  | zero =>
    have hn : word.drop n = [] := List.drop_eq_nil_of_le (by omega)
    rw [hn, List.nil_append] at heq
    exact ⟨marked, by rw [hn]; rfl, heq⟩
  | succ k ih =>
    have hlt : n < word.length := by omega
    cases marked with
    | nil =>
      rw [List.drop_eq_getElem_cons hlt] at heq
      cases heq
    | cons x marked =>
      cases x with
      | none =>
        exact absurd (heq ▸ List.prefix_append _ _) (h.not_prefix hpos hlt rest)
      | some c =>
        rw [List.drop_eq_getElem_cons hlt, flat_some, List.cons_append] at heq
        obtain ⟨hc, heq⟩ := List.cons.inj heq
        obtain ⟨marked', hmarked, hrest⟩ := ih (Nat.succ_pos n) hlt heq (by omega)
        exact ⟨marked', by rw [List.drop_eq_getElem_cons hlt, hmarked, hc]; rfl, hrest⟩

/-- Another word of the same length shows where it was put. -/
theorem occurrences_eq_of_length_eq (h : Unbordered word) (hne : new ≠ word)
    (hlength : new.length = word.length) {marked : List (Option α)}
    (heq : replaceAll word new (flat word marked) = flat new marked) :
    occurrences word (flat word marked) = marked.count none := by
  induction marked with
  | nil => exact occurrences_nil h.ne_nil
  | cons x marked ih =>
    cases x with
    | none =>
      rw [flat_none, replaceAll_append h.ne_nil, flat_none] at heq
      rw [flat_none, occurrences_append h, List.count_cons_self, ih (List.append_cancel_left heq)]
    | some c =>
      by_cases hocc : word <+: c :: flat word marked
      · exfalso
        obtain ⟨rest, hrest⟩ := hocc
        have hpos := List.length_pos_iff.mpr h.ne_nil
        have hcons : flat word (some c :: marked) = word.drop 0 ++ rest := hrest.symm
        have hhead : word = c :: word.drop 1 := by
          have hword := List.drop_eq_getElem_cons hpos
          rw [List.drop_zero] at hword
          rw [hword] at hrest
          rw [hword, ← (List.cons.inj hrest).1]
          rfl
        have hcut := (congrArg (· ++ rest) hhead).symm.trans hrest
        have htail : flat word marked = word.drop 1 ++ rest := (List.cons.inj hcut).2.symm
        obtain ⟨marked', rfl, -⟩ := exists_of_flat_eq h Nat.one_pos hpos htail
        have hall : flat new (some c :: ((word.drop 1).map some ++ marked')) = word ++ flat new marked' := by
          rw [flat_some, flat_map_some_append, ← List.cons_append, ← hhead]
        rw [hall, flat_some, ← hrest, replaceAll_append h.ne_nil] at heq
        exact hne (List.append_inj heq hlength).1
      · rw [flat_some, replaceAll_cons_of_not hocc, flat_some] at heq
        rw [flat_some, occurrences_cons, if_neg hocc, List.count_cons_of_ne (by simp),
          ih (List.cons.inj heq).2]
        rfl

theorem replaceAll_self (h : Unbordered word) (s : List α) : replaceAll word word s = s := by
  induction s using replace_induction h.ne_nil with
  | nil => rfl
  | occurrence t ih => rw [replaceAll_append h.ne_nil, ih]
  | letter c t hnot ih => rw [replaceAll_cons_of_not hnot, ih]

/-- **Only the marked occurrences are replaced exactly if there are no others**, or if the word is replaced by
itself. -/
theorem replaceAll_flat_iff (h : Unbordered word) (marked : List (Option α)) :
    replaceAll word new (flat word marked) = flat new marked ↔
      new = word ∨ occurrences word (flat word marked) = marked.count none := by
  constructor
  · intro heq
    by_cases hne : new = word
    · exact .inl hne
    refine .inr ?_
    by_cases hlength : new.length = word.length
    · exact occurrences_eq_of_length_eq h hne hlength heq
    · -- the lengths count the occurrences
      have hreplace := @length_replaceAll α word new _ h (flat word marked)
      have hflat := @length_flat α word new _ marked
      rw [heq] at hreplace
      have hle := count_le_occurrences h marked
      obtain ⟨k, hk⟩ := Nat.exists_eq_add_of_le hle
      rw [hk, Nat.add_mul, Nat.add_mul] at hreplace
      have hmul : k * word.length = k * new.length := by omega
      rcases Nat.eq_zero_or_pos k with hzero | hpos
      · rw [hk, hzero, Nat.add_zero]
      · exact absurd (Nat.eq_of_mul_eq_mul_left hpos hmul).symm hlength
  · rintro (rfl | hcount)
    · exact replaceAll_self h _
    · exact replaceAll_flat h hcount

/-! ### Other words -/

/-- An occurrence of `word` does not begin within an occurrence of `other`. -/
def Apart (word other : List α) : Prop :=
  ∀ n, n < other.length → ¬other.drop n <+: word ∧ ¬word <+: other.drop n

variable {other : List α}

/-- The number of places at which a word begins that has no mark in it. -/
def unmarkedOccurrences (word : List α) (marked : List (Option α)) : ℕ :=
  marked.tails.countP fun t => word.map some <+: t

theorem unmarkedOccurrences_cons (x : Option α) (marked : List (Option α)) :
    unmarkedOccurrences word (x :: marked) =
      unmarkedOccurrences word marked + if word.map some <+: x :: marked then 1 else 0 := by
  rw [unmarkedOccurrences, List.tails_cons, List.countP_cons]
  simp only [unmarkedOccurrences, decide_eq_true_eq]

omit [DecidableEq α] in
theorem prefix_flat {marked : List (Option α)} (h : word.map some <+: marked) : word <+: flat new marked := by
  obtain ⟨rest, rfl⟩ := h
  rw [flat_map_some_append]
  exact List.prefix_append _ _

omit [DecidableEq α] in
/-- Next to another word, an occurrence has no mark in it. -/
theorem map_some_prefix_of_prefix_flat (h : Apart other word) {n : ℕ} (hle : n ≤ word.length)
    {marked : List (Option α)} (hocc : word.drop n <+: flat other marked) :
    (word.drop n).map some <+: marked := by
  induction marked generalizing n with
  | nil =>
    rw [flat_nil, List.prefix_nil] at hocc
    rw [hocc]
    exact List.nil_prefix
  | cons x marked ih =>
    rcases Nat.lt_or_eq_of_le hle with hlt | rfl
    · cases x with
      | none =>
        exfalso
        obtain ⟨hnot, hnot'⟩ := h n hlt
        rcases List.prefix_or_prefix_of_prefix hocc (List.prefix_append other _) with hcase | hcase
        · exact hnot hcase
        · exact hnot' hcase
      | some c =>
        rw [List.drop_eq_getElem_cons hlt, flat_some, List.cons_prefix_cons] at hocc
        rw [List.drop_eq_getElem_cons hlt, List.map_cons, List.cons_prefix_cons]
        exact ⟨congrArg some hocc.1, ih hlt hocc.2⟩
    · rw [List.drop_length]
      exact List.nil_prefix

theorem occurrences_le_append (s t : List α) : occurrences word t ≤ occurrences word (s ++ t) := by
  induction s with
  | nil => exact le_rfl
  | cons c s ih =>
    rw [List.cons_append, occurrences_cons]
    omega

theorem Apart.occurrences_drop_append (h : Apart word other) {n : ℕ} (hle : n ≤ other.length) (s : List α) :
    occurrences word (other.drop n ++ s) = occurrences word s := by
  induction hk : other.length - n generalizing n with
  | zero =>
    have hn : other.drop n = [] := List.drop_eq_nil_of_le (by omega)
    rw [hn, List.nil_append]
  | succ k ih =>
    have hlt : n < other.length := by omega
    have hnot : ¬word <+: other.drop n ++ s := by
      intro hocc
      obtain ⟨hnot, hnot'⟩ := h n hlt
      rcases List.prefix_or_prefix_of_prefix hocc (List.prefix_append _ s) with hcase | hcase
      · exact hnot' hcase
      · exact hnot hcase
    rw [List.drop_eq_getElem_cons hlt, List.cons_append] at hnot ⊢
    rw [occurrences_cons, if_neg hnot, Nat.add_zero]
    exact ih hlt (by omega)

theorem unmarkedOccurrences_le (hne : word ≠ []) (marked : List (Option α)) :
    unmarkedOccurrences word marked ≤ occurrences word (flat new marked) := by
  induction marked with
  | nil => simp [unmarkedOccurrences, hne]
  | cons x marked ih =>
    rw [unmarkedOccurrences_cons]
    cases x with
    | none =>
      have hnot : ¬word.map some <+: none :: marked := by
        cases word with
        | nil => exact absurd rfl hne
        | cons c w => simp
      rw [if_neg hnot, flat_none]
      exact ih.trans (occurrences_le_append new _)
    | some c =>
      have himp : word.map some <+: some c :: marked → word <+: c :: flat new marked := prefix_flat
      rw [flat_some, occurrences_cons]
      split_ifs with hfst hsnd
      · omega
      · exact absurd (himp hfst) hsnd
      · omega
      · omega

theorem occurrences_flat (hne : word ≠ []) (hfst : Apart word other) (hsnd : Apart other word)
    (marked : List (Option α)) : occurrences word (flat other marked) = unmarkedOccurrences word marked := by
  refine le_antisymm ?_ (unmarkedOccurrences_le hne marked)
  induction marked with
  | nil => simp [occurrences_nil hne]
  | cons x marked ih =>
    rw [unmarkedOccurrences_cons]
    cases x with
    | none =>
      have hskip := hfst.occurrences_drop_append (Nat.zero_le _) (flat other marked)
      rw [List.drop_zero] at hskip
      rw [flat_none, hskip]
      omega
    | some c =>
      have himp : word <+: c :: flat other marked → word.map some <+: some c :: marked :=
        fun h => @map_some_prefix_of_prefix_flat α word other hsnd 0 (Nat.zero_le _) (some c :: marked) h
      rw [flat_some, occurrences_cons]
      split_ifs with hfst hsnd
      · omega
      · exact absurd (himp hfst) hsnd
      · omega
      · omega

/-- **Replacing the marks of another word leaves the occurrences of a word**, and may add others. -/
theorem occurrences_flat_le (hne : word ≠ []) (hfst : Apart word other) (hsnd : Apart other word)
    (marked : List (Option α)) : occurrences word (flat other marked) ≤ occurrences word (flat new marked) := by
  rw [occurrences_flat hne hfst hsnd]
  exact unmarkedOccurrences_le hne marked

end Rewrite

end Komari
