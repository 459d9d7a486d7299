import Mathlib.Data.List.Forall2

/-!
# The first match

Two loops that stop at the first match.
-/

namespace Komari

namespace Enumerate

variable {α β : Type*}

/-! ### Rows in any order -/

theorem exists_perm_cons [DecidableEq α] {l : List α} {a : α} (h : a ∈ l) : ∃ l', (a :: l').Perm l :=
  ⟨l.erase a, (List.perm_cons_erase h).symm⟩

/-- **A loop over the rows of a map finds the same in every order exactly if all rows that match agree.** -/
theorem getD_findSome?_perm_iff [DecidableEq α] (f : α → Option β) (default : β) (l : List α) :
    (∀ l₁ l₂ : List α, l₁.Perm l → l₂.Perm l →
        (l₁.findSome? f).getD default = (l₂.findSome? f).getD default) ↔
      ∀ a ∈ l, ∀ b ∈ l, ∀ x y, f a = some x → f b = some y → x = y := by
  constructor
  · intro h a ha b hb x y hx hy
    obtain ⟨l₁, hl₁⟩ := exists_perm_cons ha
    obtain ⟨l₂, hl₂⟩ := exists_perm_cons hb
    simpa [hx, hy] using h (a :: l₁) (b :: l₂) hl₁ hl₂
  · intro h l₁ l₂ hl₁ hl₂
    have hfound : ∀ {l' : List α}, l'.Perm l → ∀ x, l'.findSome? f = some x → ∃ a ∈ l, f a = some x := by
      intro l' hl' x hx
      obtain ⟨a, ha, hfa⟩ := List.exists_of_findSome?_eq_some hx
      exact ⟨a, hl'.mem_iff.mp ha, hfa⟩
    have hnone : ∀ {l' : List α}, l'.Perm l → (l'.findSome? f = none ↔ ∀ a ∈ l, f a = none) := by
      intro l' hl'
      simp only [List.findSome?_eq_none_iff, hl'.mem_iff]
    cases h₁ : l₁.findSome? f with
    | none => rw [(hnone hl₂).mpr ((hnone hl₁).mp h₁)]
    | some x =>
      cases h₂ : l₂.findSome? f with
      | none =>
        rw [(hnone hl₁).mpr ((hnone hl₂).mp h₂)] at h₁
        cases h₁
      | some y =>
        obtain ⟨a, ha, hx⟩ := hfound hl₁ x h₁
        obtain ⟨b, hb, hy⟩ := hfound hl₂ y h₂
        exact h a ha b hb x y hx hy

/-! ### A pattern in order -/

/-- One more element of the pattern is met, if there is one left that matches. -/
def advance (matching : α → β → Bool) (pattern : List α) (matched : ℕ) (x : β) : ℕ :=
  if (pattern[matched]?).any (matching · x) then matched + 1 else matched

theorem sublistForall₂_tail {R : α → β → Prop} {a : α} {pattern : List α} {l : List β}
    (h : List.SublistForall₂ R (a :: pattern) l) : List.SublistForall₂ R pattern l := by
  induction l with
  | nil => cases h
  | cons x l ih =>
    cases h with
    | cons _ hrest => exact .cons_right hrest
    | cons_right hrest => exact .cons_right (ih hrest)

/-- A match may be taken where it first occurs. -/
theorem sublistForall₂_cons_cons_iff {R : α → β → Prop} {a : α} {x : β} (hax : R a x) {pattern : List α}
    {l : List β} : List.SublistForall₂ R (a :: pattern) (x :: l) ↔ List.SublistForall₂ R pattern l := by
  constructor
  · intro h
    cases h with
    | cons _ hrest => exact hrest
    | cons_right hrest => exact sublistForall₂_tail hrest
  · exact .cons hax

theorem sublistForall₂_cons_iff_of_not {R : α → β → Prop} {a : α} {x : β} (hax : ¬R a x) {pattern : List α}
    {l : List β} :
    List.SublistForall₂ R (a :: pattern) (x :: l) ↔ List.SublistForall₂ R (a :: pattern) l := by
  constructor
  · intro h
    cases h with
    | cons h _ => exact absurd h hax
    | cons_right hrest => exact hrest
  · exact .cons_right

/-- **A loop that advances along a pattern gets to its end exactly if the pattern occurs in order.** -/
theorem foldl_advance_eq_length_iff (matching : α → β → Bool) (pattern : List α) (l : List β) :
    l.foldl (advance matching pattern) 0 = pattern.length ↔
      List.SublistForall₂ (fun a x => matching a x = true) pattern l := by
  have hfrom : ∀ matched ≤ pattern.length, (l.foldl (advance matching pattern) matched = pattern.length ↔
      List.SublistForall₂ (fun a x => matching a x = true) (pattern.drop matched) l) := by
    induction l with
    | nil =>
      intro matched hle
      rw [List.foldl_nil]
      constructor
      · rintro rfl
        rw [List.drop_length]
        exact .nil
      · intro h
        by_contra hne
        rw [List.drop_eq_getElem_cons (Nat.lt_of_le_of_ne hle hne)] at h
        cases h
    | cons x l ih =>
      intro matched hle
      rw [List.foldl_cons]
      by_cases hend : matched = pattern.length
      · have hstay : advance matching pattern matched x = matched := by simp [advance, hend]
        rw [hstay, ih matched hle, hend, List.drop_length]
        exact ⟨fun _ => .nil, fun _ => .nil⟩
      · have hlt : matched < pattern.length := Nat.lt_of_le_of_ne hle hend
        rw [List.drop_eq_getElem_cons hlt]
        by_cases hmatch : matching pattern[matched] x = true
        · have hstep : advance matching pattern matched x = matched + 1 := by simp [advance, hlt, hmatch]
          rw [hstep, ih _ hlt]
          exact (sublistForall₂_cons_cons_iff (R := fun a x => matching a x = true) hmatch).symm
        · have hstay : advance matching pattern matched x = matched := by simp [advance, hlt, hmatch]
          rw [hstay, ih _ hle, List.drop_eq_getElem_cons hlt]
          exact (sublistForall₂_cons_iff_of_not (R := fun a x => matching a x = true) hmatch).symm
  exact hfrom 0 (Nat.zero_le _)

end Enumerate

end Komari
