import Mathlib.Data.List.Infix

/-!
# Longest match in a binary trie

A binary trie stores values under strings of bits.  A lookup walks down along a string of bits, and keeps
the last value that it meets.

* `BitTrie.insertAll`, `BitTrie.find?_insertAll` : with one value for each string, the order in which they
  are inserted does not matter.
-/

namespace Komari

/-- A binary trie; `nil` is a node that is not there. -/
inductive BitTrie (α : Type*) where
  | nil
  /-- A node with its value, and its children for the bits 0 and 1. -/
  | node (value : Option α) (zero one : BitTrie α)

namespace BitTrie

variable {α : Type*}

/-- The value under a string of bits. -/
def find? : BitTrie α → List Bool → Option α
  | nil, _ => none
  | node value _ _, [] => value
  | node _ zero one, b :: bits => if b then one.find? bits else zero.find? bits

/-- Store a value; nodes that are not there are made. -/
def insert (v : α) : List Bool → BitTrie α → BitTrie α
  | [], nil => node (some v) nil nil
  | [], node _ zero one => node (some v) zero one
  | b :: bits, nil => if b then node none nil (insert v bits nil) else node none (insert v bits nil) nil
  | b :: bits, node value zero one =>
    if b then node value zero (insert v bits one) else node value (insert v bits zero) one

/-- Walk down, and keep the last value that was met. -/
def longest (matched : Option α) : BitTrie α → List Bool → Option α
  | nil, _ => matched
  | node value _ _, [] => value.or matched
  | node value zero one, b :: bits =>
    if b then one.longest (value.or matched) bits else zero.longest (value.or matched) bits

/-- Entries one after the other; the order is irrelevant with one value for each string. -/
def insertAll (entries : List (List Bool × α)) (t : BitTrie α) : BitTrie α :=
  entries.foldl (fun t e => t.insert e.2 e.1) t

@[simp] theorem find?_nil (bits : List Bool) : (nil : BitTrie α).find? bits = none := by
  cases bits <;> rfl

@[simp] theorem longest_nil (matched : Option α) (bits : List Bool) :
    (nil : BitTrie α).longest matched bits = matched := by
  cases bits <;> rfl

/-- A value is found under its string, and others as before. -/
theorem find?_insert (v : α) (bits bits' : List Bool) (t : BitTrie α) :
    (t.insert v bits).find? bits' = if bits' = bits then some v else t.find? bits' := by
  induction bits generalizing t bits' with
  | nil => cases t <;> cases bits' <;> simp [insert, find?]
  | cons b bits ih =>
    cases t <;> cases b <;> cases bits' with
    | nil => simp [insert, find?]
    | cons b' bits' => cases b' <;> simp [insert, find?, ih]

/-- The lookup keeps the value of the longest stored beginning, if there is one. -/
theorem longest_spec (t : BitTrie α) (matched : Option α) (bits : List Bool) :
    (t.longest matched bits = matched ∧ ∀ p, p <+: bits → t.find? p = none) ∨
      ∃ p v, p <+: bits ∧ t.find? p = some v ∧ t.longest matched bits = some v ∧
        ∀ q, q <+: bits → p.length < q.length → t.find? q = none := by
  induction t generalizing matched bits with
  | nil => exact .inl ⟨longest_nil _ _, fun p _ => find?_nil p⟩
  | node value zero one ihzero ihone =>
    cases bits with
    | nil =>
      cases value with
      | none =>
        refine .inl ⟨rfl, fun p hp => ?_⟩
        obtain rfl := List.prefix_nil.mp hp
        rfl
      | some v =>
        refine .inr ⟨[], v, List.prefix_rfl, rfl, rfl, fun q hq hlt => ?_⟩
        rw [List.prefix_nil.mp hq] at hlt
        exact absurd hlt (lt_irrefl _)
    | cons b bits =>
      -- the child on the way, and what is found in it
      obtain ⟨child, hchild, hlongest, ih⟩ : ∃ child : BitTrie α,
          (∀ p, (node value zero one).find? (b :: p) = child.find? p) ∧
            (node value zero one).longest matched (b :: bits) = child.longest (value.or matched) bits ∧
              ((child.longest (value.or matched) bits = value.or matched ∧
                  ∀ p, p <+: bits → child.find? p = none) ∨
                ∃ p v, p <+: bits ∧ child.find? p = some v ∧
                  child.longest (value.or matched) bits = some v ∧
                    ∀ q, q <+: bits → p.length < q.length → child.find? q = none) := by
        cases b with
        | false => exact ⟨zero, fun _ => rfl, rfl, ihzero _ _⟩
        | true => exact ⟨one, fun _ => rfl, rfl, ihone _ _⟩
      rw [hlongest]
      rcases ih with ⟨heq, hnone⟩ | ⟨p, v, hp, hfind, heq, hmax⟩
      · -- nothing below: the value of the node counts
        have hbelow : ∀ q, q <+: b :: bits → 0 < q.length → (node value zero one).find? q = none := by
          intro q hq hlt
          cases q with
          | nil => exact absurd hlt (lt_irrefl _)
          | cons b' q =>
            obtain ⟨rfl, hq'⟩ := List.cons_prefix_cons.mp hq
            rw [hchild]
            exact hnone q hq'
        cases value with
        | none =>
          refine .inl ⟨heq, fun q hq => ?_⟩
          cases q with
          | nil => rfl
          | cons b' q => exact hbelow _ hq (Nat.succ_pos _)
        | some v => exact .inr ⟨[], v, List.nil_prefix, rfl, heq, hbelow⟩
      · refine .inr ⟨b :: p, v, List.cons_prefix_cons.mpr ⟨rfl, hp⟩, (hchild p).trans hfind, heq,
          fun q hq hlt => ?_⟩
        cases q with
        | nil => exact absurd hlt (Nat.not_lt_zero _)
        | cons b' q =>
          obtain ⟨rfl, hq'⟩ := List.cons_prefix_cons.mp hq
          rw [hchild]
          exact hmax q hq' (Nat.lt_of_succ_lt_succ hlt)

/-- With one value for each string, every value is found. -/
theorem find?_insertAll {entries : List (List Bool × α)} (hnd : (entries.map Prod.fst).Nodup)
    (bits : List Bool) (v : α) : (nil.insertAll entries).find? bits = some v ↔ (bits, v) ∈ entries := by
  suffices ∀ t : BitTrie α, (t.insertAll entries).find? bits = some v ↔
      (bits, v) ∈ entries ∨ bits ∉ entries.map Prod.fst ∧ t.find? bits = some v by
    simpa using this nil
  induction entries with
  | nil => intro t; simp [insertAll]
  | cons e entries ih =>
    intro t
    obtain ⟨k, x⟩ := e
    rw [List.map_cons, List.nodup_cons] at hnd
    have hstep := ih hnd.2 (t.insert x k)
    rw [insertAll, List.foldl_cons]
    refine hstep.trans ?_
    rw [find?_insert]
    by_cases hk : bits = k
    · subst hk
      have hnot : (bits, v) ∉ entries := fun hmem => hnd.1 (List.mem_map.mpr ⟨_, hmem, rfl⟩)
      simp only [hnot, false_or, hnd.1, not_false_eq_true, true_and, if_true, Option.some.injEq, List.mem_cons,
        Prod.mk.injEq, List.map_cons, not_true_eq_false, false_and, or_false]
      exact eq_comm
    · simp [hk]

theorem longest_congr {t t' : BitTrie α} (h : ∀ p, t.find? p = t'.find? p) (bits : List Bool) :
    t.longest none bits = t'.longest none bits := by
  rcases t.longest_spec none bits with ⟨heq, hnone⟩ | ⟨p, v, hp, hfind, heq, hmax⟩ <;>
  rcases t'.longest_spec none bits with ⟨heq', hnone'⟩ | ⟨p', v', hp', hfind', heq', hmax'⟩
  · rw [heq, heq']
  · rw [← h, hnone p' hp'] at hfind'
    cases hfind'
  · rw [h, hnone' p hp] at hfind
    cases hfind
  · -- two beginnings of one length are equal
    have hle : ¬p.length < p'.length := by
      intro hlt
      rw [← h, hmax p' hp' hlt] at hfind'
      cases hfind'
    have hle' : ¬p'.length < p.length := by
      intro hlt
      rw [h, hmax' p hp hlt] at hfind
      cases hfind
    have hlength : p.length = p'.length := le_antisymm (not_lt.mp hle') (not_lt.mp hle)
    have hsame : p = p' := (List.prefix_of_prefix_length_le hp hp' hlength.le).eq_of_length hlength
    rw [heq, heq', ← hfind, ← hfind', h, hsame]

end BitTrie

end Komari
