import Mathlib.Data.List.Nodup
import Mathlib.Tactic.Common

/-!
# The past of a run

A run records its events, the newest first.
-/

namespace Komari

namespace Run

variable {ε : Type*} {p q : ε → Prop} {e : ε} {log : List ε}

/-- An event `p` happened, and none `q` since then. -/
def Since (p q : ε → Prop) : List ε → Prop
  | [] => False
  | e :: log => p e ∨ (¬q e ∧ Since p q log)

theorem Since.start (h : p e) : Since p q (e :: log) := Or.inl h

theorem Since.cons (h : Since p q log) (he : ¬q e) : Since p q (e :: log) := Or.inr ⟨he, h⟩

theorem Since.imp {p' : ε → Prop} (h : Since p q log) (hp : ∀ e, p e → p' e) : Since p' q log := by
  induction log with
  | nil => exact h
  | cons x log ih => exact Or.imp (hp x) (And.imp_right ih) h

/-- `Since`, by the place of the event. -/
theorem since_iff :
    Since p q log ↔ ∃ later e earlier, log = later ++ e :: earlier ∧ p e ∧ ∀ x ∈ later, ¬q x := by
  induction log with
  | nil => simp [Since]
  | cons x log ih =>
    constructor
    · rintro (hx | ⟨hx, hlog⟩)
      · exact ⟨[], x, log, rfl, hx, by simp⟩
      · obtain ⟨later, e, earlier, rfl, he, hall⟩ := ih.mp hlog
        exact ⟨x :: later, e, earlier, rfl, he, List.forall_mem_cons.mpr ⟨hx, hall⟩⟩
    · rintro ⟨later, e, earlier, heq, he, hall⟩
      cases later with
      | nil =>
        obtain ⟨rfl, rfl⟩ := List.cons.inj heq
        exact Or.inl he
      | cons y later =>
        obtain ⟨rfl, rfl⟩ := List.cons.inj heq
        obtain ⟨hy, hall⟩ := List.forall_mem_cons.mp hall
        exact Or.inr ⟨hy, ih.mpr ⟨later, e, earlier, rfl, he, hall⟩⟩

theorem Since.exists_mem (h : Since p q log) : ∃ e ∈ log, p e := by
  obtain ⟨later, e, earlier, rfl, he, -⟩ := since_iff.mp h
  exact ⟨e, by simp, he⟩

/-- Every event has the property of the events before it. -/
def Justified (P : ε → List ε → Prop) : List ε → Prop
  | [] => True
  | e :: log => P e log ∧ Justified P log

theorem justified_iff {P : ε → List ε → Prop} :
    Justified P log ↔ ∀ later e earlier, log = later ++ e :: earlier → P e earlier := by
  induction log with
  | nil => simp [Justified]
  | cons x log ih =>
    constructor
    · rintro ⟨hx, hlog⟩ later e earlier heq
      cases later with
      | nil =>
        obtain ⟨rfl, rfl⟩ := List.cons.inj heq
        exact hx
      | cons y later =>
        obtain ⟨-, rfl⟩ := List.cons.inj heq
        exact ih.mp hlog later e earlier rfl
    · intro h
      refine ⟨h [] x log rfl, ih.mpr fun later e earlier heq => h (x :: later) e earlier ?_⟩
      rw [heq, List.cons_append]

theorem Justified.of_append {P : ε → List ε → Prop} {later : List ε}
    (h : Justified P (later ++ log)) : Justified P log := by
  induction later with
  | nil => exact h
  | cons x later ih => exact ih h.2

/-- Events `q` that each need an event `p` since the last `q` are not more than the events `p`. -/
theorem countP_le_of_since {p q : ε → Bool} (hpq : ∀ e, p e = true → q e = false)
    (h : Justified (fun e log => q e = true → Since (p · = true) (q · = true) log) log) :
    log.countP q ≤ log.countP p := by
  induction hn : log.length using Nat.strongRecOn generalizing log with
  | _ n ih =>
    cases log with
    | nil => simp
    | cons e log =>
      by_cases hq : q e = true
      · -- the events before the `p` are fewer, and there is no `q` behind it
        obtain ⟨later, x, earlier, rfl, hx, hall⟩ := since_iff.mp (h.1 hq)
        have hearlier : earlier.countP q ≤ earlier.countP p :=
          ih earlier.length (by simp only [← hn, List.length_cons, List.length_append]; omega)
            h.2.of_append.2 rfl
        have hlater : later.countP q = 0 := List.countP_eq_zero.mpr hall
        simp only [List.countP_cons, List.countP_append, hlater, hq, hx, hpq x hx, if_true,
          Bool.false_eq_true, if_false]
        omega
      · have htail : log.countP q ≤ log.countP p := ih log.length (by simp [← hn]) h.2 rfl
        rw [List.countP_cons_of_neg hq, List.countP_cons]
        omega

end Run

end Komari
