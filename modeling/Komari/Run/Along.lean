import Mathlib.Data.List.Basic

/-!
# Conditions along a run

A run feeds a list of inputs to a step function.  `Along` says that every input is good in the state
it finds; an invariant that good inputs keep then holds in the last state.
-/

namespace Komari

namespace Run

variable {σ ι : Type*} (step : σ → ι → σ) (good : σ → ι → Prop)

/-- Every input of the run is good in the state that it finds. -/
def Along : σ → List ι → Prop
  | _, [] => True
  | s, i :: inputs => good s i ∧ Along (step s i) inputs

variable {step good}

instance Along.instDecidable [∀ s i, Decidable (good s i)] :
    ∀ (s : σ) (inputs : List ι), Decidable (Along step good s inputs)
  | _, [] => inferInstanceAs (Decidable True)
  | s, i :: inputs =>
    have := Along.instDecidable (step s i) inputs
    inferInstanceAs (Decidable (_ ∧ _))

/-- **Run invariants**: what good inputs preserve holds at the end of the run. -/
theorem Along.invariant {Inv : σ → Prop} (hstep : ∀ s i, Inv s → good s i → Inv (step s i)) {s : σ}
    {inputs : List ι} (h : Along step good s inputs) (hs : Inv s) : Inv (inputs.foldl step s) := by
  induction inputs generalizing s with
  | nil => exact hs
  | cons i inputs ih => exact ih h.2 (hstep s i hs h.1)

theorem Along.append {s : σ} {inputs inputs' : List ι} :
    Along step good s (inputs ++ inputs') ↔
      Along step good s inputs ∧ Along step good (inputs.foldl step s) inputs' := by
  induction inputs generalizing s with
  | nil => exact (and_iff_right trivial).symm
  | cons i inputs ih =>
    show (good s i ∧ Along step good (step s i) (inputs ++ inputs')) ↔ _
    rw [ih, ← and_assoc]
    rfl

theorem Along.mono {good' : σ → ι → Prop} (hgood : ∀ s i, good s i → good' s i) {s : σ}
    {inputs : List ι} (h : Along step good s inputs) : Along step good' s inputs := by
  induction inputs generalizing s with
  | nil => trivial
  | cons i inputs ih => exact ⟨hgood s i h.1, ih h.2⟩

theorem Along.and {good' : σ → ι → Prop} {s : σ} {inputs : List ι} (h : Along step good s inputs)
    (h' : Along step good' s inputs) : Along step (fun s i => good s i ∧ good' s i) s inputs := by
  induction inputs generalizing s with
  | nil => trivial
  | cons i inputs ih => exact ⟨⟨h.1, h'.1⟩, ih h.2 h'.2⟩

theorem Along.of_mem {p : ι → Prop} (hp : ∀ s i, good s i → p i) {s : σ} {inputs : List ι}
    (h : Along step good s inputs) : ∀ i ∈ inputs, p i := by
  induction inputs generalizing s with
  | nil => simp
  | cons i inputs ih => exact List.forall_mem_cons.mpr ⟨hp s i h.1, ih h.2⟩

end Run

end Komari
