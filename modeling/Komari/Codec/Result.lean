import Mathlib.Data.List.Basic
import Mathlib.Data.List.Forall2
import Mathlib.Data.List.ReduceOption

/-!
# Successful runs of fallible computations

How a successful run in `Except` is taken apart.
-/

namespace Komari

universe u

variable {ε : Type} {α γ : Type u}

variable {f : α → Except ε γ}

variable {x : Except ε α}

theorem bind_eq_ok {c : γ} : (x >>= f) = .ok c ↔ ∃ a, x = .ok a ∧ f a = .ok c := by
  cases x with
  | error e => simp [bind, Except.bind]
  | ok a => simp [bind, Except.bind]

theorem mapError_eq_ok {ε' : Type*} {f : ε → ε'} {a : α} : x.mapError f = .ok a ↔ x = .ok a := by
  cases x with
  | error e => simp [Except.mapError]
  | ok b => simp [Except.mapError]

theorem ite_error_eq_ok {p : Prop} [Decidable p] {e : ε} {a : α} :
    (if p then .error e else x) = .ok a ↔ ¬p ∧ x = .ok a := by
  by_cases h : p <;> simp [h]

variable {l : List α} {out : List γ}

theorem mem_of_mapM_eq_ok (h : l.mapM f = .ok out) (y : γ) : y ∈ out ↔ ∃ x ∈ l, f x = .ok y := by
  induction l generalizing out with
  | nil =>
    cases h
    simp
  | cons x l ih =>
    rw [List.mapM_cons] at h
    obtain ⟨y', hx, h⟩ := bind_eq_ok.mp h
    obtain ⟨out', hl, h⟩ := bind_eq_ok.mp h
    cases h
    rw [List.mem_cons, ih hl, List.exists_mem_cons_iff, hx, Except.ok.injEq, eq_comm]

theorem mapM_eq_ok {g : α → γ} (h : ∀ x ∈ l, f x = .ok (g x)) : l.mapM f = .ok (l.map g) := by
  induction l with
  | nil => rfl
  | cons x l ih =>
    rw [List.mapM_cons, h x List.mem_cons_self, ih fun y hy => h y (List.mem_cons_of_mem x hy)]
    rfl

/-- A fallible function succeeds on a list when it does on every element. -/
theorem exists_mapM_eq_ok : (∃ out, l.mapM f = .ok out) ↔ ∀ x ∈ l, ∃ y, f x = .ok y := by
  induction l with
  | nil => exact ⟨fun _ _ h => absurd h List.not_mem_nil, fun _ => ⟨[], rfl⟩⟩
  | cons x l ih =>
    rw [List.forall_mem_cons, ← ih, List.mapM_cons]
    constructor
    · rintro ⟨out, h⟩
      obtain ⟨y, hx, h⟩ := bind_eq_ok.mp h
      obtain ⟨out', hl, -⟩ := bind_eq_ok.mp h
      exact ⟨⟨y, hx⟩, out', hl⟩
    · rintro ⟨⟨y, hx⟩, out, hl⟩
      exact ⟨y :: out, by rw [hx, hl]; rfl⟩

/-- The results are those of the elements, one by one. -/
theorem mapM_eq_ok_iff_forall₂ :
    l.mapM f = .ok out ↔ List.Forall₂ (fun x y => f x = .ok y) l out := by
  induction l generalizing out with
  | nil => simp [pure, Except.pure, eq_comm]
  | cons x l ih =>
    rw [List.mapM_cons, bind_eq_ok, List.forall₂_cons_left_iff]
    refine exists_congr fun y => ?_
    rw [bind_eq_ok]
    constructor
    · rintro ⟨hx, rest, hrest, h⟩
      cases h
      exact ⟨rest, hx, ih.mp hrest, rfl⟩
    · rintro ⟨rest, hx, hrest, rfl⟩
      exact ⟨hx, rest, ih.mpr hrest, rfl⟩

theorem exists_mapM_forall₂ {R : α → γ → Prop} :
    (∃ out, l.mapM f = .ok out ∧ List.Forall₂ R l out) ↔ ∀ x ∈ l, ∃ y, f x = .ok y ∧ R x y := by
  constructor
  · rintro ⟨out, hout, hR⟩
    have hf := mapM_eq_ok_iff_forall₂.mp hout
    clear hout
    induction hR with
    | nil => simp
    | @cons x y l out hxy _ ih =>
      obtain ⟨hx, hl⟩ := List.forall₂_cons.mp hf
      exact List.forall_mem_cons.mpr ⟨⟨y, hx, hxy⟩, ih hl⟩
  · intro h
    obtain ⟨out, hout⟩ := exists_mapM_eq_ok.mpr fun x hx => (h x hx).imp fun y hy => hy.1
    refine ⟨out, hout, ?_⟩
    have hf := mapM_eq_ok_iff_forall₂.mp hout
    clear hout
    induction hf with
    | nil => exact .nil
    | @cons x y l out hx _ ih =>
      obtain ⟨⟨y', hy', hR⟩, hl⟩ := List.forall_mem_cons.mp h
      cases hx.symm.trans hy'
      exact .cons hR (ih hl)

theorem forM_eq_ok {f : α → Except ε PUnit} (h : ∀ x ∈ l, f x = .ok ⟨⟩) : l.forM f = .ok ⟨⟩ := by
  induction l with
  | nil => rfl
  | cons x l ih =>
    obtain ⟨hx, hl⟩ := List.forall_mem_cons.mp h
    change (f x >>= fun _ => l.forM f) = .ok ⟨⟩
    rw [hx]
    exact ih hl

/-- What is found along a list by a function that may fail or find nothing. -/
theorem mapM_reduceOption_eq_ok {f : α → Except ε (Option γ)} :
    (do let found ← l.mapM f; return found.reduceOption) = Except.ok out ↔
      (∀ x ∈ l, ∃ y, f x = .ok y) ∧ out = l.filterMap fun x => (f x).toOption.join := by
  rw [bind_eq_ok]
  by_cases hok : ∀ x ∈ l, ∃ y, f x = .ok y
  · have hmap : l.mapM f = .ok (l.map fun x => (f x).toOption.join) := by
      refine mapM_eq_ok fun x hx => ?_
      obtain ⟨y, hy⟩ := hok x hx
      rw [hy]
      rfl
    have hfound : (l.map fun x => (f x).toOption.join).reduceOption =
        l.filterMap fun x => (f x).toOption.join := by
      rw [List.reduceOption, List.filterMap_map]
      rfl
    rw [hmap, and_iff_right hok, eq_comm, ← hfound]
    simp [pure, Except.pure]
  · refine iff_of_false ?_ fun h => hok h.1
    rintro ⟨found, hfound, -⟩
    exact hok (exists_mapM_eq_ok.mp ⟨found, hfound⟩)

/-- A function of the results that is a function of the arguments. -/
theorem map_of_mapM_eq_ok {κ : Type*} {p : γ → κ} {q : α → κ} (hf : ∀ x y, f x = .ok y → p y = q x)
    (h : l.mapM f = .ok out) : out.map p = l.map q := by
  induction l generalizing out with
  | nil =>
    cases h
    rfl
  | cons x l ih =>
    rw [List.mapM_cons] at h
    obtain ⟨y', hx, h⟩ := bind_eq_ok.mp h
    obtain ⟨out', hl, h⟩ := bind_eq_ok.mp h
    cases h
    rw [List.map_cons, List.map_cons, ih hl, hf x y' hx]

/-- The results of two fallible functions that agree on each element. -/
theorem map_eq_of_mapM_eq_ok {γ' : Type u} {κ : Type*} {g : α → Except ε γ'}
    {p : γ → κ} {q : γ' → κ} {out' : List γ'} (h : l.mapM f = .ok out) (h' : l.mapM g = .ok out')
    (hfg : ∀ x ∈ l, ∀ y z, f x = .ok y → g x = .ok z → p y = q z) : out.map p = out'.map q := by
  induction l generalizing out out' with
  | nil =>
    cases h
    cases h'
    rfl
  | cons x l ih =>
    rw [List.mapM_cons] at h h'
    obtain ⟨y, hx, h⟩ := bind_eq_ok.mp h
    obtain ⟨rest, hl, h⟩ := bind_eq_ok.mp h
    obtain ⟨z, hx', h'⟩ := bind_eq_ok.mp h'
    obtain ⟨rest', hl', h'⟩ := bind_eq_ok.mp h'
    cases h
    cases h'
    rw [List.map_cons, List.map_cons, hfg x List.mem_cons_self y z hx hx',
      ih hl hl' fun w hw => hfg w (List.mem_cons_of_mem x hw)]

/-- The results of elements in order are in order. -/
theorem pairwise_of_mapM_eq_ok {P : α → α → Prop} {Q : γ → γ → Prop}
    (h : l.mapM f = .ok out) (hl : l.Pairwise P)
    (hPQ : ∀ a b y z, f a = .ok y → f b = .ok z → P a b → Q y z) : out.Pairwise Q := by
  induction l generalizing out with
  | nil =>
    cases h
    exact .nil
  | cons x l ih =>
    rw [List.mapM_cons] at h
    obtain ⟨y, hx, h⟩ := bind_eq_ok.mp h
    obtain ⟨rest, hrest, h⟩ := bind_eq_ok.mp h
    cases h
    obtain ⟨hfirst, hl⟩ := List.pairwise_cons.mp hl
    refine List.pairwise_cons.mpr ⟨fun z hz => ?_, ih hrest hl⟩
    obtain ⟨b, hb, hfb⟩ := (mem_of_mapM_eq_ok hrest z).mp hz
    exact hPQ x b y z hx hfb (hfirst b hb)

/-- A reflexive and transitive relation that every successful step keeps, from states with `p`. -/
theorem foldlM_eq_ok {ι : Type*} {f : α → ι → Except ε α} {p : α → Prop} {r : α → α → Prop}
    (hrefl : ∀ a, p a → r a a) (htrans : ∀ a b c, r a b → r b c → r a c)
    (hstep : ∀ a i b, p a → f a i = .ok b → p b ∧ r a b) {l : List ι} {a b : α} (ha : p a)
    (h : l.foldlM f a = .ok b) : p b ∧ r a b := by
  induction l generalizing a with
  | nil =>
    cases h
    exact ⟨ha, hrefl _ ha⟩
  | cons i l ih =>
    rw [List.foldlM_cons] at h
    obtain ⟨c, hc, h⟩ := bind_eq_ok.mp h
    obtain ⟨hpc, hrc⟩ := hstep a i c ha hc
    obtain ⟨hpb, hrb⟩ := ih hpc h
    exact ⟨hpb, htrans a c b hrc hrb⟩

/-- A map of the result commutes with a bind when it does with the continuation. -/
theorem map_bind_eq {α' γ' : Type u} {k : α → Except ε γ} {F : γ → γ'}
    {G : α → α'} {k' : α' → Except ε γ'} (h : ∀ a, (k a).map F = k' (G a)) :
    (x >>= k).map F = x.map G >>= k' := by
  cases x with
  | error e => rfl
  | ok a => exact h a

/-- A map of the state commutes with a fallible fold when it does with every step. -/
theorem map_foldlM {ι ι' : Type*} {f : α → ι → Except ε α} (f' : γ → ι' → Except ε γ) {F : α → γ}
    {G : ι → ι'} (h : ∀ a i, (f a i).map F = f' (F a) (G i)) (l : List ι) (a : α) :
    (l.foldlM f a).map F = (l.map G).foldlM f' (F a) := by
  induction l generalizing a with
  | nil => rfl
  | cons i l ih =>
    rw [List.foldlM_cons, List.map_cons, List.foldlM_cons, ← h a i]
    exact map_bind_eq ih

end Komari
