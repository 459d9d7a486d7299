import Mathlib.Control.Monad.Basic
import Mathlib.Data.List.Basic

/-!
# Decoders of a stream

A decoder consumes a stream that its state holds, and either returns a value or fails with a
message.  What a round trip needs of it is `Decodes`: on any stream that starts with the given
input, the decoder returns the given value and leaves the rest of the stream.

The stream is seen through a function `view` from states to lists of tokens, so the rules serve
readers of bytes (whose state is the list of bytes ahead) and readers of bits (whose state is a
buffer and a position).
-/

namespace Komari

namespace Codec

/-- A computation that consumes the stream in its state, or fails with a message. -/
abbrev Decoder (σ α : Type) := StateT σ (Except String) α

variable {σ τ α β γ : Type}

namespace Decoder

/-- Fails with a text. -/
def fail (msg : String) : Decoder σ α := fun _ => .error msg

/-- Fails unless `c`. -/
def ensure (c : Bool) (msg : String) : Decoder σ Unit := fun s =>
  if c then .ok ((), s) else .error msg

/-- With another text for the error. -/
def orError (p : Decoder σ α) (msg : String) : Decoder σ α := fun s =>
  match p s with
  | .ok r => .ok r
  | .error _ => .error msg

/-- Put `context` and a colon in front of the message of a failure. -/
def withContext (p : Decoder σ α) (context : String) : Decoder σ α := fun s =>
  match p s with
  | .ok r => .ok r
  | .error e => .error (context ++ ": " ++ e)

/-- Decode `n` elements, one after the other, passing a state along. -/
def readList (step : β → Decoder σ (α × β)) : ℕ → β → Decoder σ (List α)
  | 0, _ => pure []
  | n + 1, b => do
    let (a, b) ← step b
    let rest ← readList step n b
    pure (a :: rest)

/-- Decode `n` elements, one after the other. -/
def readMany (p : Decoder σ α) : ℕ → Decoder σ (List α)
  | 0 => pure []
  | n + 1 => do
    let a ← p
    let rest ← readMany p n
    pure (a :: rest)

end Decoder

/-- Encode a list, one element after the other, passing a state along. -/
def writeList (step : β → α → Except String (List τ × β)) :
    β → List α → Except String (List τ)
  | _, [] => .ok []
  | b, a :: rest => do
    let (out, b) ← step b a
    let outs ← writeList step b rest
    pure (out ++ outs)

/-- On a stream that starts with `input`, the decoder returns `v` and leaves the rest. -/
def Decodes (view : σ → List τ) (p : Decoder σ α) (input : List τ) (v : α) : Prop :=
  ∀ s rest, view s = input ++ rest → ∃ s', p s = .ok (v, s') ∧ view s' = rest

namespace Decodes

variable {view : σ → List τ} {p : Decoder σ α} {f : α → Decoder σ β} {input input' : List τ}
  {v : α} {w : β}

theorem pure (v : α) : Decodes view (Pure.pure v : Decoder σ α) [] v :=
  fun s _ hs => ⟨s, rfl, hs⟩

theorem bind (hp : Decodes view p input v) (hf : Decodes view (f v) input' w) :
    Decodes view (p >>= f) (input ++ input') w := by
  intro s rest hs
  rw [List.append_assoc] at hs
  obtain ⟨s₁, hp, hs₁⟩ := hp s _ hs
  obtain ⟨s₂, hf, hs₂⟩ := hf s₁ rest hs₁
  refine ⟨s₂, ?_, hs₂⟩
  simp only [Bind.bind, StateT.bind, hp, Except.bind]
  exact hf

theorem bind_nil (hp : Decodes view p [] v) (hf : Decodes view (f v) input w) :
    Decodes view (p >>= f) input w :=
  hp.bind hf

theorem bind_last (hp : Decodes view p input v) (hf : Decodes view (f v) [] w) :
    Decodes view (p >>= f) input w := by
  have h := hp.bind hf
  rwa [List.append_nil] at h

theorem bind_pure (hp : Decodes view p input v) (hf : f v = Pure.pure w) :
    Decodes view (p >>= f) input w :=
  hp.bind_last (hf ▸ Decodes.pure w)

theorem ensure {c : Bool} (hc : c = true) (msg : String) :
    Decodes view (Decoder.ensure c msg) [] () := by
  intro s rest hs
  exact ⟨s, by simp [Decoder.ensure, hc], hs⟩

theorem orError (hp : Decodes view p input v) (msg : String) :
    Decodes view (p.orError msg) input v := by
  intro s rest hs
  obtain ⟨s', hp, hs'⟩ := hp s rest hs
  exact ⟨s', by simp only [Decoder.orError, hp], hs'⟩

theorem withContext (hp : Decodes view p input v) (context : String) :
    Decodes view (p.withContext context) input v := by
  intro s rest hs
  obtain ⟨s', hp, hs'⟩ := hp s rest hs
  exact ⟨s', by simp only [Decoder.withContext, hp], hs'⟩

/-- A loop over elements that are encoded independently of each other. -/
theorem readMany {write : α → List τ} {l : List α}
    (h : ∀ a ∈ l, Decodes view p (write a) a) :
    Decodes view (p.readMany l.length) (l.flatMap write) l := by
  induction l with
  | nil => exact Decodes.pure []
  | cons a l ih =>
    have ih := ih fun b hb => h b (List.mem_cons_of_mem _ hb)
    exact (h a List.mem_cons_self).bind (ih.bind_pure rfl)

/-- The loop that decodes what the loop `writeList` encodes: if `Inv` relates the two states at the
start of an element and the encoder accepts it, then the decoder reads the element back and the two
states stay related. -/
theorem readList {γ : Type} {Inv : γ → β → Prop} {read : β → Decoder σ (α × β)}
    {write : γ → α → Except String (List τ × γ)}
    (hstep : ∀ g b a out g', Inv g b → write g a = .ok (out, g') →
      ∃ b', Decodes view (read b) out (a, b') ∧ Inv g' b')
    {l : List α} {g : γ} {b : β} {out : List τ} (hinv : Inv g b)
    (hout : writeList write g l = .ok out) :
    Decodes view (Decoder.readList read l.length b) out l := by
  induction l generalizing g b out with
  | nil =>
    cases hout
    exact Decodes.pure []
  | cons a l ih =>
    simp only [writeList, Bind.bind, Except.bind] at hout
    cases hw : write g a with
    | error e =>
      rw [hw] at hout
      cases hout
    | ok r =>
      obtain ⟨out₁, g'⟩ := r
      rw [hw] at hout
      obtain ⟨b', hread, hinv'⟩ := hstep g b a out₁ g' hinv hw
      cases hl : writeList write g' l with
      | error e =>
        simp only [hl] at hout
        cases hout
      | ok out₂ =>
        simp only [hl] at hout
        cases hout
        exact hread.bind ((ih hinv' hl).bind_pure rfl)

end Decodes

/-! ### What a decoder can return -/

/-- Whatever the stream, a value that the decoder returns satisfies a condition. -/
def Returns (p : Decoder σ α) (Q : α → Prop) : Prop := ∀ s v s', p s = .ok (v, s') → Q v

namespace Returns

variable {p : Decoder σ α} {f : α → Decoder σ β} {Q : α → Prop} {R : β → Prop}

theorem trivial (p : Decoder σ α) : Returns p fun _ => True := fun _ _ _ _ => True.intro

theorem pure {v : α} (hv : Q v) : Returns (Pure.pure v : Decoder σ α) Q := by
  rintro s w s' h
  cases h
  exact hv

theorem bind (hp : Returns p Q) (hf : ∀ v, Q v → Returns (f v) R) : Returns (p >>= f) R := by
  intro s w s' h
  simp only [Bind.bind, StateT.bind, Except.bind] at h
  cases hs : p s with
  | error e =>
    rw [hs] at h
    cases h
  | ok r =>
    obtain ⟨v, s₁⟩ := r
    rw [hs] at h
    exact hf v (hp s v s₁ hs) s₁ w s' h

theorem fail (msg : String) : Returns (Decoder.fail msg : Decoder σ α) Q := by
  intro s v s' h
  cases h

theorem ensure (c : Bool) (msg : String) :
    Returns (Decoder.ensure c msg : Decoder σ Unit) fun _ => c = true := by
  intro s v s' h
  unfold Decoder.ensure at h
  cases c with
  | true => rfl
  | false => cases h

/-- A loop returns a list, each element of which is related to the one before it. -/
theorem readList {read : β → Decoder σ (α × β)} {key : β → α} {S : α → α → Prop}
    (hread : ∀ b, Returns (read b) fun r => S (key b) r.1 ∧ key r.2 = r.1) (n : ℕ) (b : β) :
    Returns (Decoder.readList read n b) fun l => l.length = n ∧ (key b :: l).IsChain S := by
  induction n generalizing b with
  | zero => exact pure ⟨rfl, List.IsChain.singleton _⟩
  | succ n ih =>
    refine bind (hread b) fun r hr => bind (ih r.2) fun l hl => pure ⟨congrArg Nat.succ hl.1, ?_⟩
    rw [List.isChain_cons_cons]
    exact ⟨hr.1, hr.2 ▸ hl.2⟩

theorem length_readList (read : β → Decoder σ (α × β)) (n : ℕ) (b : β) :
    Returns (Decoder.readList read n b) fun l => l.length = n := by
  induction n generalizing b with
  | zero => exact pure rfl
  | succ n ih =>
    exact bind (trivial _) fun r _ => bind (ih r.2) fun l hl => pure (congrArg Nat.succ hl)

theorem length_readMany (p : Decoder σ α) (n : ℕ) :
    Returns (p.readMany n) fun l => l.length = n := by
  induction n with
  | zero => exact pure rfl
  | succ n ih => exact bind (trivial _) fun _ _ => bind ih fun l hl => pure (congrArg Nat.succ hl)

end Returns

end Codec

end Komari
