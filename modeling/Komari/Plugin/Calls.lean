import Komari.Plugin.Writer

/-!
# The calls of a handler

What a handler can do with a response writer, and what the writer of the server makes of it.
-/

namespace Komari

namespace Plugin

/-! ### Calls -/

/-- A call of a handler. A reader gives its bytes in chunks; it may or may not be able to write itself. -/
inductive Call where
  | edit (e : HeaderEdit)
  | writeHeader (code : ℤ)
  | write (p : List UInt8)
  | flush
  | readFrom (writerTo : Bool) (chunks : List (List UInt8))
  deriving DecidableEq

namespace ResponseWriter

/-- A call on the writer of the server. -/
def call (w : ResponseWriter) : Call → Option ResponseWriter
  | .edit e => some { w with header := e.apply w.header }
  | .writeHeader code => w.writeHeader code
  | .write p => some (w.write p)
  | .flush => some w.flush
  | .readFrom _ chunks => some (chunks.foldl write w)

/-- Some calls, unless one of them panics. -/
def calls (w : ResponseWriter) (cs : List Call) : Option ResponseWriter := cs.foldlM call w

end ResponseWriter

/-- A final status that is none of a handler's mistakes. -/
def FinalCode (code : ℤ) : Prop := 200 ≤ code ∧ code ≤ 599 ∨ code = 101

instance : DecidablePred FinalCode := fun code =>
  inferInstanceAs (Decidable (200 ≤ code ∧ code ≤ 599 ∨ code = 101))

/-- The body that is there when the header goes out, if it may have one. -/
def earlyBody : List Call → List UInt8
  | [] => []
  | .write p :: cs => p ++ earlyBody cs
  | .readFrom _ chunks :: cs => chunks.flatten ++ earlyBody cs
  | .flush :: _ => []
  | .edit _ :: cs => earlyBody cs
  | .writeHeader _ :: cs => earlyBody cs

/-! ### The writer of the server -/

namespace ResponseWriter

variable {w : ResponseWriter} {f : ℤ × Header}

theorem commit_of_some (h : w.final = some f) (code : ℤ) : w.commit code = w := by
  rw [commit, h]

theorem commit_of_none (h : w.final = none) (code : ℤ) :
    w.commit code = { w with final := some (code, w.header) } := by
  rw [commit, h]

theorem commit_commit (w : ResponseWriter) (code : ℤ) : (w.commit code).commit code = w.commit code := by
  cases h : w.final with
  | none => rw [commit_of_none h, commit_of_some rfl]
  | some f => rw [commit_of_some h, commit_of_some h]

theorem write_commit (w : ResponseWriter) (p : List UInt8) : (w.commit 200).write p = w.write p := by
  rw [write, write, commit_commit]

theorem seen_commit (detect : List UInt8 → String) (w : ResponseWriter) :
    (w.commit 200).seen detect = w.seen detect := by
  rw [seen, seen, commit_commit]
  cases h : w.final with
  | none => rw [commit_of_none h]
  | some f => rw [commit_of_some h]

theorem foldl_write_commit (w : ResponseWriter) {chunks : List (List UInt8)} (h : chunks ≠ []) :
    chunks.foldl write (w.commit 200) = chunks.foldl write w := by
  obtain ⟨p, rest, rfl⟩ := List.exists_cons_of_ne_nil h
  rw [List.foldl_cons, List.foldl_cons, write_commit]

theorem write_of_some (h : w.final = some f) (p : List UInt8) :
    w.write p =
      if bodyAllowed f.1 then { w with body := w.body ++ p, early := if w.flushed then w.early else w.early ++ p }
      else w := by
  rw [write, commit_of_some h]
  simp [allowed, h]

theorem writeHeader_of_some (h : w.final = some f) (code : ℤ) :
    w.writeHeader code = some { w with codes := w.codes ++ [code] } := by
  simp [writeHeader, h]

theorem writeHeader_of_final (h : w.final = none) {code : ℤ} (hcode : FinalCode code) :
    w.writeHeader code = some { w with codes := w.codes ++ [code], final := some (code, w.header) } := by
  have hrange : ¬(code < 100 ∨ 999 < code) := by
    rcases hcode with hcode | hcode <;> omega
  have hinfo : ¬(code < 200 ∧ code ≠ 101) := by
    rcases hcode with hcode | hcode <;> omega
  rw [writeHeader]
  simp [h, hrange, hinfo, commit]

end ResponseWriter

/-! ### The beginning of the body -/

namespace ResponseWriter

theorem write_final (w : ResponseWriter) (p : List UInt8) : (w.write p).final = (w.commit 200).final := by
  rw [write]
  split_ifs <;> rfl

variable {f : ℤ × Header}

theorem commit_final {w : ResponseWriter} (h : w.final = some f) :
    (w.commit 200).final = some f := by
  rw [commit_of_some h, h]

theorem foldl_write_final {w : ResponseWriter} (h : w.final = some f)
    (chunks : List (List UInt8)) : (chunks.foldl write w).final = some f := by
  induction chunks generalizing w with
  | nil => exact h
  | cons p chunks ih => exact ih (by rw [write_final, commit_final h])

theorem call_final {w w' : ResponseWriter} {x : Call} (h : w.call x = some w')
    (hf : w.final = some f) : w'.final = some f := by
  cases x with
  | edit e =>
    cases h
    exact hf
  | writeHeader code =>
    rw [call, writeHeader_of_some hf] at h
    cases h
    exact hf
  | write p =>
    cases h
    rw [write_final, commit_final hf]
  | flush =>
    cases h
    exact commit_final hf
  | readFrom writerTo chunks =>
    cases h
    exact foldl_write_final hf chunks

theorem calls_cons {w w' : ResponseWriter} {x : Call} {cs : List Call} :
    w.calls (x :: cs) = some w' ↔ ∃ v, w.call x = some v ∧ v.calls cs = some w' := by
  rw [calls, List.foldlM_cons]
  exact Option.bind_eq_some_iff

theorem calls_final {w w' : ResponseWriter} {cs : List Call} (h : w.calls cs = some w')
    (hf : w.final = some f) : w'.final = some f := by
  induction cs generalizing w with
  | nil =>
    cases h
    exact hf
  | cons x cs ih =>
    obtain ⟨v, hx, hcs⟩ := calls_cons.mp h
    exact ih hcs (call_final hx hf)

/-- No status without a body was sent. -/
def MayHaveBody (w : ResponseWriter) : Prop := ∀ f, w.final = some f → bodyAllowed f.1 = true

theorem MayHaveBody.of_final {w w' : ResponseWriter} (h : w'.MayHaveBody)
    (hfinal : ∀ f, w.final = some f → w'.final = some f) : w.MayHaveBody :=
  fun f hf => h f (hfinal f hf)

theorem commit_early (w : ResponseWriter) (code : ℤ) :
    (w.commit code).early = w.early ∧ (w.commit code).flushed = w.flushed := by
  rw [commit]
  split <;> exact ⟨rfl, rfl⟩

theorem writeHeader_early {w w' : ResponseWriter} {code : ℤ} (h : w.writeHeader code = some w') :
    w'.early = w.early ∧ w'.flushed = w.flushed := by
  rw [writeHeader] at h
  split_ifs at h
  · cases h
    exact ⟨rfl, rfl⟩
  · cases h
    exact ⟨rfl, rfl⟩
  · cases h
    exact commit_early _ code

theorem early_write {w : ResponseWriter} {p : List UInt8} (h : (w.write p).MayHaveBody) :
    (w.write p).early = w.early ++ (if w.flushed then [] else p) ∧ (w.write p).flushed = w.flushed := by
  obtain ⟨hearly, hflushed⟩ := commit_early w 200
  have hallowed : (w.commit 200).allowed = true := by
    obtain ⟨f, hf⟩ : ∃ f, (w.commit 200).final = some f := by
      cases hw : w.final with
      | none => exact ⟨_, by rw [commit_of_none hw]⟩
      | some f => exact ⟨f, commit_final hw⟩
    have := h f (by rw [write_final, hf])
    simpa [allowed, hf] using this
  rw [write, if_pos hallowed]
  simp only [hearly, hflushed]
  cases w.flushed <;> simp

theorem early_foldl_write {w : ResponseWriter} {chunks : List (List UInt8)}
    (h : (chunks.foldl write w).MayHaveBody) :
    (chunks.foldl write w).early = w.early ++ (if w.flushed then [] else chunks.flatten) ∧
      (chunks.foldl write w).flushed = w.flushed := by
  induction chunks generalizing w with
  | nil => simp
  | cons p chunks ih =>
    obtain ⟨hearly, hflushed⟩ := early_write (h.of_final fun f hf => foldl_write_final hf chunks)
    obtain ⟨ih₁, ih₂⟩ := ih h
    rw [List.foldl_cons, ih₁, ih₂, hearly, hflushed]
    refine ⟨?_, rfl⟩
    cases w.flushed <;> simp

/-- **The beginning of the body is what was written before the first `Flush`.** -/
theorem early_calls {w w' : ResponseWriter} {cs : List Call} (h : w.calls cs = some w')
    (hallowed : w'.MayHaveBody) : w'.early = w.early ++ if w.flushed then [] else earlyBody cs := by
  induction cs generalizing w with
  | nil =>
    cases h
    simp [earlyBody]
  | cons x cs ih =>
    obtain ⟨v, hx, hcs⟩ := calls_cons.mp h
    have hv : v.MayHaveBody := hallowed.of_final fun f hf => calls_final hcs hf
    have hrest := ih hcs
    cases x with
    | edit e =>
      cases hx
      exact hrest
    | writeHeader code =>
      obtain ⟨hearly, hflushed⟩ := writeHeader_early hx
      rwa [hearly, hflushed] at hrest
    | write p =>
      cases hx
      obtain ⟨hearly, hflushed⟩ := early_write hv
      rw [hrest, hearly, hflushed, earlyBody]
      cases w.flushed <;> simp
    | flush =>
      cases hx
      have hflushed : w.flush.flushed = true := rfl
      have hearly : w.flush.early = w.early := (commit_early w 200).1
      rw [hrest, hearly, hflushed, earlyBody]
      simp
    | readFrom writerTo chunks =>
      cases hx
      obtain ⟨hearly, hflushed⟩ := early_foldl_write hv
      rw [hrest, hearly, hflushed, earlyBody]
      cases w.flushed <;> simp

end ResponseWriter

/-! ### What a wrapper has captured -/

/-- How the header of the server and that of a wrapper go together, with a status. -/
abbrev HeaderRel := ℤ → Header → Header → Prop

variable {R : HeaderRel} {code : ℤ} {header : Header} {captured : List UInt8} {c w : ResponseWriter}

/-- The writer of the server would have got a status, a header and a body, and nothing else. -/
structure Pending (R : HeaderRel) (code : ℤ) (header : Header) (captured : List UInt8)
    (c : ResponseWriter) : Prop where
  final : ∃ h, c.final = some (code, h) ∧ R code h header
  informational : c.informational = []
  body : c.body = if bodyAllowed code then captured else []
  early : c.early = if bodyAllowed code then captured else []
  flushed : c.flushed = false

/-- A wrapper has forwarded what the writer of the server would have sent. -/
structure Forwarded (R : HeaderRel) (c w : ResponseWriter) : Prop where
  final : ∃ code h h', c.final = some (code, h) ∧ w.final = some (code, h') ∧ R code h h' ∧
    FinalCode code ∧ w.codes = [code]
  informational : c.informational = w.informational
  body : c.body = w.body
  early : c.early = w.early
  flushed : c.flushed = w.flushed

/-- The status of a response that was edited only. -/
theorem pending_commit (hcode : R 200 header header) :
    Pending R 200 header [] ({ newResponseWriter with header := header }.commit 200) :=
  ⟨⟨header, rfl, hcode⟩, rfl, rfl, rfl, rfl⟩

theorem pending_writeHeader (hfinal : FinalCode code) (hcode : R code header header) :
    ∃ c, ResponseWriter.writeHeader { newResponseWriter with header := header } code = some c ∧
      Pending R code header [] c := by
  refine ⟨_, ResponseWriter.writeHeader_of_final rfl hfinal, ⟨header, rfl, hcode⟩, rfl, ?_, ?_, rfl⟩
  · simp [newResponseWriter]
  · simp [newResponseWriter]

section

variable (h : Pending R code header captured c)

include h

theorem Pending.write (p : List UInt8) : Pending R code header (captured ++ p) (c.write p) := by
  obtain ⟨h₀, hfinal, hrel⟩ := h.final
  rw [ResponseWriter.write_of_some hfinal]
  by_cases hallowed : bodyAllowed code = true
  · rw [if_pos hallowed]
    refine ⟨⟨h₀, hfinal, hrel⟩, h.informational, ?_, ?_, h.flushed⟩
    · simp [h.body, hallowed]
    · simp [h.early, h.flushed, hallowed]
  · rw [if_neg hallowed]
    refine ⟨⟨h₀, hfinal, hrel⟩, h.informational, ?_, ?_, h.flushed⟩
    · simp [h.body, hallowed]
    · simp [h.early, hallowed]

theorem Pending.writeHeader (again : ℤ) :
    ∃ c', c.writeHeader again = some c' ∧ Pending R code header captured c' := by
  obtain ⟨h₀, hfinal, hrel⟩ := h.final
  exact ⟨_, ResponseWriter.writeHeader_of_some hfinal again, ⟨h₀, hfinal, hrel⟩, h.informational, h.body,
    h.early, h.flushed⟩

/-- Another header, and another relation in which it is to that of the server. -/
theorem Pending.mono {R' : HeaderRel} {header' : Header}
    (hrel : ∀ h₀, R code h₀ header → R' code h₀ header') : Pending R' code header' captured c :=
  ⟨h.final.imp fun h₀ hfinal => ⟨hfinal.1, hrel h₀ hfinal.2⟩, h.informational, h.body, h.early, h.flushed⟩

/-- **Status, header and body are forwarded, with one call of `WriteHeader`.** -/
theorem Pending.forward (hcode : FinalCode code) :
    ∃ w, newResponseWriter.writeThrough code header = some w ∧ Forwarded R c (w.write captured) := by
  obtain ⟨h₀, hfinal, hrel⟩ := h.final
  rw [ResponseWriter.writeThrough]
  have hheader : header.addAll newResponseWriter.header = header := Header.addAll_empty header
  rw [hheader]
  refine ⟨_, ResponseWriter.writeHeader_of_final rfl hcode, ?_⟩
  rw [ResponseWriter.write_of_some rfl]
  by_cases hallowed : bodyAllowed code = true
  · rw [if_pos hallowed]
    refine ⟨⟨code, h₀, header, hfinal, rfl, hrel, hcode, rfl⟩, h.informational, ?_, ?_, h.flushed⟩
    · simp [h.body, hallowed, newResponseWriter]
    · simp [h.early, hallowed, newResponseWriter]
  · rw [if_neg hallowed]
    refine ⟨⟨code, h₀, header, hfinal, rfl, hrel, hcode, rfl⟩, h.informational, ?_, ?_, h.flushed⟩
    · simp [h.body, hallowed, newResponseWriter]
    · simp [h.early, hallowed, newResponseWriter]

end

/-! ### What a wrapper has forwarded -/

theorem Forwarded.write (h : Forwarded R c w) (p : List UInt8) : Forwarded R (c.write p) (w.write p) := by
  obtain ⟨code, h₀, h₁, hc, hw, hrel, hcode, hcodes⟩ := h.final
  rw [ResponseWriter.write_of_some hc, ResponseWriter.write_of_some hw]
  by_cases hallowed : bodyAllowed code = true
  · rw [if_pos hallowed, if_pos hallowed]
    refine ⟨⟨code, h₀, h₁, hc, hw, hrel, hcode, hcodes⟩, h.informational, ?_, ?_, h.flushed⟩
    · simp only [h.body]
    · simp only [h.early, h.flushed]
  · rw [if_neg hallowed, if_neg hallowed]
    exact h

theorem Forwarded.flush (h : Forwarded R c w) : Forwarded R c.flush w.flush := by
  obtain ⟨code, h₀, h₁, hc, hw, hrel, hcode, hcodes⟩ := h.final
  rw [ResponseWriter.flush, ResponseWriter.flush, ResponseWriter.commit_of_some hc,
    ResponseWriter.commit_of_some hw]
  exact ⟨⟨code, h₀, h₁, hc, hw, hrel, hcode, hcodes⟩, h.informational, h.body, h.early, rfl⟩

theorem Forwarded.edit (h : Forwarded R c w) (header : Header) :
    Forwarded R { c with header := header } w :=
  ⟨h.final, h.informational, h.body, h.early, h.flushed⟩

theorem Forwarded.writeHeader (h : Forwarded R c w) (code : ℤ) :
    ∃ c', c.writeHeader code = some c' ∧ Forwarded R c' w := by
  obtain ⟨code', h₀, h₁, hc, hw, hrel, hcode, hcodes⟩ := h.final
  exact ⟨_, ResponseWriter.writeHeader_of_some hc code, ⟨code', h₀, h₁, hc, hw, hrel, hcode, hcodes⟩,
    h.informational, h.body, h.early, h.flushed⟩

/-- **The client gets what it would have got.** -/
theorem Forwarded.seen_eq (h : Forwarded R c w) {detect : List UInt8 → String}
    (hrel : ∀ code h₀ h₁, c.final = some (code, h₀) → R code h₀ h₁ →
      sniffed detect h₀ c.early = sniffed detect h₁ c.early) :
    w.seen detect = c.seen detect := by
  obtain ⟨code, h₀, h₁, hc, hw, hR, -, -⟩ := h.final
  rw [ResponseWriter.seen, ResponseWriter.seen, ResponseWriter.commit_of_some hc,
    ResponseWriter.commit_of_some hw, hc, hw]
  simp only [Option.map_some, ← h.early, ← h.informational, ← h.body, hrel code h₀ h₁ hc hR]

end Plugin

end Komari
