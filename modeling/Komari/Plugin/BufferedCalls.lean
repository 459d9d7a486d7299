import Komari.Plugin.Buffered
import Komari.Plugin.Calls
import Komari.Run.Along

/-!
# The buffered response and its calls

The calls of a handler on a buffered response, the hooks that change nothing, and the end.
-/

namespace Komari

namespace Plugin

namespace BufferedResponseWriter

/-! ### Calls -/

/-- `io.Copy` from a reader that can write itself writes its chunks; from another one it calls `ReadFrom`
again, without end. -/
def readFrom (b : BufferedResponseWriter) (writerTo : Bool) (chunks : List (List UInt8)) :
    Option BufferedResponseWriter :=
  (if b.wroteHeader then some b else b.writeHeader 200).bind fun b =>
    if writerTo then chunks.foldlM write b else none

/-- One call of a handler. -/
def call (b : BufferedResponseWriter) : Call → Option BufferedResponseWriter
  | .edit e => some { b with header := e.apply b.header }
  | .writeHeader code => b.writeHeader code
  | .write p => b.write p
  | .flush => b.flush
  | .readFrom writerTo chunks => b.readFrom writerTo chunks

/-- A hook answers what it got. -/
def settle (b : BufferedResponseWriter) : BufferedResponseWriter := b.apply b.status b.header b.body

/-- A call that keeps the response that of the server: the header is edited before the status or too late; the
first status is a final one, and none comes after a `Flush`; something was written before a `Flush`; and
readers write themselves. -/
def Good (b : BufferedResponseWriter) : Call → Prop
  | .edit _ => b.wroteHeader = true → b.streaming = true
  | .writeHeader code => if b.streaming then b.forwarded = true else b.wroteHeader = true ∨ FinalCode code
  | .write _ => True
  | .flush => b.wroteHeader = true
  | .readFrom writerTo chunks => writerTo = true ∧ (b.wroteHeader = true ∨ chunks ≠ [])

instance (b : BufferedResponseWriter) : DecidablePred b.Good
  | .edit _ => inferInstanceAs (Decidable (_ → _))
  | .writeHeader _ => inferInstanceAs (Decidable (ite _ _ _))
  | .write _ => inferInstanceAs (Decidable True)
  | .flush => inferInstanceAs (Decidable (_ = _))
  | .readFrom _ _ => inferInstanceAs (Decidable (_ ∧ _))

end BufferedResponseWriter

/-- The steps of a response that may have panicked. -/
def bufferedStep (b : Option BufferedResponseWriter) (x : Call) : Option BufferedResponseWriter :=
  b.bind fun b => b.call x

/-- A response with a limit of the buffer, some calls, and some hooks that change nothing. -/
def respond (limit hooks : ℕ) (cs : List Call) : Option ResponseWriter :=
  (cs.foldl bufferedStep (some (newBufferedResponseWriter limit newResponseWriter))).bind fun b =>
    (BufferedResponseWriter.settle^[hooks] b).flushTo

/-! ### Beside the writer of the server -/

/-- The header of the server is that of the wrapper. -/
def SameHeader : HeaderRel := fun _ h h' => h = h'

open BufferedResponseWriter

/-- A buffered response beside the writer of the server that has got the same calls. -/
inductive Mirrors (b : BufferedResponseWriter) (c : ResponseWriter) : Prop
  | fresh (plain : c = { newResponseWriter with header := b.header }) (wroteHeader : b.wroteHeader = false)
      (streaming : b.streaming = false) (hijacked : b.hijacked = false) (body : b.body = [])
      (underlying : b.underlying = newResponseWriter)
  | captured (pending : Pending SameHeader b.statusCode b.header b.body c) (code : FinalCode b.statusCode)
      (wroteHeader : b.wroteHeader = true) (streaming : b.streaming = false) (hijacked : b.hijacked = false)
      (underlying : b.underlying = newResponseWriter)
  | forwarded (sent : Forwarded SameHeader c b.underlying) (wroteHeader : b.wroteHeader = true)
      (streaming : b.streaming = true)

theorem mirrors_new (limit : ℕ) : Mirrors (newBufferedResponseWriter limit newResponseWriter) newResponseWriter :=
  .fresh rfl rfl rfl rfl rfl rfl

variable {b : BufferedResponseWriter} {c : ResponseWriter}

theorem finalCode_ok : FinalCode 200 := by decide

def ok (b : BufferedResponseWriter) : BufferedResponseWriter := { b with statusCode := 200, wroteHeader := true }

section

variable (h : Mirrors b c)

include h

theorem mirrors_ok (hw : b.wroteHeader = false) : Mirrors (ok b) (c.commit 200) := by
  cases h with
  | fresh plain wroteHeader streaming hijacked body underlying =>
    refine .captured ?_ finalCode_ok rfl streaming hijacked underlying
    rw [plain]
    change Pending SameHeader 200 b.header b.body _
    rw [body]
    exact pending_commit rfl
  | captured pending code wroteHeader =>
    rw [hw] at wroteHeader
    cases wroteHeader
  | forwarded sent wroteHeader =>
    rw [hw] at wroteHeader
    cases wroteHeader

theorem streaming_of_not_wroteHeader (hw : b.wroteHeader = false) : b.streaming = false := by
  cases h with
  | fresh plain wroteHeader streaming => exact streaming
  | captured pending code wroteHeader =>
    rw [hw] at wroteHeader
    cases wroteHeader
  | forwarded sent wroteHeader =>
    rw [hw] at wroteHeader
    cases wroteHeader

theorem write_ok (hw : b.wroteHeader = false) (p : List UInt8) : b.write p = (ok b).write p := by
  have hs := streaming_of_not_wroteHeader h hw
  simp [BufferedResponseWriter.write, ok, hw, hs]

theorem mirrors_write_of_wroteHeader (hw : b.wroteHeader = true) (p : List UInt8) :
    ∃ b', b.write p = some b' ∧ Mirrors b' (c.write p) ∧ b'.wroteHeader = true := by
  cases h with
  | fresh plain wroteHeader =>
    rw [hw] at wroteHeader
    cases wroteHeader
  | captured pending code wroteHeader streaming hijacked underlying =>
    by_cases hlimit : b.body.length + p.length > b.limit
    · obtain ⟨w, hforward, hsent⟩ := pending.forward code
      refine ⟨{ b with
        streaming := true, forwarded := true, passthrough := true
        underlying := (w.write b.body).write p }, ?_, .forwarded (hsent.write p) wroteHeader rfl, wroteHeader⟩
      simp [BufferedResponseWriter.write, streaming, wroteHeader, hlimit, underlying, hforward]
    · refine ⟨{ b with body := b.body ++ p }, ?_,
        .captured (pending.write p) code wroteHeader streaming hijacked underlying, wroteHeader⟩
      simp [BufferedResponseWriter.write, streaming, wroteHeader, hlimit]
  | forwarded sent wroteHeader streaming =>
    refine ⟨{ b with underlying := b.underlying.write p }, ?_, .forwarded (sent.write p) wroteHeader streaming,
      wroteHeader⟩
    simp [BufferedResponseWriter.write, streaming]

theorem mirrors_write (p : List UInt8) :
    ∃ b', b.write p = some b' ∧ Mirrors b' (c.write p) ∧ b'.wroteHeader = true := by
  cases hw : b.wroteHeader with
  | true => exact mirrors_write_of_wroteHeader h hw p
  | false =>
    rw [write_ok h hw, ← ResponseWriter.write_commit]
    exact mirrors_write_of_wroteHeader (mirrors_ok h hw) rfl p

theorem mirrors_foldlM_write (chunks : List (List UInt8)) :
    ∃ b', chunks.foldlM BufferedResponseWriter.write b = some b' ∧
      Mirrors b' (chunks.foldl ResponseWriter.write c) := by
  induction chunks generalizing b c with
  | nil => exact ⟨b, rfl, h⟩
  | cons p chunks ih =>
    obtain ⟨b', hwrite, hb', -⟩ := mirrors_write h p
    obtain ⟨b'', hrest, hb''⟩ := ih hb'
    refine ⟨b'', ?_, hb''⟩
    rw [List.foldlM_cons, hwrite]
    exact hrest

theorem mirrors_edit (e : HeaderEdit) (hgood : b.Good (.edit e)) :
    Mirrors { b with header := e.apply b.header } { c with header := e.apply c.header } := by
  cases h with
  | fresh plain wroteHeader streaming hijacked body underlying =>
    exact .fresh (by rw [plain]) wroteHeader streaming hijacked body underlying
  | captured pending code wroteHeader streaming =>
    have := hgood wroteHeader
    rw [streaming] at this
    cases this
  | forwarded sent wroteHeader streaming => exact .forwarded (sent.edit _) wroteHeader streaming

theorem mirrors_writeHeader {code : ℤ} (hgood : b.Good (.writeHeader code)) :
    ∃ b' c', b.writeHeader code = some b' ∧ c.writeHeader code = some c' ∧ Mirrors b' c' := by
  rw [BufferedResponseWriter.Good] at hgood
  cases h with
  | fresh plain wroteHeader streaming hijacked body underlying =>
    have hcode : FinalCode code := by simpa [streaming, wroteHeader] using hgood
    obtain ⟨c', hc', hpending⟩ := @pending_writeHeader SameHeader code b.header hcode rfl
    refine ⟨{ b with statusCode := code, wroteHeader := true }, c', ?_, by rw [plain, hc'], ?_⟩
    · simp [BufferedResponseWriter.writeHeader, streaming, wroteHeader]
    · refine .captured ?_ hcode rfl streaming hijacked underlying
      change Pending SameHeader code b.header b.body c'
      rw [body]
      exact hpending
  | captured pending hcode wroteHeader streaming hijacked underlying =>
    obtain ⟨c', hc', hpending⟩ := pending.writeHeader code
    refine ⟨b, c', ?_, hc', .captured hpending hcode wroteHeader streaming hijacked underlying⟩
    simp [BufferedResponseWriter.writeHeader, streaming, wroteHeader]
  | forwarded sent wroteHeader streaming =>
    have hforwarded : b.forwarded = true := by simpa [streaming] using hgood
    obtain ⟨c', hc', hsent⟩ := sent.writeHeader code
    refine ⟨b, c', ?_, hc', .forwarded hsent wroteHeader streaming⟩
    simp [BufferedResponseWriter.writeHeader, streaming, hforwarded]

theorem mirrors_flush (hw : b.wroteHeader = true) :
    ∃ b', b.flush = some b' ∧ Mirrors b' c.flush := by
  cases h with
  | fresh plain wroteHeader =>
    rw [hw] at wroteHeader
    cases wroteHeader
  | captured pending code wroteHeader streaming hijacked underlying =>
    obtain ⟨w, hforward, hsent⟩ := pending.forward code
    refine ⟨{ b with streaming := true, underlying := (w.write b.body).flush }, ?_,
      .forwarded hsent.flush wroteHeader rfl⟩
    simp [BufferedResponseWriter.flush, streaming, underlying, hforward]
  | forwarded sent wroteHeader streaming =>
    refine ⟨{ b with underlying := b.underlying.flush }, ?_, .forwarded sent.flush wroteHeader streaming⟩
    simp [BufferedResponseWriter.flush, streaming]

theorem mirrors_readFrom {chunks : List (List UInt8)} (hgood : b.wroteHeader = true ∨ chunks ≠ []) :
    ∃ b', b.readFrom true chunks = some b' ∧ Mirrors b' (chunks.foldl ResponseWriter.write c) := by
  rw [readFrom]
  cases hw : b.wroteHeader with
  | true => simpa using mirrors_foldlM_write h chunks
  | false =>
    have hs := streaming_of_not_wroteHeader h hw
    have hok : b.writeHeader 200 = some (ok b) := by simp [BufferedResponseWriter.writeHeader, hs, hw, ok]
    have hne : chunks ≠ [] := hgood.resolve_left (by simp [hw])
    obtain ⟨b', hrest, hb'⟩ := mirrors_foldlM_write (mirrors_ok h hw) chunks
    rw [ResponseWriter.foldl_write_commit c hne] at hb'
    exact ⟨b', by simpa [hok] using hrest, hb'⟩

/-- **A good call keeps a buffered response beside the writer of the server.** -/
theorem mirrors_call {x : Call} (hgood : b.Good x) :
    ∃ b' c', b.call x = some b' ∧ c.call x = some c' ∧ Mirrors b' c' := by
  cases x with
  | edit e => exact ⟨_, _, rfl, rfl, mirrors_edit h e hgood⟩
  | writeHeader code => exact mirrors_writeHeader h hgood
  | write p =>
    obtain ⟨b', hb', hmirrors, -⟩ := mirrors_write h p
    exact ⟨b', _, hb', rfl, hmirrors⟩
  | flush =>
    obtain ⟨b', hb', hmirrors⟩ := mirrors_flush h hgood
    exact ⟨b', _, hb', rfl, hmirrors⟩
  | readFrom writerTo chunks =>
    obtain ⟨rfl, hgood⟩ := hgood
    obtain ⟨b', hb', hmirrors⟩ := mirrors_readFrom h hgood
    exact ⟨b', _, hb', rfl, hmirrors⟩

/-! ### The whole response -/

theorem mirrors_commit (hw : b.wroteHeader = true) : Mirrors b (c.commit 200) := by
  have hfinal : ∃ f, c.final = some f := by
    cases h with
    | fresh plain wroteHeader =>
      rw [hw] at wroteHeader
      cases wroteHeader
    | captured pending =>
      obtain ⟨h₀, hfinal, -⟩ := pending.final
      exact ⟨_, hfinal⟩
    | forwarded sent =>
      obtain ⟨code, h₀, h₁, hfinal, -⟩ := sent.final
      exact ⟨_, hfinal⟩
  obtain ⟨f, hf⟩ := hfinal
  rwa [ResponseWriter.commit_of_some hf]

theorem mirrors_settle : Mirrors (settle b) (c.commit 200) ∧ (settle b).wroteHeader = true := by
  cases hs : b.streaming with
  | true =>
    have hsettle : settle b = b := by simp [settle, apply, hs]
    have hw : b.wroteHeader = true := by
      by_contra hw
      rw [streaming_of_not_wroteHeader h (by simpa using hw)] at hs
      cases hs
    rw [hsettle]
    exact ⟨mirrors_commit h hw, hw⟩
  | false =>
    cases hw : b.wroteHeader with
    | true =>
      have hsettle : settle b = b := by
        cases b
        simp_all [settle, apply, status]
      rw [hsettle]
      exact ⟨mirrors_commit h hw, hw⟩
    | false =>
      have hsettle : settle b = ok b := by simp [settle, apply, status, hs, hw, ok]
      rw [hsettle]
      exact ⟨mirrors_ok h hw, rfl⟩

theorem mirrors_iterate_settle {hooks : ℕ} (hend : b.wroteHeader = true ∨ 0 < hooks) :
    Mirrors (settle^[hooks] b) (c.commit 200) ∧ (settle^[hooks] b).wroteHeader = true := by
  induction hooks generalizing b c with
  | zero =>
    have hw := hend.resolve_right (lt_irrefl 0)
    exact ⟨mirrors_commit h hw, hw⟩
  | succ n ih =>
    obtain ⟨hsettle, hw⟩ := mirrors_settle h
    rw [Function.iterate_succ_apply, ← ResponseWriter.commit_commit]
    exact ih hsettle (Or.inl hw)

theorem mirrors_flushTo (hw : b.wroteHeader = true) :
    ∃ w, b.flushTo = some w ∧ Forwarded SameHeader c w := by
  cases h with
  | fresh plain wroteHeader =>
    rw [hw] at wroteHeader
    cases wroteHeader
  | captured pending code wroteHeader streaming hijacked underlying =>
    obtain ⟨w, hforward, hsent⟩ := pending.forward code
    refine ⟨w.write b.body, ?_, hsent⟩
    simp [flushTo, streaming, hijacked, underlying, hforward]
  | forwarded sent wroteHeader streaming =>
    exact ⟨b.underlying, by simp [flushTo, streaming], sent⟩

end

/-- Every call of a response is good in the state that it finds. -/
def GoodCalls (limit : ℕ) (cs : List Call) : Prop :=
  Run.Along bufferedStep (fun s x => ∀ b, s = some b → b.Good x)
    (some (newBufferedResponseWriter limit newResponseWriter)) cs

instance (limit : ℕ) (cs : List Call) : Decidable (GoodCalls limit cs) :=
  have (s : Option BufferedResponseWriter) (x : Call) : Decidable (∀ b, s = some b → b.Good x) :=
    inferInstanceAs (Decidable (∀ b ∈ s, b.Good x))
  inferInstanceAs (Decidable (Run.Along _ _ _ _))

/-- At the end a status was set, or some hook settles it. -/
def GoodEnd (limit hooks : ℕ) (cs : List Call) : Prop :=
  ∀ b, cs.foldl bufferedStep (some (newBufferedResponseWriter limit newResponseWriter)) = some b →
    b.wroteHeader = true ∨ 0 < hooks

instance (limit hooks : ℕ) (cs : List Call) : Decidable (GoodEnd limit hooks cs) :=
  inferInstanceAs (Decidable (∀ b ∈ cs.foldl bufferedStep _, b.wroteHeader = true ∨ 0 < hooks))

theorem mirrors_calls {cs : List Call} (h : Mirrors b c)
    (hgood : Run.Along bufferedStep (fun s x => ∀ b, s = some b → b.Good x) (some b) cs) :
    ∃ b' c', cs.foldl bufferedStep (some b) = some b' ∧ c.calls cs = some c' ∧ Mirrors b' c' := by
  induction cs generalizing b c with
  | nil => exact ⟨b, c, rfl, rfl, h⟩
  | cons x cs ih =>
    obtain ⟨b₁, c₁, hb₁, hc₁, h₁⟩ := mirrors_call h (hgood.1 b rfl)
    have hstep : bufferedStep (some b) x = some b₁ := hb₁
    have hrest := hgood.2
    rw [hstep] at hrest
    obtain ⟨b', c', hb', hc', h'⟩ := ih h₁ hrest
    refine ⟨b', c', ?_, ResponseWriter.calls_cons.mpr ⟨c₁, hc₁, hc'⟩, h'⟩
    rw [List.foldl_cons, hstep, hb']

/-- The client of a wrapper gets what it would have got, and one status was set, which was a final one. -/
def SeenAs (detect : List UInt8 → String) (plain wrapped : Option ResponseWriter) : Prop :=
  ∃ c w, plain = some c ∧ wrapped = some w ∧ w.seen detect = c.seen detect ∧
    ∃ code, w.codes = [code] ∧ FinalCode code

/-- **With good calls, the client gets what it would have got.** -/
theorem respond_seen {limit hooks : ℕ} {cs : List Call} (hgood : GoodCalls limit cs)
    (hend : GoodEnd limit hooks cs) (detect : List UInt8 → String) :
    SeenAs detect (newResponseWriter.calls cs) (respond limit hooks cs) := by
  obtain ⟨b, c, hb, hc, h⟩ := mirrors_calls (mirrors_new limit) hgood
  obtain ⟨hsettle, hw⟩ := mirrors_iterate_settle h (hend b hb)
  obtain ⟨w, hflush, hsent⟩ := mirrors_flushTo hsettle hw
  obtain ⟨code, -, -, -, -, -, hcode, hcodes⟩ := hsent.final
  refine ⟨c, w, hc, by rw [respond, hb]; exact hflush, ?_, code, hcodes, hcode⟩
  rw [← ResponseWriter.seen_commit detect c]
  refine hsent.seen_eq fun code h₀ h₁ _ hsame => ?_
  cases hsame
  rfl

end Plugin

end Komari
