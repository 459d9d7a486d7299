import Komari.Plugin.BufferedCalls
import Komari.Plugin.HtmlWriter

/-!
# The writer that injects HTML, and its calls

The calls of a handler on the writer, beside those on the writer of the server.

* `transparent` : through both wrappers, the client gets what it would have got.
-/

namespace Komari

namespace Plugin

open Inject (InjectEntry)

namespace HtmlInjectWriter

/-! ### Good calls -/

/-- The type of the response is known at a write: it was set, or the server, which may be asked for it, would
have found the same in the beginning of the body as the writer finds in what is written first. -/
def Typed (d : Detector) (early : List UInt8) (w : HtmlInjectWriter) (p : List UInt8) : Prop :=
  w.html = true ∨ w.header.get "Content-Type" ≠ "" ∨
    w.header "Content-Type" = [] ∧ w.header.get "Content-Encoding" = "" ∧ w.header "Transfer-Encoding" = [] ∧
      early ≠ [] ∧ bodyAllowed (if w.wroteHeader then w.statusCode else 200) = true ∧
      d.detect (p.take 512) = d.detect (early.take 512)

/-- The type of the response was decided. -/
def Decided (w : HtmlInjectWriter) : Prop := w.streaming = true ∨ w.html = true

/-- A call that keeps the response that of the server: the header is edited before the status or too late; the
first status is a final one; something was written before a `Flush`; readers write themselves; and the type
of the response is known when it is written first. -/
def Good (d : Detector) (early : List UInt8) (w : HtmlInjectWriter) : Call → Prop
  | .edit _ => w.wroteHeader = true → w.streaming = true
  | .writeHeader code => w.wroteHeader = true ∨ FinalCode code
  | .write p => w.streaming = true ∨ w.Typed d early p
  | .flush => w.wroteHeader = true
  | .readFrom writerTo chunks => writerTo = true ∧ (w.wroteHeader = true ∨ chunks ≠ []) ∧
      (w.streaming = true ∨ ∀ p ∈ chunks.head?, w.Typed d early p)

instance (d : Detector) (early : List UInt8) (w : HtmlInjectWriter) : DecidablePred (w.Typed d early) :=
  fun _ => inferInstanceAs (Decidable (_ ∨ _))

instance (d : Detector) (early : List UInt8) (w : HtmlInjectWriter) : DecidablePred (w.Good d early)
  | .edit _ => inferInstanceAs (Decidable (_ → _))
  | .writeHeader _ => inferInstanceAs (Decidable (_ ∨ _))
  | .write _ => inferInstanceAs (Decidable (_ ∨ _))
  | .flush => inferInstanceAs (Decidable (_ = _))
  | .readFrom _ _ => inferInstanceAs (Decidable (_ ∧ _))

end HtmlInjectWriter

/-- Every call of a response is good in the state that it finds. -/
def GoodHTMLCalls (d : Detector) (limit : ℕ) (cs : List Call) : Prop :=
  Run.Along (htmlStep d) (fun s x => ∀ w, s = some w → w.Good d (earlyBody cs) x)
    (some (newHTMLInjectWriter limit newResponseWriter)) cs

/-- At the end a status was set, and no fragment applies: the response was forwarded, or it is not HTML, or the
fragments are empty, and it has no length that is dropped with them. -/
def GoodHTMLEnd (d : Detector) (limit : ℕ) (fragments : List InjectEntry) (cs : List Call) : Prop :=
  ∀ w, cs.foldl (htmlStep d) (some (newHTMLInjectWriter limit newResponseWriter)) = some w →
    w.wroteHeader = true ∧
      (w.streaming = true ∨ isHTMLContentType (w.header.get "Content-Type") = false ∨
        (Inject.headHTML fragments = [] ∧ Inject.tailHTML fragments = []) ∧ w.header "Content-Length" = [])

instance (d : Detector) (limit : ℕ) (cs : List Call) : Decidable (GoodHTMLCalls d limit cs) :=
  have (s : Option HtmlInjectWriter) (x : Call) : Decidable (∀ w, s = some w → w.Good d (earlyBody cs) x) :=
    inferInstanceAs (Decidable (∀ w ∈ s, w.Good d (earlyBody cs) x))
  inferInstanceAs (Decidable (Run.Along _ _ _ _))

instance (d : Detector) (limit : ℕ) (fragments : List InjectEntry) (cs : List Call) :
    Decidable (GoodHTMLEnd d limit fragments cs) :=
  inferInstanceAs (Decidable (∀ w ∈ cs.foldl (htmlStep d) _, _))

/-! ### Beside the writer of the server -/

/-- The header of the wrapper is that of the server, or it has the content type that the server finds. -/
def SniffedHeader (d : Detector) (early : List UInt8) : HeaderRel := fun code h h' =>
  h' = h ∨ (h "Content-Type" = [] ∧ h.get "Content-Encoding" = "" ∧ h "Transfer-Encoding" = [] ∧ early ≠ [] ∧
    bodyAllowed code = true ∧ h' = h.set "Content-Type" (d.detect (early.take 512)))

open HtmlInjectWriter

/-- An HTML writer beside the writer of the server that has got the same calls. -/
inductive HtmlMirrors (d : Detector) (early : List UInt8) (w : HtmlInjectWriter) (c : ResponseWriter) : Prop
  | fresh (plain : c = { newResponseWriter with header := w.header }) (wroteHeader : w.wroteHeader = false)
      (streaming : w.streaming = false) (hijacked : w.hijacked = false) (html : w.html = false)
      (body : w.body = []) (underlying : w.underlying = newResponseWriter)
  | undecided (pending : Pending SameHeader w.statusCode w.header w.body c) (code : FinalCode w.statusCode)
      (wroteHeader : w.wroteHeader = true) (streaming : w.streaming = false) (hijacked : w.hijacked = false)
      (html : w.html = false) (body : w.body = []) (underlying : w.underlying = newResponseWriter)
  | captured (pending : Pending (SniffedHeader d early) w.statusCode w.header w.body c)
      (code : FinalCode w.statusCode) (wroteHeader : w.wroteHeader = true) (streaming : w.streaming = false)
      (hijacked : w.hijacked = false) (html : w.html = true) (type : w.header.get "Content-Type" ≠ "")
      (underlying : w.underlying = newResponseWriter)
  | forwarded (sent : Forwarded (SniffedHeader d early) c w.underlying) (wroteHeader : w.wroteHeader = true)
      (streaming : w.streaming = true)

variable {d : Detector} {early : List UInt8} {w : HtmlInjectWriter} {c : ResponseWriter}

theorem htmlMirrors_new (d : Detector) (early : List UInt8) (limit : ℕ) :
    HtmlMirrors d early (newHTMLInjectWriter limit newResponseWriter) newResponseWriter :=
  .fresh rfl rfl rfl rfl rfl rfl rfl

variable {code : ℤ}

/-- A relation of headers that holds of equal ones. -/
theorem Pending.of_same {header : Header} {captured : List UInt8}
    (h : Pending SameHeader code header captured c) : Pending (SniffedHeader d early) code header captured c :=
  h.mono fun _ hsame => Or.inl hsame.symm

/-! ### Forwarding and buffering -/

theorem passthrough_captured (pending : Pending (SniffedHeader d early) w.statusCode w.header w.body c)
    (code : FinalCode w.statusCode) (wroteHeader : w.wroteHeader = true) (streaming : w.streaming = false)
    (hijacked : w.hijacked = false) (underlying : w.underlying = newResponseWriter) :
    ∃ w', w.passthrough = some w' ∧ Forwarded (SniffedHeader d early) c w'.underlying ∧
      w'.wroteHeader = true ∧ w'.streaming = true := by
  obtain ⟨u, hforward, hsent⟩ := pending.forward code
  refine ⟨{ w with streaming := true, underlying := u.write w.body }, ?_, hsent, wroteHeader, rfl⟩
  simp [passthrough, streaming, hijacked, underlying, hforward]

theorem htmlMirrors_writeOn (sent : Forwarded (SniffedHeader d early) c w.underlying)
    (wroteHeader : w.wroteHeader = true) (streaming : w.streaming = true) (p : List UInt8) :
    HtmlMirrors d early (w.writeOn p) (c.write p) :=
  .forwarded (sent.write p) wroteHeader streaming

section

variable (pending : Pending (SniffedHeader d early) w.statusCode w.header w.body c)

include pending

/-- What was captured is forwarded, and then written to. -/
theorem htmlMirrors_passthrough_writeOn
    (code : FinalCode w.statusCode) (wroteHeader : w.wroteHeader = true) (streaming : w.streaming = false)
    (hijacked : w.hijacked = false) (underlying : w.underlying = newResponseWriter) (p : List UInt8) :
    ∃ w', w.passthrough.map (·.writeOn p) = some w' ∧ HtmlMirrors d early w' (c.write p) ∧ w'.Decided := by
  obtain ⟨w', hpass, hsent, hw', hs'⟩ :=
    passthrough_captured pending code wroteHeader streaming hijacked underlying
  exact ⟨w'.writeOn p, by rw [hpass]; rfl, htmlMirrors_writeOn hsent hw' hs' p, Or.inl hs'⟩

theorem htmlMirrors_buffer
    (code : FinalCode w.statusCode) (wroteHeader : w.wroteHeader = true) (streaming : w.streaming = false)
    (hijacked : w.hijacked = false) (html : w.html = true) (type : w.header.get "Content-Type" ≠ "")
    (underlying : w.underlying = newResponseWriter) (p : List UInt8) :
    ∃ w', w.buffer p = some w' ∧ HtmlMirrors d early w' (c.write p) ∧ w'.Decided := by
  rw [buffer]
  split_ifs
  · exact htmlMirrors_passthrough_writeOn pending code wroteHeader streaming hijacked underlying p
  · exact ⟨_, rfl, .captured (pending.write p) code wroteHeader streaming hijacked html type underlying,
      Or.inr html⟩

theorem htmlMirrors_writeTyped
    (code : FinalCode w.statusCode) (wroteHeader : w.wroteHeader = true) (streaming : w.streaming = false)
    (hijacked : w.hijacked = false) (underlying : w.underlying = newResponseWriter)
    (type : w.header.get "Content-Type" ≠ "") (p : List UInt8) :
    ∃ w', w.writeTyped p (w.header.get "Content-Type") = some w' ∧ HtmlMirrors d early w' (c.write p) ∧
      w'.Decided := by
  rw [writeTyped, if_pos type]
  split_ifs
  · exact htmlMirrors_passthrough_writeOn pending code wroteHeader streaming hijacked underlying p
  · exact @htmlMirrors_buffer d early { w with html := true } c pending code wroteHeader streaming hijacked rfl
      type underlying p

end

/-! ### The first write -/

variable {p : List UInt8}

/-- The content type that a writer sets is the one that the server finds. -/
theorem Pending.sniff {header : Header} {captured : List UInt8}
    (h : Pending SameHeader code header captured c) (hbody : captured = [])
    (htype : header "Content-Type" = []) (hencoding : header.get "Content-Encoding" = "")
    (htransfer : header "Transfer-Encoding" = []) (hearly : early ≠ []) (hallowed : bodyAllowed code = true)
    (hdetect : d.detect (p.take 512) = d.detect (early.take 512)) :
    Pending (SniffedHeader d early) code (header.set "Content-Type" (sniffContentType d captured p))
      captured c := by
  refine h.mono fun h₀ hsame => Or.inr ?_
  cases hsame
  have hsniff : sniffContentType d captured p = d.detect (p.take 512) := by simp [sniffContentType, hbody]
  exact ⟨htype, hencoding, htransfer, hearly, hallowed, by rw [hsniff, hdetect]⟩

theorem sniffContentType_ne (d : Detector) (buffered next : List UInt8) :
    sniffContentType d buffered next ≠ "" := by
  rw [sniffContentType]
  split_ifs
  · exact d.ne_empty _
  · exact d.ne_empty _

/-- The first write to a response whose status was set. -/
theorem htmlMirrors_write_undecided (pending : Pending SameHeader w.statusCode w.header w.body c)
    (code : FinalCode w.statusCode) (wroteHeader : w.wroteHeader = true) (streaming : w.streaming = false)
    (hijacked : w.hijacked = false) (html : w.html = false) (body : w.body = [])
    (underlying : w.underlying = newResponseWriter) (htyped : w.Typed d early p) :
    ∃ w', w.write d p = some w' ∧ HtmlMirrors d early w' (c.write p) ∧ w'.Decided := by
  by_cases htype : w.header.get "Content-Type" = ""
  · obtain h | h | ⟨hnone, hencoding, htransfer, hearly, hallowed, hdetect⟩ := htyped
    · rw [html] at h
      cases h
    · exact absurd htype h
    · rw [if_pos wroteHeader] at hallowed
      have hne := sniffContentType_ne d w.body p
      have hget := Header.get_set_same w.header "Content-Type" (sniffContentType d w.body p)
      have hsniff := pending.sniff body hnone hencoding htransfer hearly hallowed hdetect
      have h := @htmlMirrors_writeTyped d early
        { w with header := w.header.set "Content-Type" (sniffContentType d w.body p) } c hsniff code wroteHeader
        streaming hijacked underlying (by rw [hget]; exact hne) p
      rw [hget] at h
      simpa [HtmlInjectWriter.write, streaming, wroteHeader, html, htype, hne] using h
  · have hsame : Pending (SniffedHeader d early) w.statusCode w.header w.body c := pending.of_same
    have h := htmlMirrors_writeTyped hsame code wroteHeader streaming hijacked underlying htype p
    simpa [HtmlInjectWriter.write, streaming, wroteHeader, html, htype] using h

/-! ### Calls -/

/-- The status was chosen. -/
def HtmlInjectWriter.withStatus (w : HtmlInjectWriter) (code : ℤ) : HtmlInjectWriter :=
  { w with statusCode := code, wroteHeader := true }

/-- A response without a status was edited only; it gets status 200. -/
theorem htmlMirrors_fresh (h : HtmlMirrors d early w c) (hw : w.wroteHeader = false) :
    Pending SameHeader 200 w.header w.body (c.commit 200) ∧ w.streaming = false ∧ w.hijacked = false ∧
      w.html = false ∧ w.body = [] ∧ w.underlying = newResponseWriter := by
  cases h with
  | fresh plain wroteHeader streaming hijacked html body underlying =>
    refine ⟨?_, streaming, hijacked, html, body, underlying⟩
    rw [plain, body]
    exact pending_commit rfl
  | undecided pending code wroteHeader =>
    rw [hw] at wroteHeader
    cases wroteHeader
  | captured pending code wroteHeader =>
    rw [hw] at wroteHeader
    cases wroteHeader
  | forwarded sent wroteHeader =>
    rw [hw] at wroteHeader
    cases wroteHeader

/-- The status of a first write does not change what is known of the type. -/
theorem typed_withStatus (hw : w.wroteHeader = false) (h : w.Typed d early p) :
    (w.withStatus 200).Typed d early p := by
  simpa [Typed, withStatus, hw] using h

theorem htmlMirrors_write_of_wroteHeader (h : HtmlMirrors d early w c) (hw : w.wroteHeader = true)
    (htyped : w.streaming = true ∨ w.Typed d early p) :
    ∃ w', w.write d p = some w' ∧ HtmlMirrors d early w' (c.write p) ∧ w'.Decided := by
  cases h with
  | fresh plain wroteHeader =>
    rw [hw] at wroteHeader
    cases wroteHeader
  | undecided pending code wroteHeader streaming hijacked html body underlying =>
    exact htmlMirrors_write_undecided pending code wroteHeader streaming hijacked html body underlying
      (htyped.resolve_left (by simp [streaming]))
  | captured pending code wroteHeader streaming hijacked html type underlying =>
    have h := htmlMirrors_buffer pending code wroteHeader streaming hijacked html type underlying p
    simpa [HtmlInjectWriter.write, streaming, wroteHeader, html] using h
  | forwarded sent wroteHeader streaming =>
    refine ⟨w.writeOn p, ?_, htmlMirrors_writeOn sent wroteHeader streaming p, Or.inl streaming⟩
    simp [HtmlInjectWriter.write, streaming]

theorem htmlMirrors_write (h : HtmlMirrors d early w c)
    (htyped : w.streaming = true ∨ w.Typed d early p) :
    ∃ w', w.write d p = some w' ∧ HtmlMirrors d early w' (c.write p) ∧ w'.Decided := by
  cases hw : w.wroteHeader with
  | true => exact htmlMirrors_write_of_wroteHeader h hw htyped
  | false =>
    obtain ⟨pending, streaming, hijacked, html, body, underlying⟩ := htmlMirrors_fresh h hw
    have hwrite : w.write d p = (w.withStatus 200).write d p := by
      simp [HtmlInjectWriter.write, withStatus, hw, streaming]
    have htyped' := typed_withStatus hw (htyped.resolve_left (by simp [streaming]))
    rw [hwrite, ← ResponseWriter.write_commit]
    exact @htmlMirrors_write_undecided d early (w.withStatus 200) (c.commit 200) p pending finalCode_ok rfl
      streaming hijacked html body underlying htyped'

theorem htmlMirrors_foldlM_write (h : HtmlMirrors d early w c) {chunks : List (List UInt8)}
    (htyped : w.streaming = true ∨ ∀ p ∈ chunks.head?, w.Typed d early p) :
    ∃ w', chunks.foldlM (HtmlInjectWriter.write d) w = some w' ∧
      HtmlMirrors d early w' (chunks.foldl ResponseWriter.write c) := by
  induction chunks generalizing w c with
  | nil => exact ⟨w, rfl, h⟩
  | cons p chunks ih =>
    obtain ⟨w', hwrite, hw', hdecided⟩ := htmlMirrors_write h (htyped.imp_right fun h => h p rfl)
    obtain ⟨w'', hrest, hw''⟩ := ih hw' (hdecided.imp_right fun html _ _ => Or.inl html)
    refine ⟨w'', ?_, hw''⟩
    rw [List.foldlM_cons, hwrite]
    exact hrest

theorem htmlMirrors_edit (h : HtmlMirrors d early w c) (e : HeaderEdit) (hgood : w.Good d early (.edit e)) :
    HtmlMirrors d early { w with header := e.apply w.header } { c with header := e.apply c.header } := by
  have hlate : w.wroteHeader = true → w.streaming = false → False := by
    intro hw hs
    have := hgood hw
    rw [hs] at this
    cases this
  cases h with
  | fresh plain wroteHeader streaming hijacked html body underlying =>
    exact .fresh (by rw [plain]) wroteHeader streaming hijacked html body underlying
  | undecided pending code wroteHeader streaming => exact (hlate wroteHeader streaming).elim
  | captured pending code wroteHeader streaming => exact (hlate wroteHeader streaming).elim
  | forwarded sent wroteHeader streaming => exact .forwarded (sent.edit _) wroteHeader streaming

/-- The first status of a response. A type that is not HTML ends the capture. -/
theorem htmlMirrors_status (pending : Pending SameHeader code w.header w.body c)
    (hcode : FinalCode code) (wroteHeader : w.wroteHeader = false) (streaming : w.streaming = false)
    (hijacked : w.hijacked = false) (html : w.html = false) (body : w.body = [])
    (underlying : w.underlying = newResponseWriter) :
    ∃ w', w.writeHeader code = some w' ∧ HtmlMirrors d early w' c ∧
      (w'.streaming = true ∨ w' = w.withStatus code) := by
  have hwrite : w.writeHeader code =
      if w.header.get "Content-Type" ≠ "" ∧ isHTMLContentType (w.header.get "Content-Type") = false then
        (w.withStatus code).passthrough
      else some (w.withStatus code) := by
    simp [HtmlInjectWriter.writeHeader, withStatus, streaming, wroteHeader]
  rw [hwrite]
  split_ifs
  · have hsame : Pending (SniffedHeader d early) (w.withStatus code).statusCode (w.withStatus code).header
        (w.withStatus code).body c := pending.of_same
    obtain ⟨w', hpass, hsent, hw', hs'⟩ := passthrough_captured hsame hcode rfl streaming hijacked underlying
    exact ⟨w', hpass, .forwarded hsent hw' hs', Or.inl hs'⟩
  · exact ⟨_, rfl, .undecided pending hcode rfl streaming hijacked html body underlying, Or.inr rfl⟩

theorem writeHeader_again (pending : Pending (SniffedHeader d early) w.statusCode w.header w.body c)
    (hcode : FinalCode w.statusCode) (wroteHeader : w.wroteHeader = true) (streaming : w.streaming = false)
    (hijacked : w.hijacked = false) (underlying : w.underlying = newResponseWriter) (code : ℤ) :
    ∃ w', w.writeHeader code = some w' ∧
      (w' = w ∨ Forwarded (SniffedHeader d early) c w'.underlying ∧ w'.wroteHeader = true ∧
        w'.streaming = true) := by
  have hwrite : w.writeHeader code =
      if w.header.get "Content-Type" ≠ "" ∧ isHTMLContentType (w.header.get "Content-Type") = false then
        w.passthrough
      else some w := by
    simp [HtmlInjectWriter.writeHeader, streaming, wroteHeader]
  rw [hwrite]
  split_ifs
  · obtain ⟨w', hpass, hsent⟩ := passthrough_captured pending hcode wroteHeader streaming hijacked underlying
    exact ⟨w', hpass, Or.inr hsent⟩
  · exact ⟨w, rfl, Or.inl rfl⟩

section

variable (h : HtmlMirrors d early w c)

include h

theorem htmlMirrors_writeHeader (hgood : w.Good d early (.writeHeader code)) :
    ∃ w' c', w.writeHeader code = some w' ∧ c.writeHeader code = some c' ∧ HtmlMirrors d early w' c' := by
  cases h with
  | fresh plain wroteHeader streaming hijacked html body underlying =>
    have hcode : FinalCode code := hgood.resolve_left (by simp [wroteHeader])
    obtain ⟨c', hc', hpending⟩ := @pending_writeHeader SameHeader code w.header hcode rfl
    have hpending' : Pending SameHeader code w.header w.body c' := by rwa [body]
    obtain ⟨w', hw', hmirrors, -⟩ :=
      htmlMirrors_status hpending' hcode wroteHeader streaming hijacked html body underlying
    exact ⟨w', c', hw', by rw [plain, hc'], hmirrors⟩
  | undecided pending hcode wroteHeader streaming hijacked html body underlying =>
    obtain ⟨c', hc', hpending⟩ := pending.writeHeader code
    have hsame : Pending (SniffedHeader d early) w.statusCode w.header w.body c' := hpending.of_same
    obtain ⟨w', hw', rfl | ⟨hsent, hwrote, hs⟩⟩ :=
      writeHeader_again hsame hcode wroteHeader streaming hijacked underlying code
    · exact ⟨w', c', hw', hc', .undecided hpending hcode wroteHeader streaming hijacked html body underlying⟩
    · exact ⟨w', c', hw', hc', .forwarded hsent hwrote hs⟩
  | captured pending hcode wroteHeader streaming hijacked html type underlying =>
    obtain ⟨c', hc', hpending⟩ := pending.writeHeader code
    obtain ⟨w', hw', rfl | ⟨hsent, hwrote, hs⟩⟩ :=
      writeHeader_again hpending hcode wroteHeader streaming hijacked underlying code
    · exact ⟨w', c', hw', hc', .captured hpending hcode wroteHeader streaming hijacked html type underlying⟩
    · exact ⟨w', c', hw', hc', .forwarded hsent hwrote hs⟩
  | forwarded sent wroteHeader streaming =>
    obtain ⟨c', hc', hsent⟩ := sent.writeHeader code
    exact ⟨w, c', by simp [HtmlInjectWriter.writeHeader, streaming], hc',
      .forwarded hsent wroteHeader streaming⟩

theorem htmlMirrors_flush (hw : w.wroteHeader = true) :
    ∃ w', w.flush = some w' ∧ HtmlMirrors d early w' c.flush := by
  have hflush : ∀ {w' : HtmlInjectWriter}, w.passthrough = some w' →
      Forwarded (SniffedHeader d early) c w'.underlying → w'.wroteHeader = true → w'.streaming = true →
        ∃ w', w.flush = some w' ∧ HtmlMirrors d early w' c.flush := by
    intro w' hpass hsent hw' hs'
    exact ⟨{ w' with underlying := w'.underlying.flush }, by rw [HtmlInjectWriter.flush, hpass]; rfl,
      .forwarded hsent.flush hw' hs'⟩
  cases h with
  | fresh plain wroteHeader =>
    rw [hw] at wroteHeader
    cases wroteHeader
  | undecided pending code wroteHeader streaming hijacked html body underlying =>
    have hsame : Pending (SniffedHeader d early) w.statusCode w.header w.body c := pending.of_same
    obtain ⟨w', hpass, hsent, hw', hs'⟩ :=
      passthrough_captured hsame code wroteHeader streaming hijacked underlying
    exact hflush hpass hsent hw' hs'
  | captured pending code wroteHeader streaming hijacked html type underlying =>
    obtain ⟨w', hpass, hsent, hw', hs'⟩ :=
      passthrough_captured pending code wroteHeader streaming hijacked underlying
    exact hflush hpass hsent hw' hs'
  | forwarded sent wroteHeader streaming =>
    exact hflush (by simp [passthrough, streaming]) sent wroteHeader streaming

theorem htmlMirrors_readFrom {chunks : List (List UInt8)}
    (hgood : w.Good d early (.readFrom true chunks)) :
    ∃ w', w.readFrom d true chunks = some w' ∧ HtmlMirrors d early w' (chunks.foldl ResponseWriter.write c) := by
  obtain ⟨-, hstatus, htyped⟩ := hgood
  rw [HtmlInjectWriter.readFrom]
  cases hw : w.wroteHeader with
  | true => simpa using htmlMirrors_foldlM_write h htyped
  | false =>
    have hne : chunks ≠ [] := hstatus.resolve_left (by simp [hw])
    obtain ⟨pending, streaming, hijacked, html, body, underlying⟩ := htmlMirrors_fresh h hw
    obtain ⟨w₁, hw₁, hmirrors, hkept⟩ :=
      htmlMirrors_status pending finalCode_ok hw streaming hijacked html body underlying
    have htyped₁ : w₁.streaming = true ∨ ∀ p ∈ chunks.head?, w₁.Typed d early p := by
      refine hkept.imp_right ?_
      rintro rfl p hp
      exact typed_withStatus hw (htyped.resolve_left (by simp [streaming]) p hp)
    obtain ⟨w', hrest, hmirrors'⟩ := htmlMirrors_foldlM_write hmirrors htyped₁
    rw [ResponseWriter.foldl_write_commit c hne] at hmirrors'
    exact ⟨w', by simpa [hw₁] using hrest, hmirrors'⟩

/-- **A good call keeps the writer beside that of the server.** -/
theorem htmlMirrors_call {x : Call} (hgood : w.Good d early x) :
    ∃ w' c', w.call d x = some w' ∧ c.call x = some c' ∧ HtmlMirrors d early w' c' := by
  cases x with
  | edit e => exact ⟨_, _, rfl, rfl, htmlMirrors_edit h e hgood⟩
  | writeHeader code => exact htmlMirrors_writeHeader h hgood
  | write p =>
    obtain ⟨w', hw', hmirrors, -⟩ := htmlMirrors_write h hgood
    exact ⟨w', _, hw', rfl, hmirrors⟩
  | flush =>
    obtain ⟨w', hw', hmirrors⟩ := htmlMirrors_flush h hgood
    exact ⟨w', _, hw', rfl, hmirrors⟩
  | readFrom writerTo chunks =>
    obtain ⟨rfl, -⟩ := id hgood
    obtain ⟨w', hw', hmirrors⟩ := htmlMirrors_readFrom h hgood
    exact ⟨w', _, hw', rfl, hmirrors⟩

theorem htmlMirrors_calls {cs : List Call}
    (hgood : Run.Along (htmlStep d) (fun s x => ∀ w, s = some w → w.Good d early x) (some w) cs) :
    ∃ w' c', cs.foldl (htmlStep d) (some w) = some w' ∧ c.calls cs = some c' ∧
      HtmlMirrors d early w' c' := by
  induction cs generalizing w c with
  | nil => exact ⟨w, c, rfl, rfl, h⟩
  | cons x cs ih =>
    obtain ⟨w₁, c₁, hw₁, hc₁, h₁⟩ := htmlMirrors_call h (hgood.1 w rfl)
    have hstep : htmlStep d (some w) x = some w₁ := hw₁
    have hrest := hgood.2
    rw [hstep] at hrest
    obtain ⟨w', c', hw', hc', h'⟩ := ih h₁ hrest
    refine ⟨w', c', ?_, ResponseWriter.calls_cons.mpr ⟨c₁, hc₁, hc'⟩, h'⟩
    rw [List.foldl_cons, hstep, hw']

end

/-! ### The end of the response -/

theorem injectHTMLContent_of_empty {body : List UInt8} {fragments : List InjectEntry}
    (hhead : Inject.headHTML fragments = []) (htail : Inject.tailHTML fragments = []) :
    Inject.injectHTMLContent body fragments = some body := by
  simp [Inject.injectHTMLContent, hhead, htail]

/-- A response of a known type to which no fragment applies. -/
theorem flushTo_captured (pending : Pending (SniffedHeader d early) w.statusCode w.header w.body c)
    (code : FinalCode w.statusCode) (streaming : w.streaming = false) (hijacked : w.hijacked = false)
    (underlying : w.underlying = newResponseWriter) {fragments : List InjectEntry}
    (hown : w.header.get "Content-Type" = "" → isHTMLContentType (d.detect w.body) = false)
    (hplain : isHTMLContentType (w.header.get "Content-Type") = false ∨
      (Inject.headHTML fragments = [] ∧ Inject.tailHTML fragments = []) ∧ w.header "Content-Length" = []) :
    ∃ u, w.flushTo d fragments = some u ∧ Forwarded (SniffedHeader d early) c u := by
  obtain ⟨u, hforward, hsent⟩ := pending.forward code
  refine ⟨u.write w.body, ?_, hsent⟩
  by_cases htype : w.header.get "Content-Type" = ""
  · simp [flushTo, streaming, hijacked, htype, hown htype, underlying, hforward]
  · obtain hplain | ⟨⟨hhead, htail⟩, hlength⟩ := hplain
    · simp [flushTo, streaming, hijacked, htype, hplain, underlying, hforward]
    · cases hhtml : isHTMLContentType (w.header.get "Content-Type") with
      | false => simp [flushTo, streaming, hijacked, htype, hhtml, underlying, hforward]
      | true =>
        have hinject := @injectHTMLContent_of_empty w.body fragments hhead htail
        simp [flushTo, streaming, hijacked, htype, hhtml, underlying, hinject, Header.del_of_nil hlength,
          hforward]

theorem htmlMirrors_flushTo (h : HtmlMirrors d early w c) (hw : w.wroteHeader = true)
    {fragments : List InjectEntry}
    (hend : w.streaming = true ∨ isHTMLContentType (w.header.get "Content-Type") = false ∨
      (Inject.headHTML fragments = [] ∧ Inject.tailHTML fragments = []) ∧ w.header "Content-Length" = []) :
    ∃ u, w.flushTo d fragments = some u ∧ Forwarded (SniffedHeader d early) c u := by
  cases h with
  | fresh plain wroteHeader =>
    rw [hw] at wroteHeader
    cases wroteHeader
  | undecided pending code wroteHeader streaming hijacked html body underlying =>
    exact flushTo_captured pending.of_same code streaming hijacked underlying
      (fun _ => by rw [body]; exact d.plain) (hend.resolve_left (by simp [streaming]))
  | captured pending code wroteHeader streaming hijacked html type underlying =>
    exact flushTo_captured pending code streaming hijacked underlying (fun h => absurd h type)
      (hend.resolve_left (by simp [streaming]))
  | forwarded sent wroteHeader streaming =>
    exact ⟨w.underlying, by simp [flushTo, streaming], sent⟩

/-- The server finds the content type that the writer has set. -/
theorem sniffed_of_sniffedHeader {h₀ h₁ : Header} (h : SniffedHeader d early code h₀ h₁)
    {data : List UInt8} (hdata : bodyAllowed code = true → data = early) :
    sniffed d.detect h₀ data = sniffed d.detect h₁ data := by
  obtain rfl | ⟨htype, hencoding, htransfer, hearly, hallowed, rfl⟩ := h
  · rfl
  · rw [hdata hallowed]
    simp [sniffed, htype, hencoding, htransfer, hearly]

/-- **With good calls, the client gets what it would have got.** -/
theorem respondHTML_seen {d : Detector} {limit : ℕ} {fragments : List InjectEntry} {cs : List Call}
    (hgood : GoodHTMLCalls d limit cs) (hend : GoodHTMLEnd d limit fragments cs) :
    SeenAs d.detect (newResponseWriter.calls cs) (respondHTML d limit fragments cs) := by
  obtain ⟨w, c, hw, hc, h⟩ := htmlMirrors_calls (htmlMirrors_new d (earlyBody cs) limit) hgood
  obtain ⟨hstatus, hlast⟩ := hend w hw
  obtain ⟨u, hflush, hsent⟩ := htmlMirrors_flushTo h hstatus hlast
  obtain ⟨code, h₀, -, hfinal, -, -, hcode, hcodes⟩ := hsent.final
  refine ⟨c, u, hc, by rw [respondHTML, hw]; exact hflush, ?_, code, hcodes, hcode⟩
  refine hsent.seen_eq fun code h₀ h₁ hfinal hrel => ?_
  refine sniffed_of_sniffedHeader hrel fun hallowed => ?_
  have hbody : c.MayHaveBody := by
    intro f hf
    rw [hfinal] at hf
    cases hf
    exact hallowed
  simpa [newResponseWriter] using ResponseWriter.early_calls hc hbody

/-- Text, unless the body begins with an HTML tag. -/
def tagDetector : Detector where
  detect data :=
    if (Utf8.bytes "<html>").isPrefixOf data then "text/html; charset=utf-8" else "text/plain; charset=utf-8"
  ne_empty data := by split_ifs <;> decide
  plain := by decide +kernel

/-- A page that is not found, with a part that is sent later. -/
def notFound : List Call :=
  [.edit (.set "Cache-Control" "no-store"), .writeHeader 404, .writeHeader 200, .write [104, 105], .write [33],
    .flush, .write [63]]

end Plugin

end Komari
