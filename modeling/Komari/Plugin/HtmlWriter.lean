import Komari.Inject.Content
import Komari.Plugin.Calls

/-!
# The writer that injects HTML

Fragments of the plugins are put into HTML responses. The writer captures those only: a response of another
type, one that is too large and one that is flushed is forwarded as it is.
-/

namespace Komari

namespace Plugin

open Inject (InjectEntry)

/-! ### Content types -/

/-- Whether a MIME type is HTML, with or without parameters. -/
def isHTMLContentType (ct : String) : Bool :=
  (Occurs.index (Utf8.bytes "text/html") (Utf8.toLower (Utf8.bytes ct))).isSome

/-- `http.DetectContentType`: it always has an answer, and that for an empty body is not HTML. -/
structure Detector where
  detect : List UInt8 → String
  ne_empty : ∀ data, detect data ≠ ""
  plain : isHTMLContentType (detect []) = false

/-- The content type of the beginning of a body. -/
def sniffContentType (d : Detector) (buffered next : List UInt8) : String :=
  if buffered.length < 512 then d.detect (buffered ++ next.take (512 - buffered.length))
  else d.detect buffered

/-! ### The writer -/

/-- Captures a response that may be HTML, until it is forwarded. -/
structure HtmlInjectWriter where
  header : Header
  statusCode : ℤ
  wroteHeader : Bool
  body : List UInt8
  html : Bool
  streaming : Bool
  hijacked : Bool
  limit : ℕ
  underlying : ResponseWriter

/-- `32 << 20` -/
def maxHTMLInjectBufferBytes : ℕ := 32 * 2 ^ 20

/-- Nothing was written. -/
def newHTMLInjectWriter (limit : ℕ) (w : ResponseWriter) : HtmlInjectWriter :=
  ⟨Header.empty, 0, false, [], false, false, false, limit, w⟩

namespace HtmlInjectWriter

/-- What was captured is forwarded, and everything after it. -/
def passthrough (w : HtmlInjectWriter) : Option HtmlInjectWriter :=
  if w.streaming || w.hijacked then some w
  else
    (w.underlying.writeThrough w.statusCode w.header).map fun u =>
      { w with streaming := true, underlying := u.write w.body }

def writeHeader (w : HtmlInjectWriter) (code : ℤ) : Option HtmlInjectWriter :=
  if w.streaming then some w
  else
    let w := if w.wroteHeader then w else { w with statusCode := code, wroteHeader := true }
    let ct := w.header.get "Content-Type"
    if ct ≠ "" ∧ isHTMLContentType ct = false then w.passthrough else some w

/-- Bytes, behind the status. -/
def writeOn (w : HtmlInjectWriter) (p : List UInt8) : HtmlInjectWriter :=
  { w with underlying := w.underlying.write p }

/-- A write into the buffer, unless it gets too large. -/
def buffer (w : HtmlInjectWriter) (p : List UInt8) : Option HtmlInjectWriter :=
  if w.body.length + p.length > w.limit then w.passthrough.map (·.writeOn p)
  else some { w with body := w.body ++ p }

/-- A write whose content type is known. -/
def writeTyped (w : HtmlInjectWriter) (p : List UInt8) (ct : String) : Option HtmlInjectWriter :=
  if ct ≠ "" then
    if isHTMLContentType ct = false then w.passthrough.map (·.writeOn p)
    else buffer { w with html := true } p
  else w.buffer p

def write (d : Detector) (w : HtmlInjectWriter) (p : List UInt8) : Option HtmlInjectWriter :=
  if w.streaming then some (w.writeOn p)
  else
    let w := if w.wroteHeader then w else { w with statusCode := 200, wroteHeader := true }
    if w.html then w.buffer p
    else
      let ct := w.header.get "Content-Type"
      if ct = "" then
        let ct := sniffContentType d w.body p
        if ct ≠ "" then writeTyped { w with header := w.header.set "Content-Type" ct } p ct
        else w.buffer p
      else w.writeTyped p ct

def flush (w : HtmlInjectWriter) : Option HtmlInjectWriter :=
  w.passthrough.map fun w => { w with underlying := w.underlying.flush }

/-- As with the buffered response, a reader that cannot write itself is copied without end. -/
def readFrom (d : Detector) (w : HtmlInjectWriter) (writerTo : Bool) (chunks : List (List UInt8)) :
    Option HtmlInjectWriter :=
  (if w.wroteHeader then some w else w.writeHeader 200).bind fun w =>
    if writerTo then chunks.foldlM (write d) w else none

/-- The end of a response: the fragments are injected if it is HTML. -/
def flushTo (d : Detector) (w : HtmlInjectWriter) (fragments : List InjectEntry) : Option ResponseWriter :=
  if w.streaming || w.hijacked then some w.underlying
  else
    let own := w.header.get "Content-Type"
    let ct := if own = "" then d.detect w.body else own
    let header := if own = "" ∧ isHTMLContentType ct = true then w.header.set "Content-Type" ct else w.header
    if isHTMLContentType ct then
      (Inject.injectHTMLContent w.body fragments).bind fun body =>
        (w.underlying.writeThrough w.statusCode (header.del "Content-Length")).map (·.write body)
    else (w.underlying.writeThrough w.statusCode header).map (·.write w.body)

/-- One call of a handler. -/
def call (d : Detector) (w : HtmlInjectWriter) : Call → Option HtmlInjectWriter
  | .edit e => some { w with header := e.apply w.header }
  | .writeHeader code => w.writeHeader code
  | .write p => w.write d p
  | .flush => w.flush
  | .readFrom writerTo chunks => w.readFrom d writerTo chunks

end HtmlInjectWriter

/-- The steps of a response that may have panicked. -/
def htmlStep (d : Detector) (w : Option HtmlInjectWriter) (x : Call) : Option HtmlInjectWriter :=
  w.bind fun w => w.call d x

/-- A response with a limit of the buffer, some calls, and some fragments. -/
def respondHTML (d : Detector) (limit : ℕ) (fragments : List InjectEntry) (cs : List Call) :
    Option ResponseWriter :=
  (cs.foldl (htmlStep d) (some (newHTMLInjectWriter limit newResponseWriter))).bind fun w => w.flushTo d fragments

end Plugin

end Komari
