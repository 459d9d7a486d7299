import Komari.Plugin.Writer

/-!
# The buffered response

Response hooks may change a response before it is sent, so that it is captured first. It is forwarded as it
is with the first `Flush`, or when it gets larger than the buffer may be.
-/

namespace Komari

namespace Plugin

/-- Captures a response, until it is forwarded. -/
structure BufferedResponseWriter where
  header : Header
  statusCode : ℤ
  body : List UInt8
  wroteHeader : Bool
  streaming : Bool
  forwarded : Bool
  hijacked : Bool
  limit : ℕ
  /-- Buffering was given up because of the size of the body. -/
  passthrough : Bool
  underlying : ResponseWriter

/-- `32 << 20` -/
def maxHookBufferBytes : ℕ := 32 * 2 ^ 20

/-- Nothing was written. -/
def newBufferedResponseWriter (limit : ℕ) (w : ResponseWriter) : BufferedResponseWriter :=
  ⟨Header.empty, 0, [], false, false, false, false, limit, false, w⟩

namespace BufferedResponseWriter

def writeHeader (b : BufferedResponseWriter) (code : ℤ) : Option BufferedResponseWriter :=
  if b.streaming then
    if b.forwarded || b.hijacked then some b
    else
      (b.underlying.writeThrough code b.header).map fun w => { b with forwarded := true, underlying := w }
  else if b.wroteHeader then some b
  else some { b with statusCode := code, wroteHeader := true }

def write (b : BufferedResponseWriter) (p : List UInt8) : Option BufferedResponseWriter :=
  if b.streaming then some { b with underlying := b.underlying.write p }
  else
    let b := if b.wroteHeader then b else { b with statusCode := 200, wroteHeader := true }
    if b.body.length + p.length > b.limit then
      (b.underlying.writeThrough b.statusCode b.header).map fun w =>
        { b with
          streaming := true, forwarded := true, passthrough := true
          underlying := (w.write b.body).write p }
    else some { b with body := b.body ++ p }

/-- The status, or 200. -/
def status (b : BufferedResponseWriter) : ℤ := if b.wroteHeader then b.statusCode else 200

/-- What a response hook makes of the response. -/
def apply (b : BufferedResponseWriter) (status : ℤ) (header : Header) (body : List UInt8) :
    BufferedResponseWriter :=
  if b.streaming then b
  else
    let header := if body = b.body then header else header.del "Content-Length"
    { b with statusCode := status, wroteHeader := true, header := header, body := body }

/-- The captured response is sent, if it was not forwarded. -/
def flushTo (b : BufferedResponseWriter) : Option ResponseWriter :=
  if b.streaming || b.hijacked then some b.underlying
  else (b.underlying.writeThrough b.statusCode b.header).map fun w => w.write b.body

def flush (b : BufferedResponseWriter) : Option BufferedResponseWriter :=
  if b.streaming then some { b with underlying := b.underlying.flush }
  else
    (b.underlying.writeThrough b.statusCode b.header).map fun w =>
      { b with streaming := true, underlying := (w.write b.body).flush }

end BufferedResponseWriter

end Plugin

end Komari
