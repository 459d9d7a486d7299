import Mathlib.Logic.Function.Basic
import Mathlib.Algebra.Order.Ring.Int

/-!
# Response writers

The writer of the server, as handlers and the wrappers of the plugins use it: the header is sent with the
first final status, what is written then goes into the body, and what is sent does not change any more.
-/

namespace Komari

namespace Plugin

/-! ### Headers -/

/-- The values of each name, names in canonical form. -/
abbrev Header := String → List String

namespace Header

/-- No field. -/
def empty : Header := fun _ => []

/-- One more value of a field. -/
def add (h : Header) (name value : String) : Header := Function.update h name (h name ++ [value])

/-- The one value of a field. -/
def set (h : Header) (name value : String) : Header := Function.update h name [value]

/-- No value of a field. -/
def del (h : Header) (name : String) : Header := Function.update h name []

/-- The first value, or the empty text. -/
def get (h : Header) (name : String) : String := (h name).headD ""

/-- All values of a header, added to those of another one; the order of the names does not matter. -/
def addAll (h into : Header) : Header := fun name => into name ++ h name

@[simp] theorem addAll_empty (h : Header) : h.addAll empty = h := by
  funext name
  rfl

@[simp] theorem set_same (h : Header) (name value : String) : h.set name value name = [value] := by
  simp [set]

theorem get_set_same (h : Header) (name value : String) : (h.set name value).get name = value := by
  simp [get]

theorem del_of_nil {h : Header} {name : String} (hnil : h name = []) : h.del name = h := by
  rw [del, ← hnil, Function.update_eq_self]

end Header

/-- A change that a handler makes to the header. -/
inductive HeaderEdit where
  | add (name value : String)
  | set (name value : String)
  | del (name : String)
  deriving DecidableEq

/-- One change of a header. -/
def HeaderEdit.apply : HeaderEdit → Header → Header
  | add name value, h => h.add name value
  | set name value, h => h.set name value
  | del name, h => h.del name

/-! ### The writer of the server -/

/-- The writer of the server: the header that may be edited, and what was sent. -/
structure ResponseWriter where
  header : Header
  /-- Informational statuses, with the header at that time. -/
  informational : List (ℤ × Header)
  /-- The final status, with the header at that time. -/
  final : Option (ℤ × Header)
  body : List UInt8
  /-- The part of the body that was there when the header went out. -/
  early : List UInt8
  flushed : Bool
  /-- The statuses with which `WriteHeader` was called. -/
  codes : List ℤ

/-- Nothing was written. -/
def newResponseWriter : ResponseWriter := ⟨Header.empty, [], none, [], [], false, []⟩

/-- A status with which a response may have a body. -/
def bodyAllowed (code : ℤ) : Bool := !(code < 200 || code = 204 || code = 304)

namespace ResponseWriter

/-- The header is sent with a status, if none was sent before. -/
def commit (w : ResponseWriter) (code : ℤ) : ResponseWriter :=
  match w.final with
  | none => { w with final := some (code, w.header) }
  | some _ => w

/-- `WriteHeader`, which panics at a status that is none. -/
def writeHeader (w : ResponseWriter) (code : ℤ) : Option ResponseWriter :=
  let w := { w with codes := w.codes ++ [code] }
  if w.final.isSome then some w
  else if code < 100 ∨ 999 < code then none
  else if code < 200 ∧ code ≠ 101 then some { w with informational := w.informational ++ [(code, w.header)] }
  else some (w.commit code)

/-- A wrapper forwards its header and status. -/
def writeThrough (w : ResponseWriter) (status : ℤ) (header : Header) : Option ResponseWriter :=
  writeHeader { w with header := header.addAll w.header } status

/-- A final status, and the body that may come with it. -/
def allowed (w : ResponseWriter) : Bool := w.final.any fun f => bodyAllowed f.1

/-- `Write`, which sends the header with status 200 if none was sent. -/
def write (w : ResponseWriter) (p : List UInt8) : ResponseWriter :=
  let w := w.commit 200
  if w.allowed then
    { w with body := w.body ++ p, early := if w.flushed then w.early else w.early ++ p }
  else w

/-- `Flush`, which sends the header with status 200 if none was sent. -/
def flush (w : ResponseWriter) : ResponseWriter := { w.commit 200 with flushed := true }

end ResponseWriter

/-- What the client sees. -/
structure Seen where
  status : ℤ
  header : Header
  informational : List (ℤ × Header)
  body : List UInt8

/-- The header with a content type, found out from the beginning of the body if the handler has set none. -/
def sniffed (detect : List UInt8 → String) (h : Header) (data : List UInt8) : Header :=
  if h "Content-Type" = [] ∧ h.get "Content-Encoding" = "" ∧ h "Transfer-Encoding" = [] ∧ data ≠ [] then
    h.set "Content-Type" (detect (data.take 512))
  else h

/-- What the client has got when the handler has returned. -/
def ResponseWriter.seen (detect : List UInt8 → String) (w : ResponseWriter) : Option Seen :=
  (w.commit 200).final.map fun f => ⟨f.1, sniffed detect f.2 w.early, w.informational, w.body⟩

end Plugin

end Komari
