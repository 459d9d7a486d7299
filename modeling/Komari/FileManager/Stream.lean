import Komari.Traffic.Total
import Mathlib.Data.List.Infix

/-!
# One transfer of a download

An agent pushes the bytes of a block through a pipe, from where they are copied to the browser.
-/

namespace Komari

namespace FileManager

/-! ### Errors -/

/-- An error, with what the relay asks of it. -/
structure StreamError where
  /-- `Error`. -/
  message : String
  /-- It is an `*http.MaxBytesError`. -/
  maxBytes : Bool
  /-- It is `io.ErrClosedPipe`. -/
  closedPipe : Bool
  /-- It is `io.EOF`. -/
  eof : Bool
deriving DecidableEq

namespace StreamError

/-- `errors.New` and `fmt.Errorf`. -/
def new (message : String) : StreamError :=
  ⟨message, false, false, false⟩

/-- `strings.Contains`, for one of the markers, of the message in lower case. -/
def mentions (e : StreamError) (markers : List String) : Bool :=
  let message := e.message.toList.map Traffic.lowerChar
  markers.any fun marker => decide (marker.toList <:+: message)

/-- The agent is too old. -/
def isUnsupportedAgentFileOperation (e : StreamError) : Bool :=
  e.mentions ["unsupported file operation", "does not support file operations",
    "web control is disabled"]

/-- The relay was cut. -/
def isRelayPipeError (e : StreamError) : Bool :=
  e.closedPipe || e.eof || e.mentions ["closed pipe", "file transfer is closed"]

/-- The browser is gone. -/
def isClientDisconnectError (e : StreamError) : Bool :=
  e.mentions ["broken pipe", "connection reset by peer", "connection reset",
    "write: closed network connection", "client disconnected"]

/-- Another attempt may help. -/
def isChunkTransportError (e : StreamError) : Bool :=
  e.mentions [" 502 ", " 503 ", " 504 ", "broken pipe", "connection reset", "unexpected eof",
    "timeout"]

/-- No other attempt helps. -/
def isNonRetryableStreamError (e : StreamError) : Bool :=
  e.isUnsupportedAgentFileOperation ||
    e.mentions [" 400 ", " 401 ", " 403 ", " 404 ", " 405 ", " 409 ", " 410 ", " 411 ", " 413 ",
      " 415 ", " 422 ", " 501 "]

/-- A smaller chunk may help. -/
def isPayloadTooLargeError (e : StreamError) : Bool :=
  e.maxBytes || e.mentions [" 413 ", " 413", "413 ", "413:", "status 413", "status code 413",
    "request entity too large", "payload too large", "content too large"]

end StreamError

/-! ### The copy -/

/-- How a `Read` turns out: the bytes that are there, and the error that comes with them. -/
structure Read where
  bytes : ℕ
  err : Option StreamError
deriving DecidableEq

/-- How a `Write` turns out. -/
structure Write where
  bytes : ℕ
  err : Option StreamError
deriving DecidableEq

/-- The reading end of a pipe: the bytes to come, and its reads; the pipe ends behind the last. -/
structure Source where
  bytes : List UInt8
  reads : List Read
deriving DecidableEq

/-- What a copy has done. -/
structure Copied where
  forwarded : List UInt8
  err : Option StreamError
  rest : Source
  /-- `onFirstWrite` was called. -/
  started : Bool
deriving DecidableEq

def streamBufferSize : ℕ := 512 * 1024

/-- The copy behind a block. -/
def Copied.after (c : Copied) (data : List UInt8) : Copied :=
  { c with forwarded := data ++ c.forwarded, started := data ≠ [] || c.started }

/-- The error of a copy that ends with a read: `io.EOF` is none. -/
def readError (e : StreamError) : Option StreamError := if e.eof then none else some e

/-- `io.ErrShortWrite`. -/
def errShortWrite : StreamError := .new "short write"

/-- The bytes that a `Write` takes, and its error; nothing is written where nothing was read. -/
def send (write : Option Write) (data : List UInt8) : List UInt8 × Option StreamError :=
  match write with
  | none => (data, none)
  | some write =>
    let taken := data.take write.bytes
    if data = [] then ([], none)
    else if write.err ≠ none then (taken, write.err)
    else if taken.length ≠ data.length then (taken, some errShortWrite)
    else (taken, none)

/-- `copyStream`, from an `io.LimitReader`: the loop over the reads. -/
def copyStream : List Read → List UInt8 → List Write → ℕ → Copied
  | [], bytes, _, _ => ⟨[], none, ⟨bytes, []⟩, false⟩
  | read :: reads, bytes, writes, limit =>
    if limit = 0 then ⟨[], none, ⟨bytes, read :: reads⟩, false⟩
    else
      let n := min read.bytes (min streamBufferSize limit)
      let data := bytes.take n
      let rest : Source := ⟨bytes.drop n, reads⟩
      match send writes.head? data with
      | (taken, some e) => ⟨taken, some e, rest, data ≠ []⟩
      | (_, none) =>
        match read.err with
        | some e => ⟨data, readError e, rest, data ≠ []⟩
        | none =>
          let writes := if data = [] then writes else writes.tail
          (copyStream reads rest.bytes writes (limit - data.length)).after data

/-- `finishExactStream`: one more byte is asked for. -/
def finishExactStream (src : Source) (written expected : ℕ) : Option StreamError :=
  if written ≠ expected then
    some (.new s!"stream ended after {written} of {expected} bytes")
  else
    match src.reads with
    | [] => none
    | read :: _ =>
      if src.bytes.take (min read.bytes 1) ≠ [] then
        some (.new s!"stream exceeds {expected} bytes")
      else read.err.bind readError

/-- Copies so many bytes and asks for one more. -/
def copyExactStream (src : Source) (writes : List Write) (expected : ℕ) : Copied :=
  let copied := copyStream src.reads src.bytes writes expected
  match copied.err with
  | some _ => copied
  | none => { copied with err := finishExactStream copied.rest copied.forwarded.length expected }

/-! ### A transfer -/

/-- What an attempt meets. -/
structure Attempt where
  /-- The error of `newStreamTransfer`. -/
  newErr : Option StreamError
  /-- The reading end of the pipe, which ends with an error when the transfer is closed. -/
  source : Source
  writes : List Write
  /-- The error of the call of the agent. -/
  callErr : Option StreamError
  /-- The context of the request has ended. -/
  cancelled : Bool
deriving DecidableEq

/-- How an attempt went. -/
structure StreamCopyResult where
  forwarded : List UInt8
  err : Option StreamError
  /-- The headers were committed, if this was asked for. -/
  started : Bool
deriving DecidableEq

/-- How many were copied. -/
def StreamCopyResult.bytes (r : StreamCopyResult) : ℕ := r.forwarded.length

/-- The error of `streamDownloadChunk`: what reached the browser is authoritative, and the error of the
call comes before that of a pipe that it closed. -/
def transferError (copyResult : StreamCopyResult) (callErr : Option StreamError) (length : ℕ) :
    Option StreamError :=
  match copyResult.err, callErr with
  | none, callErr =>
    if copyResult.bytes = length then none
    else callErr.getD (.new s!"download stream returned {copyResult.bytes} of {length} bytes")
  | some copyErr, some callErr => if copyErr.isRelayPipeError then some callErr else some copyErr
  | some copyErr, none => some copyErr

/-- One attempt. -/
def copyTransfer (a : Attempt) (length : ℕ) : StreamCopyResult :=
  let copied := copyExactStream a.source a.writes length
  let written := copied.forwarded.length
  { forwarded := copied.forwarded
    err :=
      if copied.err = none ∧ written ≠ length then
        some (.new s!"download stream ended after {written} of {length} bytes")
      else copied.err
    started := copied.started }

/-- `streamDownloadChunk`, for a block of that length. -/
def streamDownloadChunk (a : Attempt) (length : ℕ) : StreamCopyResult × Option StreamError :=
  match a.newErr with
  | some e => (⟨[], none, false⟩, some e)
  | none =>
    let copyResult := copyTransfer a length
    (copyResult, transferError copyResult a.callErr length)

/-! ### What it forwards -/

theorem send_prefix (write : Option Write) (data : List UInt8) : (send write data).1 <+: data := by
  cases write with
  | none => exact List.prefix_rfl
  | some write =>
    simp only [send]
    split_ifs <;> simp [List.take_prefix]

/-- The copy forwards the front of what the source has, up to the limit. -/
theorem copyStream_forwarded (reads : List Read) (bytes : List UInt8) (writes : List Write)
    (limit : ℕ) : (copyStream reads bytes writes limit).forwarded <+: bytes ∧
      (copyStream reads bytes writes limit).forwarded.length ≤ limit := by
  induction reads generalizing bytes writes limit with
  | nil => simp [copyStream]
  | cons read reads ih =>
    rw [copyStream]
    split_ifs with hlimit
    · simp
    dsimp only
    set n := min read.bytes (min streamBufferSize limit) with hn
    have hdata : bytes.take n <+: bytes := List.take_prefix n bytes
    have hlength : (bytes.take n).length ≤ limit := by
      rw [List.length_take]
      omega
    have hsend := send_prefix writes.head? (bytes.take n)
    rcases hresult : send writes.head? (bytes.take n) with ⟨taken, _ | e⟩ <;> dsimp only
    · cases read.err with
      | some e => exact ⟨hdata, hlength⟩
      | none =>
        obtain ⟨hfront, hle⟩ := ih (bytes.drop n)
          (if bytes.take n = [] then writes else writes.tail) (limit - (bytes.take n).length)
        refine ⟨?_, ?_⟩
        · have := (List.prefix_append_right_inj (bytes.take n)).mpr hfront
          rwa [List.take_append_drop] at this
        · simp only [Copied.after, List.length_append]
          omega
    · rw [hresult] at hsend
      exact ⟨hsend.trans hdata, hsend.length_le.trans hlength⟩

theorem copyExactStream_forwarded (src : Source) (writes : List Write) (expected : ℕ) :
    (copyExactStream src writes expected).forwarded =
      (copyStream src.reads src.bytes writes expected).forwarded := by
  simp only [copyExactStream]
  split <;> rfl

theorem length_of_copyExactStream {src : Source} {writes : List Write} {expected : ℕ}
    (h : (copyExactStream src writes expected).err = none) :
    (copyExactStream src writes expected).forwarded.length = expected := by
  simp only [copyExactStream] at h ⊢
  split at h
  · rename_i e he
    rw [he] at h
    cases h
  · by_contra hne
    simp only [finishExactStream, ne_eq] at h hne
    rw [if_pos hne] at h
    cases h

theorem streamDownloadChunk_forwarded (a : Attempt) (length : ℕ) :
    (streamDownloadChunk a length).1.forwarded =
      if a.newErr = none then (copyExactStream a.source a.writes length).forwarded else [] := by
  cases hnew : a.newErr <;> simp [streamDownloadChunk, copyTransfer, hnew]

theorem bytes_le (a : Attempt) (length : ℕ) : (streamDownloadChunk a length).1.bytes ≤ length := by
  rw [StreamCopyResult.bytes, streamDownloadChunk_forwarded]
  split_ifs
  · rw [copyExactStream_forwarded]
    exact (copyStream_forwarded a.source.reads a.source.bytes a.writes length).2
  · exact Nat.zero_le _

/-- The outcome of a transfer: the whole block, or an error. -/
theorem streamDownloadChunk_cases (a : Attempt) (length : ℕ) :
    ((streamDownloadChunk a length).1.err = none ∧
      (streamDownloadChunk a length).1.bytes = length ∧ (streamDownloadChunk a length).2 = none) ∨
    ((streamDownloadChunk a length).2.isSome ∧ ((streamDownloadChunk a length).1.err = none →
      (streamDownloadChunk a length).1.forwarded = [])) := by
  cases hnew : a.newErr with
  | some e => simp [streamDownloadChunk, hnew]
  | none =>
    cases hcopy : (copyExactStream a.source a.writes length).err with
    | none =>
      have hlength := length_of_copyExactStream hcopy
      simp [streamDownloadChunk, copyTransfer, transferError, hnew, hcopy, hlength,
        StreamCopyResult.bytes]
    | some e =>
      cases hcall : a.callErr with
      | none => simp [streamDownloadChunk, copyTransfer, transferError, hnew, hcopy, hcall]
      | some e' =>
        by_cases hpipe : e.isRelayPipeError <;>
          simp [streamDownloadChunk, copyTransfer, transferError, hnew, hcopy, hcall, hpipe]

end FileManager

end Komari
