import Komari.FileManager.Stream
import Komari.Corn.Parse

/-!
# The relay of a download

A range is delivered block by block.  A block that fails before its first byte is tried again, three
times, and with a smaller size where it may be the size that fails.

* `streamDownloadRelay_exact` : the relay delivers exactly the range, in finitely many attempts.
-/

namespace Komari

namespace FileManager

/-! ### Sizes of blocks -/

def minTransferChunkSize : ℕ := 1 * 1024 * 1024

def maxTransferChunkSize : ℕ := 128 * 1024 * 1024

def defaultTransferChunkSize : ℕ := 25 * 1024 * 1024

/-- A size within the bounds. -/
def ValidChunkSize (size : ℕ) : Prop := minTransferChunkSize ≤ size ∧ size ≤ maxTransferChunkSize

instance (size : ℕ) : Decidable (ValidChunkSize size) := inferInstanceAs (Decidable (_ ∧ _))

/-- `rememberDownloadChunkSize`, for the size that is remembered of a client, which is zero at first. -/
def rememberDownloadChunkSize (existing size : ℕ) : ℕ :=
  if ¬ValidChunkSize size then existing
  else if minTransferChunkSize ≤ existing ∧ existing < size then existing
  else size

/-- What worked before, or the default. -/
def cachedDownloadChunkSize (remembered : ℕ) : ℕ :=
  if ValidChunkSize remembered then remembered else defaultTransferChunkSize

/-- `downloadChunkSizeForRequest`, for the parameter `chunk_size`. -/
def downloadChunkSizeForRequest (remembered : ℕ) (requested : String) : ℕ :=
  let size := cachedDownloadChunkSize remembered
  match Corn.atoi (TrafficReset.trimSpace requested).toList with
  | some value =>
    if (minTransferChunkSize : ℤ) ≤ value ∧ value ≤ maxTransferChunkSize then min size value.toNat
    else size
  | none => size

/-- A smaller size, if there is one. -/
def nextReducedTransferChunkSize (failedSize upperBound : ℕ) : Option ℕ :=
  if failedSize ≤ minTransferChunkSize then none
  else
    let high := if 0 < upperBound ∧ upperBound < failedSize then upperBound else failedSize
    if high ≤ minTransferChunkSize then some minTransferChunkSize
    else
      let candidate := minTransferChunkSize + (high - minTransferChunkSize) / 2
      let candidate := candidate / minTransferChunkSize * minTransferChunkSize
      let candidate := max candidate minTransferChunkSize
      let candidate := if failedSize ≤ candidate then failedSize - 1 else candidate
      if candidate < minTransferChunkSize then none else some candidate

/-- Every request starts with a size between the bounds. -/
theorem valid_downloadChunkSizeForRequest (remembered : ℕ) (requested : String) :
    ValidChunkSize (downloadChunkSizeForRequest remembered requested) := by
  have hcached : ValidChunkSize (cachedDownloadChunkSize remembered) := by
    unfold cachedDownloadChunkSize
    split_ifs with h
    · exact h
    · decide
  simp only [downloadChunkSizeForRequest]
  split
  · split_ifs with hvalue
    · unfold ValidChunkSize at *
      omega
    · exact hcached
  · exact hcached

/-- The next size is smaller, and no less than the lower bound. -/
theorem nextReducedTransferChunkSize_spec {failedSize upperBound next : ℕ}
    (h : nextReducedTransferChunkSize failedSize upperBound = some next) :
    minTransferChunkSize ≤ next ∧ next < failedSize := by
  simp only [nextReducedTransferChunkSize] at h
  split_ifs at h <;> cases h <;> omega

/-! ### The relay -/

/-- The variables of `streamDownloadRelay`. -/
structure Relay where
  offset : ℕ
  chunkIndex : ℕ
  currentChunkSize : ℕ
  adaptiveUpperBound : ℕ
  length : ℕ
  attempt : ℕ
  resized : Bool
  lastCopyResult : StreamCopyResult
  written : List UInt8
  committed : Bool
  /-- The size that is remembered of the client. -/
  remembered : ℕ
  /-- The error that it returns, if it has returned. -/
  result : Option (Option StreamError)
deriving DecidableEq

/-- How often a chunk is tried. -/
def streamChunkAttempts : ℕ := 3

namespace Relay

/-- `rememberDownloadChunkSize`. -/
def remember (s : Relay) (size : ℕ) : Relay :=
  { s with remembered := rememberDownloadChunkSize s.remembered size }

/-- The relay returns. -/
def finish (s : Relay) (err : Option StreamError) : Relay := { s with result := some err }

/-- The block is tried with a smaller size, if there is one; the upper bound is lowered in any case. -/
def resize (stop : ℕ) (s : Relay) : Option Relay :=
  match nextReducedTransferChunkSize s.length (min s.adaptiveUpperBound s.length) with
  | none => none
  | some next =>
    if next < s.length then
      some { s with
        adaptiveUpperBound := min s.adaptiveUpperBound s.length
        currentChunkSize := next
        length := min next (stop - s.offset)
        attempt := 1
        resized := true }
    else none

/-- The least size. -/
def lowerBound (s : Relay) : Relay :=
  { s with adaptiveUpperBound := min s.adaptiveUpperBound s.length }

/-- The chunk is through. -/
def accept (stop : ℕ) (s : Relay) : Relay :=
  let s := s.remember s.currentChunkSize
  let offset := s.offset + s.length
  let s := { s with offset := offset, chunkIndex := s.chunkIndex + 1, attempt := 1 }
  if offset < stop then { s with length := min s.currentChunkSize (stop - offset) }
  else (s.remember s.currentChunkSize).finish none

/-- The error is returned. -/
def giveUp (s : Relay) (chunkErr : StreamError) : Relay :=
  let disconnected := s.lastCopyResult.err.any StreamError.isClientDisconnectError
  let s :=
    if 0 < s.lastCopyResult.bytes ∧ disconnected then
      match nextReducedTransferChunkSize s.currentChunkSize s.currentChunkSize with
      | some next => if next < s.currentChunkSize then s.remember next else s
      | none => s
    else s
  s.finish (some chunkErr)

/-- The attempt has failed for good, or there is a next one. -/
def retry (s : Relay) (chunkErr : StreamError) (cancelled : Bool) : Relay :=
  if 0 < s.lastCopyResult.bytes ∨ s.attempt = streamChunkAttempts ∨ cancelled then
    s.giveUp chunkErr
  else { s with attempt := s.attempt + 1 }

/-- A transport error in the last attempt. -/
def transport (stop : ℕ) (s : Relay) (chunkErr : StreamError) (cancelled : Bool) : Relay :=
  if s.lastCopyResult.bytes = 0 ∧ s.attempt = streamChunkAttempts ∧
      chunkErr.isChunkTransportError then
    (s.resize stop).getD (s.lowerBound.retry chunkErr cancelled)
  else s.retry chunkErr cancelled

/-- An error that is not tried again. -/
def nonRetryable (stop : ℕ) (s : Relay) (chunkErr : StreamError) (cancelled : Bool) : Relay :=
  if s.lastCopyResult.bytes = 0 ∧ chunkErr.isNonRetryableStreamError then s.finish (some chunkErr)
  else s.transport stop chunkErr cancelled

/-- A block has failed; first it is asked whether it was too large. -/
def reject (stop : ℕ) (s : Relay) (chunkErr : StreamError) (cancelled : Bool) : Relay :=
  if s.lastCopyResult.bytes = 0 ∧ chunkErr.isPayloadTooLargeError then
    (s.resize stop).getD (s.lowerBound.nonRetryable stop chunkErr cancelled)
  else s.nonRetryable stop chunkErr cancelled

/-- An attempt: the body of the innermost loop. -/
def step (stop : ℕ) (s : Relay) (a : Attempt) : Relay :=
  let (copyResult, streamErr) := streamDownloadChunk a s.length
  let s := { s with
    lastCopyResult := copyResult
    written := s.written ++ copyResult.forwarded
    committed := s.committed || (decide (s.chunkIndex = 0) && copyResult.started)
    resized := false }
  if copyResult.err = none ∧ copyResult.bytes = s.length then s.accept stop
  else
    let chunkErr := (streamErr.or copyResult.err).getD (.new
      s!"download chunk {s.chunkIndex} returned {copyResult.bytes} of {s.length} bytes")
    s.reject stop chunkErr a.cancelled

/-- Nothing was sent. -/
def init (start size chunkSize remembered : ℕ) : Relay :=
  let s : Relay :=
    { offset := start
      chunkIndex := 0
      currentChunkSize := chunkSize
      adaptiveUpperBound := chunkSize
      length := min chunkSize size
      attempt := 1
      resized := false
      lastCopyResult := ⟨[], none, false⟩
      written := []
      committed := false
      remembered := remembered
      result := none }
  if size = 0 then (s.remember chunkSize).finish none
  else if chunkSize = 0 ∨ maxTransferChunkSize < chunkSize then
    s.finish (some (.new s!"invalid download chunk size {chunkSize}"))
  else s

end Relay

/-- The outcomes of the attempts: of the `n`th, for a block. -/
abbrev Attempts := ℕ → (offset length : ℕ) → Attempt

/-- `streamDownloadRelay`, after so many attempts. -/
def streamDownloadRelay (attempts : Attempts) (start size chunkSize remembered : ℕ) : ℕ → Relay
  | 0 => .init start size chunkSize remembered
  | n + 1 =>
    let s := streamDownloadRelay attempts start size chunkSize remembered n
    if s.result = none then s.step (start + size) (attempts n s.offset s.length) else s

/-! ### One attempt -/

namespace Relay

/-- What can follow a block that has failed. -/
inductive Rejected (stop : ℕ) (s : Relay) : Relay → Prop
  /-- It is tried with a smaller size. -/
  | resized {next bound : ℕ} (hbytes : s.lastCopyResult.bytes = 0)
      (hmin : minTransferChunkSize ≤ next) (hlt : next < s.length) :
      Rejected stop s { s with
        adaptiveUpperBound := bound
        currentChunkSize := next
        length := min next (stop - s.offset)
        attempt := 1
        resized := true }
  | again {bound : ℕ} (hbytes : s.lastCopyResult.bytes = 0)
      (hattempt : s.attempt ≠ streamChunkAttempts) :
      Rejected stop s { s with adaptiveUpperBound := bound, attempt := s.attempt + 1 }
  /-- The relay returns the error. -/
  | failed {bound remembered : ℕ} {err : StreamError} :
      Rejected stop s { s with
        adaptiveUpperBound := bound
        remembered := remembered
        result := some (some err) }

theorem Rejected.of_lowerBound {stop : ℕ} {s s' : Relay} (h : Rejected stop s.lowerBound s') :
    Rejected stop s s' := by
  cases h with
  | resized hbytes hmin hlt => exact .resized hbytes hmin hlt
  | again hbytes hattempt => exact .again hbytes hattempt
  | failed => exact .failed

theorem rejected_resize {stop : ℕ} {s s' : Relay} (hbytes : s.lastCopyResult.bytes = 0)
    (h : s.resize stop = some s') : Rejected stop s s' := by
  unfold resize at h
  split at h
  · cases h
  · rename_i next hnext
    split_ifs at h with hlt
    cases h
    exact .resized hbytes (nextReducedTransferChunkSize_spec hnext).1 hlt

theorem rejected_giveUp (stop : ℕ) (s : Relay) (chunkErr : StreamError) :
    Rejected stop s (s.giveUp chunkErr) := by
  simp only [giveUp]
  split_ifs
  · split
    · split_ifs <;> exact .failed
    · exact .failed
  · exact .failed

theorem rejected_retry (stop : ℕ) (s : Relay) (chunkErr : StreamError) (cancelled : Bool) :
    Rejected stop s (s.retry chunkErr cancelled) := by
  unfold retry
  split_ifs with h
  · exact rejected_giveUp stop s chunkErr
  · exact .again (by omega) fun hattempt => h (.inr (.inl hattempt))

theorem rejected_getD {stop : ℕ} {s s' : Relay} (hbytes : s.lastCopyResult.bytes = 0)
    (h : Rejected stop s.lowerBound s') : Rejected stop s ((s.resize stop).getD s') := by
  cases hresize : s.resize stop with
  | none => exact h.of_lowerBound
  | some t => exact rejected_resize hbytes hresize

theorem rejected_transport (stop : ℕ) (s : Relay) (chunkErr : StreamError) (cancelled : Bool) :
    Rejected stop s (s.transport stop chunkErr cancelled) := by
  unfold transport
  split_ifs with h
  · exact rejected_getD h.1 (rejected_retry stop _ chunkErr cancelled)
  · exact rejected_retry stop s chunkErr cancelled

theorem rejected_nonRetryable (stop : ℕ) (s : Relay) (chunkErr : StreamError) (cancelled : Bool) :
    Rejected stop s (s.nonRetryable stop chunkErr cancelled) := by
  unfold nonRetryable
  split_ifs with h
  · exact .failed
  · exact rejected_transport stop s chunkErr cancelled

theorem rejected_reject (stop : ℕ) (s : Relay) (chunkErr : StreamError) (cancelled : Bool) :
    Rejected stop s (s.reject stop chunkErr cancelled) := by
  unfold reject
  split_ifs with h
  · exact rejected_getD h.1 (rejected_nonRetryable stop _ chunkErr cancelled)
  · exact rejected_nonRetryable stop s chunkErr cancelled

/-- The relay with the outcome of a transfer. -/
def received (s : Relay) (c : StreamCopyResult) : Relay :=
  { s with
    lastCopyResult := c
    written := s.written ++ c.forwarded
    committed := s.committed || (decide (s.chunkIndex = 0) && c.started)
    resized := false }

/-- An attempt delivers the block, or the block has failed. -/
theorem step_cases (stop : ℕ) (s : Relay) (a : Attempt) :
    ((streamDownloadChunk a s.length).1.err = none ∧
      (streamDownloadChunk a s.length).1.bytes = s.length ∧
        s.step stop a = (s.received (streamDownloadChunk a s.length).1).accept stop) ∨
    (((streamDownloadChunk a s.length).1.err = none →
        (streamDownloadChunk a s.length).1.forwarded = []) ∧
      Rejected stop (s.received (streamDownloadChunk a s.length).1) (s.step stop a)) := by
  by_cases hok : (streamDownloadChunk a s.length).1.err = none ∧
      (streamDownloadChunk a s.length).1.bytes = s.length
  · refine Or.inl ⟨hok.1, hok.2, ?_⟩
    simp only [step]
    exact if_pos hok
  · refine Or.inr ⟨?_, ?_⟩
    · rcases streamDownloadChunk_cases a s.length with ⟨herr, hbytes, -⟩ | ⟨-, hempty⟩
      · exact absurd ⟨herr, hbytes⟩ hok
      · exact hempty
    · simp only [step]
      rw [if_neg hok]
      exact rejected_reject stop _ _ _

/-! ### What holds while it runs -/

/-- The relay runs: what was written is the file from the start of the range up to the offset. -/
structure Running (file : List UInt8) (start stop : ℕ) (s : Relay) : Prop where
  /-- The offset is in the range. -/
  offset : start ≤ s.offset ∧ s.offset < stop
  /-- The size of the blocks is valid. -/
  size : ValidChunkSize s.currentChunkSize
  /-- The block is as long as that, unless the remaining range is shorter. -/
  length : s.length = min s.currentChunkSize (stop - s.offset)
  attempt : 1 ≤ s.attempt ∧ s.attempt ≤ streamChunkAttempts
  written : s.written = (file.drop start).take (s.offset - start)

/-- What a relay that returned has sent. -/
structure Returned (file : List UInt8) (start stop : ℕ) (s : Relay) (err : Option StreamError) :
    Prop where
  /-- A front of the range was written. -/
  written : s.written <+: (file.drop start).take (stop - start)
  /-- There is no error if all was written and the last transfer ended well. -/
  nil_iff : err = none ↔
    s.written = (file.drop start).take (stop - start) ∧ s.lastCopyResult.err = none

/-- Holds after every attempt. -/
def Inv (file : List UInt8) (start stop : ℕ) (s : Relay) : Prop :=
  match s.result with
  | none => Running file start stop s
  | some err => Returned file start stop s err

/-- The attempts that are left, at most. -/
def fuel (stop : ℕ) (s : Relay) : ℕ :=
  3 * (stop - s.offset) + 3 * s.currentChunkSize + (3 - s.attempt)

variable {file : List UInt8} {start stop : ℕ} {s : Relay}

theorem Running.append (h : Running file start stop s) {data : List UInt8}
    (hdata : data <+: file.drop s.offset) :
    s.written ++ data = (file.drop start).take (s.offset + data.length - start) := by
  obtain ⟨hstart, -⟩ := h.offset
  have hdrop : (file.drop start).drop (s.offset - start) = file.drop s.offset := by
    rw [List.drop_drop]
    congr 1
    omega
  have hsplit : s.offset + data.length - start = s.offset - start + data.length := by omega
  rw [hsplit, List.take_add, hdrop, ← h.written, ← List.prefix_iff_eq_take.mp hdata]

theorem Running.append_prefix (h : Running file start stop s) {data : List UInt8}
    (hdata : data <+: file.drop s.offset) (hlength : data.length ≤ s.length) :
    s.written ++ data <+: (file.drop start).take (stop - start) := by
  rw [h.append hdata]
  refine List.take_prefix_take_left ?_
  have := h.length
  have := h.offset
  omega

/-- What an attempt of a relay that runs leads to. -/
structure Next (file : List UInt8) (start stop : ℕ) (s s' : Relay) : Prop where
  /-- The relay runs on, or has returned. -/
  inv : Inv file start stop s'
  /-- There are fewer attempts left. -/
  fuel_lt : s'.result = none → s'.fuel stop < s.fuel stop
  /-- A smaller size is smaller, and no less than the lower bound. -/
  resized : s'.resized = true → s'.offset = s.offset ∧
    s'.currentChunkSize < s.currentChunkSize ∧ s'.length < s.length ∧
      minTransferChunkSize ≤ s'.length

theorem one_le_streamChunkAttempts : 1 ≤ streamChunkAttempts := by decide

theorem Running.accept (h : Running file start stop s) (hresult : s.result = none)
    {c : StreamCopyResult} (herr : c.err = none) (hbytes : c.bytes = s.length)
    (hforward : c.forwarded <+: file.drop s.offset) :
    Next file start stop s ((s.received c).accept stop) := by
  have happend := h.append hforward
  have hlength := h.length
  obtain ⟨hstart, hstop⟩ := h.offset
  have hmin : 0 < minTransferChunkSize := by decide
  have hpos : 0 < s.length := by
    have := h.size.1
    omega
  have hattempt : s.attempt ≤ 3 := h.attempt.2
  rw [show c.forwarded.length = s.length from hbytes] at happend
  by_cases hnext : s.offset + s.length < stop
  · have heq : (s.received c).accept stop =
        { (s.received c).remember s.currentChunkSize with
          offset := s.offset + s.length
          chunkIndex := s.chunkIndex + 1
          attempt := 1
          length := min s.currentChunkSize (stop - (s.offset + s.length)) } := if_pos hnext
    rw [heq]
    refine ⟨?_, fun _ => ?_, fun hresized => by cases hresized⟩
    · have hrun : Running file start stop
          { (s.received c).remember s.currentChunkSize with
            offset := s.offset + s.length
            chunkIndex := s.chunkIndex + 1
            attempt := 1
            length := min s.currentChunkSize (stop - (s.offset + s.length)) } :=
        ⟨⟨by simp only; omega, hnext⟩, h.size, rfl, ⟨le_rfl, one_le_streamChunkAttempts⟩,
          happend⟩
      simpa [Inv, remember, received, hresult] using hrun
    · simp only [fuel, remember, received]
      omega
  · have heq : (s.received c).accept stop =
        { ((s.received c).remember s.currentChunkSize).remember s.currentChunkSize with
          offset := s.offset + s.length
          chunkIndex := s.chunkIndex + 1
          attempt := 1
          result := some none } := if_neg hnext
    rw [heq]
    refine ⟨?_, (by simp), fun hresized => by cases hresized⟩
    have hall : s.offset + s.length = stop := by omega
    rw [hall] at happend
    refine ⟨?_, ?_⟩
    · exact happend ▸ List.prefix_rfl
    · exact iff_of_true rfl ⟨happend, herr⟩

theorem Running.rejected (h : Running file start stop s) (hresult : s.result = none)
    (hfile : stop ≤ file.length) {c : StreamCopyResult}
    (hforward : c.forwarded <+: file.drop s.offset) (hlength : c.forwarded.length ≤ s.length)
    (hempty : c.err = none → c.forwarded = []) {s' : Relay}
    (hstep : Rejected stop (s.received c) s') : Next file start stop s s' := by
  obtain ⟨hstart, hstop⟩ := h.offset
  have hattempt := h.attempt
  have hblock := h.length
  have hmin' : 0 < minTransferChunkSize := by decide
  unfold streamChunkAttempts at hattempt
  cases hstep with
  | @resized next bound hbytes hmin hlt =>
    have hnone : c.forwarded = [] := List.length_eq_zero_iff.mp hbytes
    simp only [received] at hlt
    have hsize := h.size
    refine ⟨?_, fun _ => ?_, fun _ => ⟨rfl, ?_, ?_, ?_⟩⟩
    · simp only [Inv, received, hresult]
      refine ⟨⟨hstart, hstop⟩, ⟨hmin, ?_⟩, rfl, ⟨le_rfl, one_le_streamChunkAttempts⟩, ?_⟩
      · have := hsize.2
        simp only
        omega
      · simp only [hnone, List.append_nil]
        exact h.written
    · simp only [fuel, received]
      omega
    all_goals
      simp only [received]
      omega
  | @again bound hbytes hagain =>
    have hnone : c.forwarded = [] := List.length_eq_zero_iff.mp hbytes
    simp only [received, streamChunkAttempts] at hagain
    refine ⟨?_, fun _ => ?_, fun hresized => by cases hresized⟩
    · simp only [Inv, received, hresult]
      refine ⟨⟨hstart, hstop⟩, h.size, hblock, ⟨by simp, by simp only [streamChunkAttempts]; omega⟩,
        ?_⟩
      simp only [hnone, List.append_nil]
      exact h.written
    · simp only [fuel, received]
      omega
  | @failed bound remembered err =>
    refine ⟨?_, (by simp), fun hresized => by cases hresized⟩
    refine ⟨h.append_prefix hforward hlength, ?_⟩
    -- with no error of the copy nothing was forwarded, and the range goes on at the offset
    refine iff_of_false (by simp) ?_
    rintro ⟨hall, herr⟩
    have hlen := congrArg List.length hall
    simp only [received, hempty herr, List.append_nil, h.written, List.length_take,
      List.length_drop] at hlen
    omega

theorem Running.step (h : Running file start stop s) (hresult : s.result = none)
    (hfile : stop ≤ file.length) {a : Attempt}
    (hforward : (streamDownloadChunk a s.length).1.forwarded <+: file.drop s.offset) :
    Next file start stop s (s.step stop a) := by
  rcases step_cases stop s a with ⟨herr, hbytes, heq⟩ | ⟨hempty, hrejected⟩
  · rw [heq]
    exact h.accept hresult herr hbytes hforward
  · exact h.rejected hresult hfile hforward (bytes_le a s.length) hempty hrejected

end Relay

/-! ### Whole downloads -/

section Run

variable {file : List UInt8} {attempts : Attempts} {start size chunkSize remembered : ℕ}

/-- Each transfer forwards only the bytes of the file from its offset. -/
def Attempts.Forwards (attempts : Attempts) (file : List UInt8) : Prop :=
  ∀ n offset length,
    (streamDownloadChunk (attempts n offset length) length).1.forwarded <+: file.drop offset

theorem inv_init (hchunk : ValidChunkSize chunkSize) :
    Relay.Inv file start (start + size) (.init start size chunkSize remembered) := by
  have hmin : 0 < minTransferChunkSize := by decide
  obtain ⟨hlow, hhigh⟩ := hchunk
  unfold Relay.init
  split_ifs with hsize hchunk'
  · exact ⟨List.nil_prefix, by simp [Relay.finish, Relay.remember, hsize]⟩
  · omega
  · refine ⟨⟨le_rfl, by simp only; omega⟩, ⟨hlow, hhigh⟩, by simp,
      ⟨le_rfl, Relay.one_le_streamChunkAttempts⟩, by simp⟩

section

variable (hrange : start + size ≤ file.length)

include hrange

theorem next_streamDownloadRelay (hforwards : attempts.Forwards file) {n : ℕ}
    (hinv : Relay.Inv file start (start + size)
      (streamDownloadRelay attempts start size chunkSize remembered n))
    (hresult : (streamDownloadRelay attempts start size chunkSize remembered n).result = none) :
    Relay.Next file start (start + size)
      (streamDownloadRelay attempts start size chunkSize remembered n)
      (streamDownloadRelay attempts start size chunkSize remembered (n + 1)) := by
  simp only [Relay.Inv, hresult] at hinv
  have hstep := hinv.step hresult hrange (hforwards n _ _)
  rw [streamDownloadRelay]
  simp only [hresult, if_true]
  exact hstep

theorem inv_streamDownloadRelay
    (hchunk : ValidChunkSize chunkSize) (hforwards : attempts.Forwards file) (n : ℕ) :
    Relay.Inv file start (start + size)
      (streamDownloadRelay attempts start size chunkSize remembered n) := by
  induction n with
  | zero => exact inv_init hchunk
  | succ n ih =>
    by_cases hresult : (streamDownloadRelay attempts start size chunkSize remembered n).result = none
    · exact (next_streamDownloadRelay hrange hforwards ih hresult).inv
    · rw [streamDownloadRelay]
      simp only [hresult, if_false]
      exact ih

/-- As long as the relay runs, each attempt takes one of those that were left. -/
theorem fuel_streamDownloadRelay
    (hchunk : ValidChunkSize chunkSize) (hforwards : attempts.Forwards file) (n : ℕ)
    (hresult : (streamDownloadRelay attempts start size chunkSize remembered n).result = none) :
    n + (streamDownloadRelay attempts start size chunkSize remembered n).fuel (start + size) ≤
      3 * size + 3 * chunkSize + 2 := by
  induction n with
  | zero =>
    simp only [streamDownloadRelay, Relay.init, Relay.fuel] at hresult ⊢
    split_ifs at hresult ⊢ with hsize hchunk'
    · cases hresult
    · cases hresult
    · simp only
      omega
  | succ n ih =>
    by_cases hrun : (streamDownloadRelay attempts start size chunkSize remembered n).result = none
    · have hinv : Relay.Inv file start (start + size)
          (streamDownloadRelay attempts start size chunkSize remembered n) :=
        inv_streamDownloadRelay hrange hchunk hforwards n
      have := (next_streamDownloadRelay hrange hforwards hinv hrun).fuel_lt hresult
      have := ih hrun
      omega
    · rw [streamDownloadRelay] at hresult
      simp only [hrun, if_false] at hresult

theorem exists_result (hchunk : ValidChunkSize chunkSize) (hforwards : attempts.Forwards file) :
    ∃ err, (streamDownloadRelay attempts start size chunkSize remembered
      (3 * (size + chunkSize))).result = some err := by
  rw [← Option.isSome_iff_exists, ← Option.ne_none_iff_isSome]
  intro hresult
  have hfuel := fuel_streamDownloadRelay hrange hchunk hforwards _ hresult
  have hinv : Relay.Inv file start (start + size)
      (streamDownloadRelay attempts start size chunkSize remembered (3 * (size + chunkSize))) :=
    inv_streamDownloadRelay hrange hchunk hforwards _
  simp only [Relay.Inv, hresult] at hinv
  obtain ⟨-, hoffset⟩ := hinv.offset
  unfold Relay.fuel at hfuel
  omega

end

/-- The relay delivers exactly the range: what is written is always a front of it, after finitely many
attempts the relay returns, it returns nil if all was written and the last transfer ended well, and
every new size is smaller, and no less than the lower bound. -/
theorem streamDownloadRelay_exact (hrange : start + size ≤ file.length)
    (hchunk : ValidChunkSize chunkSize) (hforwards : attempts.Forwards file) :
    let relay := streamDownloadRelay attempts start size chunkSize remembered
    let range := (file.drop start).take size
    (∀ n, (relay n).written <+: range) ∧
    (∃ n ≤ 3 * (size + chunkSize), ∃ err, (relay n).result = some err) ∧
    (∀ n err, (relay n).result = some err →
      (err = none ↔ (relay n).written = range ∧ (relay n).lastCopyResult.err = none)) ∧
    (∀ n, (relay n).result = none → (relay (n + 1)).resized = true →
      (relay (n + 1)).offset = (relay n).offset ∧ (relay (n + 1)).length < (relay n).length ∧
        minTransferChunkSize ≤ (relay (n + 1)).length) ∧
    (∀ n, (relay n).result = none → minTransferChunkSize ≤ (relay n).length ∨
      (relay n).length = start + size - (relay n).offset) := by
  intro relay range
  have hinv : ∀ n, Relay.Inv file start (start + size) (relay n) :=
    inv_streamDownloadRelay hrange hchunk hforwards
  have hstop : start + size - start = size := by omega
  refine ⟨fun n => ?_, ⟨_, le_rfl, exists_result hrange hchunk hforwards⟩, fun n err hresult => ?_,
    fun n hresult hresized => ?_, fun n hresult => ?_⟩
  · have h := hinv n
    cases hresult : (relay n).result with
    | none =>
      simp only [Relay.Inv, hresult] at h
      have := h.append_prefix List.nil_prefix (Nat.zero_le _)
      rwa [List.append_nil, hstop] at this
    | some err =>
      simp only [Relay.Inv, hresult] at h
      have := h.written
      rwa [hstop] at this
  · have h := hinv n
    simp only [Relay.Inv, hresult] at h
    have := h.nil_iff
    rwa [hstop] at this
  · obtain ⟨hoffset, -, hlt, hmin⟩ :=
      (next_streamDownloadRelay hrange hforwards (hinv n) hresult).resized hresized
    exact ⟨hoffset, hlt, hmin⟩
  · have h := hinv n
    simp only [Relay.Inv, hresult] at h
    have := h.size.1
    have := h.length
    omega

end Run

/-- A file of one byte, behind which an agent sends another one. -/
def excessAttempts : Attempts := fun _ offset length =>
  if offset = 0 ∧ length = 1 then
    ⟨none, ⟨[7, 9], [⟨1, none⟩, ⟨1, none⟩]⟩, [], none, false⟩
  else ⟨some (.new "agent is offline"), ⟨[], []⟩, [], none, false⟩

theorem forwards_excessAttempts : excessAttempts.Forwards [7] := by
  intro n offset length
  unfold excessAttempts
  split_ifs with h
  · obtain ⟨rfl, rfl⟩ := h
    decide
  · exact List.nil_prefix

/-- The byte behind the range makes an error of a range that was written. -/
theorem streamDownloadRelay_excess :
    excessAttempts.Forwards [7] ∧ ValidChunkSize minTransferChunkSize ∧
      (streamDownloadRelay excessAttempts 0 1 minTransferChunkSize 0 1).written = [7] ∧
        (streamDownloadRelay excessAttempts 0 1 minTransferChunkSize 0 1).result =
          some (some (.new "stream exceeds 1 bytes")) := by
  refine ⟨forwards_excessAttempts, by decide, ?_, ?_⟩ <;> decide +kernel

/-- The agent finds the first block too large, is offline in the third attempt, and sends the blocks of
the file otherwise. -/
def adaptiveAttempts (file : List UInt8) : Attempts := fun n offset length =>
  if n = 0 then ⟨some (.new "agent returned 413"), ⟨[], []⟩, [], none, false⟩
  else if n = 2 then ⟨some (.new "agent is offline"), ⟨[], []⟩, [], none, false⟩
  else
    ⟨none, ⟨(file.drop offset).take length,
      List.replicate (length / streamBufferSize + 1) ⟨streamBufferSize, none⟩⟩, [], none, false⟩

theorem forwards_adaptiveAttempts (file : List UInt8) : (adaptiveAttempts file).Forwards file := by
  intro n offset length
  unfold adaptiveAttempts
  split_ifs
  · exact List.nil_prefix
  · exact List.nil_prefix
  · rw [streamDownloadChunk_forwarded, if_pos rfl, copyExactStream_forwarded]
    exact (copyStream_forwarded _ _ _ _).1.trans (List.take_prefix _ _)

/-- Three megabytes in blocks of two: the first block is tried again with one. -/
theorem streamDownloadRelay_exact_adaptive :
    let file := List.replicate (3 * minTransferChunkSize) 7
    let relay := streamDownloadRelay (adaptiveAttempts file) 0 (3 * minTransferChunkSize)
      (downloadChunkSizeForRequest 0 "2097152") 0
    (relay 1).length < (relay 0).length ∧ minTransferChunkSize ≤ (relay 1).length ∧
      ∃ n err, (relay n).result = some err ∧
        (err = none ↔ (relay n).written = file ∧ (relay n).lastCopyResult.err = none) := by
  intro file relay
  obtain ⟨-, ⟨n, -, err, hn⟩, hdone, hresized, -⟩ := @streamDownloadRelay_exact file
    (adaptiveAttempts file) 0 (3 * minTransferChunkSize) _ 0 (by simp [file])
    (valid_downloadChunkSizeForRequest 0 "2097152") (forwards_adaptiveAttempts file)
  obtain ⟨-, hlength, hmin⟩ := hresized 0 (by decide +kernel) (by decide +kernel)
  refine ⟨hlength, hmin, n, err, hn, ?_⟩
  have hall : (file.drop 0).take (3 * minTransferChunkSize) = file := by simp [file]
  rw [← hall]
  exact hdone n err hn

end FileManager

end Komari
