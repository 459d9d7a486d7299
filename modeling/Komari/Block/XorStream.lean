import Komari.Codec.BitStream
import Komari.Codec.Varint

/-!
# Streams of XORed words

A series of 64-bit values is stored as the first value and, for each following one, the XOR with
the value before it: a clear bit if that is zero, and otherwise the XOR without its leading and
trailing zeros, behind 6 bits for the number of leading zeros and 6 bits for the number of
significant bits (0 standing for 64).  The point blocks may omit these 12 bits when the XOR fits
into the window of an earlier value, which both sides remember; the rollup blocks always write them.

* `decode_encodeSQLiteV4FloatBits` : round trip of the stream without.
-/

namespace Komari

namespace Block

open Codec

/-! ### Leading and trailing zeros -/

/-- `bits.LeadingZeros64`. -/
def leadingZeros64 (x : UInt64) : ℕ :=
  ((List.range 64).find? fun i => x.toNat.testBit (63 - i)).getD 64

/-- `bits.TrailingZeros64`. -/
def trailingZeros64 (x : UInt64) : ℕ :=
  ((List.range 64).find? fun i => x.toNat.testBit i).getD 64

theorem exists_testBit_lt {x : UInt64} (hx : x ≠ 0) : ∃ i, i < 64 ∧ x.toNat.testBit i = true := by
  have hne : x.toNat ≠ 0 := by
    intro h
    exact hx (UInt64.toNat_inj.mp h)
  obtain ⟨i, hi⟩ := Nat.exists_testBit_of_ne_zero hne
  refine ⟨i, ?_, hi⟩
  by_contra hlt
  have hbig : x.toNat < 2 ^ i := x.toNat_lt.trans_le (Nat.pow_le_pow_right (by omega) (by omega))
  rw [Nat.testBit_lt_two_pow hbig] at hi
  cases hi

theorem lt_of_leadingZeros64 {x : UInt64} (hx : x ≠ 0) :
    leadingZeros64 x < 64 ∧ x.toNat < 2 ^ (64 - leadingZeros64 x) := by
  obtain ⟨i, hi, hbit⟩ := exists_testBit_lt hx
  unfold leadingZeros64
  cases hfind : (List.range 64).find? fun i => x.toNat.testBit (63 - i) with
  | none =>
    rw [List.find?_eq_none] at hfind
    exact absurd (by rwa [show 63 - (63 - i) = i by omega])
      (hfind (63 - i) (List.mem_range.mpr (by omega)))
  | some l =>
    obtain ⟨-, hl, hbefore⟩ := List.find?_range_eq_some.mp hfind
    rw [List.mem_range] at hl
    refine ⟨hl, Nat.lt_pow_two_of_testBit _ fun j hj => ?_⟩
    simp only [Option.getD_some] at hj
    by_cases hj64 : j < 64
    · have h := hbefore (63 - j) (by omega)
      rw [show 63 - (63 - j) = j by omega] at h
      simpa using h
    · exact Nat.testBit_lt_two_pow
        (x.toNat_lt.trans_le (Nat.pow_le_pow_right (by omega) (by omega)))

/-- The trailing zeros divide a word, and leave it at least one significant bit. -/
theorem dvd_of_trailingZeros64 {x : UInt64} (hx : x ≠ 0) :
    leadingZeros64 x + trailingZeros64 x < 64 ∧ 2 ^ trailingZeros64 x ∣ x.toNat := by
  obtain ⟨i, hi, hbit⟩ := exists_testBit_lt hx
  obtain ⟨-, hlt⟩ := lt_of_leadingZeros64 hx
  unfold trailingZeros64
  cases hfind : (List.range 64).find? fun i => x.toNat.testBit i with
  | none =>
    rw [List.find?_eq_none] at hfind
    exact absurd hbit (hfind i (List.mem_range.mpr hi))
  | some t =>
    obtain ⟨ht, -, hbefore⟩ := List.find?_range_eq_some.mp hfind
    constructor
    · by_contra hge
      simp only [Option.getD_some] at hge
      have hbig : x.toNat < 2 ^ t := hlt.trans_le (Nat.pow_le_pow_right (by omega) (by omega))
      rw [Nat.testBit_lt_two_pow hbig] at ht
      cases ht
    · rw [Option.getD_some, Nat.dvd_iff_mod_eq_zero]
      refine Nat.eq_of_testBit_eq fun j => ?_
      rw [Nat.testBit_mod_two_pow, Nat.zero_testBit]
      by_cases hj : j < t
      · have h := hbefore j hj
        simpa [hj] using h
      · simp [hj]

/-- A window that leaves out only zeros: what is left fits the significant bits, and shifting it
back restores the word. -/
theorem shiftRight_window {x : UInt64} {leading trailing : ℕ} (hx : x ≠ 0)
    (hfits : leading + trailing ≤ 64) (hl : leading ≤ leadingZeros64 x)
    (ht : trailing ≤ trailingZeros64 x) :
    x.toNat >>> trailing < 2 ^ (64 - leading - trailing) ∧
      UInt64.ofNat ((x.toNat >>> trailing) <<< trailing) = x := by
  have hdvd : 2 ^ trailing ∣ x.toNat :=
    (Nat.pow_dvd_pow 2 ht).trans (dvd_of_trailingZeros64 hx).2
  rw [Nat.shiftRight_eq_div_pow, Nat.shiftLeft_eq, Nat.div_mul_cancel hdvd, UInt64.ofNat_toNat]
  refine ⟨?_, rfl⟩
  rw [Nat.div_lt_iff_lt_mul (by positivity), ← pow_add]
  refine (lt_of_leadingZeros64 hx).2.trans_le (Nat.pow_le_pow_right (by omega) (by omega))

/-! ### The window of one value -/

/-- Write a nonzero XOR with its own window. -/
def writeWindow (w : BitWriter) (xor : UInt64) : BitWriter :=
  let leading := leadingZeros64 xor
  let trailing := trailingZeros64 xor
  let significant := 64 - leading - trailing
  ((w.writeBits leading 6).writeBits (if significant = 64 then 0 else significant) 6).writeBits
    (xor.toNat >>> trailing) significant

/-- Read the 12 bits of a window: its leading and its trailing zeros. -/
def readWindow (msg : String) : Decoder BitReader (ℕ × ℕ) := do
  let leading ← readBits 6
  let significantBits ← readBits 6
  let significant := if significantBits = 0 then 64 else significantBits
  Decoder.ensure (decide (leading + significant ≤ 64)) msg
  pure (leading, 64 - leading - significant)

/-- Read an XOR through a window and apply it to the value before. -/
def readXor (previous : UInt64) (leading trailing : ℕ) : Decoder BitReader UInt64 := do
  let xorBits ← readBits (64 - leading - trailing)
  pure (previous ^^^ UInt64.ofNat (xorBits <<< trailing))

/-- The 12 bits that `writeWindow` puts in front of the significant ones. -/
def windowBits (xor : UInt64) : List Bool :=
  bitsOf (leadingZeros64 xor) 6 ++
    bitsOf (if 64 - leadingZeros64 xor - trailingZeros64 xor = 64 then 0
      else 64 - leadingZeros64 xor - trailingZeros64 xor) 6

/-- The significant bits of an XOR in a window. -/
def significantBits (xor : UInt64) (leading trailing : ℕ) : List Bool :=
  bitsOf (xor.toNat >>> trailing) (64 - leading - trailing)

theorem written_writeWindow (w : BitWriter) (xor : UInt64) :
    (writeWindow w xor).written = w.written ++ (windowBits xor ++
      significantBits xor (leadingZeros64 xor) (trailingZeros64 xor)) := by
  simp only [writeWindow, BitWriter.written_writeBits, windowBits, significantBits,
    List.append_assoc]

theorem decodes_readWindow (msg : String) {xor : UInt64} (hxor : xor ≠ 0) :
    Decodes BitReader.ahead (readWindow msg) (windowBits xor)
      (leadingZeros64 xor, trailingZeros64 xor) := by
  have hlt := (dvd_of_trailingZeros64 hxor).1
  unfold readWindow
  refine (decodes_readBits (by omega) (by omega)).bind ?_
  refine Decodes.bind_last (decodes_readBits (by omega) (by split_ifs <;> omega)) ?_
  have hsig : (if (if 64 - leadingZeros64 xor - trailingZeros64 xor = 64 then 0
      else 64 - leadingZeros64 xor - trailingZeros64 xor) = 0 then 64
      else if 64 - leadingZeros64 xor - trailingZeros64 xor = 64 then 0
        else 64 - leadingZeros64 xor - trailingZeros64 xor) =
      64 - leadingZeros64 xor - trailingZeros64 xor := by
    split_ifs <;> omega
  simp only [hsig]
  refine (Decodes.ensure (by rw [decide_eq_true_eq]; omega) _).bind_nil ?_
  rw [show 64 - leadingZeros64 xor - (64 - leadingZeros64 xor - trailingZeros64 xor) =
    trailingZeros64 xor by omega]
  exact Decodes.pure _

theorem decodes_readXor {previous value : UInt64} {leading trailing : ℕ}
    (hxor : previous ^^^ value ≠ 0) (hfits : leading + trailing ≤ 64)
    (hl : leading ≤ leadingZeros64 (previous ^^^ value))
    (ht : trailing ≤ trailingZeros64 (previous ^^^ value)) :
    Decodes BitReader.ahead (readXor previous leading trailing)
      (significantBits (previous ^^^ value) leading trailing) value := by
  obtain ⟨hlt, hback⟩ := shiftRight_window hxor hfits hl ht
  refine (decodes_readBits (by omega) hlt).bind_pure ?_
  rw [hback, ← UInt64.xor_assoc, UInt64.xor_self, UInt64.zero_xor]

theorem xor_ne_zero {a b : UInt64} (h : a ≠ b) : a ^^^ b ≠ 0 := by
  intro hzero
  apply h
  have hb : a ^^^ (a ^^^ b) = b := by rw [← UInt64.xor_assoc, UInt64.xor_self, UInt64.zero_xor]
  rw [hzero, UInt64.xor_zero] at hb
  exact hb

/-! ### The stream of a rollup block -/

/-- Write one more value; the state is the value before it. -/
def writeFloatBits (w : BitWriter) (previous value : UInt64) : BitWriter × UInt64 :=
  let xor := previous ^^^ value
  if xor = 0 then (w.writeBit false, value) else (writeWindow (w.writeBit true) xor, value)

/-- `encodeSQLiteV4FloatBits`. -/
def encodeSQLiteV4FloatBits : List UInt64 → BitWriter
  | [] => BitWriter.new
  | first :: rest => writeEach writeFloatBits (BitWriter.new.writeBits first.toNat 64) first rest

/-- The next value. -/
def readFloatBits (previous : UInt64) : Decoder BitReader (UInt64 × UInt64) := do
  let changed ← readBit
  if changed then do
    let (leading, trailing) ← readWindow "metric: invalid SQLite V4 rollup float window"
    let value ← readXor previous leading trailing
    pure (value, value)
  else pure (previous, previous)

/-- `decodeSQLiteV4FloatBits` for `count` values. -/
def decodeSQLiteV4FloatBits : ℕ → Decoder BitReader (List UInt64)
  | 0 => pure []
  | count + 1 => do
    let first ← readBits 64
    let rest ← Decoder.readList readFloatBits count (UInt64.ofNat first)
    pure (UInt64.ofNat first :: rest)

theorem decodes_readFloatBits (w : BitWriter) (previous value : UInt64) :
    ∃ out, (writeFloatBits w previous value).1.written = w.written ++ out ∧
      Decodes BitReader.ahead (readFloatBits previous) out (value, value) := by
  by_cases hsame : previous = value
  · subst hsame
    refine ⟨[false], by simp [writeFloatBits], ?_⟩
    exact Decodes.bind_last (decodes_readBit false) (Decodes.pure _)
  · have hxor := xor_ne_zero hsame
    refine ⟨[true] ++ (windowBits (previous ^^^ value) ++ significantBits (previous ^^^ value)
      (leadingZeros64 (previous ^^^ value)) (trailingZeros64 (previous ^^^ value))), ?_, ?_⟩
    · simp only [writeFloatBits, hxor, if_false, written_writeWindow, BitWriter.written_writeBit,
        List.append_assoc]
    · refine (decodes_readBit true).bind ?_
      refine Decodes.bind (decodes_readWindow _ hxor) ?_
      exact (decodes_readXor hxor (dvd_of_trailingZeros64 hxor).1.le le_rfl le_rfl).bind_pure rfl

theorem decodes_readFirst (first : UInt64) :
    Decodes BitReader.ahead (readBits 64) (bitsOf first.toNat 64) first.toNat :=
  decodes_readBits le_rfl first.toNat_lt

/-- **Round trip of a rollup stream**, which starts with the 64 bits of its first value. -/
theorem decodes_decodeSQLiteV4FloatBits {values : List UInt64} (hne : values ≠ []) :
    64 ≤ (encodeSQLiteV4FloatBits values).bits ∧
      Decodes BitReader.ahead (decodeSQLiteV4FloatBits values.length)
        (encodeSQLiteV4FloatBits values).written values := by
  obtain ⟨first, rest, rfl⟩ := List.exists_cons_of_ne_nil hne
  have hstep : ∀ (w : BitWriter) (g b a : UInt64), g = b → ∃ out b',
      (writeFloatBits w g a).1.written = w.written ++ out ∧
        Decodes BitReader.ahead (readFloatBits b) out (a, b') ∧ (writeFloatBits w g a).2 = b' := by
    rintro w g _ a rfl
    obtain ⟨out, hout, hread⟩ := decodes_readFloatBits w g a
    refine ⟨out, a, hout, hread, ?_⟩
    simp only [writeFloatBits]
    split_ifs <;> rfl
  obtain ⟨out, hout, hread⟩ := decodes_readList_writeEach hstep
    (BitWriter.new.writeBits first.toNat 64) (rfl : first = first) rest
  have hwritten : (encodeSQLiteV4FloatBits (first :: rest)).written =
      bitsOf first.toNat 64 ++ out := by
    rw [encodeSQLiteV4FloatBits, hout, BitWriter.written_writeBits, BitWriter.written_new,
      List.nil_append]
  constructor
  · rw [← BitWriter.length_written, hwritten, List.length_append, length_bitsOf]
    omega
  · rw [hwritten, List.length_cons, decodeSQLiteV4FloatBits]
    refine (decodes_readFirst first).bind ?_
    rw [UInt64.ofNat_toNat]
    exact hread.bind_pure rfl

/-- **What `encodeSQLiteV4FloatBits` packs into bytes is read back**, and nothing is left. -/
theorem decode_encodeSQLiteV4FloatBits {values : List UInt64} (hne : values ≠ []) :
    ∃ r, decodeSQLiteV4FloatBits values.length (newBitReader (encodeSQLiteV4FloatBits values).data
      (encodeSQLiteV4FloatBits values).bits) = .ok (values, r) ∧ r.ahead = [] :=
  (decodes_decodeSQLiteV4FloatBits hne).2 _ [] (by rw [ahead_newBitReader, List.append_nil])

def twoWords : List UInt64 := [1, 2]

theorem decode_encodeSQLiteV4FloatBits_twoWords :
    ∃ r, decodeSQLiteV4FloatBits twoWords.length (newBitReader (encodeSQLiteV4FloatBits twoWords).data
      (encodeSQLiteV4FloatBits twoWords).bits) = .ok (twoWords, r) ∧ r.ahead = [] :=
  decode_encodeSQLiteV4FloatBits (List.cons_ne_nil 1 [2])

/-! ### The stream of a point block -/

/-- What both sides remember between two values. -/
structure XorState where
  previousBits : UInt64
  /-- Leading zeros of the last window written. -/
  previousLeading : ℕ
  /-- Trailing zeros of the last window written. -/
  previousTrailing : ℕ
  windowValid : Bool
  /-- A window leaves room for its significant bits. -/
  fits : previousLeading + previousTrailing < 64

/-- The first value is known. -/
def XorState.init (first : UInt64) : XorState := ⟨first, 0, 0, false, by omega⟩

/-- Write one more value, in the remembered window if it fits there. -/
def writeXorValue (w : BitWriter) (s : XorState) (value : UInt64) : BitWriter × XorState :=
  let xor := s.previousBits ^^^ value
  if hxor : xor = 0 then (w.writeBit false, { s with previousBits := value })
  else
    let w := w.writeBit true
    if s.windowValid ∧ s.previousLeading ≤ leadingZeros64 xor ∧
        s.previousTrailing ≤ trailingZeros64 xor then
      ((w.writeBit false).writeBits (xor.toNat >>> s.previousTrailing)
          (64 - s.previousLeading - s.previousTrailing),
        { s with previousBits := value })
    else
      (writeWindow (w.writeBit true) xor,
        ⟨value, leadingZeros64 xor, trailingZeros64 xor, true, (dvd_of_trailingZeros64 hxor).1⟩)

/-- The value stream of a point block. -/
def encodeXorValues : List UInt64 → BitWriter
  | [] => BitWriter.new
  | first :: rest =>
    writeEach writeXorValue (BitWriter.new.writeBits first.toNat 64) (XorState.init first) rest

/-- Remember a window that was read; `readWindow` leaves it at least one significant bit. -/
def XorState.remember (s : XorState) (window : ℕ × ℕ) : XorState :=
  if h : window.1 + window.2 < 64 then ⟨s.previousBits, window.1, window.2, true, h⟩ else s

/-- The error messages of a point stream. -/
structure XorMessages where
  /-- A window has more than 64 bits. -/
  window : String
  /-- A value uses the remembered window before there is one. -/
  reuse : String

variable (m : XorMessages)

/-- The next value and its window. -/
def readXorValue (s : XorState) : Decoder BitReader (UInt64 × XorState) := do
  let changed ← readBit
  if changed then do
    let newWindow ← readBit
    if newWindow then do
      let window ← readWindow m.window
      let s := s.remember window
      let value ← readXor s.previousBits s.previousLeading s.previousTrailing
      pure (value, { s with previousBits := value })
    else do
      Decoder.ensure s.windowValid m.reuse
      let value ← readXor s.previousBits s.previousLeading s.previousTrailing
      pure (value, { s with previousBits := value })
  else pure (s.previousBits, s)

/-- The value stream of a point block with `count` values. -/
def decodeXorValues : ℕ → Decoder BitReader (List UInt64)
  | 0 => pure []
  | count + 1 => do
    let first ← readBits 64
    let rest ← Decoder.readList (readXorValue m) count (XorState.init (UInt64.ofNat first))
    pure (UInt64.ofNat first :: rest)

theorem decodes_readXorValue (w : BitWriter) (s : XorState) (value : UInt64) :
    ∃ out, (writeXorValue w s value).1.written = w.written ++ out ∧
      Decodes BitReader.ahead (readXorValue m s) out (value, (writeXorValue w s value).2) := by
  by_cases hsame : s.previousBits = value
  · subst hsame
    refine ⟨[false], by simp [writeXorValue], ?_⟩
    have hstate : (writeXorValue w s s.previousBits).2 = s := by simp [writeXorValue]
    rw [hstate]
    exact Decodes.bind_last (decodes_readBit false) (Decodes.pure _)
  · have hxor := xor_ne_zero hsame
    have hwin := (dvd_of_trailingZeros64 hxor).1
    unfold writeXorValue
    simp only [hxor, dite_false]
    split_ifs with hreuse
    · obtain ⟨hvalid, hl, ht⟩ := hreuse
      refine ⟨[true] ++ ([false] ++ significantBits (s.previousBits ^^^ value) s.previousLeading
        s.previousTrailing), ?_, ?_⟩
      · simp only [BitWriter.written_writeBits, BitWriter.written_writeBit, List.append_assoc,
          significantBits]
      · refine (decodes_readBit true).bind ((decodes_readBit false).bind ?_)
        refine (Decodes.ensure hvalid _).bind_nil ?_
        exact (decodes_readXor hxor s.fits.le hl ht).bind_pure rfl
    · refine ⟨[true] ++ ([true] ++ (windowBits (s.previousBits ^^^ value) ++ significantBits
        (s.previousBits ^^^ value) (leadingZeros64 (s.previousBits ^^^ value))
        (trailingZeros64 (s.previousBits ^^^ value)))), ?_, ?_⟩
      · simp only [written_writeWindow, BitWriter.written_writeBit, List.append_assoc]
      · refine (decodes_readBit true).bind ((decodes_readBit true).bind ?_)
        refine Decodes.bind (decodes_readWindow _ hxor) ?_
        simp only [XorState.remember, hwin, dite_true]
        exact (decodes_readXor hxor hwin.le le_rfl le_rfl).bind_pure rfl

/-- **Round trip of a point stream**, which starts with the 64 bits of its first value. -/
theorem decodes_decodeXorValues {values : List UInt64} (hne : values ≠ []) :
    64 ≤ (encodeXorValues values).bits ∧
      Decodes BitReader.ahead (decodeXorValues m values.length) (encodeXorValues values).written
        values := by
  obtain ⟨first, rest, rfl⟩ := List.exists_cons_of_ne_nil hne
  have hstep : ∀ (w : BitWriter) (g b : XorState) (a : UInt64), g = b → ∃ out b',
      (writeXorValue w g a).1.written = w.written ++ out ∧
        Decodes BitReader.ahead (readXorValue m b) out (a, b') ∧ (writeXorValue w g a).2 = b' := by
    rintro w g _ a rfl
    obtain ⟨out, hout, hread⟩ := decodes_readXorValue m w g a
    exact ⟨out, (writeXorValue w g a).2, hout, hread, rfl⟩
  obtain ⟨out, hout, hread⟩ := decodes_readList_writeEach hstep
    (BitWriter.new.writeBits first.toNat 64) (rfl : XorState.init first = _) rest
  have hwritten : (encodeXorValues (first :: rest)).written = bitsOf first.toNat 64 ++ out := by
    rw [encodeXorValues, hout, BitWriter.written_writeBits, BitWriter.written_new,
      List.nil_append]
  constructor
  · rw [← BitWriter.length_written, hwritten, List.length_append, length_bitsOf]
    omega
  · rw [hwritten, List.length_cons, decodeXorValues]
    refine (decodes_readFirst first).bind ?_
    rw [UInt64.ofNat_toNat]
    exact hread.bind_pure rfl

/-! ### A bit stream among bytes -/

/-- Read a bit stream that is stored as the number of its bits and its bytes. -/
def readBitSection {α : Type} (msg : String) (wrap : ByteDecoder (List UInt8) →
    ByteDecoder (List UInt8)) (decode : Decoder BitReader α) : ByteDecoder α := do
  let bitCount ← readUvarint.orError msg
  let ahead ← remaining
  Decoder.ensure (decide (64 ≤ bitCount ∧ bitCount ≤ ahead * 8)) msg
  let bytes ← wrap (readFull ((bitCount + 7) / 8))
  match decode (newBitReader bytes bitCount) with
  | .ok (values, _) => pure values
  | .error e => Decoder.fail e

theorem decodes_readBitSection {α : Type} (msg : String) {wrap : ByteDecoder (List UInt8) →
      ByteDecoder (List UInt8)} {decode : Decoder BitReader α} {w : BitWriter} {v : α}
    (hwrap : ∀ bytes, DecodesBytes (readFull bytes.length) bytes bytes →
      DecodesBytes (wrap (readFull bytes.length)) bytes bytes)
    (hbits : 64 ≤ w.bits) (hlt : w.bits < 2 ^ 64)
    (hdecode : Decodes BitReader.ahead decode w.written v) :
    DecodesBytes (readBitSection msg wrap decode) (putUvarint w.bits ++ w.data) v := by
  obtain ⟨r, hr, -⟩ := hdecode (newBitReader w.data w.bits) [] (by
    rw [ahead_newBitReader, List.append_nil])
  refine Decodes.bind ((decodes_uvarint hlt).orError _) (decodesBytes_of_eq fun rest => ?_)
  have hcheck : decide (64 ≤ w.bits ∧ w.bits ≤ (w.data ++ rest).length * 8) = true := by
    rw [decide_eq_true_eq, List.length_append, w.length_data]
    omega
  have hbytes := (hwrap w.data (decodes_readFull w.data)).eq rest
  rw [w.length_data] at hbytes
  simp only [bind, StateT.bind, remaining, Except.bind, Decoder.ensure, hcheck, if_true, hbytes, hr]
  rfl

end Block

end Komari
