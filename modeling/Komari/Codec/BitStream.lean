import Mathlib.Data.Nat.Bitwise
import Mathlib.Data.List.Range
import Mathlib.Tactic.IntervalCases
import Mathlib.Tactic.Ring
import Komari.Codec.Decoder

/-!
# Bit streams

A bit writer appends single bits to a byte buffer, the highest bit of a byte first; a bit reader
takes them off again.  Both are the buffers of the program, seen as lists of bits:
`BitWriter.written` for what has been written, `BitReader.ahead` for what is still to be read.
-/

namespace Komari

namespace Codec

/-- Bit `i` of a byte buffer, the highest bit of a byte first; `false` behind its end. -/
def bitAt (data : List UInt8) (i : ℕ) : Bool := (data.getD (i / 8) 0).toNat.testBit (7 - i % 8)

/-- The buffer with room for one more bit, when `bits` bits have been written before. -/
def padded (data : List UInt8) (bits : ℕ) : List UInt8 :=
  if bits % 8 = 0 then data ++ [0] else data

/-- The buffer after one more bit, when `bits` bits have been written before. -/
def appendBit (data : List UInt8) (bits : ℕ) (value : Bool) : List UInt8 :=
  let data := padded data bits
  if value then data.modify (data.length - 1) (· ||| 1 <<< UInt8.ofNat (7 - bits % 8)) else data

theorem length_padded {data : List UInt8} {bits : ℕ} (hlen : data.length = (bits + 7) / 8) :
    (padded data bits).length = bits / 8 + 1 := by
  unfold padded
  split_ifs
  · rw [List.length_append, List.length_singleton]
    omega
  · omega

theorem bitAt_padded (data : List UInt8) (bits i : ℕ) :
    bitAt (padded data bits) i = bitAt data i := by
  unfold padded
  split_ifs
  · unfold bitAt
    congr 2
    rw [List.getD_eq_getElem?_getD, List.getD_eq_getElem?_getD, List.getElem?_append]
    split_ifs with h
    · rfl
    · rw [List.getElem?_eq_none (not_lt.mp h)]
      cases i / 8 - data.length with
      | zero => rfl
      | succ n => rfl
  · rfl

theorem length_appendBit {data : List UInt8} {bits : ℕ} (hlen : data.length = (bits + 7) / 8)
    (value : Bool) : (appendBit data bits value).length = (bits + 1 + 7) / 8 := by
  have h : (appendBit data bits value).length = (padded data bits).length := by
    unfold appendBit
    cases value with
    | false => rfl
    | true => simp only [if_true, List.length_modify]
  rw [h, length_padded hlen]
  omega

theorem testBit_or_shift (b : UInt8) {k : ℕ} (hk : k < 8) (j : ℕ) :
    (b ||| 1 <<< UInt8.ofNat k).toNat.testBit j = (b.toNat.testBit j || decide (k = j)) := by
  have hshift : ((1 : UInt8) <<< UInt8.ofNat k).toNat = 2 ^ k := by
    interval_cases k <;> rfl
  rw [UInt8.toNat_or, Nat.testBit_or, hshift, Nat.testBit_two_pow]

/-- Appending a bit sets bit number `bits` and changes no other one. -/
theorem bitAt_appendBit {data : List UInt8} {bits : ℕ} (hlen : data.length = (bits + 7) / 8)
    (hclear : ∀ i, bits ≤ i → bitAt data i = false) (value : Bool) (i : ℕ) :
    bitAt (appendBit data bits value) i = if i = bits then value else bitAt data i := by
  rw [← bitAt_padded data bits i]
  cases value with
  | false =>
    split_ifs with hi
    · exact (bitAt_padded data bits i).trans (hclear i hi.ge)
    · rfl
  | true =>
    have hlast := length_padded hlen
    simp only [appendBit, if_true, hlast, Nat.add_sub_cancel]
    rw [bitAt, List.getD_eq_getElem?_getD, List.getElem?_modify, Option.map_eq_map]
    by_cases hbyte : bits / 8 = i / 8
    · have hget : (padded data bits)[i / 8]? = some ((padded data bits).getD (i / 8) 0) := by
        rw [List.getD_eq_getElem?_getD, List.getElem?_eq_getElem (by omega)]
        rfl
      rw [hget, Option.map_some, if_pos hbyte, Option.getD_some, testBit_or_shift _ (by omega)]
      by_cases hi : i = bits
      · simp [hi]
      · have hne : ¬7 - bits % 8 = 7 - i % 8 := by omega
        simp [bitAt, hi, hne]
    · have hi : i ≠ bits := by
        rintro rfl
        exact hbyte rfl
      rw [if_neg hi, bitAt, List.getD_eq_getElem?_getD]
      simp only [if_neg hbyte, Option.map_id']

/-! ### Writing -/

/-- A bit writer: the bytes so far and the number of bits in them. -/
structure BitWriter where
  data : List UInt8
  /-- The number of bits written so far. -/
  bits : ℕ
  /-- The buffer has no byte too many. -/
  length_data : data.length = (bits + 7) / 8
  /-- The bits behind the last one written are clear. -/
  clear : ∀ i, bits ≤ i → bitAt data i = false

namespace BitWriter

/-- No bit is written. -/
def new : BitWriter := ⟨[], 0, rfl, fun i _ => by simp [bitAt]⟩

/-- One more bit. -/
def writeBit (w : BitWriter) (value : Bool) : BitWriter where
  data := appendBit w.data w.bits value
  bits := w.bits + 1
  length_data := length_appendBit w.length_data value
  clear := by
    intro i hi
    rw [bitAt_appendBit w.length_data w.clear, if_neg (by omega)]
    exact w.clear i (by omega)

/-- Write the lowest `count` bits of a value, the highest of them first. -/
def writeBits (w : BitWriter) (value : ℕ) : ℕ → BitWriter
  | 0 => w
  | count + 1 => (w.writeBit (value.testBit count)).writeBits value count

/-- The bits that were written. -/
def written (w : BitWriter) : List Bool := (List.range w.bits).map (bitAt w.data)

@[simp] theorem length_written (w : BitWriter) : w.written.length = w.bits := by
  simp [written]

@[simp] theorem written_new : new.written = [] := rfl

@[simp] theorem written_writeBit (w : BitWriter) (value : Bool) :
    (w.writeBit value).written = w.written ++ [value] := by
  have hbit := bitAt_appendBit w.length_data w.clear value
  simp only [written, writeBit, List.range_succ, List.map_append, List.map_singleton, hbit, if_true]
  congr 1
  refine List.map_congr_left fun i hi => ?_
  rw [hbit, if_neg (List.mem_range.mp hi).ne]

end BitWriter

/-- The lowest `count` bits of a value, the highest of them first. -/
def bitsOf (value : ℕ) : ℕ → List Bool
  | 0 => []
  | count + 1 => value.testBit count :: bitsOf value count

@[simp] theorem length_bitsOf (value count : ℕ) : (bitsOf value count).length = count := by
  induction count with
  | zero => rfl
  | succ count ih => rw [bitsOf, List.length_cons, ih]

theorem BitWriter.written_writeBits (w : BitWriter) (value count : ℕ) :
    (w.writeBits value count).written = w.written ++ bitsOf value count := by
  induction count generalizing w with
  | zero => simp [writeBits, bitsOf]
  | succ count ih => rw [writeBits, ih, written_writeBit, bitsOf, List.append_assoc,
      List.singleton_append]

/-! ### Reading -/

/-- A bit reader: a buffer, the number of bits in it and the position of the next one. -/
structure BitReader where
  data : List UInt8
  /-- The number of bits in the buffer. -/
  bits : ℕ
  /-- The number of bits read so far. -/
  index : ℕ
  /-- No bit behind the last one has been read. -/
  index_le : index ≤ bits

/-- A reader at the start of a buffer. -/
def newBitReader (data : List UInt8) (bitCount : ℕ) : BitReader :=
  ⟨data, bitCount, 0, Nat.zero_le _⟩

/-- The next bit. -/
def readBit : Decoder BitReader Bool := fun r =>
  if h : r.index < r.bits then .ok (bitAt r.data r.index, ⟨r.data, r.bits, r.index + 1, h⟩)
  else .error "unexpected EOF"

/-- Read `count` bits into the low end of a value. -/
def readBitsLoop : ℕ → ℕ → Decoder BitReader ℕ
  | 0, value => pure value
  | count + 1, value => do
    let bit ← readBit
    readBitsLoop count (2 * value + bit.toNat)

/-- Read a value of `count` bits, at most 64. -/
def readBits (count : ℕ) : Decoder BitReader ℕ := fun r =>
  if 64 < count ∨ r.bits < r.index + count then .error "unexpected EOF"
  else readBitsLoop count 0 r

/-- The bits that are left. -/
def BitReader.ahead (r : BitReader) : List Bool :=
  (List.range' r.index (r.bits - r.index)).map (bitAt r.data)

theorem ahead_newBitReader (w : BitWriter) : (newBitReader w.data w.bits).ahead = w.written := by
  simp [newBitReader, BitReader.ahead, BitWriter.written, List.range_eq_range']

theorem BitReader.length_ahead (r : BitReader) : r.ahead.length = r.bits - r.index := by
  simp [ahead]

theorem decodes_readBit (b : Bool) : Decodes BitReader.ahead readBit [b] b := by
  intro r rest hr
  have hlen := r.length_ahead
  rw [hr] at hlen
  obtain ⟨n, hn⟩ : ∃ n, r.bits - r.index = n + 1 := ⟨_, hlen.symm⟩
  have hlt : r.index < r.bits := by omega
  rw [BitReader.ahead, hn, List.range'_succ, List.map_cons, List.singleton_append] at hr
  obtain ⟨hb, hrest⟩ := List.cons.inj hr
  refine ⟨⟨r.data, r.bits, r.index + 1, hlt⟩, by rw [readBit, dif_pos hlt, hb], ?_⟩
  rw [← hrest, BitReader.ahead, show r.bits - (r.index + 1) = n by omega]

theorem decodes_readBitsLoop (value count acc : ℕ) :
    Decodes BitReader.ahead (readBitsLoop count acc) (bitsOf value count)
      (acc * 2 ^ count + value % 2 ^ count) := by
  induction count generalizing acc with
  | zero => simpa [readBitsLoop, bitsOf, Nat.mod_one] using Decodes.pure acc
  | succ count ih =>
    have h : Decodes BitReader.ahead (readBitsLoop (count + 1) acc) (bitsOf value (count + 1)) _ :=
      (decodes_readBit (value.testBit count)).bind (ih (2 * acc + (value.testBit count).toNat))
    have hval : (2 * acc + (value.testBit count).toNat) * 2 ^ count + value % 2 ^ count =
        acc * 2 ^ (count + 1) + value % 2 ^ (count + 1) := by
      rw [pow_succ, Nat.mod_mul, Nat.testBit_eq_decide_div_mod_eq]
      rcases Nat.mod_two_eq_zero_or_one (value / 2 ^ count) with h | h <;> simp [h] <;> ring
    rwa [hval] at h

/-- Reading `count` bits gives back the value whose `count` bits were written. -/
theorem decodes_readBits {value count : ℕ} (hcount : count ≤ 64) (hvalue : value < 2 ^ count) :
    Decodes BitReader.ahead (readBits count) (bitsOf value count) value := by
  intro r rest hr
  have hlen := r.length_ahead
  rw [hr, List.length_append, length_bitsOf] at hlen
  obtain ⟨s, hs, hrest⟩ := decodes_readBitsLoop value count 0 r rest hr
  refine ⟨s, ?_, hrest⟩
  have hle := r.index_le
  have hfits : ¬(64 < count ∨ r.bits < r.index + count) := by
    rintro (h | h) <;> omega
  rw [readBits, if_neg hfits, hs, zero_mul, zero_add, Nat.mod_eq_of_lt hvalue]

/-! ### Loops -/

/-- Write a list, one element after the other, passing a state along. -/
def writeEach {γ α : Type} (write : BitWriter → γ → α → BitWriter × γ) (w : BitWriter) (g : γ)
    (l : List α) : BitWriter :=
  (l.foldl (fun (s : BitWriter × γ) a => write s.1 s.2 a) (w, g)).1

/-- The loop that reads what the loop `writeEach` has written: if `Inv` relates the two states at
the start of an element, then the reader reads the element back and the two states stay related. -/
theorem decodes_readList_writeEach {α β γ : Type} {Inv : γ → β → Prop}
    {write : BitWriter → γ → α → BitWriter × γ} {read : β → Decoder BitReader (α × β)}
    (hstep : ∀ w g b a, Inv g b → ∃ out b', (write w g a).1.written = w.written ++ out ∧
      Decodes BitReader.ahead (read b) out (a, b') ∧ Inv (write w g a).2 b')
    (w : BitWriter) {g : γ} {b : β} (hinv : Inv g b) (l : List α) :
    ∃ out, (writeEach write w g l).written = w.written ++ out ∧
      Decodes BitReader.ahead (Decoder.readList read l.length b) out l := by
  induction l generalizing w g b with
  | nil => exact ⟨[], by simp [writeEach], Decodes.pure []⟩
  | cons a l ih =>
    obtain ⟨out, b', hout, hread, hinv'⟩ := hstep w g b a hinv
    obtain ⟨outs, houts, hreads⟩ := ih (write w g a).1 hinv'
    refine ⟨out ++ outs, ?_, hread.bind (hreads.bind_pure rfl)⟩
    rw [← List.append_assoc, ← hout, ← houts]
    rfl

end Codec

end Komari
