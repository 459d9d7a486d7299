import Mathlib.Data.Int.Basic
import Mathlib.Tactic.IntervalCases
import Komari.Codec.Decoder

/-!
# Bytes and variable-length integers

The byte-level part of a binary format: reading a fixed number of bytes, and the base-128
variable-length integers of 64-bit words, unsigned (`putUvarint`) and signed (`putVarint`, where the
sign is moved to the lowest bit).  `decodes_uvarint` and `decodes_varint` are their round trips.
-/

namespace Komari

namespace Codec

/-- A decoder whose state is the list of the bytes ahead. -/
abbrev ByteDecoder (α : Type) := Decoder (List UInt8) α

/-- A byte decoder that reads `v` off any stream starting with `input`. -/
abbrev DecodesBytes {α : Type} (p : ByteDecoder α) (input : List UInt8) (v : α) : Prop :=
  Decodes id p input v

theorem DecodesBytes.eq {α : Type} {p : ByteDecoder α} {input : List UInt8} {v : α}
    (h : DecodesBytes p input v) (rest : List UInt8) : p (input ++ rest) = .ok (v, rest) := by
  obtain ⟨s, hp, hs⟩ := h (input ++ rest) rest rfl
  obtain rfl : s = rest := hs
  exact hp

theorem decodesBytes_of_eq {α : Type} {p : ByteDecoder α} {input : List UInt8} {v : α}
    (h : ∀ rest, p (input ++ rest) = .ok (v, rest)) : DecodesBytes p input v := by
  rintro _ rest rfl
  exact ⟨rest, h rest, rfl⟩

/-! ### Fixed numbers of bytes -/

/-- How many bytes are left. -/
def remaining : ByteDecoder ℕ := fun s => .ok (s.length, s)

/-- Read exactly `n` bytes. -/
def readFull (n : ℕ) : ByteDecoder (List UInt8) := fun s =>
  if n ≤ s.length then .ok (s.take n, s.drop n)
  else .error (if s = [] then "EOF" else "unexpected EOF")

/-- Read `n` bytes, unless a check of the number of bytes ahead fails. -/
def readChecked (n : ℕ) (check : ℕ → Bool) (msg : String) : ByteDecoder (List UInt8) := do
  let ahead ← remaining
  Decoder.ensure (check ahead) msg
  readFull n

theorem decodes_readFull (bytes : List UInt8) :
    DecodesBytes (readFull bytes.length) bytes bytes := by
  refine decodesBytes_of_eq fun rest => ?_
  simp [readFull]

theorem decodes_readChecked {bytes : List UInt8} {check : ℕ → Bool} {msg : String}
    (hcheck : ∀ n, bytes.length ≤ n → check n = true) :
    DecodesBytes (readChecked bytes.length check msg) bytes bytes := by
  refine decodesBytes_of_eq fun rest => ?_
  have hc : check (bytes ++ rest).length = true := hcheck _ (by simp)
  have h := (decodes_readFull bytes).eq rest
  simp only [readChecked, bind, StateT.bind, remaining, Except.bind, Decoder.ensure, hc, if_true]
  exact h

/-! ### Unsigned integers -/

/-- `binary.MaxVarintLen64`. -/
def maxVarintLen64 : ℕ := 10

/-- `binary.PutUvarint` with room for `fuel` bytes. -/
def putUvarintLoop : ℕ → ℕ → List UInt8
  | 0, _ => []
  | fuel + 1, x =>
    if x < 128 then [UInt8.ofNat x]
    else UInt8.ofNat (x % 128 + 128) :: putUvarintLoop fuel (x / 128)

/-- `binary.PutUvarint`: seven bits in each byte, the lowest first, the high bit set in every byte
but the last. -/
def putUvarint (x : ℕ) : List UInt8 := putUvarintLoop maxVarintLen64 x

/-- `binary.ReadUvarint` with `fuel` bytes left to read; `first` holds at the first one. -/
def readUvarintLoop : ℕ → Bool → ByteDecoder ℕ
  | 0, _ => Decoder.fail "binary: varint overflows a 64-bit integer"
  | fuel + 1, first => fun s =>
    match s with
    | [] => .error (if first then "EOF" else "unexpected EOF")
    | b :: rest =>
      if b.toNat < 128 then
        -- the tenth byte has room for one bit only
        if fuel = 0 ∧ 1 < b.toNat then .error "binary: varint overflows a 64-bit integer"
        else .ok (b.toNat, rest)
      else
        match readUvarintLoop fuel false rest with
        | .ok (x, rest) => .ok (b.toNat % 128 + 128 * x, rest)
        | .error e => .error e

/-- `binary.ReadUvarint`. -/
def readUvarint : ByteDecoder ℕ := readUvarintLoop maxVarintLen64 true

theorem toNat_ofNat_of_lt {n : ℕ} (h : n < 256) : (UInt8.ofNat n).toNat = n :=
  UInt8.toNat_ofNat_of_lt' h

theorem readUvarintLoop_putUvarintLoop (fuel : ℕ) (first : Bool) (x : ℕ)
    (hx : x < 2 * 128 ^ fuel) (rest : List UInt8) :
    readUvarintLoop (fuel + 1) first (putUvarintLoop (fuel + 1) x ++ rest) = .ok (x, rest) := by
  induction fuel generalizing first x with
  | zero =>
    have hx : x < 2 := by simpa using hx
    have hbyte : (UInt8.ofNat x).toNat = x := toNat_ofNat_of_lt (by omega)
    simp only [putUvarintLoop, if_pos (show x < 128 by omega), List.singleton_append,
      readUvarintLoop, hbyte]
    rw [if_neg (by omega)]
  | succ fuel ih =>
    rw [putUvarintLoop]
    split_ifs with hsmall
    · have hbyte : (UInt8.ofNat x).toNat = x := toNat_ofNat_of_lt (by omega)
      rw [List.singleton_append, readUvarintLoop]
      simp only [hbyte, if_pos hsmall]
      rw [if_neg (by omega)]
    · have hbyte : (UInt8.ofNat (x % 128 + 128)).toNat = x % 128 + 128 :=
        toNat_ofNat_of_lt (by omega)
      have hrec := ih false (x / 128) (by rw [pow_succ] at hx; omega)
      rw [List.cons_append, readUvarintLoop]
      simp only [hbyte, hrec]
      rw [if_neg (by omega), show (x % 128 + 128) % 128 + 128 * (x / 128) = x by omega]

/-- **Round trip of unsigned 64-bit integers.** -/
theorem decodes_uvarint {x : ℕ} (hx : x < 2 ^ 64) : DecodesBytes readUvarint (putUvarint x) x :=
  decodesBytes_of_eq fun rest =>
    readUvarintLoop_putUvarintLoop 9 true x (by norm_num at hx ⊢; exact hx) rest

/-! ### Signed integers -/

/-- The unsigned word that `binary.PutVarint` writes for `x`. -/
def zigzag (x : Int64) : ℕ :=
  if 0 ≤ x.toInt then (2 * x.toInt).toNat else (-2 * x.toInt - 1).toNat

/-- The signed word that `binary.ReadVarint` makes of an unsigned one. -/
def unzigzag (ux : ℕ) : Int64 :=
  if ux % 2 = 0 then Int64.ofInt (ux / 2) else Int64.ofInt (-(ux / 2) - 1)

/-- `binary.PutVarint`. -/
def putVarint (x : Int64) : List UInt8 := putUvarint (zigzag x)

/-- `binary.ReadVarint`. -/
def readVarint : ByteDecoder Int64 := do
  let ux ← readUvarint
  pure (unzigzag ux)

theorem zigzag_lt (x : Int64) : zigzag x < 2 ^ 64 := by
  have hl := x.le_toInt
  have hu := x.toInt_lt
  unfold zigzag
  split_ifs <;> omega

theorem unzigzag_zigzag (x : Int64) : unzigzag (zigzag x) = x := by
  unfold unzigzag zigzag
  split_ifs with hsign heven heven
  · have h : (((2 * x.toInt).toNat : ℕ) : ℤ) / 2 = x.toInt := by omega
    rw [h, Int64.ofInt_toInt]
  · omega
  · omega
  · have h : -((((-2 * x.toInt - 1).toNat : ℕ) : ℤ) / 2) - 1 = x.toInt := by omega
    rw [h, Int64.ofInt_toInt]

/-- **Round trip of signed 64-bit integers.** -/
theorem decodes_varint (x : Int64) : DecodesBytes readVarint (putVarint x) x :=
  (decodes_uvarint (zigzag_lt x)).bind_pure (by rw [unzigzag_zigzag])

end Codec

end Komari
