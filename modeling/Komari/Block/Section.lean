import Mathlib.Tactic.SplitIfs
import Komari.Codec.Varint
import Komari.Word.Int64

/-!
# Sections of a compressed block

What the point blocks and the rollup blocks of the storage share: the checked 64-bit arithmetic of
their deltas, and the compression of a section of bytes (stored as it is when DEFLATE does not make
it shorter).
-/

namespace Komari

namespace Block

open Codec

/-! ### Checked arithmetic -/

/-- `a - b`, or `none` when it overflows. -/
def checkedSubInt64 (a b : Int64) : Option Int64 :=
  let result := a - b
  if (0 < b ∧ a < result) ∨ (b < 0 ∧ result < a) then none else some result

/-- `a + b`, or `none` when it overflows. -/
def checkedAddInt64Value (a b : Int64) : Option Int64 :=
  let result := a + b
  if (0 < b ∧ result < a) ∨ (b < 0 ∧ a < result) then none else some result

/-- `checkedAddInt64Value` with an error. -/
def checkedAddInt64 {σ : Type} (a b : Int64) : Decoder σ Int64 :=
  match checkedAddInt64Value a b with
  | some result => pure result
  | none => Decoder.fail "metric: SQLite V4 integer delta overflow"

theorem checkedSubInt64_eq_some {a b d : Int64} :
    checkedSubInt64 a b = some d ↔ d.toInt = a.toInt - b.toInt := by
  have ha := a.le_toInt
  have ha' := a.toInt_lt
  have hb := b.le_toInt
  have hb' := b.toInt_lt
  have hd := d.le_toInt
  have hd' := d.toInt_lt
  have hsub := Int64.toInt_sub a b
  rw [Int.bmod_def] at hsub
  unfold checkedSubInt64
  simp only [Int64.lt_iff_toInt_lt, Int64.toInt_zero]
  constructor
  · intro h
    split_ifs at h with hoverflow
    obtain rfl := Option.some.inj h
    split_ifs at hsub <;> omega
  · intro h
    have hresult : (a - b).toInt = d.toInt := by split_ifs at hsub <;> omega
    rw [if_neg (by omega), Int64.toInt_inj.mp hresult]

theorem checkedAddInt64Value_eq_some {a b r : Int64} :
    checkedAddInt64Value a b = some r ↔ r.toInt = a.toInt + b.toInt := by
  have ha := a.le_toInt
  have ha' := a.toInt_lt
  have hb := b.le_toInt
  have hb' := b.toInt_lt
  have hr := r.le_toInt
  have hr' := r.toInt_lt
  have hadd := Int64.toInt_add a b
  rw [Int.bmod_def] at hadd
  unfold checkedAddInt64Value
  simp only [Int64.lt_iff_toInt_lt, Int64.toInt_zero]
  constructor
  · intro h
    split_ifs at h with hoverflow
    obtain rfl := Option.some.inj h
    split_ifs at hadd <;> omega
  · intro h
    have hresult : (a + b).toInt = r.toInt := by split_ifs at hadd <;> omega
    rw [if_neg (by omega), Int64.toInt_inj.mp hresult]

theorem isSome_checkedSubInt64 {a b : Int64} :
    (checkedSubInt64 a b).isSome ↔ InInt64 (a.toInt - b.toInt) := by
  rw [Option.isSome_iff_exists]
  constructor
  · rintro ⟨d, hd⟩
    rw [checkedSubInt64_eq_some] at hd
    have hl := d.le_toInt
    have hu := d.toInt_lt
    unfold InInt64 minInt64 maxInt64
    omega
  · rintro ⟨hl, hu⟩
    unfold minInt64 at hl
    unfold maxInt64 at hu
    refine ⟨Int64.ofInt (a.toInt - b.toInt), checkedSubInt64_eq_some.mpr ?_⟩
    rw [Int64.toInt_ofInt_of_le hl (by omega)]

theorem checkedAddInt64Value_of_sub {a b d : Int64} (h : checkedSubInt64 a b = some d) :
    checkedAddInt64Value b d = some a := by
  rw [checkedAddInt64Value_eq_some, checkedSubInt64_eq_some.mp h]
  omega

theorem decodes_checkedAddInt64 {σ τ : Type} {view : σ → List τ} {a b d : Int64}
    (h : checkedSubInt64 a b = some d) : Decodes view (checkedAddInt64 b d) [] a := by
  rw [checkedAddInt64, checkedAddInt64Value_of_sub h]
  exact Decodes.pure a

/-! ### Compression -/

/-- The DEFLATE compressor and decompressor.  `inflate limit` reads at most `limit` bytes of the
decompressed stream. -/
structure Flate where
  deflate : ℕ → List UInt8 → List UInt8
  /-- Decompress the first `limit` bytes. -/
  inflate : ℕ → List UInt8 → Except String (List UInt8)
  lossless : ∀ level limit raw, raw.length ≤ limit → inflate limit (deflate level raw) = .ok raw
  /-- A compressed stream has at least the header of a block. -/
  deflate_ne_nil : ∀ level raw, deflate level raw ≠ []

/-- `sqliteV4PayloadRaw`. -/
def sqliteV4PayloadRaw : UInt8 := 0

/-- `sqliteV4PayloadDeflate`. -/
def sqliteV4PayloadDeflate : UInt8 := 1

/-- The limit on a decompressed section: 128 MiB. -/
def sectionLimit : ℕ := 128 * 2 ^ 20

/-- Compress a section, unless that does not make it shorter. -/
def compressSection (flate : Flate) (level : ℕ) (raw : List UInt8) : List UInt8 :=
  let payload := sqliteV4PayloadRaw :: raw
  let compressed := sqliteV4PayloadDeflate :: flate.deflate level raw
  if compressed.length < payload.length then compressed else payload

/-- `inflateSQLiteV4Payload`. -/
def inflateSQLiteV4Payload (flate : Flate) : List UInt8 → Except String (List UInt8)
  | [] => .error "metric: empty payload"
  | kind :: data =>
    if kind = sqliteV4PayloadRaw then .ok data
    else if kind = sqliteV4PayloadDeflate then
      match flate.inflate sectionLimit data with
      | .ok decoded => .ok decoded
      | .error e => .error ("metric: decompress SQLite V4 rollup block: " ++ e)
    else
      .error ("metric: unsupported SQLite V4 rollup payload compression " ++ toString kind.toNat)

/-- A compressor that stores its input: a block with the input, whose header is the length and its
complement, and an empty last block. -/
def storedFlate : Flate where
  deflate := fun _ raw =>
    let lo := UInt8.ofNat (raw.length % 256)
    let hi := UInt8.ofNat (raw.length / 256)
    [0, lo, hi, ~~~lo, ~~~hi] ++ raw ++ [1, 0, 0, 255, 255]
  inflate := fun limit data => .ok (((data.drop 5).take (data.length - 10)).take limit)
  lossless := by
    intro level limit raw hlen
    simp [List.take_of_length_le hlen]
  deflate_ne_nil := by simp

/-- `crc32.ChecksumIEEE`. -/
def checksumIEEE (data : List UInt8) : UInt32 :=
  let step (crc : UInt32) : UInt32 :=
    if crc &&& 1 = 1 then (crc >>> 1) ^^^ 0xEDB88320 else crc >>> 1
  ~~~data.foldl (fun crc b =>
    step (step (step (step (step (step (step (step (crc ^^^ b.toUInt32))))))))) 0xFFFFFFFF

/-- **A section survives compression.** -/
theorem inflate_compress (flate : Flate) (level : ℕ) {raw : List UInt8}
    (hlen : raw.length < sectionLimit) :
    inflateSQLiteV4Payload flate (compressSection flate level raw) = .ok raw := by
  unfold compressSection
  simp only
  split_ifs
  · simp only [inflateSQLiteV4Payload, flate.lossless level sectionLimit raw hlen.le]
    rfl
  · rfl

/-- A compressed section is never too short for the decoder's first check. -/
theorem two_le_length_compress (flate : Flate) (level : ℕ) {raw : List UInt8} (hraw : raw ≠ []) :
    2 ≤ (compressSection flate level raw).length := by
  have h₁ := List.length_pos_of_ne_nil (flate.deflate_ne_nil level raw)
  have h₂ := List.length_pos_of_ne_nil hraw
  unfold compressSection
  simp only
  split_ifs <;> simp only [List.length_cons] <;> omega

end Block

end Komari
