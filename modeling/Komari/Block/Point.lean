import Mathlib.Data.List.Sort
import Mathlib.Data.List.Zip
import Komari.Block.Stamps
import Komari.Block.XorStream

/-!
# Point blocks

Old points are stored in compressed blocks.  The shared format keeps the timestamps of a block in a
section of their own (equal axes of different series are stored once), and the values, labels and
creation times in another one: the values as an XOR stream, the labels through a dictionary in order
of first occurrence, the creation times as differences.

This file is the encoder and the decoder; their round trip is in `Block.PointRoundTrip`.
-/

namespace Komari

namespace Block

open Codec

/-- `sqliteV4BlockPoint`: a point with the bits of its value and the bytes of its labels. -/
structure BlockPoint where
  /-- The instant of the point, in nanoseconds. -/
  timestamp : Int64
  valueBits : UInt64
  labels : List UInt8
  createdAt : Int64
deriving DecidableEq

/-- `sqliteV4EncodedBlock`. -/
structure EncodedBlock where
  startNano : Int64
  endNano : Int64
  count : ℤ
  codec : ℤ
  checksum : UInt32
  payload : List UInt8
  axisCodec : ℤ
  axisChecksum : UInt32
  axisPayload : List UInt8
deriving DecidableEq

/-- `sqliteV4BlockCodec`. -/
def sqliteV4BlockCodec : ℤ := 1

/-- `sqliteV6SharedPointBlockCodec`. -/
def sqliteV6SharedPointBlockCodec : ℤ := 2

/-- `sqliteV6PointAxisCodec`. -/
def sqliteV6PointAxisCodec : ℤ := 1

/-- `sqliteV4BlockMagic`, the bytes `KMV4`. -/
def sqliteV4BlockMagic : List UInt8 := [0x4B, 0x4D, 0x56, 0x34]

/-- `sqliteV6PointAxisMagic`, the bytes `KPA6`. -/
def sqliteV6PointAxisMagic : List UInt8 := [0x4B, 0x50, 0x41, 0x36]

/-- `sqliteV6PointValueMagic`, the bytes `KPV6`. -/
def sqliteV6PointValueMagic : List UInt8 := [0x4B, 0x50, 0x56, 0x36]

/-- `sqliteV4MaxDecodedPoints`. -/
def sqliteV4MaxDecodedPoints : ℕ := 2 ^ 20

/-- `flate.BestSpeed`. -/
def bestSpeed : ℕ := 1

/-! ### Labels -/

/-- The labels in order of first occurrence. -/
def labelDictionary (labels : List (List UInt8)) : List (List UInt8) :=
  labels.foldl (fun dictionary l => if l ∈ dictionary then dictionary else dictionary ++ [l]) []

/-- A label behind its length. -/
def encodeLabel (l : List UInt8) : List UInt8 := putUvarint l.length ++ l

/-- Write the dictionary and, for each point, the index of its labels. -/
def encodeLabels (labels : List (List UInt8)) : List UInt8 :=
  let dictionary := labelDictionary labels
  putUvarint dictionary.length ++
    dictionary.flatMap encodeLabel ++
    labels.flatMap fun l => putUvarint (dictionary.idxOf l)

/-- A label behind its length. -/
def readLabel (msg : String) : ByteDecoder (List UInt8) := do
  let length ← readUvarint.orError msg
  readChecked length (fun ahead => decide (length ≤ ahead)) msg

/-- A label of the dictionary. -/
def readLabelIndex (msg : String) (dictionary : List (List UInt8)) : ByteDecoder (List UInt8) := do
  let index ← readUvarint.orError msg
  match dictionary[index]? with
  | some l => pure l
  | none => Decoder.fail msg

/-- The error messages of the labels. -/
structure LabelMessages where
  /-- The dictionary has no entries, or more than there are points. -/
  dictionary : String
  /-- An entry is longer than what is left. -/
  length : String
  index : String

/-- Read the labels of `count` points. -/
def decodeLabels (m : LabelMessages) (count : ℕ) : ByteDecoder (List (List UInt8)) := do
  let labelCount ← readUvarint.orError m.dictionary
  Decoder.ensure (decide (labelCount ≠ 0 ∧ labelCount ≤ count)) m.dictionary
  let dictionary ← (readLabel m.length).readMany labelCount
  (readLabelIndex m.index dictionary).readMany count

/-! ### Creation times -/

/-- Write one more creation time; the state is the one before. -/
def writeCreatedAt (msg : String) (previous createdAt : Int64) :
    Except String (List UInt8 × Int64) :=
  match checkedSubInt64 createdAt previous with
  | none => .error msg
  | some delta => .ok (putVarint delta, createdAt)

/-- Write the creation times: the first one, then differences. -/
def encodeCreatedAt (msg : String) : List Int64 → Except String (List UInt8)
  | [] => .ok []
  | first :: rest => do
    let out ← writeList (writeCreatedAt msg) first rest
    pure (putVarint first ++ out)

/-- A time of creation, by its difference. -/
def readCreatedAt (read : ByteDecoder Int64) (previous : Int64) : ByteDecoder (Int64 × Int64) := do
  let delta ← read
  let createdAt ← checkedAddInt64 previous delta
  pure (createdAt, createdAt)

/-- Read `count` creation times; `readFirst` and `read` say how a failure is reported. -/
def decodeCreatedAt (readFirst read : ByteDecoder Int64) : ℕ → ByteDecoder (List Int64)
  | 0 => pure []
  | count + 1 => do
    let first ← readFirst
    let rest ← Decoder.readList (readCreatedAt read) count first
    pure (first :: rest)

/-! ### The two sections -/

/-- Messages of `encodeSQLiteV6PointAxis` and `decodeSQLiteV6PointAxis`. -/
def pointAxisMessages : StampMessages where
  delta := "metric: invalid SQLite V6 timestamp delta"
  overflow := "metric: SQLite V6 timestamp delta-of-delta overflow"
  first := "metric: decode SQLite V6 first timestamp"
  deltaOfDelta := "metric: decode SQLite V6 timestamp delta-of-delta"

/-- The errors of values. -/
def pointXorMessages : XorMessages where
  window := "metric: invalid SQLite V6 Gorilla window"
  reuse := "metric: SQLite V6 Gorilla stream reused a missing window"

/-- The errors of labels. -/
def pointLabelMessages : LabelMessages where
  dictionary := "metric: invalid SQLite V6 label dictionary"
  length := "metric: invalid SQLite V6 label length"
  index := "metric: invalid SQLite V6 label index"

/-- The stamps of a block. -/
def pointAxisSection (points : List BlockPoint) : Except String (List UInt8) := do
  let stamps ← encodeStamps pointAxisMessages (points.map BlockPoint.timestamp)
  pure (sqliteV6PointAxisMagic ++ putUvarint points.length ++ stamps)

/-- The values, labels and times of a block. -/
def pointValueSection (points : List BlockPoint) : Except String (List UInt8) := do
  let values := encodeXorValues (points.map BlockPoint.valueBits)
  let createdAt ← encodeCreatedAt "metric: SQLite V6 creation-time delta overflow"
    (points.map BlockPoint.createdAt)
  pure (sqliteV6PointValueMagic ++ putUvarint points.length ++
    (putUvarint values.bits ++ values.data) ++ encodeLabels (points.map BlockPoint.labels) ++
    createdAt)

variable (flate : Flate) (crc32 : List UInt8 → UInt32)

/-- `encodeSQLiteV6PointAxis`. -/
def encodeSQLiteV6PointAxis (points : List BlockPoint) : Except String (List UInt8) := do
  let raw ← pointAxisSection points
  pure (compressSection flate bestSpeed raw)

/-- `encodeSQLiteV6PointValues`. -/
def encodeSQLiteV6PointValues (points : List BlockPoint) : Except String (List UInt8) := do
  let raw ← pointValueSection points
  pure (compressSection flate bestSpeed raw)

/-- Points in time order; points of one instant keep their order. -/
def sortPoints (points : List BlockPoint) : List BlockPoint :=
  points.insertionSort fun p q => p.timestamp ≤ q.timestamp

/-- Whether each point is later than the one before it. -/
def strictlyIncreasing : List BlockPoint → Bool
  | p :: q :: rest => decide (p.timestamp < q.timestamp) && strictlyIncreasing (q :: rest)
  | _ => true

/-- `encodeSQLiteV6SharedPointBlock`. -/
def encodeSQLiteV6SharedPointBlock (points : List BlockPoint) : Except String EncodedBlock :=
  if points.length = 0 then .error "metric: cannot encode an empty SQLite V6 point block"
  else if sqliteV4MaxDecodedPoints < points.length then
    .error ("metric: SQLite V6 point block is too large: " ++ toString points.length)
  else
    let points := sortPoints points
    if !strictlyIncreasing points then
      .error "metric: SQLite V6 point timestamps must be strictly increasing"
    else do
      let axisPayload ← encodeSQLiteV6PointAxis flate points
      let valuePayload ← encodeSQLiteV6PointValues flate points
      pure {
        startNano := (points.head?.map BlockPoint.timestamp).getD 0
        endNano := (points.getLast?.map BlockPoint.timestamp).getD 0
        count := points.length
        codec := sqliteV6SharedPointBlockCodec
        checksum := crc32 valuePayload
        payload := valuePayload
        axisCodec := sqliteV6PointAxisCodec
        axisChecksum := crc32 axisPayload
        axisPayload := axisPayload }

/-- Run a decoder over all of a section. -/
def decodeAll {α : Type} (p : ByteDecoder α) (trailing : String) (raw : List UInt8) :
    Except String α :=
  match p raw with
  | .error e => .error e
  | .ok (v, []) => .ok v
  | .ok (_, _ :: _) => .error trailing

/-- Read the first bytes of a section. -/
def readMagic (magic : List UInt8) (msg : String) : ByteDecoder Unit := do
  let bytes ← (readFull magic.length).orError msg
  Decoder.ensure (decide (bytes = magic)) msg

/-- The stamps of a block. -/
def decodePointAxisSection (expectedCount : ℤ) : ByteDecoder (List Int64) := do
  readMagic sqliteV6PointAxisMagic "metric: invalid SQLite V6 point axis header"
  let count ← readUvarint.orError "metric: invalid SQLite V6 point axis count"
  Decoder.ensure (decide (count ≠ 0 ∧ count ≤ sqliteV4MaxDecodedPoints))
    "metric: invalid SQLite V6 point axis count"
  Decoder.ensure (decide (expectedCount < 0 ∨ (count : ℤ) = expectedCount))
    ("metric: SQLite V6 point axis count mismatch: header=" ++ toString count ++ " row=" ++
      toString expectedCount)
  decodeStamps pointAxisMessages count

/-- `decodeSQLiteV6PointAxis`. -/
def decodeSQLiteV6PointAxis (codec expectedCount : ℤ) (expectedChecksum : UInt32)
    (payload : List UInt8) : Except String (List Int64) :=
  if codec ≠ sqliteV6PointAxisCodec ∨ payload.length < 2 ∨ crc32 payload ≠ expectedChecksum then
    .error "metric: invalid SQLite V6 shared point axis"
  else do
    let raw ← inflateSQLiteV4Payload flate payload
    decodeAll (decodePointAxisSection expectedCount)
      "metric: SQLite V6 point axis contains trailing data" raw

/-- Put the columns of a block together. -/
def assemblePoints : List Int64 → List UInt64 → List (List UInt8) → List Int64 → List BlockPoint
  | timestamp :: timestamps, valueBits :: values, labels :: labelss, createdAt :: createdAts =>
    ⟨timestamp, valueBits, labels, createdAt⟩ ::
      assemblePoints timestamps values labelss createdAts
  | _, _, _, _ => []

/-- The values, labels and creation times behind the compression. -/
def decodePointValueSection (expectedCount : ℤ) (timestamps : List Int64) :
    ByteDecoder (List BlockPoint) := do
  readMagic sqliteV6PointValueMagic "metric: invalid SQLite V6 point value header"
  let count ← readUvarint.orError "metric: SQLite V6 point value count mismatch"
  Decoder.ensure (decide (int64 count = expectedCount ∧ (timestamps.length : ℤ) = expectedCount))
    "metric: SQLite V6 point value count mismatch"
  let values ← readBitSection "metric: invalid SQLite V6 value bit stream" id
    (decodeXorValues pointXorMessages timestamps.length)
  let labels ← decodeLabels pointLabelMessages timestamps.length
  let createdAts ← decodeCreatedAt readVarint readVarint timestamps.length
  pure (assemblePoints timestamps values labels createdAts)

/-- `decodeSQLiteV6PointValues`. -/
def decodeSQLiteV6PointValues (expectedCount : ℤ) (expectedChecksum : UInt32)
    (payload : List UInt8) (timestamps : List Int64) : Except String (List BlockPoint) :=
  if payload.length < 2 ∨ crc32 payload ≠ expectedChecksum then
    .error "metric: invalid SQLite V6 shared point values"
  else do
    let raw ← inflateSQLiteV4Payload flate payload
    decodeAll (decodePointValueSection expectedCount timestamps)
      "metric: SQLite V6 point values contain trailing data" raw

/-! ### Blocks of the first format -/

/-- Messages of `decodeSQLiteV4Block` about the timestamps. -/
def v4StampMessages : StampMessages where
  delta := "metric: invalid SQLite V4 timestamp delta"
  overflow := "metric: SQLite V4 timestamp delta-of-delta overflow"
  first := "metric: decode SQLite V4 first timestamp"
  deltaOfDelta := "metric: decode SQLite V4 timestamp delta-of-delta"

/-- Messages of `decodeSQLiteV4Block` about the value stream. -/
def v4XorMessages : XorMessages where
  window := "metric: invalid SQLite V4 Gorilla window"
  reuse := "metric: SQLite V4 Gorilla stream reused a missing window"

/-- Messages of `decodeSQLiteV4Block` about the labels. -/
def v4LabelMessages : LabelMessages where
  dictionary := "metric: invalid SQLite V4 label dictionary"
  length := "metric: invalid SQLite V4 label length"
  index := "metric: invalid SQLite V4 label index"

/-- A block of the first format behind the compression: all columns in one section. -/
def decodeV4BlockSection (expectedCount : ℤ) : ByteDecoder (List BlockPoint) := do
  readMagic sqliteV4BlockMagic "metric: invalid SQLite V4 point block header"
  let count ← readUvarint.orError "metric: invalid SQLite V4 point count"
  Decoder.ensure (decide (count ≠ 0 ∧ count ≤ sqliteV4MaxDecodedPoints))
    "metric: invalid SQLite V4 point count"
  Decoder.ensure (decide (expectedCount < 0 ∨ (count : ℤ) = expectedCount))
    ("metric: SQLite V4 point count mismatch: header=" ++ toString count ++ " row=" ++
      toString expectedCount)
  let timestamps ← decodeStamps v4StampMessages count
  let values ← readBitSection "metric: invalid SQLite V4 value bit stream"
    (fun read => read.withContext "metric: read SQLite V4 value bit stream")
    (decodeXorValues v4XorMessages count)
  let labels ← decodeLabels v4LabelMessages count
  let createdAts ← decodeCreatedAt
    (readVarint.withContext "metric: decode SQLite V4 creation time")
    (readVarint.withContext "metric: decode SQLite V4 creation-time delta") count
  pure (assemblePoints timestamps values labels createdAts)

/-- The decompression of `decodeSQLiteV4Block`. -/
def inflateV4Block : List UInt8 → Except String (List UInt8)
  | [] => .error "metric: truncated SQLite V4 point block"
  | kind :: data =>
    if kind = sqliteV4PayloadRaw then .ok data
    else if kind = sqliteV4PayloadDeflate then
      match flate.inflate sectionLimit data with
      | .ok decoded => .ok decoded
      | .error e => .error ("metric: decompress SQLite V4 point block: " ++ e)
    else .error ("metric: unsupported SQLite V4 payload compression " ++ toString kind.toNat)

/-- `decodeSQLiteV4Block`. -/
def decodeSQLiteV4Block (codec expectedCount : ℤ) (expectedChecksum : UInt32)
    (payload : List UInt8) : Except String (List BlockPoint) :=
  if codec ≠ sqliteV4BlockCodec then
    .error ("metric: unsupported SQLite V4 point block codec " ++ toString codec)
  else if payload.length < 2 then .error "metric: truncated SQLite V4 point block"
  else if crc32 payload ≠ expectedChecksum then
    .error "metric: SQLite V4 point block checksum mismatch"
  else do
    let raw ← inflateV4Block flate payload
    decodeAll (decodeV4BlockSection expectedCount)
      "metric: SQLite V4 point block contains trailing data" raw

/-- Both sections, as they are stored. -/
def decodeSQLiteStoredPointBlock (codec count : ℤ) (checksum : UInt32) (payload : List UInt8)
    (axisCodec : ℤ) (axisChecksum : UInt32) (axisPayload : List UInt8) :
    Except String (List BlockPoint) :=
  if codec = sqliteV4BlockCodec then decodeSQLiteV4Block flate crc32 codec count checksum payload
  else if codec ≠ sqliteV6SharedPointBlockCodec then
    .error ("metric: unsupported SQLite point block codec " ++ toString codec)
  else do
    let timestamps ← decodeSQLiteV6PointAxis flate crc32 axisCodec count axisChecksum axisPayload
    decodeSQLiteV6PointValues flate crc32 count checksum payload timestamps

end Block

end Komari
