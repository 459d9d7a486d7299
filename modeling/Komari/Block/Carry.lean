import Komari.Block.PointRoundTrip
import Komari.Codec.Result
import Mathlib.Data.List.DropRight

/-!
# Blocks that are carried forward

Blocks of the first format are rewritten when a part of them is deleted, and the migration rewrites them
in the shared format.  Both decode the block and encode its points again.

* `v4Block_carried` : a block that can be read is accepted by both encoders.
* `hugeBlock_lost` : a section that is too large once it is compressed is lost.
-/

namespace Komari

namespace Block

open Codec

/-! ### The encoder of the first format -/

/-- One more timestamp in `encodeSQLiteV4Block`; the state is the timestamp before it and their
predecessor's difference. -/
def writeV4Stamp : Int64 × Int64 → Int64 → Except String (List UInt8 × (Int64 × Int64))
  | (previous, previousDelta), stamp =>
    match checkedSubInt64 stamp previous with
    | none => .error "metric: SQLite V4 timestamp delta overflow"
    | some delta =>
      match checkedSubInt64 delta previousDelta with
      | none => .error "metric: SQLite V4 timestamp delta-of-delta overflow"
      | some deltaOfDelta => .ok (putVarint deltaOfDelta, (stamp, delta))

/-- The stamps behind the first. -/
def encodeV4StampTail (first : Int64) : List Int64 → Except String (List UInt8)
  | [] => .ok []
  | second :: rest =>
    match checkedSubInt64 second first with
    | none => .error "metric: SQLite V4 timestamp delta overflow"
    | some delta => do
      let out ← writeList writeV4Stamp (second, delta) rest
      pure (putVarint delta ++ out)

/-- Stamps, as `V4` wrote them. -/
def encodeV4Stamps : List Int64 → Except String (List UInt8)
  | [] => .ok []
  | first :: rest => do
    let out ← encodeV4StampTail first rest
    pure (putVarint first ++ out)

/-- A block of the first format before compression. -/
def v4BlockSection (points : List BlockPoint) : Except String (List UInt8) := do
  let stamps ← encodeV4Stamps (points.map BlockPoint.timestamp)
  let values := encodeXorValues (points.map BlockPoint.valueBits)
  let createdAt ← encodeCreatedAt "metric: SQLite V4 creation-time delta overflow"
    (points.map BlockPoint.createdAt)
  pure (sqliteV4BlockMagic ++ putUvarint points.length ++ stamps ++
    (putUvarint values.bits ++ values.data) ++ encodeLabels (points.map BlockPoint.labels) ++
    createdAt)

variable (flate : Flate) (crc32 : List UInt8 → UInt32)

/-- `encodeSQLiteV4Block`. -/
def encodeSQLiteV4Block (points : List BlockPoint) : Except String EncodedBlock :=
  if points.length = 0 then .error "metric: cannot encode an empty SQLite V4 point block"
  else if sqliteV4MaxDecodedPoints < points.length then
    .error ("metric: SQLite V4 point block is too large: " ++ toString points.length)
  else
    let points := sortPoints points
    if !strictlyIncreasing points then
      .error "metric: SQLite V4 block timestamps must be strictly increasing"
    else do
      let raw ← v4BlockSection points
      let payload := compressSection flate bestSpeed raw
      pure {
        startNano := (points.head?.map BlockPoint.timestamp).getD 0
        endNano := (points.getLast?.map BlockPoint.timestamp).getD 0
        count := points.length
        codec := sqliteV4BlockCodec
        checksum := crc32 payload
        payload := payload
        axisCodec := 0
        axisChecksum := 0
        axisPayload := [] }

/-! ### What it accepts -/

theorem writeList_writeV4Stamp (m : StampMessages) {previous previousDelta : Int64}
    {rest : List Int64} {out : List UInt8} (h : (previous :: rest).IsChain (· < ·)) :
    writeList writeV4Stamp (previous, previousDelta) rest = .ok out ↔
      writeList (writeStamp m) (previous, previousDelta) rest = .ok out := by
  induction rest generalizing previous previousDelta out with
  | nil => rfl
  | cons stamp rest ih =>
    obtain ⟨hlt, hrest⟩ := List.isChain_cons_cons.mp h
    simp only [writeList, writeV4Stamp, writeStamp, bind, Except.bind]
    cases hd : checkedSubInt64 stamp previous with
    | none => simp
    | some delta =>
      -- the difference is positive, as the timestamps increase
      have hpos : ¬delta ≤ 0 := by
        have hdelta := checkedSubInt64_eq_some.mp hd
        rw [Int64.lt_iff_toInt_lt] at hlt
        rw [Int64.le_iff_toInt_le, Int64.toInt_zero]
        omega
      simp only [if_neg hpos]
      cases checkedSubInt64 delta previousDelta with
      | none => simp
      | some deltaOfDelta =>
        have ih := fun out => @ih stamp delta out hrest
        dsimp only
        cases hv4 : writeList writeV4Stamp (stamp, delta) rest with
        | error e =>
          cases hstamps : writeList (writeStamp m) (stamp, delta) rest with
          | error e => simp
          | ok out =>
            rw [(ih out).mpr hstamps] at hv4
            cases hv4
        | ok out => rw [(ih out).mp hv4]

/-- Increasing timestamps are written as in the shared format. -/
theorem encodeV4Stamps_eq_ok (m : StampMessages) {l : List Int64} {out : List UInt8}
    (h : l.IsChain (· < ·)) : encodeV4Stamps l = .ok out ↔ encodeStamps m l = .ok out := by
  cases l with
  | nil => rfl
  | cons first rest =>
    simp only [encodeV4Stamps, encodeStamps, bind, Except.bind]
    cases rest with
    | nil => rfl
    | cons second rest =>
      obtain ⟨hlt, hrest⟩ := List.isChain_cons_cons.mp h
      simp only [encodeV4StampTail, encodeStampTail, bind, Except.bind]
      cases hd : checkedSubInt64 second first with
      | none => simp
      | some delta =>
        have hpos : ¬delta ≤ 0 := by
          have hdelta := checkedSubInt64_eq_some.mp hd
          rw [Int64.lt_iff_toInt_lt] at hlt
          rw [Int64.le_iff_toInt_le, Int64.toInt_zero]
          omega
        simp only [if_neg hpos]
        cases hv4 : writeList writeV4Stamp (second, delta) rest with
        | error e =>
          cases hstamps : writeList (writeStamp m) (second, delta) rest with
          | error e => simp
          | ok out =>
            rw [(writeList_writeV4Stamp m hrest).mpr hstamps] at hv4
            cases hv4
        | ok out => rw [(writeList_writeV4Stamp m hrest).mp hv4]

variable {points : List BlockPoint}

theorem chain_timestamps (h : strictlyIncreasing points = true) :
    (points.map BlockPoint.timestamp).IsChain (· < ·) := by
  rw [List.isChain_map]
  exact (strictlyIncreasing_iff points).mp h

variable {raw : List UInt8}

/-- What a section of the first format consists of. -/
theorem v4BlockSection_eq_ok (h : v4BlockSection points = .ok raw) : ∃ stamps createdAt,
      encodeV4Stamps (points.map BlockPoint.timestamp) = .ok stamps ∧
      encodeCreatedAt "metric: SQLite V4 creation-time delta overflow"
        (points.map BlockPoint.createdAt) = .ok createdAt ∧
      raw = sqliteV4BlockMagic ++ putUvarint points.length ++ stamps ++
        (putUvarint (encodeXorValues (points.map BlockPoint.valueBits)).bits ++
          (encodeXorValues (points.map BlockPoint.valueBits)).data) ++
        encodeLabels (points.map BlockPoint.labels) ++ createdAt := by
  simp only [v4BlockSection, bind, Except.bind] at h
  cases hstamps : encodeV4Stamps (points.map BlockPoint.timestamp) with
  | error e =>
    rw [hstamps] at h
    cases h
  | ok stamps =>
    rw [hstamps] at h
    dsimp only at h
    cases hcreated : encodeCreatedAt "metric: SQLite V4 creation-time delta overflow"
        (points.map BlockPoint.createdAt) with
    | error e =>
      rw [hcreated] at h
      cases h
    | ok createdAt =>
      rw [hcreated] at h
      exact ⟨stamps, createdAt, rfl, rfl, (Except.ok.inj h).symm⟩

theorem isOk_v4BlockSection (hincr : strictlyIncreasing points = true) :
    (∃ raw, v4BlockSection points = .ok raw) ↔ DeltasFit points := by
  have hchain := chain_timestamps hincr
  have hstamps := isOk_encodeStamps v4StampMessages (points.map BlockPoint.timestamp)
  have hcreated := isOk_encodeCreatedAt "metric: SQLite V4 creation-time delta overflow"
    (points.map BlockPoint.createdAt)
  rw [List.isChain_map] at hstamps hcreated
  have hfits : (points.IsChain fun p q => StampStep p.timestamp q.timestamp) ↔
      points.IsChain fun p q => InInt64 (q.timestamp.toInt - p.timestamp.toInt) := by
    unfold StampStep
    rw [isChain_and, ← strictlyIncreasing_iff]
    exact and_iff_right hincr
  rw [DeltasFit, isChain_and, ← hfits, ← hstamps, ← hcreated]
  constructor
  · rintro ⟨raw, hraw⟩
    obtain ⟨stamps, createdAt, hstamps, hcreated, -⟩ := v4BlockSection_eq_ok hraw
    exact ⟨⟨stamps, (encodeV4Stamps_eq_ok v4StampMessages hchain).mp hstamps⟩, createdAt, hcreated⟩
  · rintro ⟨⟨stamps, hstamps⟩, createdAt, hcreated⟩
    rw [← encodeV4Stamps_eq_ok v4StampMessages hchain] at hstamps
    simp only [v4BlockSection, hstamps, hcreated, bind, Except.bind]
    exact ⟨_, rfl⟩

theorem ne_nil_of_v4BlockSection (h : v4BlockSection points = .ok raw) : raw ≠ [] := by
  obtain ⟨stamps, createdAt, -, -, rfl⟩ := v4BlockSection_eq_ok h
  simp [sqliteV4BlockMagic]

theorem encodeSQLiteV4Block_eq_ok {block : EncodedBlock}
    (hne : points ≠ []) (hcount : points.length ≤ sqliteV4MaxDecodedPoints) :
    encodeSQLiteV4Block flate crc32 points = .ok block ↔
      strictlyIncreasing (sortPoints points) = true ∧ ∃ raw,
        v4BlockSection (sortPoints points) = .ok raw ∧
        block = {
          startNano := ((sortPoints points).head?.map BlockPoint.timestamp).getD 0
          endNano := ((sortPoints points).getLast?.map BlockPoint.timestamp).getD 0
          count := points.length
          codec := sqliteV4BlockCodec
          checksum := crc32 (compressSection flate bestSpeed raw)
          payload := compressSection flate bestSpeed raw
          axisCodec := 0
          axisChecksum := 0
          axisPayload := [] } := by
  have hpos := List.length_pos_of_ne_nil hne
  have hlen := (perm_sortPoints points).length_eq
  unfold encodeSQLiteV4Block
  rw [if_neg hpos.ne', if_neg (not_lt.mpr hcount)]
  simp only [bind, Except.bind, hlen]
  cases hincr : strictlyIncreasing (sortPoints points) with
  | false => simp
  | true =>
    cases hraw : v4BlockSection (sortPoints points) with
    | error e => simp
    | ok raw =>
      simp only [Bool.not_true, Bool.false_eq_true, if_false, pure, Except.pure, true_and,
        Except.ok.injEq, exists_eq_left']
      exact eq_comm

/-- **What the encoder accepts.** -/
theorem isOk_encodeSQLiteV4Block (hne : points ≠ [])
    (hcount : points.length ≤ sqliteV4MaxDecodedPoints) :
    (∃ block, encodeSQLiteV4Block flate crc32 points = .ok block) ↔
      (points.map BlockPoint.timestamp).Nodup ∧ DeltasFit (sortPoints points) := by
  simp only [encodeSQLiteV4Block_eq_ok flate crc32 hne hcount]
  rw [← strictlyIncreasing_sortPoints]
  constructor
  · rintro ⟨block, hincr, raw, hraw, -⟩
    exact ⟨hincr, (isOk_v4BlockSection hincr).mp ⟨raw, hraw⟩⟩
  · rintro ⟨hincr, hfits⟩
    obtain ⟨raw, hraw⟩ := (isOk_v4BlockSection hincr).mpr hfits
    exact ⟨_, hincr, raw, hraw, rfl⟩

/-! ### Round trip -/

/-- Round trip of a section of the first format. -/
theorem decodes_decodeV4BlockSection (hne : points ≠ [])
    (hcount : points.length ≤ sqliteV4MaxDecodedPoints) (hincr : strictlyIncreasing points = true)
    (hraw : raw.length < 2 ^ 60) (h : v4BlockSection points = .ok raw) :
    DecodesBytes (decodeV4BlockSection points.length) raw points := by
  obtain ⟨stamps, createdAt, hstamps, hcreated, rfl⟩ := v4BlockSection_eq_ok h
  rw [encodeV4Stamps_eq_ok v4StampMessages (chain_timestamps hincr)] at hstamps
  unfold sqliteV4MaxDecodedPoints at hcount
  have hlt : points.length < 2 ^ 64 := by omega
  have hpos := List.length_pos_of_ne_nil hne
  have hmap : ∀ {β : Type} (f : BlockPoint → β), points.map f ≠ [] := fun f => by simpa using hne
  obtain ⟨hbits, hvalues⟩ := decodes_decodeXorValues v4XorMessages (hmap BlockPoint.valueBits)
  simp only [List.length_append, (encodeXorValues _).length_data] at hraw
  have hlabels := decodes_decodeLabels v4LabelMessages (hmap BlockPoint.labels)
    (by rwa [List.length_map]) (by omega)
  have hcreated := decodes_decodeCreatedAt
    (fun x => (decodes_varint x).withContext "metric: decode SQLite V4 creation time")
    (fun x => (decodes_varint x).withContext "metric: decode SQLite V4 creation-time delta") hcreated
  have hdecode := decodes_decodeStamps v4StampMessages hstamps
  rw [List.length_map] at hvalues hlabels hcreated hdecode
  unfold decodeV4BlockSection
  simp only [List.append_assoc]
  refine Decodes.bind (decodes_readMagic _ _) ?_
  refine Decodes.bind ((decodes_uvarint hlt).orError _) ?_
  refine (Decodes.ensure (by rw [decide_eq_true_eq]; exact ⟨hpos.ne', hcount⟩) _).bind_nil ?_
  refine (Decodes.ensure (by rw [decide_eq_true_eq]; exact Or.inr rfl) _).bind_nil ?_
  refine Decodes.bind hdecode ?_
  rw [← List.append_assoc (putUvarint _)]
  refine Decodes.bind (decodes_readBitSection _ (fun _ h => h.withContext _) hbits (by omega) hvalues) ?_
  refine Decodes.bind hlabels (Decodes.bind_pure hcreated ?_)
  rw [assemblePoints_columns]

theorem sortPoints_ne_nil (hne : points ≠ []) : sortPoints points ≠ [] := by
  intro hnil
  have hperm := perm_sortPoints points
  rw [hnil] at hperm
  exact hne hperm.nil_eq.symm

theorem inflateV4Block_compress (level : ℕ) (hlen : raw.length < sectionLimit) :
    inflateV4Block flate (compressSection flate level raw) = .ok raw := by
  unfold compressSection
  dsimp only
  split_ifs
  · simp only [inflateV4Block, flate.lossless level sectionLimit raw hlen.le]
    rfl
  · rfl

/-- **Round trip**: the decoder gives back the points in time order, bit for bit. -/
theorem decode_encodeSQLiteV4Block {block : EncodedBlock}
    (hne : points ≠ []) (hcount : points.length ≤ sqliteV4MaxDecodedPoints)
    (hlen : ∀ raw, v4BlockSection (sortPoints points) = .ok raw → raw.length < sectionLimit)
    (h : encodeSQLiteV4Block flate crc32 points = .ok block) :
    decodeSQLiteV4Block flate crc32 block.codec block.count block.checksum block.payload =
      .ok (sortPoints points) := by
  obtain ⟨hincr, raw, hraw, rfl⟩ := (encodeSQLiteV4Block_eq_ok flate crc32 hne hcount).mp h
  have hperm := perm_sortPoints points
  have hlimit := hlen raw hraw
  have hshort : raw.length < 2 ^ 60 := hlimit.trans (by decide)
  have hdecode := decodes_decodeV4BlockSection (sortPoints_ne_nil hne)
    (by rwa [hperm.length_eq]) hincr hshort hraw
  rw [hperm.length_eq] at hdecode
  have htwo := two_le_length_compress flate bestSpeed (ne_nil_of_v4BlockSection hraw)
  rw [decodeSQLiteV4Block, if_neg (by simp)]
  dsimp only
  rw [if_neg (by omega), if_neg (by simp), inflateV4Block_compress flate bestSpeed hlimit]
  exact decodeAll_eq hdecode _

/-! ### What the decoder returns -/

theorem returns_checkedAddInt64 {σ : Type} (a b : Int64) :
    Returns (checkedAddInt64 a b : Decoder σ Int64) fun r => r.toInt = a.toInt + b.toInt := by
  unfold checkedAddInt64
  cases hadd : checkedAddInt64Value a b with
  | none => exact Returns.fail _
  | some r => exact Returns.pure (checkedAddInt64Value_eq_some.mp hadd)

theorem stampStep_of_add {a b d : Int64} (hpos : decide (0 < d) = true)
    (hadd : b.toInt = a.toInt + d.toInt) : StampStep a b := by
  rw [decide_eq_true_eq, Int64.lt_iff_toInt_lt, Int64.toInt_zero] at hpos
  have hle := d.le_toInt
  have hlt := d.toInt_lt
  refine ⟨Int64.lt_iff_toInt_lt.mpr (by omega), ?_⟩
  unfold InInt64 minInt64 maxInt64
  omega

theorem returns_readStamp (m : StampMessages) (state : Int64 × Int64) :
    Returns (readStamp m state) fun r => StampStep state.1 r.1 ∧ r.2.1 = r.1 := by
  obtain ⟨previous, previousDelta⟩ := state
  refine Returns.bind (Returns.trivial _) fun deltaOfDelta _ => ?_
  cases checkedAddInt64Value previousDelta deltaOfDelta with
  | none => exact Returns.fail _
  | some delta =>
    refine Returns.bind (Returns.ensure _ _) fun _ hpos => ?_
    refine Returns.bind (returns_checkedAddInt64 _ _) fun stamp hadd => ?_
    exact Returns.pure ⟨stampStep_of_add hpos hadd, rfl⟩

/-- The timestamps that are decoded increase, by differences that fit. -/
theorem returns_decodeStamps (m : StampMessages) (count : ℕ) :
    Returns (decodeStamps m count) fun l => l.length = count ∧ l.IsChain StampStep := by
  cases count with
  | zero => exact Returns.pure ⟨rfl, List.IsChain.nil⟩
  | succ count =>
    refine Returns.bind (Returns.trivial _) fun first _ => ?_
    cases count with
    | zero =>
      refine Returns.bind (Returns.pure rfl) fun rest (hrest : [] = rest) => ?_
      subst hrest
      exact Returns.pure ⟨rfl, List.IsChain.singleton _⟩
    | succ count =>
      have htail : Returns (decodeStampTail m first (count + 1)) fun l =>
          l.length = count + 1 ∧ (first :: l).IsChain StampStep := by
        refine Returns.bind (Returns.trivial _) fun delta _ => ?_
        refine Returns.bind (Returns.ensure _ _) fun _ hpos => ?_
        refine Returns.bind (returns_checkedAddInt64 _ _) fun second hadd => ?_
        refine Returns.bind (Returns.readList (returns_readStamp m) count _) fun rest hrest => ?_
        refine Returns.pure ⟨congrArg Nat.succ hrest.1, ?_⟩
        rw [List.isChain_cons_cons]
        exact ⟨stampStep_of_add hpos hadd, hrest.2⟩
      exact Returns.bind htail fun rest hrest => Returns.pure ⟨congrArg Nat.succ hrest.1, hrest.2⟩

theorem returns_decodeCreatedAt (readFirst read : ByteDecoder Int64) (count : ℕ) :
    Returns (decodeCreatedAt readFirst read count) fun l =>
      l.length = count ∧ l.IsChain fun a b => InInt64 (b.toInt - a.toInt) := by
  cases count with
  | zero => exact Returns.pure ⟨rfl, List.IsChain.nil⟩
  | succ count =>
    have hread : ∀ previous, Returns (readCreatedAt read previous) fun r =>
        InInt64 (r.1.toInt - previous.toInt) ∧ r.2 = r.1 := by
      intro previous
      refine Returns.bind (Returns.trivial _) fun delta _ => ?_
      refine Returns.bind (returns_checkedAddInt64 _ _) fun createdAt hadd => Returns.pure ⟨?_, rfl⟩
      change InInt64 (createdAt.toInt - previous.toInt)
      have hle := delta.le_toInt
      have hlt := delta.toInt_lt
      unfold InInt64 minInt64 maxInt64
      omega
    refine Returns.bind (Returns.trivial _) fun first _ => ?_
    have hrest := @Returns.readList _ _ _ _ id (fun a b => InInt64 (b.toInt - a.toInt)) hread count first
    exact Returns.bind hrest fun rest hrest => Returns.pure ⟨congrArg Nat.succ hrest.1, hrest.2⟩

theorem returns_readBitSection {α : Type} {Q : α → Prop} (msg : String)
    (wrap : ByteDecoder (List UInt8) → ByteDecoder (List UInt8)) {decode : Decoder BitReader α}
    (h : Returns decode Q) : Returns (readBitSection msg wrap decode) Q := by
  refine Returns.bind (Returns.trivial _) fun bitCount _ => ?_
  refine Returns.bind (Returns.trivial _) fun ahead _ => ?_
  refine Returns.bind (Returns.trivial _) fun _ _ => ?_
  refine Returns.bind (Returns.trivial _) fun bytes _ => ?_
  cases hdecode : decode (newBitReader bytes bitCount) with
  | error e => exact Returns.fail e
  | ok r => exact Returns.pure (h _ r.1 r.2 hdecode)

theorem returns_decodeXorValues (m : XorMessages) (count : ℕ) :
    Returns (decodeXorValues m count) fun l => l.length = count := by
  cases count with
  | zero => exact Returns.pure rfl
  | succ count =>
    refine Returns.bind (Returns.trivial _) fun first _ => ?_
    exact Returns.bind (Returns.length_readList _ _ _) fun rest hrest =>
      Returns.pure (congrArg Nat.succ hrest)

theorem returns_decodeLabels (m : LabelMessages) (count : ℕ) :
    Returns (decodeLabels m count) fun l => l.length = count := by
  refine Returns.bind (Returns.trivial _) fun labelCount _ => ?_
  refine Returns.bind (Returns.trivial _) fun _ _ => ?_
  refine Returns.bind (Returns.trivial _) fun dictionary _ => ?_
  exact Returns.length_readMany _ _

/-- The columns of a block, if they are of one length. -/
theorem columns_assemblePoints {timestamps : List Int64} {values : List UInt64}
    {labels : List (List UInt8)} {createdAts : List Int64} (hvalues : values.length = timestamps.length)
    (hlabels : labels.length = timestamps.length) (hcreated : createdAts.length = timestamps.length) :
    (assemblePoints timestamps values labels createdAts).map BlockPoint.timestamp = timestamps ∧
      (assemblePoints timestamps values labels createdAts).map BlockPoint.createdAt = createdAts := by
  induction timestamps generalizing values labels createdAts with
  | nil =>
    rw [List.eq_nil_of_length_eq_zero hcreated]
    exact ⟨rfl, rfl⟩
  | cons timestamp timestamps ih =>
    obtain ⟨value, values, rfl⟩ := List.exists_cons_of_length_eq_add_one hvalues
    obtain ⟨label, labels, rfl⟩ := List.exists_cons_of_length_eq_add_one hlabels
    obtain ⟨createdAt, createdAts, rfl⟩ := List.exists_cons_of_length_eq_add_one hcreated
    simp only [List.length_cons, Nat.add_right_cancel_iff] at hvalues hlabels hcreated
    obtain ⟨htimestamps, hcreatedAts⟩ := ih hvalues hlabels hcreated
    exact ⟨congrArg (timestamp :: ·) htimestamps, congrArg (createdAt :: ·) hcreatedAts⟩

/-- The points of a block that can be read. -/
structure Readable (points : List BlockPoint) : Prop where
  nonempty : points ≠ []
  count : points.length ≤ sqliteV4MaxDecodedPoints
  increasing : points.IsChain fun p q => p.timestamp < q.timestamp
  fits : DeltasFit points

/-- **Whatever the section**, the points that are decoded increase in time, and their differences fit. -/
theorem returns_decodeV4BlockSection (expectedCount : ℤ) :
    Returns (decodeV4BlockSection expectedCount) Readable := by
  refine Returns.bind (Returns.trivial _) fun _ _ => ?_
  refine Returns.bind (Returns.trivial _) fun count _ => ?_
  refine Returns.bind (Returns.ensure _ _) fun _ hcount => ?_
  refine Returns.bind (Returns.trivial _) fun _ _ => ?_
  refine Returns.bind (returns_decodeStamps _ count) fun timestamps htimestamps => ?_
  refine Returns.bind (returns_readBitSection _ _ (returns_decodeXorValues _ count)) fun values hvalues => ?_
  refine Returns.bind (returns_decodeLabels _ count) fun labels hlabels => ?_
  refine Returns.bind (returns_decodeCreatedAt _ _ count) fun createdAts hcreated => Returns.pure ?_
  obtain ⟨hlength, hincreasing⟩ := htimestamps
  obtain ⟨hcolumn, hcreatedColumn⟩ := columns_assemblePoints (hvalues.trans hlength.symm)
    (hlabels.trans hlength.symm) (hcreated.1.trans hlength.symm)
  generalize assemblePoints timestamps values labels createdAts = points at hcolumn hcreatedColumn
  rw [decide_eq_true_eq] at hcount
  have hpoints : points.length = count := by
    rw [← hlength, ← hcolumn, List.length_map]
  obtain ⟨-, hcreated⟩ := hcreated
  rw [← hcolumn, List.isChain_map] at hincreasing
  rw [← hcreatedColumn, List.isChain_map] at hcreated
  unfold StampStep at hincreasing
  rw [isChain_and] at hincreasing
  refine ⟨fun hnil => hcount.1 ?_, hpoints.le.trans hcount.2, hincreasing.1, ?_⟩
  · rw [← hpoints, hnil, List.length_nil]
  · rw [DeltasFit, isChain_and]
    exact ⟨hincreasing.2, hcreated⟩

theorem readable_of_decode {codec expectedCount : ℤ} {checksum : UInt32} {payload : List UInt8}
    (h : decodeSQLiteV4Block flate crc32 codec expectedCount checksum payload = .ok points) :
    Readable points := by
  unfold decodeSQLiteV4Block at h
  by_cases hcodec : codec = sqliteV4BlockCodec
  · rw [if_neg (not_not_intro hcodec)] at h
    by_cases hshort : payload.length < 2
    · rw [if_pos hshort] at h
      cases h
    rw [if_neg hshort] at h
    by_cases hsum : crc32 payload = checksum
    · rw [if_neg (not_not_intro hsum)] at h
      obtain ⟨raw, -, h⟩ := bind_eq_ok.mp h
      unfold decodeAll at h
      cases hdecode : decodeV4BlockSection expectedCount raw with
      | error e =>
        rw [hdecode] at h
        cases h
      | ok r =>
        obtain ⟨read, rest⟩ := r
        rw [hdecode] at h
        cases rest with
        | nil =>
          obtain rfl := Except.ok.inj h
          exact returns_decodeV4BlockSection expectedCount raw read [] hdecode
        | cons _ _ => cases h
    · rw [if_pos hsum] at h
      cases h
  · rw [if_pos hcodec] at h
    cases h

/-- The points of a block that can be read are in time order already. -/
theorem Readable.sortPoints_eq (h : Readable points) : sortPoints points = points := by
  have : IsTrans BlockPoint fun p q => p.timestamp < q.timestamp :=
    ⟨fun p q r => Int64.lt_trans⟩
  refine List.Pairwise.insertionSort_eq ?_
  exact (List.isChain_iff_pairwise.mp h.increasing).imp fun hlt => Int64.le_of_lt hlt

theorem Readable.nodup (h : Readable points) : (points.map BlockPoint.timestamp).Nodup := by
  rw [← strictlyIncreasing_sortPoints, h.sortPoints_eq, strictlyIncreasing_iff]
  exact h.increasing

/-! ### The migration -/

/-- A row of the first format. -/
structure V4Row where
  /-- `series_id`. -/
  seriesID : ℤ
  /-- `start_nano`. -/
  startNano : Int64
  /-- `end_nano`. -/
  endNano : Int64
  /-- `point_count`. -/
  count : ℤ
  checksum : UInt32
  payload : List UInt8

/-- One block of `migrateSQLiteV6SharedPointBlocks`: decode it, compare its bounds with the row, encode its
points in the shared format and decode them again. -/
def migratePointBlock (row : V4Row) : Except String EncodedBlock := do
  let block := "series=" ++ toString row.seriesID ++ " start=" ++ toString row.startNano.toInt
  let points ←
    match decodeSQLiteStoredPointBlock flate crc32 sqliteV4BlockCodec row.count row.checksum
      row.payload 0 0 [] with
    | .ok points => .ok points
    | .error e => .error ("metric: decode point-axis migration " ++ block ++ ": " ++ e)
  if points.head?.map BlockPoint.timestamp ≠ some row.startNano ∨
      points.getLast?.map BlockPoint.timestamp ≠ some row.endNano then
    .error ("metric: point-axis migration boundary mismatch " ++ block)
  else
    let encoded ← encodeSQLiteV6SharedPointBlock flate crc32 points
    let decoded ← decodeSQLiteStoredPointBlock flate crc32 encoded.codec encoded.count encoded.checksum
      encoded.payload encoded.axisCodec encoded.axisChecksum encoded.axisPayload
    if points ≠ decoded then .error "point-axis round-trip validation changed data"
    else pure encoded

/-- **Blocks are carried forward.**  The encoder of the first format accepts at most 2^20 points exactly when
their timestamps are distinct and the consecutive differences of timestamps and creation times in time order
fit, and its block is decoded to the points in time order.  Conversely, whoever wrote a block that is decoded,
its timestamps increase strictly, both encoders accept its points, and where the sections written again are
under 128 MiB, both blocks are decoded to the same points and the migration of the row succeeds. -/
theorem v4Block_carried :
    (∀ points : List BlockPoint, points ≠ [] → points.length ≤ sqliteV4MaxDecodedPoints →
      ((∃ block, encodeSQLiteV4Block flate crc32 points = .ok block) ↔
        (points.map BlockPoint.timestamp).Nodup ∧ DeltasFit (sortPoints points)) ∧
      ∀ block, encodeSQLiteV4Block flate crc32 points = .ok block →
        (∀ raw, v4BlockSection (sortPoints points) = .ok raw → raw.length < sectionLimit) →
        decodeSQLiteV4Block flate crc32 block.codec block.count block.checksum block.payload =
          .ok (sortPoints points)) ∧
    ∀ (row : V4Row) (points : List BlockPoint),
      decodeSQLiteV4Block flate crc32 sqliteV4BlockCodec row.count row.checksum row.payload =
          .ok points →
      (points.IsChain fun p q => p.timestamp < q.timestamp) ∧
      (∃ block, encodeSQLiteV4Block flate crc32 points = .ok block ∧
        ((∀ raw, v4BlockSection points = .ok raw → raw.length < sectionLimit) →
          decodeSQLiteV4Block flate crc32 block.codec block.count block.checksum block.payload =
            .ok points)) ∧
      ∃ block, encodeSQLiteV6SharedPointBlock flate crc32 points = .ok block ∧
        ((∀ raw, pointAxisSection points = .ok raw → raw.length < sectionLimit) →
          (∀ raw, pointValueSection points = .ok raw → raw.length < sectionLimit) →
          decodeSQLiteStoredPointBlock flate crc32 block.codec block.count block.checksum
              block.payload block.axisCodec block.axisChecksum block.axisPayload = .ok points ∧
            (points.head?.map BlockPoint.timestamp = some row.startNano →
              points.getLast?.map BlockPoint.timestamp = some row.endNano →
              migratePointBlock flate crc32 row = .ok block)) := by
  constructor
  · intro points hne hcount
    refine ⟨isOk_encodeSQLiteV4Block flate crc32 hne hcount, ?_⟩
    intro block hblock hlen
    exact decode_encodeSQLiteV4Block flate crc32 hne hcount hlen hblock
  · intro row points hdecode
    have hread := readable_of_decode flate crc32 hdecode
    have hsort := hread.sortPoints_eq
    have haccepted : (points.map BlockPoint.timestamp).Nodup ∧ DeltasFit (sortPoints points) := by
      rw [hsort]
      exact ⟨hread.nodup, hread.fits⟩
    refine ⟨hread.increasing, ?_, ?_⟩
    · obtain ⟨block, hblock⟩ :=
        (isOk_encodeSQLiteV4Block flate crc32 hread.nonempty hread.count).mpr haccepted
      refine ⟨block, hblock, fun hlen => ?_⟩
      rw [← hsort] at hlen
      have h := decode_encodeSQLiteV4Block flate crc32 hread.nonempty hread.count hlen hblock
      rwa [hsort] at h
    · obtain ⟨block, hblock⟩ :=
        (isOk_encodeSQLiteV6SharedPointBlock flate crc32 hread.nonempty hread.count).mpr haccepted
      refine ⟨block, hblock, fun haxis hvalues => ?_⟩
      rw [← hsort] at haxis hvalues
      have hagain := decode_encodeSQLiteV6SharedPointBlock flate crc32 hread.nonempty hread.count
        haxis hvalues hblock
      rw [hsort] at hagain
      refine ⟨hagain, fun hstart hend => ?_⟩
      have hstored : decodeSQLiteStoredPointBlock flate crc32 sqliteV4BlockCodec row.count
          row.checksum row.payload 0 0 [] = .ok points := by
        rw [decodeSQLiteStoredPointBlock, if_pos rfl, hdecode]
      simp only [migratePointBlock, hstored, hblock, hagain, hstart, hend, bind, Except.bind,
        ne_eq, not_true_eq_false, or_self, if_false]
      rfl

/-- Two points of a series, at the row they are stored in. -/
def sampleRow : V4Row where
  seriesID := 1
  startNano := 1700000000000000000
  endNano := 1700000060000000000
  count := 2
  checksum := (encodeSQLiteV4Block storedFlate checksumIEEE (samplePoints.take 2)).toOption.elim 0
    EncodedBlock.checksum
  payload := (encodeSQLiteV4Block storedFlate checksumIEEE (samplePoints.take 2)).toOption.elim []
    EncodedBlock.payload

theorem v4Block_carried_samplePoints :
    ∃ block, encodeSQLiteV6SharedPointBlock storedFlate checksumIEEE (samplePoints.take 2).reverse =
        .ok block ∧ migratePointBlock storedFlate checksumIEEE sampleRow = .ok block := by
  obtain ⟨hok, hcarried⟩ := v4Block_carried storedFlate checksumIEEE
  obtain ⟨haccepts, hdecode⟩ := hok (samplePoints.take 2) (by decide) (by decide)
  obtain ⟨block, hblock⟩ := haccepts.mpr (by decide +kernel)
  have hsorted : sortPoints (samplePoints.take 2) = (samplePoints.take 2).reverse := by
    decide +kernel
  have hlength : (v4BlockSection (sortPoints (samplePoints.take 2))).toOption.map List.length =
      some 51 := by decide +kernel
  have hread := hdecode block hblock fun raw h => by
    rw [h] at hlength
    rw [Option.some.inj hlength]
    decide
  have haxis : (pointAxisSection (samplePoints.take 2).reverse).toOption.map List.length = some 20 := by
    decide +kernel
  have hvalues : (pointValueSection (samplePoints.take 2).reverse).toOption.map List.length =
      some 36 := by decide +kernel
  have hcount : block.count = 2 ∧ block.codec = sqliteV4BlockCodec := by
    obtain ⟨-, raw, -, rfl⟩ := (encodeSQLiteV4Block_eq_ok storedFlate checksumIEEE (by decide)
      (by decide)).mp hblock
    exact ⟨rfl, rfl⟩
  have hrow : decodeSQLiteV4Block storedFlate checksumIEEE sqliteV4BlockCodec sampleRow.count
      sampleRow.checksum sampleRow.payload = .ok (samplePoints.take 2).reverse := by
    rw [hsorted, hcount.1, hcount.2] at hread
    simpa [sampleRow, hblock, Except.toOption] using hread
  obtain ⟨-, -, shared, hshared, hmigrate⟩ := hcarried sampleRow _ hrow
  refine ⟨shared, hshared, (hmigrate (fun raw h => ?_) fun raw h => ?_).2 rfl rfl⟩
  · rw [h] at haxis
    rw [Option.some.inj haxis]
    decide
  · rw [h] at hvalues
    rw [Option.some.inj hvalues]
    decide

/-- Write the number of the zeros at the end, and what is before them. -/
def runDeflate (raw : List UInt8) : List UInt8 :=
  if raw.length < 2 ^ 64 then
    1 :: (putUvarint (raw.rtakeWhile (· = 0)).length ++ raw.rdropWhile (· = 0))
  else 0 :: raw

/-- Read what `runDeflate` writes, up to the limit. -/
def runInflate (limit : ℕ) : List UInt8 → Except String (List UInt8)
  | [] => .error "unexpected EOF"
  | kind :: data =>
    if kind = 0 then .ok (data.take limit)
    else
      match readUvarint data with
      | .ok (zeros, head) => .ok ((head ++ List.replicate zeros 0).take limit)
      | .error e => .error e

theorem runInflate_runDeflate (limit : ℕ) (raw : List UInt8) :
    runInflate limit (runDeflate raw) = .ok (raw.take limit) := by
  unfold runDeflate
  split_ifs with hraw
  · have hzeros : (raw.rtakeWhile (· = 0)).length ≤ raw.length :=
      (List.rtakeWhile_suffix _ _).length_le
    have hrun : List.replicate (raw.rtakeWhile (· = 0)).length 0 = raw.rtakeWhile (· = 0) := by
      refine (List.eq_replicate_of_mem fun b hb => ?_).symm
      simpa using List.mem_rtakeWhile_imp hb
    simp only [runInflate, (decodes_uvarint (hzeros.trans_lt hraw)).eq, hrun,
      List.rdropWhile_append_rtakeWhile]
    rfl
  · rfl

/-- A compressor that counts the zeros at the end. -/
def runFlate : Flate where
  deflate := fun _ raw => runDeflate raw
  inflate := runInflate
  lossless := by
    intro level limit raw hlen
    rw [runInflate_runDeflate, List.take_of_length_le hlen]
  deflate_ne_nil := by
    intro level raw
    unfold runDeflate
    split_ifs <;> simp

/-- The section up to the labels of a point at the epoch with value zero. -/
def pointHead : List UInt8 := [0x4B, 0x4D, 0x56, 0x34, 1, 0, 64, 0, 0, 0, 0, 0, 0, 0, 0, 1]

theorem v4BlockSection_singleton (labels : List UInt8) :
    v4BlockSection [⟨0, 0, labels, 0⟩] =
      .ok (pointHead ++ (putUvarint labels.length ++ (labels ++ [0, 0]))) := by
  have hone : putUvarint 1 = [1] := by decide
  have hzero : putUvarint 0 = [0] := by decide
  have hstamp : putVarint 0 = [0] := by decide
  have hvalues : putUvarint (encodeXorValues [0]).bits ++ (encodeXorValues [0]).data =
      [64, 0, 0, 0, 0, 0, 0, 0, 0] := by decide
  have hlabels : encodeLabels [labels] = 1 :: (putUvarint labels.length ++ (labels ++ [0])) := by
    simp [encodeLabels, labelDictionary, encodeLabel, hone, hzero]
  simp only [v4BlockSection, List.map_cons, List.map_nil, hlabels, hvalues, encodeV4Stamps,
    encodeV4StampTail, encodeCreatedAt, writeList, bind, Except.bind, pure, Except.pure]
  simp [hone, hstamp, pointHead, sqliteV4BlockMagic]

theorem bind_append {α β : Type} {p : ByteDecoder α} {f : α → ByteDecoder β} {input : List UInt8} {v : α}
    (h : DecodesBytes p input v) (rest : List UInt8) : (p >>= f) (input ++ rest) = f v rest := by
  simp only [bind, StateT.bind, h.eq rest, Except.bind]

theorem bind_ensure {α : Type} {c : Bool} {msg : String} {f : Unit → ByteDecoder α}
    (hc : c = true) (s : List UInt8) : (Decoder.ensure c msg >>= f) s = f () s := by
  simp only [bind, StateT.bind, Decoder.ensure, hc, if_true, Except.bind]

/-- A label that is cut off is not read. -/
theorem readLabel_cut {length : ℕ} (hlength : length < 2 ^ 64) {rest : List UInt8}
    (hcut : rest.length < length) (msg : String) :
    readLabel msg (putUvarint length ++ rest) = .error msg := by
  unfold readLabel
  rw [bind_append ((decodes_uvarint hlength).orError msg)]
  simp only [readChecked, bind, StateT.bind, Except.bind, remaining, Decoder.ensure,
    decide_eq_true_eq, if_neg (not_le.mpr hcut)]

theorem decodeV4BlockSection_cut {length : ℕ} (hlength : length < 2 ^ 64) {rest : List UInt8}
    (hcut : rest.length < length) :
    decodeV4BlockSection 1 (pointHead ++ (putUvarint length ++ rest)) =
      .error v4LabelMessages.length := by
  have hlabel := readLabel_cut hlength hcut v4LabelMessages.length
  generalize putUvarint length ++ rest = cut at hlabel ⊢
  have hone : (1 : ℕ) < 2 ^ 64 := by decide
  obtain ⟨hbits, hvalues⟩ := decodes_decodeXorValues v4XorMessages (List.cons_ne_nil 0 [])
  change Decodes BitReader.ahead (decodeXorValues v4XorMessages 1) _ _ at hvalues
  have hstamps : encodeStamps v4StampMessages [0] = .ok (putVarint 0 ++ []) := rfl
  have hsplit : pointHead ++ cut = sqliteV4BlockMagic ++ (putUvarint 1 ++ ((putVarint 0 ++ []) ++
      ((putUvarint (encodeXorValues [0]).bits ++ (encodeXorValues [0]).data) ++
        (putUvarint 1 ++ cut)))) := by
    have hone : putUvarint 1 = [1] := by decide
    have hstamp : putVarint 0 = [0] := by decide
    have hvalues : putUvarint (encodeXorValues [0]).bits ++ (encodeXorValues [0]).data =
        [64, 0, 0, 0, 0, 0, 0, 0, 0] := by decide
    rw [hone, hstamp, hvalues]
    rfl
  unfold decodeV4BlockSection
  rw [hsplit, bind_append (decodes_readMagic _ _), bind_append ((decodes_uvarint hone).orError _)]
  have hdecode : DecodesBytes (decodeStamps v4StampMessages 1) (putVarint 0 ++ []) [0] :=
    decodes_decodeStamps v4StampMessages hstamps
  rw [bind_ensure (by decide), bind_ensure (by decide), bind_append hdecode,
    bind_append (decodes_readBitSection _ (fun _ h => h.withContext _) hbits (by decide) hvalues)]
  have hlabels : decodeLabels v4LabelMessages 1 (putUvarint 1 ++ cut) =
      .error v4LabelMessages.length := by
    unfold decodeLabels
    rw [bind_append ((decodes_uvarint hone).orError _), bind_ensure (by decide)]
    simp only [Decoder.readMany, bind, StateT.bind, hlabel, Except.bind]
  simp only [bind, StateT.bind, hlabels, Except.bind]

/-- A point with so many zeros in its labels. -/
def zerosPoint (zeros : ℕ) : BlockPoint := ⟨0, 0, List.replicate zeros 0, 0⟩

def zerosHead (zeros : ℕ) : List UInt8 := pointHead ++ putUvarint zeros

def zerosSection (zeros : ℕ) : List UInt8 := zerosHead zeros ++ List.replicate (zeros + 2) 0

theorem v4BlockSection_zerosPoint (zeros : ℕ) :
    v4BlockSection [zerosPoint zeros] = .ok (zerosSection zeros) := by
  unfold zerosPoint zerosSection zerosHead
  rw [v4BlockSection_singleton, List.length_replicate, List.replicate_add, List.append_assoc]
  rfl

theorem length_putUvarintLoop_le (fuel x : ℕ) : (putUvarintLoop fuel x).length ≤ fuel := by
  induction fuel generalizing x with
  | zero => rfl
  | succ fuel ih =>
    unfold putUvarintLoop
    split_ifs
    · simp
    · exact Nat.succ_le_succ (ih _)

theorem length_zerosHead_le (zeros : ℕ) : (zerosHead zeros).length ≤ 26 := by
  unfold zerosHead putUvarint
  rw [List.length_append]
  exact Nat.add_le_add_left (length_putUvarintLoop_le maxVarintLen64 zeros) 16

theorem length_zerosSection (zeros : ℕ) :
    (zerosSection zeros).length = (zerosHead zeros).length + (zeros + 2) := by
  unfold zerosSection
  rw [List.length_append, List.length_replicate]

theorem rdropWhile_append_replicate {α : Type} {p : α → Bool} {a : α} (ha : p a = true) (l : List α)
    (n : ℕ) : (l ++ List.replicate n a).rdropWhile p = l.rdropWhile p := by
  induction n with
  | zero => rw [List.replicate_zero, List.append_nil]
  | succ n ih => rw [List.replicate_succ', ← List.append_assoc, List.rdropWhile_concat_pos p _ _ ha, ih]

theorem compressSection_zerosSection {zeros : ℕ} (hlong : 64 ≤ zeros)
    (hlt : (zerosSection zeros).length < 2 ^ 64) :
    compressSection runFlate bestSpeed (zerosSection zeros) =
      sqliteV4PayloadDeflate :: runFlate.deflate bestSpeed (zerosSection zeros) := by
  have hhead : ((zerosSection zeros).rdropWhile (· = 0)).length ≤ 26 := by
    unfold zerosSection
    rw [@rdropWhile_append_replicate _ (fun b => decide (b = 0)) 0 (decide_eq_true rfl)]
    exact (List.rdropWhile_prefix _ _).length_le.trans (length_zerosHead_le zeros)
  have hdeflate : (runFlate.deflate bestSpeed (zerosSection zeros)).length ≤ 37 := by
    have hzeros := length_putUvarintLoop_le 10 ((zerosSection zeros).rtakeWhile (· = 0)).length
    simp only [runFlate, runDeflate, putUvarint, maxVarintLen64, if_pos hlt, List.length_cons,
      List.length_append]
    omega
  unfold compressSection
  dsimp only
  rw [if_pos]
  rw [List.length_cons, List.length_cons, length_zerosSection]
  omega

/-- What is left of a section that is cut off inside the zeros. -/
theorem take_zerosSection {zeros limit : ℕ} (hlimit : limit ≤ zeros) :
    (zerosSection zeros).take ((zerosHead zeros).length + limit) =
      pointHead ++ (putUvarint zeros ++ List.replicate limit 0) := by
  unfold zerosSection
  rw [List.take_length_add_append, List.take_replicate, Nat.min_eq_left (by omega)]
  exact List.append_assoc _ _ _

/-- What is decompressed of a section that was compressed is cut off at the limit. -/
theorem inflateV4Block_zerosSection {zeros : ℕ} (hlong : 64 ≤ zeros)
    (hlt : (zerosSection zeros).length < 2 ^ 64) :
    inflateV4Block runFlate (compressSection runFlate bestSpeed (zerosSection zeros)) =
      .ok ((zerosSection zeros).take sectionLimit) := by
  have hinflate : runFlate.inflate sectionLimit (runFlate.deflate bestSpeed (zerosSection zeros)) =
      .ok ((zerosSection zeros).take sectionLimit) := runInflate_runDeflate sectionLimit _
  rw [compressSection_zerosSection hlong hlt]
  simp only [inflateV4Block, hinflate]
  rfl

/-- A section with so many zeros that it is cut off inside them is read when it is stored as it is, and not
when it is written again. -/
theorem zerosSection_lost {zeros : ℕ} (limit : ℕ) (hlong : 64 ≤ zeros) (hshort : zeros < 2 ^ 32)
    (hcut : limit < zeros) (hlimit : sectionLimit = (zerosHead zeros).length + limit) :
    decodeSQLiteV4Block runFlate checksumIEEE sqliteV4BlockCodec 1
        (checksumIEEE (sqliteV4PayloadRaw :: zerosSection zeros))
        (sqliteV4PayloadRaw :: zerosSection zeros) = .ok [zerosPoint zeros] ∧
    ∃ block, encodeSQLiteV4Block runFlate checksumIEEE [zerosPoint zeros] = .ok block ∧
      decodeSQLiteV4Block runFlate checksumIEEE block.codec block.count block.checksum block.payload =
        .error v4LabelMessages.length := by
  have hne : [zerosPoint zeros] ≠ [] := List.cons_ne_nil _ _
  have hcount : [zerosPoint zeros].length ≤ sqliteV4MaxDecodedPoints := by
    rw [List.length_singleton]
    decide
  have hincr : strictlyIncreasing [zerosPoint zeros] = true := rfl
  have hsection := v4BlockSection_zerosPoint zeros
  have hhead := length_zerosHead_le zeros
  have hlen := length_zerosSection zeros
  have hsort : sortPoints [zerosPoint zeros] = [zerosPoint zeros] := rfl
  constructor
  · have hdecode := decodes_decodeV4BlockSection hne hcount hincr (by omega) hsection
    rw [decodeSQLiteV4Block, if_neg (by simp), if_neg (by rw [List.length_cons]; omega),
      if_neg (by simp)]
    exact decodeAll_eq hdecode _
  · have hblock := (encodeSQLiteV4Block_eq_ok runFlate checksumIEEE hne hcount).mpr
      ⟨by rw [hsort, hincr], zerosSection zeros, by rw [hsort, hsection], rfl⟩
    refine ⟨_, hblock, ?_⟩
    have htwo := two_le_length_compress runFlate bestSpeed (ne_nil_of_v4BlockSection hsection)
    have hread : decodeV4BlockSection 1 ((zerosSection zeros).take sectionLimit) =
        .error v4LabelMessages.length := by
      rw [hlimit, take_zerosSection hcut.le]
      exact decodeV4BlockSection_cut (by omega) (by rwa [List.length_replicate])
    rw [decodeSQLiteV4Block, if_neg (by simp)]
    dsimp only
    rw [if_neg (by omega), if_neg (by simp), inflateV4Block_zerosSection hlong (by omega)]
    simp only [bind, Except.bind, decodeAll, List.length_singleton, Nat.cast_one, hread]

/-- **A section of more than 128 MiB is lost.**  A block that stores 128 MiB of zeros in the labels of its
point can be read; written again it is compressed, and cut off when it is decompressed. -/
theorem hugeBlock_lost :
    decodeSQLiteV4Block runFlate checksumIEEE sqliteV4BlockCodec 1
        (checksumIEEE (sqliteV4PayloadRaw :: zerosSection (2 ^ 27)))
        (sqliteV4PayloadRaw :: zerosSection (2 ^ 27)) = .ok [zerosPoint (2 ^ 27)] ∧
    ∃ block, encodeSQLiteV4Block runFlate checksumIEEE [zerosPoint (2 ^ 27)] = .ok block ∧
      decodeSQLiteV4Block runFlate checksumIEEE block.codec block.count block.checksum block.payload =
        .error v4LabelMessages.length := by
  have hhead : (zerosHead (2 ^ 27)).length = 20 := by decide
  refine zerosSection_lost (2 ^ 27 - 20) (by decide) (by decide) (by decide) ?_
  rw [hhead]
  decide

end Block

end Komari
