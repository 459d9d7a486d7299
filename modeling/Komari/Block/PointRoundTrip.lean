import Mathlib.Data.List.Infix
import Mathlib.Tactic.Linarith
import Komari.Block.Point

/-!
# Round trip of point blocks

* `sharedPointBlock_roundTrip` : **both of these.**
-/

namespace Komari

namespace Block

open Codec

/-! ### Labels -/

theorem labelDictionary_spec (labels : List (List UInt8)) (acc : List (List UInt8)) :
    (∀ l, l ∈ acc ∨ l ∈ labels → l ∈ labels.foldl (fun dictionary l =>
        if l ∈ dictionary then dictionary else dictionary ++ [l]) acc) ∧
      (labels.foldl (fun dictionary l =>
        if l ∈ dictionary then dictionary else dictionary ++ [l]) acc).length ≤
          acc.length + labels.length := by
  induction labels generalizing acc with
  | nil => simp
  | cons a labels ih =>
    rw [List.foldl_cons]
    split_ifs with ha
    · obtain ⟨hmem, hlen⟩ := ih acc
      refine ⟨fun l hl => hmem l ?_, by rw [List.length_cons]; omega⟩
      rcases hl with hl | hl
      · exact Or.inl hl
      · rcases List.mem_cons.mp hl with rfl | hl
        · exact Or.inl ha
        · exact Or.inr hl
    · obtain ⟨hmem, hlen⟩ := ih (acc ++ [a])
      refine ⟨fun l hl => hmem l ?_, ?_⟩
      · rcases hl with hl | hl
        · exact Or.inl (List.mem_append_left _ hl)
        · rcases List.mem_cons.mp hl with rfl | hl
          · exact Or.inl (by simp)
          · exact Or.inr hl
      · rw [List.length_append, List.length_singleton] at hlen
        rw [List.length_cons]
        omega

theorem mem_labelDictionary {labels : List (List UInt8)} {l : List UInt8} (h : l ∈ labels) :
    l ∈ labelDictionary labels :=
  (labelDictionary_spec labels []).1 l (Or.inr h)

theorem length_labelDictionary_le (labels : List (List UInt8)) :
    (labelDictionary labels).length ≤ labels.length := by
  have h := (labelDictionary_spec labels []).2
  rwa [List.length_nil, Nat.zero_add] at h

theorem length_le_length_flatMap {α β : Type} {f : α → List β} {a : α} {l : List α} (h : a ∈ l) :
    (f a).length ≤ (l.flatMap f).length :=
  (List.infix_of_mem_flatten (List.mem_map_of_mem h)).length_le

theorem decodes_readLabel (msg : String) {l : List UInt8} (hl : l.length < 2 ^ 64) :
    DecodesBytes (readLabel msg) (encodeLabel l) l := by
  refine Decodes.bind ((decodes_uvarint hl).orError _) (decodes_readChecked fun n hn => ?_)
  rwa [decide_eq_true_eq]

theorem decodes_readLabelIndex (msg : String) {dictionary : List (List UInt8)} {l : List UInt8}
    (hlen : dictionary.length < 2 ^ 64) (hl : l ∈ dictionary) :
    DecodesBytes (readLabelIndex msg dictionary) (putUvarint (dictionary.idxOf l)) l := by
  have hidx := List.idxOf_lt_length_iff.mpr hl
  refine Decodes.bind_last ((decodes_uvarint (hidx.trans hlen)).orError _) ?_
  rw [List.getElem?_eq_getElem hidx, List.getElem_idxOf hidx]
  exact Decodes.pure l

theorem decodes_decodeLabels (m : LabelMessages) {labels : List (List UInt8)} (hne : labels ≠ [])
    (hcount : labels.length < 2 ^ 64) (hlen : (encodeLabels labels).length < 2 ^ 64) :
    DecodesBytes (decodeLabels m labels.length) (encodeLabels labels) labels := by
  have hdict := length_labelDictionary_le labels
  have hpos : (labelDictionary labels).length ≠ 0 := by
    obtain ⟨l, rest, rfl⟩ := List.exists_cons_of_ne_nil hne
    exact (List.length_pos_of_mem (mem_labelDictionary (List.mem_cons_self : l ∈ _))).ne'
  have hentry : ∀ l ∈ labelDictionary labels, l.length < 2 ^ 64 := by
    intro l hl
    have h : (encodeLabel l).length ≤ _ := length_le_length_flatMap hl
    rw [encodeLabel, List.length_append] at h
    simp only [encodeLabels, List.length_append] at hlen
    omega
  unfold decodeLabels encodeLabels
  simp only [List.append_assoc]
  refine Decodes.bind ((decodes_uvarint (hdict.trans_lt hcount)).orError _) ?_
  refine (Decodes.ensure (by rw [decide_eq_true_eq]; exact ⟨hpos, hdict⟩) _).bind_nil ?_
  refine Decodes.bind (Decodes.readMany fun l hl => decodes_readLabel _ (hentry l hl)) ?_
  exact Decodes.readMany fun l hl =>
    decodes_readLabelIndex _ (hdict.trans_lt hcount) (mem_labelDictionary hl)

/-! ### Creation times -/

theorem isOk_writeList_writeCreatedAt (msg : String) (previous : Int64) (rest : List Int64) :
    (∃ out, writeList (writeCreatedAt msg) previous rest = .ok out) ↔
      (previous :: rest).IsChain fun a b => InInt64 (b.toInt - a.toInt) := by
  induction rest generalizing previous with
  | nil => simp [writeList]
  | cons createdAt rest ih =>
    rw [List.isChain_cons_cons, ← isSome_checkedSubInt64, ← ih]
    simp only [writeList, writeCreatedAt, bind, Except.bind]
    cases checkedSubInt64 createdAt previous with
    | none => simp
    | some delta =>
      simp only [Option.isSome_some, true_and]
      cases writeList (writeCreatedAt msg) createdAt rest with
      | error e => simp
      | ok out => simp [pure, Except.pure]

theorem isOk_encodeCreatedAt (msg : String) (l : List Int64) :
    (∃ out, encodeCreatedAt msg l = .ok out) ↔
      l.IsChain fun a b => InInt64 (b.toInt - a.toInt) := by
  cases l with
  | nil => simp [encodeCreatedAt]
  | cons first rest =>
    rw [← isOk_writeList_writeCreatedAt msg]
    simp only [encodeCreatedAt, bind, Except.bind]
    cases writeList (writeCreatedAt msg) first rest with
    | error e => simp
    | ok out => simp [pure, Except.pure]

/-- Round trip of the creation times of a block. -/
theorem decodes_decodeCreatedAt {msg : String} {readFirst read : ByteDecoder Int64}
    (hfirst : ∀ x, DecodesBytes readFirst (putVarint x) x)
    (hread : ∀ x, DecodesBytes read (putVarint x) x) {l : List Int64} {out : List UInt8}
    (h : encodeCreatedAt msg l = .ok out) :
    DecodesBytes (decodeCreatedAt readFirst read l.length) out l := by
  cases l with
  | nil =>
    cases h
    exact Decodes.pure []
  | cons first rest =>
    simp only [encodeCreatedAt] at h
    cases hrest : writeList (writeCreatedAt msg) first rest with
    | error e => rw [hrest] at h; cases h
    | ok outs =>
      rw [hrest] at h
      obtain rfl := Except.ok.inj h
      rw [List.length_cons, decodeCreatedAt]
      refine Decodes.bind (hfirst first) (Decodes.bind_pure (Decodes.readList ?_ rfl hrest) rfl)
      rintro previous _ createdAt out previous' rfl hwrite
      simp only [writeCreatedAt] at hwrite
      cases hd : checkedSubInt64 createdAt previous with
      | none => rw [hd] at hwrite; cases hwrite
      | some delta =>
        rw [hd] at hwrite
        obtain ⟨rfl, rfl⟩ := Prod.mk.inj (Except.ok.inj hwrite)
        refine ⟨createdAt, ?_, rfl⟩
        exact Decodes.bind_last (hread delta)
          ((decodes_checkedAddInt64 hd).bind_nil (Decodes.pure _))

/-! ### Sections -/

theorem decodes_readMagic (magic : List UInt8) (msg : String) :
    DecodesBytes (readMagic magic msg) magic () :=
  Decodes.bind_last ((decodes_readFull magic).orError _)
    (Decodes.ensure (decide_eq_true rfl) _)

variable {raw : List UInt8}

theorem decodeAll_eq {α : Type} {p : ByteDecoder α} {v : α}
    (h : DecodesBytes p raw v) (trailing : String) : decodeAll p trailing raw = .ok v := by
  have h := h.eq []
  rw [List.append_nil] at h
  rw [decodeAll, h]

theorem assemblePoints_columns (points : List BlockPoint) :
    assemblePoints (points.map BlockPoint.timestamp) (points.map BlockPoint.valueBits)
      (points.map BlockPoint.labels) (points.map BlockPoint.createdAt) = points := by
  induction points with
  | nil => rfl
  | cons p points ih => rw [List.map_cons, List.map_cons, List.map_cons, List.map_cons,
      assemblePoints, ih]

variable {points : List BlockPoint}

theorem decodes_decodePointAxisSection (hne : points ≠ [])
    (hcount : points.length ≤ sqliteV4MaxDecodedPoints) (h : pointAxisSection points = .ok raw) :
    DecodesBytes (decodePointAxisSection points.length) raw (points.map BlockPoint.timestamp) := by
  simp only [pointAxisSection] at h
  cases hstamps : encodeStamps pointAxisMessages (points.map BlockPoint.timestamp) with
  | error e => rw [hstamps] at h; cases h
  | ok stamps =>
    rw [hstamps] at h
    obtain rfl := Except.ok.inj h
    have hpos := List.length_pos_of_ne_nil hne
    have hdecode := decodes_decodeStamps pointAxisMessages hstamps
    rw [List.length_map] at hdecode
    unfold decodePointAxisSection
    simp only [List.append_assoc]
    have hlt : points.length < 2 ^ 64 := by unfold sqliteV4MaxDecodedPoints at hcount; omega
    refine Decodes.bind (decodes_readMagic _ _) ?_
    refine Decodes.bind ((decodes_uvarint hlt).orError _) ?_
    refine (Decodes.ensure (by rw [decide_eq_true_eq]; exact ⟨hpos.ne', hcount⟩) _).bind_nil ?_
    refine (Decodes.ensure (by rw [decide_eq_true_eq]; exact Or.inr rfl) _).bind_nil ?_
    exact hdecode

theorem decodes_decodePointValueSection (hne : points ≠ [])
    (hcount : points.length ≤ sqliteV4MaxDecodedPoints)
    (hraw : raw.length < sectionLimit) (h : pointValueSection points = .ok raw) :
    DecodesBytes (decodePointValueSection points.length (points.map BlockPoint.timestamp)) raw
      points := by
  simp only [pointValueSection] at h
  cases hcreated : encodeCreatedAt "metric: SQLite V6 creation-time delta overflow"
      (points.map BlockPoint.createdAt) with
  | error e => rw [hcreated] at h; cases h
  | ok createdAt =>
    rw [hcreated] at h
    obtain rfl := Except.ok.inj h
    unfold sqliteV4MaxDecodedPoints at hcount
    have hlt : points.length < 2 ^ 64 := by omega
    have hmap : ∀ {β : Type} (f : BlockPoint → β), points.map f ≠ [] := fun f => by simpa using hne
    obtain ⟨hbits, hvalues⟩ := decodes_decodeXorValues pointXorMessages (hmap BlockPoint.valueBits)
    unfold sectionLimit at hraw
    simp only [List.length_append, (encodeXorValues _).length_data] at hraw
    have hlabels := decodes_decodeLabels pointLabelMessages (hmap BlockPoint.labels)
      (by rwa [List.length_map]) (by omega)
    have hcreated := decodes_decodeCreatedAt decodes_varint decodes_varint hcreated
    rw [List.length_map] at hvalues hlabels hcreated
    have hint : int64 (points.length : ℤ) = points.length := by
      refine int64_eq_self ?_
      unfold InInt64 minInt64 maxInt64
      omega
    unfold decodePointValueSection
    simp only [List.append_assoc, List.length_map]
    refine Decodes.bind (decodes_readMagic _ _) ?_
    refine Decodes.bind ((decodes_uvarint hlt).orError _) ?_
    refine (Decodes.ensure (by rw [decide_eq_true_eq]; exact ⟨hint, trivial⟩) _).bind_nil ?_
    rw [← List.append_assoc (putUvarint _)]
    refine Decodes.bind (decodes_readBitSection _ (fun _ h => h) hbits (by omega) hvalues) ?_
    refine Decodes.bind hlabels (Decodes.bind_pure hcreated ?_)
    rw [assemblePoints_columns]

/-! ### Blocks -/

theorem perm_sortPoints (points : List BlockPoint) : (sortPoints points).Perm points :=
  List.perm_insertionSort _ points

theorem pairwise_sortPoints (points : List BlockPoint) :
    (sortPoints points).Pairwise fun p q => p.timestamp ≤ q.timestamp := by
  have : Std.Total fun p q : BlockPoint => p.timestamp ≤ q.timestamp :=
    ⟨fun p q => Int64.le_total p.timestamp q.timestamp⟩
  have : IsTrans BlockPoint fun p q => p.timestamp ≤ q.timestamp :=
    ⟨fun p q r => Int64.le_trans⟩
  exact List.pairwise_insertionSort _ points

theorem strictlyIncreasing_iff (points : List BlockPoint) :
    strictlyIncreasing points = true ↔ points.IsChain fun p q => p.timestamp < q.timestamp := by
  induction points with
  | nil => simp [strictlyIncreasing]
  | cons p points ih =>
    cases points with
    | nil => simp [strictlyIncreasing]
    | cons q points => rw [strictlyIncreasing, List.isChain_cons_cons, Bool.and_eq_true, ih,
        decide_eq_true_eq]

/-- In time order the timestamps increase strictly exactly when they are distinct. -/
theorem strictlyIncreasing_sortPoints (points : List BlockPoint) :
    strictlyIncreasing (sortPoints points) = true ↔ (points.map BlockPoint.timestamp).Nodup := by
  have : IsTrans BlockPoint fun p q => p.timestamp < q.timestamp :=
    ⟨fun p q r => Int64.lt_trans⟩
  rw [strictlyIncreasing_iff, List.isChain_iff_pairwise,
    ← ((perm_sortPoints points).map BlockPoint.timestamp).nodup_iff, List.Nodup, List.pairwise_map]
  constructor
  · intro h
    exact h.imp fun hlt => Int64.ne_of_lt hlt
  · intro h
    refine (h.and (pairwise_sortPoints points)).imp fun ⟨hne, hle⟩ => ?_
    exact Int64.lt_of_le_of_ne hle hne

theorem isChain_and {α : Type} {R S : α → α → Prop} {l : List α} :
    l.IsChain (fun a b => R a b ∧ S a b) ↔ l.IsChain R ∧ l.IsChain S := by
  induction l with
  | nil => simp
  | cons a l ih =>
    cases l with
    | nil => simp
    | cons b l =>
      rw [List.isChain_cons_cons, List.isChain_cons_cons, List.isChain_cons_cons, ih]
      tauto

variable (flate : Flate) (crc32 : List UInt8 → UInt32)

/-- The consecutive differences of timestamps and of creation times fit 64 bits. -/
def DeltasFit (points : List BlockPoint) : Prop :=
  points.IsChain fun p q => InInt64 (q.timestamp.toInt - p.timestamp.toInt) ∧
    InInt64 (q.createdAt.toInt - p.createdAt.toInt)

instance (points : List BlockPoint) : Decidable (DeltasFit points) :=
  inferInstanceAs (Decidable (List.IsChain _ points))

theorem isOk_pointAxisSection (hincr : strictlyIncreasing points = true) :
    (∃ raw, pointAxisSection points = .ok raw) ↔
      points.IsChain fun p q => InInt64 (q.timestamp.toInt - p.timestamp.toInt) := by
  have hstamps := isOk_encodeStamps pointAxisMessages (points.map BlockPoint.timestamp)
  rw [List.isChain_map] at hstamps
  have hchain : (points.IsChain fun p q => StampStep p.timestamp q.timestamp) ↔
      points.IsChain fun p q => InInt64 (q.timestamp.toInt - p.timestamp.toInt) := by
    unfold StampStep
    rw [isChain_and, ← strictlyIncreasing_iff]
    exact and_iff_right hincr
  rw [← hchain, ← hstamps]
  simp only [pointAxisSection, bind, Except.bind]
  cases encodeStamps pointAxisMessages (points.map BlockPoint.timestamp) with
  | error e => simp
  | ok out => simp [pure, Except.pure]

theorem isOk_pointValueSection (points : List BlockPoint) :
    (∃ raw, pointValueSection points = .ok raw) ↔
      points.IsChain fun p q => InInt64 (q.createdAt.toInt - p.createdAt.toInt) := by
  have hcreated := isOk_encodeCreatedAt "metric: SQLite V6 creation-time delta overflow"
    (points.map BlockPoint.createdAt)
  rw [List.isChain_map] at hcreated
  rw [← hcreated]
  simp only [pointValueSection, bind, Except.bind]
  cases encodeCreatedAt "metric: SQLite V6 creation-time delta overflow"
      (points.map BlockPoint.createdAt) with
  | error e => simp
  | ok out => simp [pure, Except.pure]

theorem ne_nil_of_pointAxisSection (h : pointAxisSection points = .ok raw) : raw ≠ [] := by
  simp only [pointAxisSection] at h
  cases hstamps : encodeStamps pointAxisMessages (points.map BlockPoint.timestamp) with
  | error e => rw [hstamps] at h; cases h
  | ok stamps =>
    rw [hstamps] at h
    obtain rfl := Except.ok.inj h
    simp [sqliteV6PointAxisMagic]

theorem ne_nil_of_pointValueSection (h : pointValueSection points = .ok raw) : raw ≠ [] := by
  simp only [pointValueSection] at h
  cases hcreated : encodeCreatedAt "metric: SQLite V6 creation-time delta overflow"
      (points.map BlockPoint.createdAt) with
  | error e => rw [hcreated] at h; cases h
  | ok createdAt =>
    rw [hcreated] at h
    obtain rfl := Except.ok.inj h
    simp [sqliteV6PointValueMagic]

theorem encodeSQLiteV6SharedPointBlock_eq_ok {block : EncodedBlock}
    (hne : points ≠ []) (hcount : points.length ≤ sqliteV4MaxDecodedPoints) :
    encodeSQLiteV6SharedPointBlock flate crc32 points = .ok block ↔
      strictlyIncreasing (sortPoints points) = true ∧ ∃ axis values,
        pointAxisSection (sortPoints points) = .ok axis ∧
        pointValueSection (sortPoints points) = .ok values ∧
        block = {
          startNano := ((sortPoints points).head?.map BlockPoint.timestamp).getD 0
          endNano := ((sortPoints points).getLast?.map BlockPoint.timestamp).getD 0
          count := points.length
          codec := sqliteV6SharedPointBlockCodec
          checksum := crc32 (compressSection flate bestSpeed values)
          payload := compressSection flate bestSpeed values
          axisCodec := sqliteV6PointAxisCodec
          axisChecksum := crc32 (compressSection flate bestSpeed axis)
          axisPayload := compressSection flate bestSpeed axis } := by
  have hpos := List.length_pos_of_ne_nil hne
  have hlen := (perm_sortPoints points).length_eq
  unfold encodeSQLiteV6SharedPointBlock
  rw [if_neg hpos.ne', if_neg (not_lt.mpr hcount)]
  simp only [encodeSQLiteV6PointAxis, encodeSQLiteV6PointValues, bind, Except.bind, hlen]
  cases hincr : strictlyIncreasing (sortPoints points) with
  | false => simp
  | true =>
    cases haxis : pointAxisSection (sortPoints points) with
    | error e => simp
    | ok axis =>
      cases hvalues : pointValueSection (sortPoints points) with
      | error e => simp [pure, Except.pure]
      | ok values =>
        simp only [Bool.not_true, Bool.false_eq_true, if_false, pure, Except.pure, true_and,
          Except.ok.injEq, exists_and_left, exists_eq_left']
        exact eq_comm

/-- **What the encoder accepts.** -/
theorem isOk_encodeSQLiteV6SharedPointBlock (hne : points ≠ [])
    (hcount : points.length ≤ sqliteV4MaxDecodedPoints) :
    (∃ block, encodeSQLiteV6SharedPointBlock flate crc32 points = .ok block) ↔
      (points.map BlockPoint.timestamp).Nodup ∧ DeltasFit (sortPoints points) := by
  simp only [encodeSQLiteV6SharedPointBlock_eq_ok flate crc32 hne hcount]
  rw [← strictlyIncreasing_sortPoints, DeltasFit, isChain_and]
  constructor
  · rintro ⟨block, hincr, axis, values, haxis, hvalues, -⟩
    exact ⟨hincr, (isOk_pointAxisSection hincr).mp ⟨axis, haxis⟩,
      (isOk_pointValueSection _).mp ⟨values, hvalues⟩⟩
  · rintro ⟨hincr, haxis, hvalues⟩
    obtain ⟨axis, haxis⟩ := (isOk_pointAxisSection hincr).mpr haxis
    obtain ⟨values, hvalues⟩ := (isOk_pointValueSection _).mpr hvalues
    exact ⟨_, hincr, axis, values, haxis, hvalues, rfl⟩

/-- **Round trip**: the decoder gives back the points in time order, bit for bit. -/
theorem decode_encodeSQLiteV6SharedPointBlock {block : EncodedBlock}
    (hne : points ≠ []) (hcount : points.length ≤ sqliteV4MaxDecodedPoints)
    (haxis : ∀ raw, pointAxisSection (sortPoints points) = .ok raw → raw.length < sectionLimit)
    (hvalues : ∀ raw, pointValueSection (sortPoints points) = .ok raw → raw.length < sectionLimit)
    (h : encodeSQLiteV6SharedPointBlock flate crc32 points = .ok block) :
    decodeSQLiteStoredPointBlock flate crc32 block.codec block.count block.checksum block.payload
      block.axisCodec block.axisChecksum block.axisPayload = .ok (sortPoints points) := by
  obtain ⟨-, axis, values, hax, hval, rfl⟩ :=
    (encodeSQLiteV6SharedPointBlock_eq_ok flate crc32 hne hcount).mp h
  have hperm := perm_sortPoints points
  have hne' : sortPoints points ≠ [] := by
    intro hnil
    rw [hnil] at hperm
    exact hne hperm.nil_eq.symm
  have hcount' : (sortPoints points).length ≤ sqliteV4MaxDecodedPoints := by
    rwa [hperm.length_eq]
  have hdecAxis := decodes_decodePointAxisSection hne' hcount' hax
  have hdecValues := decodes_decodePointValueSection hne' hcount' (hvalues _ hval) hval
  rw [hperm.length_eq] at hdecAxis hdecValues
  have h₁ := two_le_length_compress flate bestSpeed (ne_nil_of_pointAxisSection hax)
  have h₂ := two_le_length_compress flate bestSpeed (ne_nil_of_pointValueSection hval)
  have hdecodeAxis : decodeSQLiteV6PointAxis flate crc32 sqliteV6PointAxisCodec points.length
      (crc32 (compressSection flate bestSpeed axis)) (compressSection flate bestSpeed axis) =
      .ok ((sortPoints points).map BlockPoint.timestamp) := by
    rw [decodeSQLiteV6PointAxis, if_neg (by simp; omega),
      inflate_compress flate bestSpeed (haxis axis hax)]
    exact decodeAll_eq hdecAxis _
  have hdecodeValues : decodeSQLiteV6PointValues flate crc32 points.length
      (crc32 (compressSection flate bestSpeed values)) (compressSection flate bestSpeed values)
      ((sortPoints points).map BlockPoint.timestamp) = .ok (sortPoints points) := by
    rw [decodeSQLiteV6PointValues, if_neg (by simp; omega),
      inflate_compress flate bestSpeed (hvalues values hval)]
    exact decodeAll_eq hdecValues _
  rw [decodeSQLiteStoredPointBlock,
    if_neg (show ¬sqliteV6SharedPointBlockCodec = sqliteV4BlockCodec by decide), if_neg (by simp),
    hdecodeAxis]
  exact hdecodeValues

/-- **Shared point blocks.**  A non-empty list of at most 2^20 points is encoded exactly when its
timestamps are distinct and the consecutive differences of timestamps and creation times in time
order fit; and if the sections are under 128 MiB, the decoder gives back the points in time order,
bit for bit, with the block's range from the first to the last timestamp. -/
theorem sharedPointBlock_roundTrip (points : List BlockPoint) (hne : points ≠ [])
    (hcount : points.length ≤ sqliteV4MaxDecodedPoints) :
    ((∃ block, encodeSQLiteV6SharedPointBlock flate crc32 points = .ok block) ↔
      (points.map BlockPoint.timestamp).Nodup ∧ DeltasFit (sortPoints points)) ∧
    ∀ block, encodeSQLiteV6SharedPointBlock flate crc32 points = .ok block →
      (∀ raw, pointAxisSection (sortPoints points) = .ok raw → raw.length < sectionLimit) →
      (∀ raw, pointValueSection (sortPoints points) = .ok raw → raw.length < sectionLimit) →
      decodeSQLiteStoredPointBlock flate crc32 block.codec block.count block.checksum block.payload
          block.axisCodec block.axisChecksum block.axisPayload = .ok (sortPoints points) ∧
        (sortPoints points).head?.map BlockPoint.timestamp = some block.startNano ∧
        (sortPoints points).getLast?.map BlockPoint.timestamp = some block.endNano := by
  refine ⟨isOk_encodeSQLiteV6SharedPointBlock flate crc32 hne hcount, ?_⟩
  intro block hblock haxis hvalues
  refine ⟨decode_encodeSQLiteV6SharedPointBlock flate crc32 hne hcount haxis hvalues hblock, ?_⟩
  obtain ⟨-, axis, values, -, -, rfl⟩ :=
    (encodeSQLiteV6SharedPointBlock_eq_ok flate crc32 hne hcount).mp hblock
  have hne' : sortPoints points ≠ [] := by
    intro hnil
    have hperm := perm_sortPoints points
    rw [hnil] at hperm
    exact hne hperm.nil_eq.symm
  obtain ⟨first, rest, hfirst⟩ := List.exists_cons_of_ne_nil hne'
  rw [hfirst]
  exact ⟨rfl, by rw [List.getLast?_cons]; rfl⟩

/-- Three points of one series, not in time order. -/
def samplePoints : List BlockPoint :=
  [⟨1700000060000000000, 0x4029000000000000, [0x7B, 0x7D], 1700000061000000000⟩,
    ⟨1700000000000000000, 0x4028000000000000, [0x7B, 0x7D], 1700000062000000000⟩,
    ⟨-9000000000000000000, 0xFFF0000000000001, [], -1⟩]

theorem sharedPointBlock_roundTrip_samplePoints :
    ¬DeltasFit (sortPoints samplePoints) ∧
      ∃ block, encodeSQLiteV6SharedPointBlock storedFlate checksumIEEE (samplePoints.take 2) =
          .ok block ∧
        decodeSQLiteStoredPointBlock storedFlate checksumIEEE block.codec block.count
          block.checksum block.payload block.axisCodec block.axisChecksum block.axisPayload =
            .ok (samplePoints.take 2).reverse := by
  refine ⟨by decide +kernel, ?_⟩
  obtain ⟨hok, hdecode⟩ := sharedPointBlock_roundTrip storedFlate checksumIEEE
    (samplePoints.take 2) (by decide) (by decide)
  obtain ⟨block, hblock⟩ := hok.mpr (by decide +kernel)
  have haxis : (pointAxisSection (sortPoints (samplePoints.take 2))).toOption.map List.length =
      some 20 := by decide +kernel
  have hvalues : (pointValueSection (sortPoints (samplePoints.take 2))).toOption.map List.length =
      some 36 := by decide +kernel
  refine ⟨block, hblock, ?_⟩
  have hsorted : sortPoints (samplePoints.take 2) = (samplePoints.take 2).reverse := by
    decide +kernel
  rw [← hsorted]
  refine (hdecode block hblock (fun raw h => ?_) fun raw h => ?_).1
  · rw [h] at haxis
    rw [Option.some.inj haxis]
    decide
  · rw [h] at hvalues
    rw [Option.some.inj hvalues]
    decide

end Block

end Komari
