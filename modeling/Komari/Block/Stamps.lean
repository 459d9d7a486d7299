import Mathlib.Data.List.Chain
import Komari.Block.Section

/-!
# Increasing time stamps

The axis of a block is an increasing list of 64-bit instants, stored as the first one, the first
difference, and from then on the difference of each difference to the one before it.  The point
blocks (timestamps) and the rollup blocks (bucket starts) share this format.
-/

namespace Komari

namespace Block

open Codec

/-- The error messages of an axis codec. -/
structure StampMessages where
  /-- A difference overflows, or is not positive. -/
  delta : String
  overflow : String
  first : String
  /-- A difference of differences cannot be read. -/
  deltaOfDelta : String

variable (m : StampMessages)

/-- Encode one more instant; the state is the instant before it and their predecessor's
difference. -/
def writeStamp : Int64 × Int64 → Int64 → Except String (List UInt8 × (Int64 × Int64))
  | (previous, previousDelta), stamp =>
    match checkedSubInt64 stamp previous with
    | none => .error m.delta
    | some delta =>
      if delta ≤ 0 then .error m.delta
      else
        match checkedSubInt64 delta previousDelta with
        | none => .error m.overflow
        | some deltaOfDelta => .ok (putVarint deltaOfDelta, (stamp, delta))

/-- Encode the instants behind the first one. -/
def encodeStampTail (first : Int64) : List Int64 → Except String (List UInt8)
  | [] => .ok []
  | second :: rest =>
    match checkedSubInt64 second first with
    | none => .error m.delta
    | some delta =>
      if delta ≤ 0 then .error m.delta
      else do
        let out ← writeList (writeStamp m) (second, delta) rest
        pure (putVarint delta ++ out)

/-- Differences of differences. -/
def encodeStamps : List Int64 → Except String (List UInt8)
  | [] => .ok []
  | first :: rest => do
    let out ← encodeStampTail m first rest
    pure (putVarint first ++ out)

/-- The next stamp. -/
def readStamp : Int64 × Int64 → ByteDecoder (Int64 × (Int64 × Int64))
  | (previous, previousDelta) => do
    let deltaOfDelta ← readVarint.withContext m.deltaOfDelta
    match checkedAddInt64Value previousDelta deltaOfDelta with
    | none => Decoder.fail m.delta
    | some delta => do
      Decoder.ensure (decide (0 < delta)) m.delta
      let stamp ← checkedAddInt64 previous delta
      pure (stamp, (stamp, delta))

/-- Decode the instants behind the first one. -/
def decodeStampTail (first : Int64) : ℕ → ByteDecoder (List Int64)
  | 0 => pure []
  | count + 1 => do
    let delta ← readVarint.orError m.delta
    Decoder.ensure (decide (0 < delta)) m.delta
    let second ← checkedAddInt64 first delta
    let rest ← Decoder.readList (readStamp m) count (second, delta)
    pure (second :: rest)

/-- Decode an axis of `count` instants. -/
def decodeStamps : ℕ → ByteDecoder (List Int64)
  | 0 => pure []
  | count + 1 => do
    let first ← readVarint.withContext m.first
    let rest ← decodeStampTail m first count
    pure (first :: rest)

/-! ### What the encoder accepts -/

/-- The next instant is later, by a difference that fits. -/
def StampStep (a b : Int64) : Prop := a < b ∧ InInt64 (b.toInt - a.toInt)

theorem checkedSubInt64_pos_iff {a b : Int64} :
    (∃ d, checkedSubInt64 b a = some d ∧ ¬d ≤ 0) ↔ StampStep a b := by
  constructor
  · rintro ⟨d, hd, hpos⟩
    have hfit := isSome_checkedSubInt64.mp (by rw [hd]; rfl)
    rw [checkedSubInt64_eq_some] at hd
    rw [Int64.le_iff_toInt_le, Int64.toInt_zero] at hpos
    exact ⟨Int64.lt_iff_toInt_lt.mpr (by omega), hfit⟩
  · rintro ⟨hlt, hfit⟩
    obtain ⟨d, hd⟩ := Option.isSome_iff_exists.mp (isSome_checkedSubInt64.mpr hfit)
    refine ⟨d, hd, ?_⟩
    rw [checkedSubInt64_eq_some] at hd
    rw [Int64.lt_iff_toInt_lt] at hlt
    rw [Int64.le_iff_toInt_le, Int64.toInt_zero]
    omega

theorem exists_checkedSubInt64_of_pos {d e : Int64} (hd : ¬d ≤ 0) (he : ¬e ≤ 0) :
    ∃ f, checkedSubInt64 d e = some f := by
  rw [Int64.le_iff_toInt_le, Int64.toInt_zero] at hd he
  have hd' := d.toInt_lt
  have he' := e.toInt_lt
  refine Option.isSome_iff_exists.mp (isSome_checkedSubInt64.mpr ?_)
  unfold InInt64 minInt64 maxInt64
  omega

theorem isOk_writeList_writeStamp {previous previousDelta : Int64} (hpos : ¬previousDelta ≤ 0)
    (rest : List Int64) :
    (∃ out, writeList (writeStamp m) (previous, previousDelta) rest = .ok out) ↔
      (previous :: rest).IsChain StampStep := by
  induction rest generalizing previous previousDelta with
  | nil => simp [writeList]
  | cons stamp rest ih =>
    rw [List.isChain_cons_cons, ← checkedSubInt64_pos_iff]
    simp only [writeList, writeStamp, bind, Except.bind]
    cases hd : checkedSubInt64 stamp previous with
    | none => simp
    | some delta =>
      by_cases hdelta : delta ≤ 0
      · simp [hdelta]
      · obtain ⟨dod, hdod⟩ := exists_checkedSubInt64_of_pos hdelta hpos
        have ih : _ ↔ (stamp :: rest).IsChain StampStep := ih hdelta
        rw [← ih]
        simp only [hdelta, if_false, hdod, Option.some.injEq, exists_eq_left', not_false_eq_true,
          true_and]
        cases writeList (writeStamp m) (stamp, delta) rest with
        | error e => simp
        | ok out => simp [pure, Except.pure]

/-- **What the encoder accepts**: the lists in which every instant is later than the one before it,
by a difference that fits. -/
theorem isOk_encodeStamps (l : List Int64) :
    (∃ out, encodeStamps m l = .ok out) ↔ l.IsChain StampStep := by
  cases l with
  | nil => simp [encodeStamps]
  | cons first rest =>
    simp only [encodeStamps, bind, Except.bind]
    cases rest with
    | nil => simp [encodeStampTail, pure, Except.pure]
    | cons second rest =>
      rw [List.isChain_cons_cons, ← checkedSubInt64_pos_iff]
      simp only [encodeStampTail, bind, Except.bind]
      cases hd : checkedSubInt64 second first with
      | none => simp
      | some delta =>
        by_cases hdelta : delta ≤ 0
        · simp [hdelta]
        · rw [← isOk_writeList_writeStamp m hdelta rest]
          simp only [hdelta, if_false, Option.some.injEq, exists_eq_left', not_false_eq_true,
            true_and]
          cases writeList (writeStamp m) (second, delta) rest with
          | error e => simp
          | ok out => simp [pure, Except.pure]

/-! ### Round trip -/

theorem decide_pos_of_not_le {d : Int64} (h : ¬d ≤ 0) : decide (0 < d) = true := by
  rw [decide_eq_true_eq, Int64.lt_iff_toInt_lt]
  rw [Int64.le_iff_toInt_le] at h
  omega

theorem decodes_readStamp {state state' : Int64 × Int64} {stamp : Int64} {out : List UInt8}
    (h : writeStamp m state stamp = .ok (out, state')) :
    DecodesBytes (readStamp m state) out (stamp, state') := by
  obtain ⟨previous, previousDelta⟩ := state
  simp only [writeStamp] at h
  cases hd : checkedSubInt64 stamp previous with
  | none => rw [hd] at h; cases h
  | some delta =>
    simp only [hd] at h
    split_ifs at h with hdelta
    cases hdod : checkedSubInt64 delta previousDelta with
    | none => rw [hdod] at h; cases h
    | some deltaOfDelta =>
      rw [hdod] at h
      obtain ⟨rfl, rfl⟩ := Prod.mk.inj (Except.ok.inj h)
      unfold readStamp
      refine Decodes.bind_last ((decodes_varint deltaOfDelta).withContext _) ?_
      simp only [checkedAddInt64Value_of_sub hdod]
      exact (Decodes.ensure (decide_pos_of_not_le hdelta) _).bind_nil
        ((decodes_checkedAddInt64 hd).bind_nil (Decodes.pure _))

theorem decodes_decodeStampTail {first : Int64} {l : List Int64} {out : List UInt8}
    (h : encodeStampTail m first l = .ok out) :
    DecodesBytes (decodeStampTail m first l.length) out l := by
  cases l with
  | nil =>
    cases h
    exact Decodes.pure []
  | cons second rest =>
    simp only [encodeStampTail] at h
    cases hd : checkedSubInt64 second first with
    | none => rw [hd] at h; cases h
    | some delta =>
      simp only [hd] at h
      split_ifs at h with hdelta
      cases hrest : writeList (writeStamp m) (second, delta) rest with
      | error e => rw [hrest] at h; cases h
      | ok outs =>
        rw [hrest] at h
        obtain rfl := Except.ok.inj h
        rw [List.length_cons, decodeStampTail]
        refine Decodes.bind ((decodes_varint delta).orError _) ?_
        refine (Decodes.ensure (decide_pos_of_not_le hdelta) _).bind_nil ?_
        refine (decodes_checkedAddInt64 hd).bind_nil ?_
        refine Decodes.bind_pure (Decodes.readList ?_ rfl hrest) rfl
        rintro state _ stamp out state' rfl hwrite
        exact ⟨state', decodes_readStamp m hwrite, rfl⟩

/-- **Round trip of an axis.** -/
theorem decodes_decodeStamps {l : List Int64} {out : List UInt8} (h : encodeStamps m l = .ok out) :
    DecodesBytes (decodeStamps m l.length) out l := by
  cases l with
  | nil =>
    cases h
    exact Decodes.pure []
  | cons first rest =>
    simp only [encodeStamps] at h
    cases htail : encodeStampTail m first rest with
    | error e => rw [htail] at h; cases h
    | ok outs =>
      rw [htail] at h
      obtain rfl := Except.ok.inj h
      rw [List.length_cons, decodeStamps]
      exact ((decodes_varint first).withContext _).bind
        ((decodes_decodeStampTail m htail).bind_pure rfl)

end Block

end Komari
