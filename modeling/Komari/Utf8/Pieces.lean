import Mathlib.Data.List.Basic
import Mathlib.Data.Nat.Init

/-!
# The characters of a byte string

A byte string need not be UTF-8. Read from its beginning, it is a list of pieces: characters, and single
bytes at which no character begins.
-/

namespace Komari

namespace Utf8

/-- The bytes of a text. -/
def bytes (s : String) : List UInt8 := s.toUTF8.data.toList

/-- A character, or a byte at which no character begins. -/
inductive Piece where
  | char (c : Char)
  | invalid (b : UInt8)
  deriving DecidableEq

/-- The bytes of a piece. -/
def Piece.bytes : Piece → List UInt8
  | char c => String.utf8EncodeChar c
  | invalid b => [b]

/-- The piece at the beginning of a byte string. -/
def front (b : UInt8) (s : List UInt8) : Piece :=
  match ByteArray.utf8DecodeChar? (b :: s).toByteArray 0 with
  | some c => .char c
  | none => .invalid b

/-- The pieces of a byte string, past the bytes that belong to the piece before. -/
def piecesFrom : ℕ → List UInt8 → List Piece
  | _, [] => []
  | 0, b :: s => front b s :: piecesFrom ((front b s).bytes.length - 1) s
  | n + 1, _ :: s => piecesFrom n s

/-- The pieces of a byte string. -/
def pieces (s : List UInt8) : List Piece := piecesFrom 0 s

@[simp] theorem pieces_nil : pieces [] = [] := rfl

theorem piecesFrom_eq (n : ℕ) (s : List UInt8) : piecesFrom n s = pieces (s.drop n) := by
  induction s generalizing n with
  | nil => simp [piecesFrom]
  | cons b s ih =>
    cases n with
    | zero => rfl
    | succ n => rw [List.drop_succ_cons, piecesFrom, ih]

/-! ### Encoded characters -/

def ascii (b : UInt8) : Char := Char.ofNat b.toNat

theorem val_ascii {b : UInt8} (h : b < 0x80) : (ascii b).val.toNat = b.toNat := by
  have hlt : b.toNat < 128 := h
  have hvalid : b.toNat.isValidChar := Or.inl (by omega)
  rw [ascii, Char.ofNat, dif_pos hvalid]
  rfl

theorem encode_ascii {b : UInt8} (h : b < 0x80) : String.utf8EncodeChar (ascii b) = [b] := by
  have hlt : b.toNat < 128 := h
  have hval := val_ascii h
  have hle : (ascii b).val ≤ 127 := by
    rw [UInt32.le_iff_toNat_le, hval]
    exact Nat.le_of_lt_succ hlt
  rw [String.utf8EncodeChar_eq_singleton (Char.utf8Size_eq_one_iff.mpr hle)]
  congr 1
  rw [← UInt8.toNat_inj, UInt32.toNat_toUInt8, hval]
  omega

theorem le_ofNat {n : ℕ} (h : 128 ≤ n) (h' : n < 256) : (0x80 : UInt8) ≤ UInt8.ofNat n := by
  rw [UInt8.le_iff_toNat_le, UInt8.toNat_ofNat', Nat.mod_eq_of_lt h']
  exact h

/-- A character is encoded as one ASCII byte, or in bytes outside ASCII. -/
theorem encode_ascii_or_high (c : Char) :
    (∃ b < 0x80, c = ascii b) ∨ (128 ≤ c.toNat ∧ ∀ b ∈ String.utf8EncodeChar c, 0x80 ≤ b) := by
  by_cases h : c.toNat < 128
  · refine Or.inl ⟨UInt8.ofNat c.toNat, ?_, ?_⟩
    · rw [UInt8.lt_iff_toNat_lt, UInt8.toNat_ofNat', Nat.mod_eq_of_lt (by omega)]
      exact h
    · rw [ascii, UInt8.toNat_ofNat', Nat.mod_eq_of_lt (by omega), Char.ofNat_toNat]
  · have hnot : ¬c.val.toNat ≤ 0x7f := by
      change ¬c.toNat ≤ 127
      omega
    refine Or.inr ⟨by omega, fun b hb => ?_⟩
    simp only [String.utf8EncodeChar, if_neg hnot] at hb
    split_ifs at hb <;> simp only [List.mem_cons, List.not_mem_nil, or_false] at hb <;>
      rcases hb with rfl | rfl | rfl | rfl | _ <;> exact le_ofNat (by omega) (by omega)

theorem encode_ne_nil (c : Char) : String.utf8EncodeChar c ≠ [] := by
  intro h
  have hlen := String.length_utf8EncodeChar c
  rw [h, List.length_nil] at hlen
  exact absurd hlen.symm (Nat.ne_of_gt c.utf8Size_pos)

/-! ### The piece at the beginning -/

theorem decode_encode_append (c : Char) (s : List UInt8) :
    ByteArray.utf8DecodeChar? (String.utf8EncodeChar c ++ s).toByteArray 0 = some c := by
  rw [List.toByteArray_append]
  exact ByteArray.utf8DecodeChar?_utf8EncodeChar_append

/-- The bytes of the piece at the beginning are there. -/
theorem exists_front (b : UInt8) (s : List UInt8) : ∃ rest, b :: s = (front b s).bytes ++ rest := by
  rw [front]
  cases h : ByteArray.utf8DecodeChar? (b :: s).toByteArray 0 with
  | none => exact ⟨s, rfl⟩
  | some c =>
    obtain ⟨rest, hrest⟩ := ByteArray.exists_of_utf8DecodeChar?_eq_some h
    refine ⟨rest.data.toList, ?_⟩
    have := congrArg (fun a => a.data.toList) hrest
    simpa [Piece.bytes] using this

theorem bytes_ne_nil (p : Piece) : p.bytes ≠ [] := by
  cases p with
  | char c => exact encode_ne_nil c
  | invalid b => simp [Piece.bytes]

theorem pieces_cons (b : UInt8) (s : List UInt8) :
    pieces (b :: s) = front b s :: pieces ((b :: s).drop (front b s).bytes.length) := by
  have hpos := List.length_pos_iff.mpr (bytes_ne_nil (front b s))
  obtain ⟨n, hn⟩ : ∃ n, (front b s).bytes.length = n + 1 := ⟨_, (Nat.succ_pred (Nat.ne_of_gt hpos)).symm⟩
  rw [pieces, piecesFrom, piecesFrom_eq, hn, List.drop_succ_cons, Nat.add_sub_cancel]

/-- A character at the beginning is the first piece. -/
theorem pieces_char_append (c : Char) (s : List UInt8) :
    pieces (String.utf8EncodeChar c ++ s) = .char c :: pieces s := by
  obtain ⟨b, t, hbt⟩ := List.exists_cons_of_ne_nil (encode_ne_nil c)
  have hfront : front b (t ++ s) = .char c := by
    rw [front, ← List.cons_append, ← hbt, decode_encode_append]
  rw [hbt, List.cons_append, pieces_cons, hfront, ← List.cons_append, ← hbt]
  simp [Piece.bytes]

/-- No character begins at a byte at the beginning. -/
def Stray (b : UInt8) (s : List UInt8) : Prop :=
  ByteArray.utf8DecodeChar? (b :: s).toByteArray 0 = none

theorem pieces_stray {b : UInt8} {s : List UInt8} (h : Stray b s) :
    pieces (b :: s) = .invalid b :: pieces s := by
  have hfront : front b s = .invalid b := by rw [front, h]
  rw [pieces_cons, hfront]
  rfl

theorem Stray.high {b : UInt8} {s : List UInt8} (h : Stray b s) : 0x80 ≤ b := by
  by_contra hlt
  have := decode_encode_append (ascii b) s
  rw [encode_ascii (UInt8.not_le.mp hlt), List.singleton_append, h] at this
  cases this

/-- **Induction on a byte string, one piece after the other.** -/
theorem pieces_induction {motive : List UInt8 → Prop} (nil : motive [])
    (char : ∀ c s, motive s → motive (String.utf8EncodeChar c ++ s))
    (stray : ∀ b s, Stray b s → motive s → motive (b :: s)) (s : List UInt8) : motive s := by
  induction hn : s.length using Nat.strong_induction_on generalizing s with
  | _ n ih =>
    cases s with
    | nil => exact nil
    | cons b s =>
      cases h : ByteArray.utf8DecodeChar? (b :: s).toByteArray 0 with
      | none => exact stray b s h (ih s.length (by rw [← hn]; simp) s rfl)
      | some c =>
        obtain ⟨rest, hrest⟩ := exists_front b s
        rw [front, h] at hrest
        change b :: s = String.utf8EncodeChar c ++ rest at hrest
        rw [hrest]
        refine char c rest (ih rest.length ?_ rest rfl)
        have hpos := List.length_pos_iff.mpr (encode_ne_nil c)
        rw [← hn, hrest, List.length_append]
        omega

end Utf8

end Komari
