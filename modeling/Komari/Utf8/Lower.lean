import Mathlib.Tactic.SplitIfs
import Komari.Occurs.Index
import Komari.Utf8.Pieces

/-!
# Lower case

`toLower` maps the characters of a byte string to lower case, and puts U+FFFD for every byte at which no
character begins. A character and its lower case may be encoded in different numbers of bytes.
-/

namespace Komari

namespace Utf8

open Occurs (index)

/-! ### Characters -/

/-- The characters with a lower case: from, to, every how many, and how far away it is. -/
def caseRanges : List (ℕ × ℕ × ℕ × ℤ) :=
  [(65, 90, 1, 32), (192, 214, 1, 32), (216, 222, 1, 32), (256, 302, 2, 1), (304, 304, 1, -199),
    (306, 310, 2, 1), (313, 327, 2, 1), (330, 374, 2, 1), (376, 376, 1, -121), (377, 381, 2, 1),
    (385, 385, 1, 210), (386, 388, 2, 1), (390, 390, 1, 206), (391, 391, 1, 1), (393, 394, 1, 205),
    (395, 395, 1, 1), (398, 398, 1, 79), (399, 399, 1, 202), (400, 400, 1, 203), (401, 401, 1, 1),
    (403, 403, 1, 205), (404, 404, 1, 207), (406, 406, 1, 211), (407, 407, 1, 209), (408, 408, 1, 1),
    (412, 412, 1, 211), (413, 413, 1, 213), (415, 415, 1, 214), (416, 420, 2, 1), (422, 422, 1, 218),
    (423, 423, 1, 1), (425, 425, 1, 218), (428, 428, 1, 1), (430, 430, 1, 218), (431, 431, 1, 1),
    (433, 434, 1, 217), (435, 437, 2, 1), (439, 439, 1, 219), (440, 440, 1, 1), (444, 444, 1, 1),
    (452, 452, 1, 2), (453, 453, 1, 1), (455, 455, 1, 2), (456, 456, 1, 1), (458, 458, 1, 2),
    (459, 475, 2, 1), (478, 494, 2, 1), (497, 497, 1, 2), (498, 500, 2, 1), (502, 502, 1, -97),
    (503, 503, 1, -56), (504, 542, 2, 1), (544, 544, 1, -130), (546, 562, 2, 1), (570, 570, 1, 10795),
    (571, 571, 1, 1), (573, 573, 1, -163), (574, 574, 1, 10792), (577, 577, 1, 1), (579, 579, 1, -195),
    (580, 580, 1, 69), (581, 581, 1, 71), (582, 590, 2, 1), (880, 882, 2, 1), (886, 886, 1, 1),
    (895, 895, 1, 116), (902, 902, 1, 38), (904, 906, 1, 37), (908, 908, 1, 64), (910, 911, 1, 63),
    (913, 929, 1, 32), (931, 939, 1, 32), (975, 975, 1, 8), (984, 1006, 2, 1), (1012, 1012, 1, -60),
    (1015, 1015, 1, 1), (1017, 1017, 1, -7), (1018, 1018, 1, 1), (1021, 1023, 1, -130), (1024, 1039, 1, 80),
    (1040, 1071, 1, 32), (1120, 1152, 2, 1), (1162, 1214, 2, 1), (1216, 1216, 1, 15), (1217, 1229, 2, 1),
    (1232, 1326, 2, 1), (1329, 1366, 1, 48), (4256, 4293, 1, 7264), (4295, 4295, 1, 7264),
    (4301, 4301, 1, 7264), (5024, 5103, 1, 38864), (5104, 5109, 1, 8), (7312, 7354, 1, -3008),
    (7357, 7359, 1, -3008), (7680, 7828, 2, 1), (7838, 7838, 1, -7615), (7840, 7934, 2, 1),
    (7944, 7951, 1, -8), (7960, 7965, 1, -8), (7976, 7983, 1, -8), (7992, 7999, 1, -8), (8008, 8013, 1, -8),
    (8025, 8031, 2, -8), (8040, 8047, 1, -8), (8072, 8079, 1, -8), (8088, 8095, 1, -8), (8104, 8111, 1, -8),
    (8120, 8121, 1, -8), (8122, 8123, 1, -74), (8124, 8124, 1, -9), (8136, 8139, 1, -86),
    (8140, 8140, 1, -9), (8152, 8153, 1, -8), (8154, 8155, 1, -100), (8168, 8169, 1, -8),
    (8170, 8171, 1, -112), (8172, 8172, 1, -7), (8184, 8185, 1, -128), (8186, 8187, 1, -126),
    (8188, 8188, 1, -9), (8486, 8486, 1, -7517), (8490, 8490, 1, -8383), (8491, 8491, 1, -8262),
    (8498, 8498, 1, 28), (8544, 8559, 1, 16), (8579, 8579, 1, 1), (9398, 9423, 1, 26),
    (11264, 11311, 1, 48), (11360, 11360, 1, 1), (11362, 11362, 1, -10743), (11363, 11363, 1, -3814),
    (11364, 11364, 1, -10727), (11367, 11371, 2, 1), (11373, 11373, 1, -10780), (11374, 11374, 1, -10749),
    (11375, 11375, 1, -10783), (11376, 11376, 1, -10782), (11378, 11378, 1, 1), (11381, 11381, 1, 1),
    (11390, 11391, 1, -10815), (11392, 11490, 2, 1), (11499, 11501, 2, 1), (11506, 11506, 1, 1),
    (42560, 42604, 2, 1), (42624, 42650, 2, 1), (42786, 42798, 2, 1), (42802, 42862, 2, 1),
    (42873, 42875, 2, 1), (42877, 42877, 1, -35332), (42878, 42886, 2, 1), (42891, 42891, 1, 1),
    (42893, 42893, 1, -42280), (42896, 42898, 2, 1), (42902, 42920, 2, 1), (42922, 42922, 1, -42308),
    (42923, 42923, 1, -42319), (42924, 42924, 1, -42315), (42925, 42925, 1, -42305),
    (42926, 42926, 1, -42308), (42928, 42928, 1, -42258), (42929, 42929, 1, -42282),
    (42930, 42930, 1, -42261), (42931, 42931, 1, 928), (42932, 42946, 2, 1), (42948, 42948, 1, -48),
    (42949, 42949, 1, -42307), (42950, 42950, 1, -35384), (42951, 42953, 2, 1), (42960, 42960, 1, 1),
    (42966, 42968, 2, 1), (42997, 42997, 1, 1), (65313, 65338, 1, 32), (66560, 66599, 1, 40),
    (66736, 66771, 1, 40), (66928, 66938, 1, 39), (66940, 66954, 1, 39), (66956, 66962, 1, 39),
    (66964, 66965, 1, 39), (68736, 68786, 1, 64), (71840, 71871, 1, 32), (93760, 93791, 1, 32),
    (125184, 125217, 1, 34)]

/-- `unicode.ToLower`. -/
def lowerChar (c : Char) : Char :=
  match caseRanges.find? fun r => r.1 ≤ c.toNat ∧ c.toNat ≤ r.2.1 ∧ (c.toNat - r.1) % r.2.2.1 = 0 with
  | some r => Char.ofNat (c.toNat + r.2.2.2).toNat
  | none => c

/-- The lower case of an ASCII letter, or the byte itself. -/
def foldByte (b : UInt8) : UInt8 := if 0x41 ≤ b ∧ b ≤ 0x5a then b + 0x20 else b

/-- The letters that are the lower case of ASCII letters only: the dotted I and the Kelvin sign have the lower
cases i and k. -/
def Plain (b : UInt8) : Prop := b < 0x80 ∧ b ≠ 0x69 ∧ b ≠ 0x6b

instance : DecidablePred Plain := fun b => inferInstanceAs (Decidable (b < 0x80 ∧ b ≠ 0x69 ∧ b ≠ 0x6b))

/-- Invalid bytes become `RuneError`. -/
def lowerPiece : Piece → List UInt8
  | .char c => String.utf8EncodeChar (lowerChar c)
  | .invalid _ => String.utf8EncodeChar '\uFFFD'

/-- `bytes.ToLower`. -/
def toLower (s : List UInt8) : List UInt8 := (pieces s).flatMap lowerPiece

theorem lowerChar_ofNat : ∀ n < 128, lowerChar (ascii (UInt8.ofNat n)) = ascii (foldByte (UInt8.ofNat n)) ∧
    foldByte (UInt8.ofNat n) < 0x80 := by
  decide +kernel

variable {b : UInt8}

theorem lowerChar_ascii (h : b < 0x80) :
    lowerChar (ascii b) = ascii (foldByte b) ∧ foldByte b < 0x80 := by
  have := lowerChar_ofNat b.toNat h
  rwa [UInt8.ofNat_toNat] at this

/-- A range outside ASCII stays there, apart from two characters. -/
def StaysHigh (r : ℕ × ℕ × ℕ × ℤ) : Prop :=
  r.1 < 128 ∨ (128 ≤ r.1 + r.2.2.2 ∧ (r.2.1 + r.2.2.2 < 0xd800 ∨ 0xe000 ≤ r.1 + r.2.2.2 ∧
    r.2.1 + r.2.2.2 < 0x110000)) ∨ r.1 = r.2.1 ∧ (r.1 + r.2.2.2 = 0x69 ∨ r.1 + r.2.2.2 = 0x6b)

instance : DecidablePred StaysHigh := fun r => by
  unfold StaysHigh
  infer_instance

theorem staysHigh_caseRanges : ∀ r ∈ caseRanges, StaysHigh r ∧ (r.1 < 128 → r.2.1 < 128) := by
  decide +kernel

/-- The lower case of a character outside ASCII is outside ASCII, or an i or a k. -/
theorem lowerChar_high {c : Char} (h : 128 ≤ c.toNat) :
    128 ≤ (lowerChar c).toNat ∨ lowerChar c = 'i' ∨ lowerChar c = 'k' := by
  rw [lowerChar]
  split
  · rename_i r hfind
    have hr := List.find?_some hfind
    simp only [decide_eq_true_eq] at hr
    obtain ⟨hstay, hlow⟩ := staysHigh_caseRanges r (List.mem_of_find?_eq_some hfind)
    rcases hstay with hlt | ⟨hge, hvalid⟩ | ⟨heq, hik⟩
    · have := hlow hlt
      omega
    · refine Or.inl ?_
      have hchar : ((c.toNat : ℤ) + r.2.2.2).toNat.isValidChar := by
        rcases hvalid with hvalid | ⟨hvalid, hvalid'⟩
        · exact Or.inl (by omega)
        · exact Or.inr ⟨by omega, by omega⟩
      rw [Char.ofNat, dif_pos hchar]
      change 128 ≤ ((c.toNat : ℤ) + r.2.2.2).toNat
      omega
    · rcases hik with hik | hik
      · have hnat : ((c.toNat : ℤ) + r.2.2.2).toNat = 0x69 := by omega
        exact Or.inr (Or.inl (by rw [hnat]))
      · have hnat : ((c.toNat : ℤ) + r.2.2.2).toNat = 0x6b := by omega
        exact Or.inr (Or.inr (by rw [hnat]))
  · exact Or.inl h

/-! ### Byte strings -/

@[simp] theorem toLower_nil : toLower [] = [] := rfl

theorem toLower_char_append (c : Char) (s : List UInt8) :
    toLower (String.utf8EncodeChar c ++ s) = String.utf8EncodeChar (lowerChar c) ++ toLower s := by
  rw [toLower, pieces_char_append, List.flatMap_cons]
  rfl

theorem toLower_ascii_cons (h : b < 0x80) (s : List UInt8) :
    toLower (b :: s) = foldByte b :: toLower s := by
  have := toLower_char_append (ascii b) s
  rwa [encode_ascii h, (lowerChar_ascii h).1, encode_ascii (lowerChar_ascii h).2] at this

theorem toLower_stray {s : List UInt8} (h : Stray b s) :
    toLower (b :: s) = String.utf8EncodeChar '\uFFFD' ++ toLower s := by
  rw [toLower, pieces_stray h, List.flatMap_cons]
  rfl

/-- A stray byte is so in front of the beginning of what follows it. -/
theorem Stray.take {s : List UInt8} (h : Stray b s) (i : ℕ) : Stray b (s.take i) := by
  by_contra hne
  obtain ⟨c, hc⟩ := Option.ne_none_iff_exists'.mp hne
  obtain ⟨rest, hrest⟩ := exists_front b (s.take i)
  rw [front, hc] at hrest
  have hs : b :: s = String.utf8EncodeChar c ++ (rest ++ s.drop i) := by
    rw [← List.append_assoc]
    change b :: s.take i = String.utf8EncodeChar c ++ rest at hrest
    rw [← hrest, List.cons_append, List.take_append_drop]
  rw [Stray, hs, decode_encode_append] at h
  cases h

/-- A block of bytes outside ASCII, and what it becomes in lower case: no byte of it is plain. -/
structure Block (u v s : List UInt8) : Prop where
  left : ∀ b ∈ u, 0x80 ≤ b
  right : ∀ b ∈ v, ¬Plain b
  left_ne : u ≠ []
  right_ne : v ≠ []
  lower : ∀ i, toLower (u ++ s.take i) = v ++ toLower (s.take i)

theorem not_plain_of_high (h : 0x80 ≤ b) : ¬Plain b := fun hb =>
  absurd hb.1 (UInt8.not_lt.mpr h)

/-- What the lower case of a character outside ASCII is encoded in. -/
theorem not_plain_encode {c : Char} (h : 128 ≤ c.toNat ∨ c = 'i' ∨ c = 'k') :
    ∀ b ∈ String.utf8EncodeChar c, ¬Plain b := by
  rcases h with h | rfl | rfl
  · rcases encode_ascii_or_high c with ⟨b, hb, rfl⟩ | ⟨-, hhigh⟩
    · have : (ascii b).toNat = b.toNat := val_ascii hb
      have hlt : b.toNat < 128 := hb
      omega
    · exact fun b hb => not_plain_of_high (hhigh b hb)
  · decide +kernel
  · decide +kernel

/-- **Induction on a byte string, by ASCII bytes and blocks.** -/
theorem block_induction {motive : List UInt8 → Prop} (nil : motive [])
    (ascii : ∀ b s, b < 0x80 → motive s → motive (b :: s))
    (block : ∀ u v s, Block u v s → motive s → motive (u ++ s)) (s : List UInt8) : motive s := by
  induction s using pieces_induction with
  | nil => exact nil
  | char c s ih =>
    rcases encode_ascii_or_high c with ⟨b, hb, rfl⟩ | ⟨hc, hhigh⟩
    · rw [encode_ascii hb]
      exact ascii b s hb ih
    · refine block _ (String.utf8EncodeChar (lowerChar c)) s ⟨hhigh, ?_, encode_ne_nil c, encode_ne_nil _,
        fun i => toLower_char_append c _⟩ ih
      exact not_plain_encode (lowerChar_high hc)
  | stray b s hb ih =>
    refine block [b] (String.utf8EncodeChar '\uFFFD') s ⟨?_, by decide +kernel, by simp, by simp, fun i => ?_⟩ ih
    · simpa using hb.high
    · exact toLower_stray (hb.take i)

theorem Block.lower_all {u v s : List UInt8} (h : Block u v s) : toLower (u ++ s) = v ++ toLower s := by
  have := h.lower s.length
  rwa [List.take_length] at this

theorem foldByte_high (h : 0x80 ≤ b) : foldByte b = b := by
  refine if_neg fun hb => ?_
  exact absurd (UInt8.le_trans h hb.2) (by decide)

theorem Block.map_fold {u v s : List UInt8} (h : Block u v s) : u.map foldByte = u := by
  refine (List.map_congr_left fun b hb => ?_).trans (List.map_id u)
  exact foldByte_high (h.left b hb)

/-- A word of plain letters stands at the beginning in lower case if it does apart from case. -/
theorem plain_isPrefix_toLower_iff {word : List UInt8} (hword : ∀ b ∈ word, Plain b) (s : List UInt8) :
    word <+: toLower s ↔ word <+: s.map foldByte := by
  induction s using block_induction generalizing word with
  | nil => rfl
  | ascii b s hb ih =>
    rw [toLower_ascii_cons hb, List.map_cons]
    cases word with
    | nil => simp
    | cons a word =>
      rw [List.cons_prefix_cons, List.cons_prefix_cons, ih fun c hc => hword c (List.mem_cons_of_mem a hc)]
  | block u v s h ih =>
    rw [h.lower_all, List.map_append, h.map_fold]
    cases word with
    | nil => simp
    | cons a word =>
      have ha := hword a List.mem_cons_self
      obtain ⟨c, u, rfl⟩ := List.exists_cons_of_ne_nil h.left_ne
      obtain ⟨d, v, rfl⟩ := List.exists_cons_of_ne_nil h.right_ne
      have hc : a ≠ c := fun heq => not_plain_of_high (h.left c List.mem_cons_self) (heq ▸ ha)
      have hd : a ≠ d := fun heq => h.right d List.mem_cons_self (heq ▸ ha)
      simp [List.cons_prefix_cons, hc, hd]

/-- **A word of plain letters occurs first in lower case where it does apart from case**, apart from what lower
case makes of the length before it. -/
theorem index_toLower {word : List UInt8} (hne : word ≠ []) (hword : ∀ b ∈ word, Plain b)
    (s : List UInt8) :
    index word (toLower s) = (index word (s.map foldByte)).map fun i => (toLower (s.take i)).length := by
  induction s using block_induction with
  | nil => simp [index, hne]
  | ascii b s hb ih =>
    have hiff := plain_isPrefix_toLower_iff hword (b :: s)
    rw [toLower_ascii_cons hb, List.map_cons] at hiff
    rw [toLower_ascii_cons hb, List.map_cons]
    by_cases hocc : word <+: foldByte b :: s.map foldByte
    · rw [Occurs.index_cons_of_occurs hocc, Occurs.index_cons_of_occurs (hiff.mpr hocc)]
      rfl
    · rw [Occurs.index_cons_of_not hocc, Occurs.index_cons_of_not (mt hiff.mp hocc), ih, Option.map_map,
        Option.map_map]
      congr 1
      funext i
      simp [toLower_ascii_cons hb]
  | block u v s h ih =>
    have hu : ∀ b ∈ u, b ∉ word := fun b hb hmem => not_plain_of_high (h.left b hb) (hword b hmem)
    have hv : ∀ b ∈ v, b ∉ word := fun b hb hmem => h.right b hb (hword b hmem)
    rw [h.lower_all, List.map_append, h.map_fold, Occurs.index_append_of_foreign hne hv,
      Occurs.index_append_of_foreign hne hu, ih, Option.map_map, Option.map_map]
    congr 1
    funext i
    simp only [Function.comp_apply]
    rw [Nat.add_comm i, List.take_length_add_append, h.lower, List.length_append, Nat.add_comm]

end Utf8

end Komari
