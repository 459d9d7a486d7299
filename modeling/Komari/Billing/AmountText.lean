import Mathlib.Tactic.FieldSimp
import Mathlib.Tactic.Ring
import Mathlib.Data.Rat.Cast.Order
import Mathlib.Data.List.TakeWhile
import Komari.Billing.Amount
import Komari.Codec.Result

/-!
# The texts that are amounts

An amount is a decimal text with at most six decimals, whose millionths are a 64-bit integer.  A text is
the sequence of its characters; a byte that is no character stands for the replacement character.
-/

namespace Komari

namespace Billing

open TrafficReset

/-! ### Decimal texts -/

/-- A decimal text: an optional sign, digits, and optionally a point with at most six more digits. -/
structure Decimal where
  /-- The sign; true for `-`. -/
  sign : Option Bool
  whole : List Char
  /-- The digits after the point, if there is one. -/
  fraction : Option (List Char)
  digits : ∀ c ∈ whole ++ fraction.getD [], c.isDigit = true
  short : (fraction.getD []).length ≤ 6
  some_digit : whole ++ fraction.getD [] ≠ []

namespace Decimal

def body (d : Decimal) : List Char := d.whole ++ (d.fraction.map fun f => '.' :: f).getD []

def text (d : Decimal) : List Char :=
  (match d.sign with | none => [] | some true => ['-'] | some false => ['+']) ++ d.body

def value (d : Decimal) : ℚ :=
  (if d.sign = some true then -1 else 1) *
    (Nat.ofDigitChars 10 (d.whole ++ d.fraction.getD []) 0 / 10 ^ (d.fraction.getD []).length)

/-- Its value in millionths. -/
def micros (d : Decimal) : ℤ :=
  (if d.sign = some true then -1 else 1) *
    (Nat.ofDigitChars 10 (d.whole ++ d.fraction.getD []) 0 * 10 ^ (6 - (d.fraction.getD []).length) : ℕ)

theorem micros_eq (d : Decimal) : (d.micros : ℚ) = d.value * 10 ^ 6 := by
  have hpow : (10 : ℚ) ^ 6 = 10 ^ (d.fraction.getD []).length * 10 ^ (6 - (d.fraction.getD []).length) := by
    rw [← pow_add, Nat.add_sub_cancel' d.short]
  unfold micros value
  rw [hpow]
  push_cast
  split_ifs
  · field_simp
  · field_simp

theorem splitSign_text (d : Decimal) : splitSign d.text = (decide (d.sign = some true), d.body) := by
  obtain ⟨sign, whole, fraction, digits, short, some_digit⟩ := d
  rcases sign with _ | _ | _
  · -- without a sign the text starts with a digit or with the point
    have hne : ∀ c rest, whole ++ (fraction.map fun f => '.' :: f).getD [] = c :: rest → c ≠ '+' ∧ c ≠ '-' := by
      intro c rest heq
      cases whole with
      | cons d whole =>
        obtain ⟨rfl, -⟩ := List.cons.inj heq
        have hdigit := digits d (by simp)
        constructor <;> rintro rfl <;> exact absurd hdigit (by decide)
      | nil =>
        cases fraction with
        | none => cases heq
        | some f =>
          obtain ⟨rfl, -⟩ := List.cons.inj heq
          decide
    unfold text splitSign body
    simp only [List.nil_append]
    split
    · rename_i heq
      exact absurd rfl (hne _ _ heq).1
    · rename_i heq
      exact absurd rfl (hne _ _ heq).2
    · rfl
  · rfl
  · rfl

end Decimal

/-! ### What is accepted -/

/-- The parser accepts the text exactly when, trimmed, it is a decimal text with a 64-bit number of
millionths, and returns that number. -/
def ParsesExactly (s : String) : Prop :=
  ∀ n, parseAmountMicros s = .ok n ↔
    ∃ d : Decimal, d.text = (trimSpace s).toList ∧ (n : ℚ) = d.value * 10 ^ 6 ∧ InInt64 n

/-- A point without a digit. -/
def LonePoint (s : String) : Prop := (trimSpace s).toList ∈ [['.'], ['+', '.'], ['-', '.']]

instance (s : String) : Decidable (LonePoint s) := inferInstanceAs (Decidable (_ ∈ _))

namespace Decimal

variable (d : Decimal)

theorem digits_whole {c : Char} (hc : c ∈ d.whole) : c.isDigit = true :=
  d.digits c (List.mem_append_left _ hc)

theorem digits_fraction {c : Char} (hc : c ∈ d.fraction.getD []) : c.isDigit = true :=
  d.digits c (List.mem_append_right _ hc)

theorem body_ne_nil : d.body ≠ [] := by
  have hsome := d.some_digit
  unfold body
  cases hf : d.fraction with
  | none => simpa [hf] using hsome
  | some f => simp

/-- The parts of the text before and after the point. -/
theorem takeWhile_body : d.body.takeWhile (· ≠ '.') = d.whole := by
  have hwhole : ∀ c ∈ d.whole, c.isDigit = true := fun c hc => d.digits_whole hc
  unfold body
  cases d.fraction with
  | none =>
    rw [Option.map_none, Option.getD_none, List.append_nil, List.takeWhile_eq_self_iff]
    exact fun c hc => by simpa using ne_point_of_isDigit (hwhole c hc)
  | some f => exact takeWhile_point hwhole

theorem drop_dropWhile_body : (d.body.dropWhile (· ≠ '.')).drop 1 = d.fraction.getD [] := by
  have hwhole : ∀ c ∈ d.whole, c.isDigit = true := fun c hc => d.digits_whole hc
  unfold body
  cases d.fraction with
  | none =>
    rw [Option.map_none, Option.getD_none, List.append_nil, List.dropWhile_eq_nil_iff.mpr]
    · rfl
    · exact fun c hc => by simpa using ne_point_of_isDigit (hwhole c hc)
  | some f =>
    rw [Option.map_some, Option.getD_some, dropWhile_point hwhole]
    rfl

theorem count_body : d.body.count '.' ≤ 1 := by
  have hwhole : ∀ c ∈ d.whole, c.isDigit = true := fun c hc => d.digits_whole hc
  have hfraction : ∀ c ∈ d.fraction.getD [], c.isDigit = true := fun c hc => d.digits_fraction hc
  unfold body
  cases hf : d.fraction with
  | none =>
    rw [Option.map_none, Option.getD_none, List.append_nil,
      List.count_eq_zero.mpr fun h => ne_point_of_isDigit (hwhole _ h) rfl]
    exact Nat.zero_le 1
  | some f =>
    rw [hf] at hfraction
    exact (count_point hwhole hfraction).le

end Decimal

/-- A missing whole part is read as zero, and missing decimals are zeros. -/
theorem ofDigitChars_parts (whole fraction : List Char) (k : ℕ) :
    Nat.ofDigitChars 10 ((if whole = [] then ['0'] else whole) ++ (fraction ++ List.replicate k '0')) 0 =
      Nat.ofDigitChars 10 (whole ++ fraction) 0 * 10 ^ k := by
  rw [← List.append_assoc, Nat.ofDigitChars_append, Nat.ofDigitChars_replicate_zero, Nat.mul_comm]
  congr 1
  split_ifs with hnil
  · rw [hnil]
    rfl
  · rfl

/-- **A decimal text is accepted** when its millionths are a 64-bit integer. -/
theorem parseAmountMicros_text {s : String} (d : Decimal) (hs : d.text = (trimSpace s).toList) :
    parseAmountMicros s =
      if InInt64 d.micros then .ok d.micros else .error "amount is out of range" := by
  have hne : d.text ≠ [] := by
    unfold Decimal.text
    exact List.append_ne_nil_of_right_ne_nil _ d.body_ne_nil
  have hwhole : (if d.whole = [] then ['0'] else d.whole).all Char.isDigit = true := by
    split_ifs
    · decide
    · exact List.all_eq_true.mpr fun c hc => d.digits_whole hc
  have hbytes := byteLength_digits fun c hc => d.digits_fraction hc
  unfold parseAmountMicros
  rw [← hs]
  dsimp only
  rw [if_neg hne, d.splitSign_text]
  dsimp only
  -- the tests of the parser, one after the other
  rw [if_neg (not_or.mpr ⟨d.body_ne_nil, not_lt.mpr d.count_body⟩), d.takeWhile_body, d.drop_dropWhile_body,
    if_neg (by rw [hwhole]; decide), hbytes, if_neg (not_lt.mpr d.short),
    if_neg (by rw [List.all_eq_true.mpr fun c hc => d.digits_fraction hc]; decide), ofDigitChars_parts]
  have hmicros : (if decide (d.sign = some true) = true then
      -((Nat.ofDigitChars 10 (d.whole ++ d.fraction.getD []) 0 *
        10 ^ (6 - (d.fraction.getD []).length) : ℕ) : ℤ)
      else ((Nat.ofDigitChars 10 (d.whole ++ d.fraction.getD []) 0 *
        10 ^ (6 - (d.fraction.getD []).length) : ℕ) : ℤ)) = d.micros := by
    unfold Decimal.micros
    simp only [decide_eq_true_eq]
    split_ifs
    · rw [neg_one_mul]
    · rw [one_mul]
  rw [hmicros]

theorem exists_sign (t : List Char) : ∃ sign : Option Bool,
    t = (match sign with | none => [] | some true => ['-'] | some false => ['+']) ++ (splitSign t).2 := by
  unfold splitSign
  split
  · exact ⟨some false, rfl⟩
  · exact ⟨some true, rfl⟩
  · exact ⟨none, rfl⟩

/-- **What is accepted is a decimal text**, or a point. -/
theorem exists_decimal {s : String} {n : ℤ} (h : parseAmountMicros s = .ok n) (hpoint : ¬LonePoint s) :
    ∃ d : Decimal, d.text = (trimSpace s).toList := by
  obtain ⟨sign, hsign⟩ := exists_sign (trimSpace s).toList
  obtain ⟨v, hv⟩ : ∃ v, (splitSign (trimSpace s).toList).2 = v := ⟨_, rfl⟩
  rw [hv] at hsign
  unfold parseAmountMicros at h
  dsimp only at h
  rw [hv] at h
  obtain ⟨-, h⟩ := ite_error_eq_ok.mp h
  obtain ⟨hbody, h⟩ := ite_error_eq_ok.mp h
  obtain ⟨hwhole, h⟩ := ite_error_eq_ok.mp h
  obtain ⟨hshort, h⟩ := ite_error_eq_ok.mp h
  obtain ⟨hfraction, -⟩ := ite_error_eq_ok.mp h
  have hwhole : ∀ c ∈ v.takeWhile (· ≠ '.'), c.isDigit = true := by
    split_ifs at hwhole with hnil
    · rw [hnil]
      exact fun c hc => absurd hc List.not_mem_nil
    · exact List.all_eq_true.mp (Bool.not_eq_false _ ▸ hwhole)
  have hfraction : ∀ c ∈ (v.dropWhile (· ≠ '.')).drop 1, c.isDigit = true :=
    List.all_eq_true.mp (Bool.not_eq_false _ ▸ hfraction)
  rw [byteLength_digits hfraction, not_lt] at hshort
  have hsplit : v.takeWhile (· ≠ '.') ++ v.dropWhile (· ≠ '.') = v := List.takeWhile_append_dropWhile
  cases hdrop : v.dropWhile (· ≠ '.') with
  | nil =>
    -- no point
    rw [hdrop, List.append_nil] at hsplit
    refine ⟨⟨sign, v, none, ?_, Nat.zero_le 6, ?_⟩, ?_⟩
    · rw [hsplit] at hwhole
      simpa using hwhole
    · simpa using fun hnil => hbody (Or.inl hnil)
    · rw [hsign]
      simp [Decimal.text, Decimal.body]
  | cons c fraction =>
    have hc : c = '.' := by
      have hne : v.dropWhile (· ≠ '.') ≠ [] := by rw [hdrop]; exact List.cons_ne_nil c fraction
      have hhead := List.head_dropWhile_not (fun c : Char => decide (c ≠ '.')) hne
      simp only [hdrop, List.head_cons] at hhead
      simpa using hhead
    subst hc
    rw [hdrop] at hsplit hfraction hshort
    rw [List.drop_one, List.tail_cons] at hfraction hshort
    have htext := hsign.trans (congrArg _ hsplit.symm)
    refine ⟨⟨sign, v.takeWhile (· ≠ '.'), some fraction, ?_, hshort, ?_⟩, ?_⟩
    · intro d hd
      exact (List.mem_append.mp hd).elim (hwhole d) (hfraction d)
    · intro hnil
      obtain ⟨hwhole, hfraction⟩ := List.append_eq_nil_iff.mp hnil
      obtain rfl : fraction = [] := hfraction
      rw [hwhole, List.nil_append] at hsplit
      rw [← hsplit] at hsign
      refine hpoint ?_
      unfold LonePoint
      rw [hsign]
      rcases sign with _ | _ | _ <;> simp
    · exact htext.symm

theorem parseAmountMicros_lonePoint {s : String} (h : LonePoint s) : parseAmountMicros s = .ok 0 := by
  unfold parseAmountMicros
  rcases List.mem_cons.mp h with h | h
  · rw [h]
    rfl
  · rcases List.mem_cons.mp h with h | h
    · rw [h]
      rfl
    · rw [List.mem_singleton.mp h]
      rfl

theorem not_lonePoint {s : String} (d : Decimal) (hs : d.text = (trimSpace s).toList) : ¬LonePoint s := by
  obtain ⟨c, hc⟩ := List.exists_mem_of_ne_nil _ d.some_digit
  have hdigit := d.digits c hc
  have htext : c ∈ d.text := by
    refine List.mem_append_right _ ?_
    unfold Decimal.body
    rcases List.mem_append.mp hc with hc | hc
    · exact List.mem_append_left _ hc
    · refine List.mem_append_right _ ?_
      cases hf : d.fraction with
      | none =>
        rw [hf] at hc
        cases hc
      | some f =>
        rw [hf] at hc
        exact List.mem_cons_of_mem _ hc
  intro h
  unfold LonePoint at h
  rw [← hs] at h
  have hpoint : c = '.' ∨ c = '+' ∨ c = '-' := by
    simp only [List.mem_cons, List.not_mem_nil, or_false] at h
    rcases h with h | h | h <;> rw [h] at htext <;> simp at htext <;> tauto
  rcases hpoint with rfl | rfl | rfl <;> exact absurd hdigit (by decide)

theorem parsesExactly_iff (s : String) : ParsesExactly s ↔ ¬LonePoint s := by
  constructor
  · intro h hpoint
    obtain ⟨d, hd, -⟩ := (h 0).mp (parseAmountMicros_lonePoint hpoint)
    exact not_lonePoint d hd hpoint
  · intro hpoint n
    constructor
    · intro h
      obtain ⟨d, hd⟩ := exists_decimal h hpoint
      rw [parseAmountMicros_text d hd] at h
      split_ifs at h with hin
      cases h
      exact ⟨d, hd, d.micros_eq, hin⟩
    · rintro ⟨d, hd, hn, hin⟩
      rw [← d.micros_eq, Int.cast_inj] at hn
      rw [parseAmountMicros_text d hd, ← hn, if_pos hin]

/-- **Money texts are exact**: the parser accepts exactly the decimal texts of 64-bit numbers of
millionths and returns these, unless the text is a point without a digit; and what is formatted is read
back. -/
theorem parses_exactly (s : String) (a : ℤ) :
    (ParsesExactly s ↔ ¬LonePoint s) ∧
      (InInt64 a → parseAmountMicros (formatAmountMicros a) = .ok a) :=
  ⟨parsesExactly_iff s, fun ha => parseAmountMicros_format ha⟩

theorem parses_exactly_least :
    ParsesExactly " -1.50 " ∧
      parseAmountMicros (formatAmountMicros (-9223372036854775808)) = .ok (-9223372036854775808) :=
  ⟨(parses_exactly _ 0).1.mpr (by decide), (parses_exactly "" _).2 (by decide)⟩

theorem not_parsesExactly_point : ¬ParsesExactly "." := by
  intro h
  obtain ⟨d, hd, -⟩ := (h 0).mp (by decide)
  exact not_lonePoint d hd (by decide)

end Billing

end Komari
