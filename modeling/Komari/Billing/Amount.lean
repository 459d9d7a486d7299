import Komari.TrafficReset.Schedule
import Komari.Word.Int64

/-!
# Amounts as texts

An amount is shown with six decimals, and read with at most six.
-/

namespace Komari

namespace Billing

open Calendar TrafficReset

def microsPerUnit : ℕ := 1000000

/-- `FormatAmountMicros`; the least amount, which has no opposite, is written in the same way. -/
def formatAmountMicros (value : ℤ) : String :=
  let abs := value.natAbs
  let sign := if value < 0 then ['-'] else []
  String.ofList (sign ++ (appendInt (abs / microsPerUnit : ℕ) 0 ++
    '.' :: appendInt (abs % microsPerUnit : ℕ) 6))

/-- The sign of a text, and the rest. -/
def splitSign (value : List Char) : Bool × List Char :=
  match value with
  | '+' :: rest => (false, rest)
  | '-' :: rest => (true, rest)
  | rest => (false, rest)

/-- A decimal number in millionths. -/
def parseAmountMicros (value : String) : Except String ℤ :=
  let value := (trimSpace value).toList
  if value = [] then .error "amount is empty"
  else
    let (negative, value) := splitSign value
    if value = [] ∨ 1 < value.count '.' then .error "invalid amount"
    else
      let whole := value.takeWhile (· ≠ '.')
      let fraction := (value.dropWhile (· ≠ '.')).drop 1
      let whole := if whole = [] then ['0'] else whole
      if whole.all Char.isDigit = false then .error "invalid amount"
      else if 6 < byteLength fraction then .error "amount supports at most 6 decimal places"
      else if fraction.all Char.isDigit = false then .error "invalid amount"
      else
        let fraction := fraction ++ List.replicate (6 - byteLength fraction) '0'
        let integer : ℤ := Nat.ofDigitChars 10 (whole ++ fraction) 0
        let integer := if negative then -integer else integer
        if InInt64 integer then .ok integer else .error "amount is out of range"

/-! ### What is shown is read back -/

theorem length_appendInt_six {n : ℕ} (h : n < microsPerUnit) : (appendInt n 6).length = 6 := by
  have hle : (Nat.toDigits 10 n).length ≤ 6 :=
    (Nat.length_toDigits_le_iff (by decide) (by decide)).mpr h
  rw [appendInt_natCast, List.length_append, List.length_replicate]
  omega

theorem byteLength_digits {s : List Char} (h : ∀ c ∈ s, c.isDigit = true) :
    byteLength s = s.length := by
  induction s with
  | nil => rfl
  | cons c s ih =>
    obtain ⟨hc, hs⟩ := List.forall_mem_cons.mp h
    have hone : c.utf8Size = 1 := by
      have hle : c.val.toNat ≤ 57 := by
        simp only [Char.isDigit, Bool.and_eq_true, decide_eq_true_eq] at hc
        exact hc.2
      unfold Char.utf8Size
      rw [if_pos (by show c.val.toNat ≤ 127; omega)]
    rw [byteLength, List.map_cons, List.sum_cons, hone, List.length_cons, Nat.add_comm]
    exact congrArg (· + 1) (ih hs)

theorem ne_point_of_isDigit {c : Char} (h : c.isDigit = true) : c ≠ '.' := by
  rintro rfl
  exact absurd h (by decide)

theorem splitSign_append {negative : Bool} {digits rest : List Char} (hne : digits ≠ [])
    (hdigits : ∀ c ∈ digits, c.isDigit = true) :
    splitSign ((if negative then ['-'] else []) ++ (digits ++ rest)) =
      (negative, digits ++ rest) := by
  cases negative with
  | true => rfl
  | false =>
    obtain ⟨c, digits, rfl⟩ := List.exists_cons_of_ne_nil hne
    have hc := hdigits c List.mem_cons_self
    unfold splitSign
    simp only [Bool.false_eq_true, if_false, List.nil_append, List.cons_append]
    split
    · rename_i heq
      obtain ⟨rfl, -⟩ := List.cons.inj heq
      exact absurd hc (by decide)
    · rename_i heq
      obtain ⟨rfl, -⟩ := List.cons.inj heq
      exact absurd hc (by decide)
    · rfl

section Point

variable {whole fraction : List Char} (hwhole : ∀ c ∈ whole, c.isDigit = true)
include hwhole

theorem takeWhile_point : (whole ++ '.' :: fraction).takeWhile (· ≠ '.') = whole := by
  rw [List.takeWhile_append_of_pos fun c hc => by simpa using ne_point_of_isDigit (hwhole c hc)]
  simp

theorem dropWhile_point : (whole ++ '.' :: fraction).dropWhile (· ≠ '.') = '.' :: fraction := by
  rw [List.dropWhile_append_of_pos fun c hc => by simpa using ne_point_of_isDigit (hwhole c hc)]
  simp

theorem count_point (hfraction : ∀ c ∈ fraction, c.isDigit = true) :
    (whole ++ '.' :: fraction).count '.' = 1 := by
  rw [List.count_append, List.count_cons_self,
    List.count_eq_zero.mpr fun h => ne_point_of_isDigit (hwhole _ h) rfl,
    List.count_eq_zero.mpr fun h => ne_point_of_isDigit (hfraction _ h) rfl]

end Point

/-- The digits of an amount, read without the point. -/
theorem ofDigitChars_amount (n : ℕ) : Nat.ofDigitChars 10
    (appendInt (n / microsPerUnit : ℕ) 0 ++ appendInt (n % microsPerUnit : ℕ) 6) 0 = n := by
  have hlength := length_appendInt_six (Nat.mod_lt n (show 0 < microsPerUnit by decide))
  have hread : ∀ m width : ℕ, Nat.ofDigitChars 10 (appendInt m width) 0 = m := by
    intro m width
    rw [appendInt_natCast]
    exact ofDigitChars_padded _ _
  rw [Nat.ofDigitChars_append, Nat.ofDigitChars_eq_ofDigitChars_zero, hread, hread, hlength]
  have := Nat.div_add_mod n microsPerUnit
  unfold microsPerUnit at *
  omega

/-- The text of an amount has no spaces at its ends. -/
theorem trimSpace_format (value : ℤ) :
    trimSpace (formatAmountMicros value) = formatAmountMicros value := by
  have hwhole := appendInt_ne_nil (value.natAbs / microsPerUnit) 0
  have hfraction := appendInt_ne_nil (value.natAbs % microsPerUnit) 6
  unfold formatAmountMicros
  dsimp only
  refine trimSpace_ofList (by simp) ?_ ?_
  · split_ifs
    · rfl
    · simp only [List.nil_append, List.head_append_of_ne_nil hwhole]
      exact isSpace_of_isDigit (isDigit_of_mem_appendInt (List.head_mem hwhole))
  · simp only [List.getLast_append_of_ne_nil _ (show appendInt (value.natAbs / microsPerUnit : ℕ) 0 ++
        '.' :: appendInt (value.natAbs % microsPerUnit : ℕ) 6 ≠ [] by simp),
      List.getLast_append_of_ne_nil _ (List.cons_ne_nil _ _), List.getLast_cons hfraction]
    exact isSpace_of_isDigit (isDigit_of_mem_appendInt (List.getLast_mem hfraction))

/-- **What is shown is read back.** -/
theorem parseAmountMicros_format {value : ℤ} (hvalue : InInt64 value) :
    parseAmountMicros (formatAmountMicros value) = .ok value := by
  have hdigit : ∀ n width : ℕ, ∀ c ∈ appendInt n width, c.isDigit = true := fun n width c h =>
    isDigit_of_mem_appendInt h
  have hne := appendInt_ne_nil (value.natAbs / microsPerUnit) 0
  have hbytes : byteLength (appendInt (value.natAbs % microsPerUnit : ℕ) 6) = 6 :=
    (byteLength_digits (hdigit _ _)).trans (length_appendInt_six (Nat.mod_lt _ (by decide)))
  have hall : ∀ n width : ℕ, (appendInt n width).all Char.isDigit = true := fun n width =>
    List.all_eq_true.mpr (hdigit n width)
  have hsign : (if value < 0 then ['-'] else []) = if decide (value < 0) = true then ['-'] else [] := by
    simp only [decide_eq_true_eq]
  have hread := ofDigitChars_amount value.natAbs
  unfold parseAmountMicros
  rw [trimSpace_format]
  unfold formatAmountMicros
  rw [String.toList_ofList]
  dsimp only
  rw [if_neg (by simp), hsign, splitSign_append hne (hdigit _ _)]
  dsimp only
  -- the tests of the parser, one after the other
  rw [if_neg (by rw [count_point (hdigit _ _) (hdigit _ _)]; simp), takeWhile_point (hdigit _ _),
    dropWhile_point (hdigit _ _), List.drop_one, List.tail_cons, if_neg hne,
    if_neg (by rw [hall]; decide), hbytes, if_neg (by decide), if_neg (by rw [hall]; decide), Nat.sub_self,
    List.replicate_zero, List.append_nil, hread]
  have hback : (if decide (value < 0) = true then -(value.natAbs : ℤ) else value.natAbs) = value := by
    split_ifs with hneg <;> simp only [decide_eq_true_eq] at hneg <;> omega
  rw [hback, if_pos hvalue]

/-- The amount of a text, or nothing. -/
def micros (value : String) : ℤ := (parseAmountMicros value).toOption.getD 0

@[simp] theorem micros_format_int64 (value : ℤ) : micros (formatAmountMicros (int64 value)) = int64 value := by
  rw [micros, parseAmountMicros_format (inInt64_int64 value)]
  rfl

end Billing

end Komari
