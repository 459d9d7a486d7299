import Komari.Expiry.Wall
import Mathlib.Data.List.Forall2

/-!
# Local dates and clocks as texts

An administrator enters an expiry as `YYYY-MM-DDTHH:mm:ss` in a time zone, and sees it in the same
form.
-/

namespace Komari

namespace Expiry

open Calendar TrafficReset

/-! ### Zones by name -/

/-- The time zones that `time.LoadLocation` finds. -/
class ZoneTables where
  /-- `time.LoadLocation`. -/
  loadLocation : String → Option ZoneTable

/-- The zone of the server. -/
def beijingLocation : ZoneTable := ZoneTable.fixed (8 * 60 * 60) (by decide)

section Names

variable [ZoneTables]

/-- The name, if it can be loaded. -/
def normalizeTimezone (value : String) : Except String String :=
  let value := trimSpace value
  if value = "" then .ok defaultTimezone
  else
    match ZoneTables.loadLocation value with
    | some _ => .ok value
    | none => .error s!"unknown expiry timezone {value.quote}"

/-- The name, or the default where the name is unknown. -/
def timezoneOrDefault (name : String) : String :=
  match normalizeTimezone name with
  | .ok normalized => normalized
  | .error _ => defaultTimezone

/-- The zone of a name that was normalized. -/
def location (name : String) : ZoneTable :=
  let normalized := timezoneOrDefault name
  if normalized = defaultTimezone ∨ normalized = "Asia/Chongqing" ∨ normalized = "PRC" then
    beijingLocation
  else (ZoneTables.loadLocation normalized).getD beijingLocation

end Names

/-! ### Reading numbers -/

/-- `ss.SkipSpace` of `fmt`: a new line is an error. -/
def skipSpace : List Char → Option (List Char)
  | [] => some []
  | c :: input =>
    if c = '\n' then none else if isSpace c then skipSpace input else some (c :: input)

/-- The sign before a number. -/
def acceptSign (input : List Char) : Bool × List Char :=
  match input with
  | '+' :: input => (false, input)
  | '-' :: input => (true, input)
  | input => (false, input)

/-- `%d` of `fmt.Sscanf`: the number, and the text behind it. -/
def scanInt (input : List Char) : Option (ℤ × List Char) := do
  let input ← skipSpace input
  let (negative, input) := acceptSign input
  let digits := input.takeWhile Char.isDigit
  let value : ℤ := Nat.ofDigitChars 10 digits 0
  let value := if negative then -value else value
  if digits ≠ [] ∧ InInt64 value then some (value, input.dropWhile Char.isDigit) else none

/-- A part of a format of `Sscanf`. -/
inductive FormatItem where
  /-- `%d`. -/
  | decimal
  /-- A character that stands for itself. -/
  | literal (c : Char)

/-- `fmt.Sscanf`: the numbers read; a text behind the last item is left unread. -/
def sscanf : List FormatItem → List Char → Option (List ℤ)
  | [], _ => some []
  | .decimal :: format, input => do
    let (value, input) ← scanInt input
    let values ← sscanf format input
    return value :: values
  | .literal c :: format, input =>
    match input with
    | [] => none
    | c' :: input => if c' = c then sscanf format input else none

/-- `%d-%d-%dT%d:%d:%d`. -/
def dateTimeFormat : List FormatItem :=
  [.decimal, .literal '-', .decimal, .literal '-', .decimal, .literal 'T', .decimal, .literal ':',
    .decimal, .literal ':', .decimal]

/-! ### Writing -/

/-- A date and a clock, where numbers are written by `pad`. -/
def layoutWith (pad : ℤ → ℕ → List Char) (c : LocalTime) : List Char :=
  pad c.year 4 ++ '-' :: (pad c.month 2 ++ '-' :: (pad c.day 2 ++ 'T' :: (pad c.hour 2 ++
    ':' :: (pad c.minute 2 ++ ':' :: pad c.second 2))))

/-- `%0*d` of `fmt.Sprintf`: the width counts the sign. -/
def zeroPadded (x : ℤ) (width : ℕ) : List Char :=
  let digits := Nat.toDigits 10 x.natAbs
  let width := if x < 0 then width - 1 else width
  (if x < 0 then ['-'] else []) ++ (List.replicate (width - digits.length) '0' ++ digits)

/-- `fmt.Sprintf("%04d-%02d-%02dT%02d:%02d:%02d", ...)`. -/
def sprintf (c : LocalTime) : String := String.ofList (layoutWith zeroPadded c)

/-- `Format(LocalDateTimeLayout)`. -/
def layout (c : LocalTime) : String := String.ofList (layoutWith appendInt c)

/-! ### Parsing and formatting -/

section Texts

variable [ZoneTables]

/-- The error of a text. -/
def formError : String := "expiry local datetime must be YYYY-MM-DDTHH:mm:ss"

/-- The zone does not show the text. -/
def missingError (zone : String) : String :=
  s!"expiry local datetime does not exist in timezone {zone}"

/-- The first instant that shows the text. -/
def parseLocalDateTime (text timezone : String) : Except String ℤ :=
  let text := trimSpace text
  match sscanf dateTimeFormat text.toList with
  | some [year, month, day, hour, minute, second] =>
    let want : LocalTime := ⟨year, month, day, hour, minute, second, 0⟩
    if text ≠ sprintf want then .error formError
    else if month < 1 ∨ 12 < month ∨ day < 1 ∨ 31 < day ∨ 23 < hour ∨ 59 < minute ∨ 59 < second then
      .error formError
    else
      match normalizeTimezone timezone with
      | .error e => .error e
      | .ok zone =>
        let probe := utcTime (civilUTC ⟨year, month, day, 12, 0, 0, 0⟩)
        if probe.year ≠ year ∨ probe.month ≠ month ∨ probe.day ≠ day then .error (missingError zone)
        else
          match matchingWallTimes (location zone).zone want with
          | [] => .error (missingError zone)
          | first :: _ => .ok first
  | _ => .error formError

/-- What the zone shows at an instant. -/
def formatLocalDateTime (instant : ℤ) (timezone : String) : String :=
  layout (localTime (location (timezoneOrDefault timezone)).zone instant)

end Texts

/-! ### The fields of a date and a clock -/

/-- The clock and the numbers of month and day are those of a day. -/
structure LocalTime.InRange (c : LocalTime) : Prop where
  month : 1 ≤ c.month ∧ c.month ≤ 12
  day : 1 ≤ c.day ∧ c.day ≤ 31
  hour : 0 ≤ c.hour ∧ c.hour ≤ 23
  minute : 0 ≤ c.minute ∧ c.minute ≤ 59
  second : 0 ≤ c.second ∧ c.second ≤ 59

theorem inRange_utcTime (t : ℤ) : (utcTime t).InRange := by
  have hlow := Int.emod_nonneg (t / nanosPerSecond) (b := secondsPerDay) (by decide)
  have hhigh := Int.emod_lt_of_pos (t / nanosPerSecond) (b := secondsPerDay) (by decide)
  have hday := one_le_dayOfMonth (t / nanosPerSecond / secondsPerDay)
  have hday' := dayOfMonth_le (t / nanosPerSecond / secondsPerDay)
  have hmonth := Int.emod_nonneg (monthOfDay (t / nanosPerSecond / secondsPerDay)) (b := 12) (by decide)
  have hmonth' := Int.emod_lt_of_pos (monthOfDay (t / nanosPerSecond / secondsPerDay)) (b := 12)
    (by decide)
  unfold secondsPerDay at hlow hhigh
  constructor <;> simp only [utcTime, secondsPerDay] at * <;> omega

theorem inRange_localTime (z : Zone) (t : ℤ) : (localTime z t).InRange := inRange_utcTime _

theorem localTime_floor (z : Zone) (t : ℤ) :
    localTime z (t - t % nanosPerSecond) = { localTime z t with nano := 0 } := by
  have hdiv := Int.mul_ediv_add_emod t nanosPerSecond
  have hfloor : t - t % nanosPerSecond = nanosPerSecond * (t / nanosPerSecond) := by omega
  have hsec : ∀ x nano : ℤ, 0 ≤ nano → nano < nanosPerSecond →
      (nanosPerSecond * x + nano) / nanosPerSecond = x := fun x nano h₁ h₂ => by
    unfold nanosPerSecond at *
    omega
  have hoffset : offsetNanos z (nanosPerSecond * (t / nanosPerSecond)) = offsetNanos z t := by
    rw [offsetNanos, Int.mul_ediv_cancel_left _ (by decide), offsetNanos]
  have hshift : t + offsetNanos z t =
      nanosPerSecond * (t / nanosPerSecond + z.offset (t / nanosPerSecond)) + t % nanosPerSecond := by
    unfold offsetNanos
    rw [Int.mul_add]
    omega
  have hwhole : nanosPerSecond * (t / nanosPerSecond) + offsetNanos z t =
      nanosPerSecond * (t / nanosPerSecond + z.offset (t / nanosPerSecond)) := by
    unfold offsetNanos
    rw [Int.mul_add]
  rw [hfloor, localTime, localTime, hoffset, hshift, hwhole]
  simp only [utcTime, hsec _ _ (Int.emod_nonneg t (by decide)) (Int.emod_lt_of_pos t (by decide)),
    Int.mul_ediv_cancel_left _ (show nanosPerSecond ≠ 0 by decide), Int.mul_emod_right]

theorem localTime_nano (z : Zone) (t : ℤ) : (localTime z t).nano = t % nanosPerSecond := by
  simp only [localTime, utcTime, offsetNanos, Int.add_mul_emod_self_left]

/-- The date of an instant exists: its noon is on it. -/
theorem utcTime_noon (t : ℤ) :
    let noon := utcTime (civilUTC ⟨(utcTime t).year, (utcTime t).month, (utcTime t).day, 12, 0, 0, 0⟩)
    noon.year = (utcTime t).year ∧ noon.month = (utcTime t).month ∧ noon.day = (utcTime t).day := by
  have hmonth : ∀ m : ℤ, 12 * (m / 12) + (m % 12 + 1) - 1 = m := fun m => by omega
  have hday : ∀ d : ℤ, civilUTC ⟨monthOfDay d / 12, monthOfDay d % 12 + 1, dayOfMonth d, 12, 0, 0, 0⟩ /
      nanosPerSecond / secondsPerDay = d := by
    intro d
    simp only [civilUTC, hmonth, dayOfMonth]
    unfold nanosPerSecond secondsPerDay
    omega
  simp only [utcTime, hday, and_self]

/-! ### What is shown is read -/

/-- A number is read up to the first character that is no digit. -/
theorem scanInt_append {n width : ℕ} {rest : List Char} (hn : (n : ℤ) ≤ 9999)
    (hrest : ∀ c ∈ rest.head?, c.isDigit = false) :
    scanInt (appendInt n width ++ rest) = some ((n : ℤ), rest) := by
  have hne := appendInt_ne_nil n width
  have hall : ∀ c ∈ appendInt n width, c.isDigit = true := fun c hc => isDigit_of_mem_appendInt hc
  have htake : (appendInt n width ++ rest).takeWhile Char.isDigit = appendInt n width := by
    rw [List.takeWhile_append_of_pos hall]
    cases rest with
    | nil => simp
    | cons c rest => simp [hrest c rfl]
  have hdrop : (appendInt n width ++ rest).dropWhile Char.isDigit = rest := by
    rw [List.dropWhile_append_of_pos hall]
    cases rest with
    | nil => rfl
    | cons c rest => simp [hrest c rfl]
  have hvalue : Nat.ofDigitChars 10 (appendInt n width) 0 = n := by
    rw [appendInt_natCast, ofDigitChars_padded]
  -- the text begins with a digit, so that neither space nor sign is skipped
  obtain ⟨c, digits, heq⟩ := List.exists_cons_of_ne_nil hne
  have hc : c.isDigit = true := hall c (heq ▸ List.mem_cons_self)
  have hskip : skipSpace (appendInt n width ++ rest) = some (appendInt n width ++ rest) := by
    rw [heq, List.cons_append, skipSpace, if_neg, if_neg]
    · simp [isSpace_of_isDigit hc]
    · rintro rfl
      exact absurd hc (by decide)
  have hsign : acceptSign (appendInt n width ++ rest) = (false, appendInt n width ++ rest) := by
    rw [heq, List.cons_append]
    unfold acceptSign
    split
    · rename_i h
      cases h
      exact absurd hc (by decide)
    · rename_i h
      cases h
      exact absurd hc (by decide)
    · rfl
  have hin : InInt64 (n : ℤ) := by
    unfold InInt64 minInt64 maxInt64
    omega
  simp only [scanInt, hskip, hsign, htake, hdrop, hvalue, Option.bind_eq_bind, Option.bind_some,
    Bool.false_eq_true, if_false]
  exact if_pos ⟨hne, hin⟩

variable {c : LocalTime}

/-- A date of four digits, with a clock, is read. -/
theorem sscanf_layout (hc : c.InRange) (hlow : 0 ≤ c.year) (hhigh : c.year ≤ 9999) :
    sscanf dateTimeFormat (layoutWith appendInt c) =
      some [c.year, c.month, c.day, c.hour, c.minute, c.second] := by
  have hscan : ∀ {x : ℤ} {width : ℕ} {rest : List Char}, 0 ≤ x → x ≤ 9999 →
      (∀ c ∈ rest.head?, c.isDigit = false) → scanInt (appendInt x width ++ rest) = some (x, rest) := by
    intro x width rest hx hx' hrest
    obtain ⟨n, rfl⟩ := Int.eq_ofNat_of_zero_le hx
    exact scanInt_append hx' hrest
  have hlast : scanInt (appendInt c.second 2 ++ []) = some (c.second, []) :=
    hscan hc.second.1 (by have := hc.second; omega) (by simp)
  rw [List.append_nil] at hlast
  simp only [dateTimeFormat, layoutWith, sscanf]
  rw [hscan hlow hhigh (by simp)]
  simp only [Option.bind_eq_bind, Option.bind_some, if_true]
  rw [hscan (by have := hc.month; omega) (by have := hc.month; omega) (by simp)]
  simp only [Option.bind_some, if_true]
  rw [hscan (by have := hc.day; omega) (by have := hc.day; omega) (by simp)]
  simp only [Option.bind_some, if_true]
  rw [hscan hc.hour.1 (by have := hc.hour; omega) (by simp)]
  simp only [Option.bind_some, if_true]
  rw [hscan hc.minute.1 (by have := hc.minute; omega) (by simp)]
  simp only [Option.bind_some, if_true, hlast, Option.pure_def]

theorem zeroPadded_eq {x : ℤ} (h : 0 ≤ x) (width : ℕ) : zeroPadded x width = appendInt x width := by
  simp [zeroPadded, appendInt, if_neg (not_lt.mpr h)]

theorem sprintf_eq (hc : c.InRange) (hlow : 0 ≤ c.year) : sprintf c = layout c := by
  have := hc.month
  have := hc.day
  simp only [sprintf, layout, layoutWith, zeroPadded_eq hlow, zeroPadded_eq (x := c.month) (by omega),
    zeroPadded_eq (x := c.day) (by omega), zeroPadded_eq hc.hour.1, zeroPadded_eq hc.minute.1,
    zeroPadded_eq hc.second.1]

/-! ### The form of a text -/

/-- The text has nineteen characters and does not begin with a minus sign. -/
def FourDigitYear (text : String) : Prop := text.toList.length = 19 ∧ text.toList.head? ≠ some '-'

/-- The character stands where `pattern` has it, or is a digit where `pattern` has a zero. -/
def Fits (pattern c : Char) : Prop := if pattern = '0' then c.isDigit = true else c = pattern

/-- The text has the form `YYYY-MM-DDTHH:mm:ss`. -/
def IsCanonical (text : String) : Prop :=
  List.Forall₂ Fits "0000-00-00T00:00:00".toList text.toList

instance (pattern c : Char) : Decidable (Fits pattern c) :=
  inferInstanceAs (Decidable (if pattern = '0' then c.isDigit = true else c = pattern))

instance (text : String) : Decidable (IsCanonical text) :=
  inferInstanceAs (Decidable (List.Forall₂ _ _ _))

theorem IsCanonical.fourDigitYear {text : String} (h : IsCanonical text) : FourDigitYear text := by
  refine ⟨h.length_eq.symm, ?_⟩
  unfold IsCanonical at h
  generalize text.toList = chars at h ⊢
  cases h with
  | cons hc _ =>
    simp only [List.head?_cons, ne_eq, Option.some_inj]
    rintro rfl
    exact absurd hc (by decide)

/-- A number of one or two digits is written in two characters. -/
theorem length_pair (hc : c.InRange) :
    (appendInt c.month 2).length = 2 ∧ (appendInt c.day 2).length = 2 ∧
      (appendInt c.hour 2).length = 2 ∧ (appendInt c.minute 2).length = 2 ∧
        (appendInt c.second 2).length = 2 := by
  obtain ⟨hmonth, hday, hhour, hminute, hsecond⟩ := hc
  refine ⟨?_, ?_, ?_, ?_, ?_⟩ <;> exact length_appendInt_two (by omega) (by omega)

/-- The year of a text of nineteen characters has four digits. -/
theorem year_of_fourDigitYear (hc : c.InRange) (h : FourDigitYear (layout c)) :
    0 ≤ c.year ∧ c.year ≤ 9999 := by
  obtain ⟨hmonth, hday, hhour, hminute, hsecond⟩ := length_pair hc
  obtain ⟨hlength, hhead⟩ := h
  simp only [layout, String.toList_ofList, layoutWith] at hlength hhead
  have hyear : 0 ≤ c.year := by
    by_contra hneg
    refine hhead ?_
    simp [appendInt, if_pos (not_le.mp hneg)]
  refine ⟨hyear, ?_⟩
  simp only [List.length_append, List.length_cons, hmonth, hday, hhour, hminute, hsecond] at hlength
  have hdigits : (Nat.toDigits 10 c.year.natAbs).length ≤ 4 := by
    simp only [appendInt, if_neg (not_lt.mpr hyear), List.nil_append, List.length_append,
      List.length_replicate] at hlength
    omega
  have := (Nat.length_toDigits_le_iff (by decide) (by decide)).mp hdigits
  omega

theorem fits_digits {x : ℤ} {width : ℕ} (hx : 0 ≤ x) (hlength : (appendInt x width).length = width) :
    List.Forall₂ Fits (List.replicate width '0') (appendInt x width) := by
  have hdigit : ∀ c ∈ appendInt x width, Fits '0' c := by
    obtain ⟨n, rfl⟩ := Int.eq_ofNat_of_zero_le hx
    exact fun c hc => isDigit_of_mem_appendInt hc
  generalize appendInt x width = digits at hlength hdigit
  subst hlength
  induction digits with
  | nil => exact List.Forall₂.nil
  | cons c digits ih =>
    obtain ⟨hc, hdigits⟩ := List.forall_mem_cons.mp hdigit
    exact List.Forall₂.cons hc (ih hdigits)

theorem isCanonical_layout (hc : c.InRange) (hlow : 0 ≤ c.year)
    (hhigh : c.year ≤ 9999) : IsCanonical (layout c) := by
  obtain ⟨hmonth, hday, hhour, hminute, hsecond⟩ := length_pair hc
  have hyear : (appendInt c.year 4).length = 4 := by
    have hdigits : (Nat.toDigits 10 c.year.natAbs).length ≤ 4 :=
      (Nat.length_toDigits_le_iff (by decide) (by decide)).mpr (by omega)
    simp only [appendInt, if_neg (not_lt.mpr hlow), List.nil_append, List.length_append,
      List.length_replicate]
    omega
  have hpattern : "0000-00-00T00:00:00".toList = List.replicate 4 '0' ++ '-' ::
      (List.replicate 2 '0' ++ '-' :: (List.replicate 2 '0' ++ 'T' :: (List.replicate 2 '0' ++
        ':' :: (List.replicate 2 '0' ++ ':' :: List.replicate 2 '0')))) := by decide
  unfold IsCanonical
  rw [hpattern, layout, String.toList_ofList, layoutWith]
  refine List.rel_append (fits_digits hlow hyear) (.cons rfl ?_)
  refine List.rel_append (fits_digits (by have := hc.month; omega) hmonth) (.cons rfl ?_)
  refine List.rel_append (fits_digits (by have := hc.day; omega) hday) (.cons rfl ?_)
  refine List.rel_append (fits_digits hc.hour.1 hhour) (.cons rfl ?_)
  refine List.rel_append (fits_digits hc.minute.1 hminute) (.cons rfl ?_)
  exact fits_digits hc.second.1 hsecond

/-- The text of a date has no spaces at its ends. -/
theorem trimSpace_layout (hc : c.InRange) (hyear : 0 ≤ c.year) :
    trimSpace (layout c) = layout c := by
  obtain ⟨year, hy⟩ := Int.eq_ofNat_of_zero_le hyear
  obtain ⟨second, hs⟩ := Int.eq_ofNat_of_zero_le hc.second.1
  have hfirst := appendInt_ne_nil year 4
  have hlast := appendInt_ne_nil second 2
  simp only [layout, layoutWith, hy, hs]
  refine trimSpace_ofList (by simp) ?_ ?_
  · rw [List.head_append_of_ne_nil hfirst]
    exact isSpace_of_isDigit (isDigit_of_mem_appendInt (List.head_mem hfirst))
  · simp only [List.getLast_append_of_ne_nil _ (List.cons_ne_nil _ _),
      List.getLast_cons (List.append_ne_nil_of_right_ne_nil _ (List.cons_ne_nil _ _)),
      List.getLast_cons hlast]
    exact isSpace_of_isDigit (isDigit_of_mem_appendInt (List.getLast_mem hlast))

/-- A text without a sign is written from a year that is not negative. -/
theorem sprintf_eq_of_fourDigitYear (hc : c.InRange)
    (h : FourDigitYear (sprintf c)) : sprintf c = layout c := by
  refine sprintf_eq hc ?_
  by_contra hneg
  refine h.2 ?_
  simp [sprintf, layoutWith, zeroPadded, if_pos (not_le.mp hneg)]

/-- The text of a year of four digits determines the fields that it shows. -/
theorem layout_inj {d : LocalTime} (hc : c.InRange) (hd : d.InRange)
    (hyear : FourDigitYear (layout c)) (h : layout c = layout d) :
    { c with nano := 0 } = { d with nano := 0 } := by
  have hcyear := year_of_fourDigitYear hc hyear
  have hdyear := year_of_fourDigitYear hd (h ▸ hyear)
  have hchars : layoutWith appendInt c = layoutWith appendInt d := String.ofList_injective h
  have hread := (sscanf_layout hc hcyear.1 hcyear.2).symm.trans
    ((congrArg _ hchars).trans (sscanf_layout hd hdyear.1 hdyear.2))
  simp only [Option.some_inj, List.cons.injEq, and_true] at hread
  obtain ⟨hyear, hmonth, hday, hhour, hminute, hsecond⟩ := hread
  rw [hyear, hmonth, hday, hhour, hminute, hsecond]

/-! ### What is read, and what is shown -/

section Directions

variable [ZoneTables] {text timezone zone : String} {t : ℤ}

/-- **What a text that is read says**: it is written from the date and the clock that the zone shows at
the instant, the first one of them. -/
theorem parseLocalDateTime_ok (h : parseLocalDateTime text timezone = .ok t) :
    ∃ zone, normalizeTimezone timezone = .ok zone ∧
      trimSpace text = sprintf (localTime (location zone).zone t) ∧
      (localTime (location zone).zone t).nano = 0 ∧
      IsLeast {u | localTime (location zone).zone u = localTime (location zone).zone t} t := by
  simp only [parseLocalDateTime] at h
  split at h
  · rename_i year month day hour minute second _
    split_ifs at h with htext hrange hdate
    · split at h <;> cases h
    split at h
    · cases h
    · rename_i zone hzone
      split at h
      · cases h
      · rename_i first rest hmatches
        cases h
        have hleast := isLeast_head hmatches
        have hlocal : localTime (location zone).zone t = ⟨year, month, day, hour, minute, second, 0⟩ :=
          hleast.1
        refine ⟨zone, hzone, ?_, by rw [hlocal], ?_⟩
        · rw [hlocal, ← not_not.mp htext]
        · rwa [hlocal]
  · cases h

/-- **What is shown is read**: as the first instant that shows it. -/
theorem parseLocalDateTime_layout (hzone : normalizeTimezone timezone = .ok zone)
    (hlow : 0 ≤ (localTime (location zone).zone t).year)
    (hhigh : (localTime (location zone).zone t).year ≤ 9999) (hnano : t % nanosPerSecond = 0)
    (htext : trimSpace text = layout (localTime (location zone).zone t)) :
    ∃ first, parseLocalDateTime text timezone = .ok first := by
  have hrange := inRange_localTime (location zone).zone t
  have hnano' := localTime_nano (location zone).zone t
  have hnoon := utcTime_noon (t + offsetNanos (location zone).zone t)
  have hmem : t ∈ matchingWallTimes (location zone).zone (localTime (location zone).zone t) :=
    mem_matchingWallTimes.mpr rfl
  have hsprintf := sprintf_eq hrange hlow
  change let noon := utcTime (civilUTC ⟨(localTime (location zone).zone t).year,
    (localTime (location zone).zone t).month, (localTime (location zone).zone t).day, 12, 0, 0, 0⟩)
    noon.year = (localTime (location zone).zone t).year ∧
      noon.month = (localTime (location zone).zone t).month ∧
        noon.day = (localTime (location zone).zone t).day at hnoon
  generalize localTime (location zone).zone t = c at *
  obtain ⟨year, month, day, hour, minute, second, nano⟩ := c
  obtain ⟨hmonth, hday, hhour, hminute, hsecond⟩ := id hrange
  have hscan := sscanf_layout hrange hlow hhigh
  simp only at hnoon hnano' hmonth hday hhour hminute hsecond hscan
  obtain rfl : nano = 0 := hnano'.trans hnano
  have hbounds : ¬(month < 1 ∨ 12 < month ∨ day < 1 ∨ 31 < day ∨ 23 < hour ∨ 59 < minute ∨
      59 < second) := by omega
  have hexists : ¬((utcTime (civilUTC ⟨year, month, day, 12, 0, 0, 0⟩)).year ≠ year ∨
      (utcTime (civilUTC ⟨year, month, day, 12, 0, 0, 0⟩)).month ≠ month ∨
        (utcTime (civilUTC ⟨year, month, day, 12, 0, 0, 0⟩)).day ≠ day) := by
    simp only [hnoon, ne_eq, not_true_eq_false, or_self, not_false_eq_true]
  obtain ⟨first, rest, hmatches⟩ := List.exists_cons_of_ne_nil (List.ne_nil_of_mem hmem)
  refine ⟨first, ?_⟩
  simp only [parseLocalDateTime, htext]
  rw [show (layout ⟨year, month, day, hour, minute, second, 0⟩).toList =
    layoutWith appendInt ⟨year, month, day, hour, minute, second, 0⟩ from String.toList_ofList, hscan]
  simp only [hsprintf, ne_eq, not_true_eq_false, if_false, if_neg hbounds, hzone, if_neg hexists,
    hmatches]

theorem formatLocalDateTime_eq (hzone : normalizeTimezone timezone = .ok zone) (t : ℤ) :
    formatLocalDateTime t timezone = layout (localTime (location zone).zone t) := by
  simp only [formatLocalDateTime, timezoneOrDefault, hzone]

/-- A text that is read is shown at its instant, and at none before. -/
theorem formatLocalDateTime_of_ok (h : parseLocalDateTime text timezone = .ok t)
    (hyear : FourDigitYear (trimSpace text)) :
    ∃ zone, normalizeTimezone timezone = .ok zone ∧
      formatLocalDateTime t timezone = trimSpace text ∧
        IsLeast {u | formatLocalDateTime u timezone = trimSpace text} t := by
  obtain ⟨zone, hzone, htext, hnano, hleast⟩ := parseLocalDateTime_ok h
  have hrange := inRange_localTime (location zone).zone t
  rw [htext] at hyear
  have hlayout := sprintf_eq_of_fourDigitYear hrange hyear
  rw [hlayout] at htext hyear
  have hshown : formatLocalDateTime t timezone = trimSpace text := by
    rw [formatLocalDateTime_eq hzone, htext]
  refine ⟨zone, hzone, hshown, hshown, fun u hu => ?_⟩
  rw [Set.mem_ofPred_eq, formatLocalDateTime_eq hzone, htext] at hu
  -- the whole second of `u` shows the same local time
  have hfields := layout_inj hrange (inRange_localTime _ u) hyear hu.symm
  have hfloor : localTime (location zone).zone (u - u % nanosPerSecond) =
      localTime (location zone).zone t := by
    rw [localTime_floor, ← hfields, ← hnano]
  have hle := hleast.2 hfloor
  have := Int.emod_nonneg u (b := nanosPerSecond) (by decide)
  omega

/-- A text that the zone shows at an instant is read. -/
theorem exists_parse (hzone : normalizeTimezone timezone = .ok zone)
    (hshown : formatLocalDateTime t timezone = trimSpace text)
    (hyear : FourDigitYear (trimSpace text)) :
    ∃ first, parseLocalDateTime text timezone = .ok first := by
  rw [formatLocalDateTime_eq hzone] at hshown
  rw [← hshown] at hyear
  obtain ⟨hlow, hhigh⟩ := year_of_fourDigitYear (inRange_localTime _ t) hyear
  have hfloor := localTime_floor (location zone).zone t
  refine parseLocalDateTime_layout (t := t - t % nanosPerSecond) hzone ?_ ?_ ?_ ?_
  · rwa [hfloor]
  · rwa [hfloor]
  · rw [Int.sub_emod, Int.emod_emod, ← Int.sub_emod, sub_self, Int.zero_emod]
  · rw [hfloor, ← hshown]
    rfl

/-- **The text of an instant is read** as the first instant with its local time. -/
theorem parse_format (hzone : normalizeTimezone timezone = .ok zone) (hnano : t % nanosPerSecond = 0)
    (hlow : 0 ≤ (localTime (location zone).zone t).year)
    (hhigh : (localTime (location zone).zone t).year ≤ 9999) :
    ∃ first, parseLocalDateTime (formatLocalDateTime t timezone) timezone = .ok first ∧
      IsLeast {u | localTime (location zone).zone u = localTime (location zone).zone t} first := by
  have hrange := inRange_localTime (location zone).zone t
  have hyear := (isCanonical_layout hrange hlow hhigh).fourDigitYear
  have htrim := trimSpace_layout hrange hlow
  rw [formatLocalDateTime_eq hzone]
  obtain ⟨first, hfirst⟩ := parseLocalDateTime_layout hzone hlow hhigh hnano htrim
  obtain ⟨zone', hzone', htext, hnano', hleast⟩ := parseLocalDateTime_ok hfirst
  obtain rfl : zone = zone' := Except.ok.inj (hzone.symm.trans hzone')
  have hrange' := inRange_localTime (location zone).zone first
  rw [htrim] at htext
  rw [sprintf_eq_of_fourDigitYear hrange' (htext ▸ hyear)] at htext
  have hfields := layout_inj hrange hrange' hyear htext
  have hwhole : ∀ {c : LocalTime}, c.nano = 0 → { c with nano := 0 } = c := by
    rintro ⟨⟩ rfl
    rfl
  rw [hwhole ((localTime_nano _ t).trans hnano), hwhole hnano'] at hfields
  exact ⟨first, hfirst, hfields ▸ hleast⟩

end Directions

/-! ### Exactness -/

/-- **Wall clocks are resolved exactly.**  The search finds the instants of a wall clock, all of them in
order.  A text with a year of four digits is read when, spaces at its ends apart, it has the canonical
form and the zone shows it; it is read as the first instant that shows it.  A whole second is shown as
a text that is read as the first instant with its local time. -/
theorem wallTimes_exact [ZoneTables] :
    (∀ (table : ZoneTable) (want : LocalTime),
      (∀ t, t ∈ matchingWallTimes table.zone want ↔ localTime table.zone t = want) ∧
        (matchingWallTimes table.zone want).Pairwise (· < ·)) ∧
    (∀ text timezone : String,
      ((∃ t, parseLocalDateTime text timezone = .ok t) ∧ FourDigitYear (trimSpace text) ↔
        IsCanonical (trimSpace text) ∧ (∃ zone, normalizeTimezone timezone = .ok zone) ∧
          ∃ t, formatLocalDateTime t timezone = trimSpace text) ∧
      ∀ t, parseLocalDateTime text timezone = .ok t → FourDigitYear (trimSpace text) →
        formatLocalDateTime t timezone = trimSpace text ∧
          IsLeast {u | formatLocalDateTime u timezone = trimSpace text} t) ∧
    ∀ (t : ℤ) (timezone zone : String), normalizeTimezone timezone = .ok zone →
      t % nanosPerSecond = 0 → 0 ≤ (localTime (location zone).zone t).year →
        (localTime (location zone).zone t).year ≤ 9999 →
          ∃ first, parseLocalDateTime (formatLocalDateTime t timezone) timezone = .ok first ∧
            IsLeast {u | localTime (location zone).zone u = localTime (location zone).zone t} first := by
  refine ⟨fun table want => ⟨fun t => mem_matchingWallTimes, pairwise_matchingWallTimes table want⟩,
    fun text timezone => ⟨⟨?_, ?_⟩, ?_⟩, ?_⟩
  · rintro ⟨⟨t, hparse⟩, hyear⟩
    obtain ⟨zone, hzone, hshown, -⟩ := formatLocalDateTime_of_ok hparse hyear
    have hrange := inRange_localTime (location zone).zone t
    rw [← hshown, formatLocalDateTime_eq hzone] at hyear ⊢
    obtain ⟨hlow, hhigh⟩ := year_of_fourDigitYear hrange hyear
    exact ⟨isCanonical_layout hrange hlow hhigh, ⟨zone, hzone⟩, t, formatLocalDateTime_eq hzone t⟩
  · rintro ⟨hcanonical, ⟨zone, hzone⟩, t, hshown⟩
    exact ⟨exists_parse hzone hshown hcanonical.fourDigitYear, hcanonical.fourDigitYear⟩
  · intro t hparse hyear
    obtain ⟨zone, hzone, hshown, hleast⟩ := formatLocalDateTime_of_ok hparse hyear
    exact ⟨hshown, hleast⟩
  · intro t timezone zone hzone hnano hlow hhigh
    exact parse_format hzone hnano hlow hhigh

/-- A database without zones: the default zone is there. -/
@[reducible] def noZones : ZoneTables := ⟨fun _ => none⟩

/-- A database with one zone, whose clock is set forward in March and back in October 2026. -/
@[reducible] def summerZones : ZoneTables :=
  ⟨fun name => if name = "Europe/Berlin" then
    some ⟨3600, [(1774746000, 7200), (1792890000, 3600)], by decide, by decide⟩ else none⟩

/-- Half past two in the night in which the clock is set back is read as the first one of the two. -/
theorem wallTimes_exact_setBack :
    ∃ first, @parseLocalDateTime summerZones (@formatLocalDateTime summerZones
        (1792891800 * nanosPerSecond) "Europe/Berlin") "Europe/Berlin" = .ok first ∧
      first ≤ 1792888200 * nanosPerSecond := by
  obtain ⟨first, hfirst, hleast⟩ := (@wallTimes_exact summerZones).2.2 (1792891800 * nanosPerSecond)
    "Europe/Berlin" "Europe/Berlin" (by decide +kernel) (by decide) (by decide +kernel)
    (by decide +kernel)
  exact ⟨first, hfirst, hleast.2 (show localTime _ _ = localTime _ _ by decide +kernel)⟩

/-- A text is read with a space before it, although that is not its canonical form. -/
theorem parse_not_canonical : ¬∀ (zones : ZoneTables) (text timezone : String),
    (∃ t, @parseLocalDateTime zones text timezone = .ok t) ↔
      IsCanonical text ∧ (∃ zone, @normalizeTimezone zones timezone = .ok zone) ∧
        ∃ t, @formatLocalDateTime zones t timezone = text := by
  intro h
  have hread : @parseLocalDateTime noZones " 2026-01-01T00:00:00" "" =
      .ok (1767196800 * nanosPerSecond) := by decide +kernel
  exact absurd ((h noZones _ _).mp ⟨_, hread⟩).1 (by decide +kernel)

end Expiry

end Komari
