import Komari.Calendar.Zone

/-!
# Traffic reset schedules

A schedule is a day of the month and a clock in a time zone.  Its boundary in a month is that day, or
the last day of a shorter month, at that clock.  Instants are nanoseconds.
-/

namespace Komari

namespace TrafficReset

open Calendar

/-! ### Texts -/

/-- `unicode.IsSpace`. -/
def isSpace (c : Char) : Bool :=
  c.toNat ∈ [0x09, 0x0A, 0x0B, 0x0C, 0x0D, 0x20, 0x85, 0xA0, 0x1680, 0x2028, 0x2029, 0x202F, 0x205F,
    0x3000] || (0x2000 ≤ c.toNat && c.toNat ≤ 0x200A)

/-- `strings.TrimSpace`. -/
def trimSpace (s : String) : String :=
  String.ofList (((s.toList.dropWhile isSpace).reverse.dropWhile isSpace).reverse)

/-- A text without spaces at its ends is trimmed already. -/
theorem trimSpace_ofList {s : List Char} (hne : s ≠ []) (hhead : isSpace (s.head hne) = false)
    (hlast : isSpace (s.getLast hne) = false) : trimSpace (String.ofList s) = String.ofList s := by
  have hdrop : ∀ {l : List Char} (h : l ≠ []), isSpace (l.head h) = false →
      l.dropWhile isSpace = l := by
    intro l h hspace
    cases l with
    | nil => exact absurd rfl h
    | cons c l => exact List.dropWhile_cons_of_neg (by simpa using hspace)
  unfold trimSpace
  rw [String.toList_ofList, hdrop hne hhead,
    hdrop (by simpa using hne) (by rw [List.head_reverse]; exact hlast), List.reverse_reverse]

theorem trimSpace_trimSpace (s : String) : trimSpace (trimSpace s) = trimSpace s := by
  by_cases hne : ((s.toList.dropWhile isSpace).reverse.dropWhile isSpace).reverse = []
  · have hempty : trimSpace s = "" := by
      unfold trimSpace
      rw [hne]
    rw [hempty]
    decide
  · refine trimSpace_ofList hne ?_ ?_
    · -- what is cut off at the end leaves the first character
      have hfront : ((s.toList.dropWhile isSpace).reverse.dropWhile isSpace).reverse <+:
          s.toList.dropWhile isSpace := by
        rw [← List.reverse_suffix, List.reverse_reverse]
        exact List.dropWhile_suffix _
      rw [hfront.head hne]
      exact List.head_dropWhile_not _ _
    · rw [List.getLast_reverse]
      exact List.head_dropWhile_not _ _

theorem isSpace_of_isDigit {c : Char} (h : c.isDigit = true) : isSpace c = false := by
  simp only [Char.isDigit, Bool.and_eq_true, decide_eq_true_eq] at h
  have hlow : 48 ≤ c.toNat := h.1
  have hhigh : c.toNat ≤ 57 := h.2
  simp only [isSpace, Bool.or_eq_false_iff, decide_eq_false_iff_not, Bool.and_eq_false_iff]
  refine ⟨?_, Or.inl (by omega)⟩
  simp only [List.mem_cons, List.not_mem_nil, or_false]
  omega

/-- `strconv.Atoi`. -/
def atoi (s : List Char) : Option ℤ :=
  let digits := fun ds : List Char =>
    if ds ≠ [] ∧ ds.all Char.isDigit then some (Nat.ofDigitChars 10 ds 0 : ℤ) else none
  match s with
  | '+' :: ds => digits ds
  | '-' :: ds => (digits ds).map fun n => -n
  | ds => digits ds

/-- The length of a text in bytes. -/
def byteLength (s : List Char) : ℕ := (s.map Char.utf8Size).sum

/-- `%02d`. -/
def pad2 (n : ℤ) : String := String.ofList (appendInt n 2)

/-! ### Clocks -/

/-- A wall clock. -/
structure Clock where
  hour : ℤ
  minute : ℤ
  second : ℤ
  /-- The clock is one of a day. -/
  valid : (0 ≤ hour ∧ hour ≤ 23) ∧ (0 ≤ minute ∧ minute ≤ 59) ∧ 0 ≤ second ∧ second ≤ 59

/-- The clock 00:00. -/
def Clock.midnight : Clock := ⟨0, 0, 0, by decide⟩

/-- Since midnight. -/
def Clock.seconds (c : Clock) : ℤ := c.hour * 3600 + c.minute * 60 + c.second

theorem Clock.seconds_nonneg (c : Clock) : 0 ≤ c.seconds := by
  have := c.valid
  unfold Clock.seconds
  omega

theorem Clock.seconds_lt (c : Clock) : c.seconds < secondsPerDay := by
  have := c.valid
  unfold Clock.seconds secondsPerDay
  omega

/-- The numbers of a clock: each part one or two digits. -/
def parseClockParts : List (List Char) → Except String (List ℤ)
  | [] => .ok []
  | part :: rest => do
    if byteLength part < 1 ∨ 2 < byteLength part then
      throw "traffic reset time must be HH:MM or HH:MM:SS"
    if !part.all Char.isDigit then throw "invalid traffic reset clock"
    let rest ← parseClockParts rest
    return (Nat.ofDigitChars 10 part 0 : ℤ) :: rest

/-- A clock in two or three numbers. -/
def parseClock (value : String) : Except String Clock := do
  let value := trimSpace value
  if value = "" then return Clock.midnight
  let parts := value.toList.splitOn ':'
  if parts.length ≠ 2 ∧ parts.length ≠ 3 then
    throw "traffic reset time must be HH:MM or HH:MM:SS"
  let numbers ← parseClockParts parts
  let hour := numbers.getD 0 0
  let minute := numbers.getD 1 0
  let second := numbers.getD 2 0
  if h : (0 ≤ hour ∧ hour ≤ 23) ∧ (0 ≤ minute ∧ minute ≤ 59) ∧ 0 ≤ second ∧ second ≤ 59 then
    return ⟨hour, minute, second, h⟩
  else throw "traffic reset time is out of range"

/-! ### Zones -/

/-- The time zones that `time.LoadLocation` finds. -/
class TimezoneDatabase where
  /-- `time.LoadLocation`. -/
  loadLocation : String → Option Zone

def defaultTimezone : String := "Asia/Shanghai"

/-- The zone of a fixed offset from UTC-12:00 to UTC+14:00. -/
def fixedZone (offset : ℤ) (h : -12 * 3600 ≤ offset ∧ offset ≤ 14 * 3600) : Zone :=
  Zone.fixed offset (by unfold maxOffset; omega)

/-- `time.FixedZone(DefaultTimezone, 8*60*60)`. -/
def beijingZone : Zone := fixedZone (8 * 60 * 60) (by decide)

/-- A name for Beijing. -/
def isBeijingName (name : String) : Bool :=
  name = "" || name = defaultTimezone || name = "Asia/Chongqing" || name = "PRC"

/-- The name of Beijing, in one of its spellings. -/
def beijingTimezone (name : String) : Bool := isBeijingName (trimSpace name)

/-- `fixedOffset`: the offset of a name such as `UTC+05:30`. -/
def fixedOffset (value : String) :
    Except String {offset : ℤ // -12 * 3600 ≤ offset ∧ offset ≤ 14 * 3600} := do
  let parts := (value.toList.drop 4).splitOn ':'
  let hours := parts.headD []
  if 2 < parts.length ∨ byteLength hours < 1 ∨ 2 < byteLength hours then throw "invalid UTC offset"
  let hour ← match atoi hours with
    | some hour => if hour < 0 then throw "invalid UTC offset" else pure hour
    | none => throw "invalid UTC offset"
  let minute ← match parts.tail with
    | [] => pure 0
    | minutes :: _ =>
      if byteLength minutes ≠ 2 then throw "invalid UTC offset"
      match atoi minutes with
      | some minute =>
        if minute < 0 ∨ 59 < minute then throw "invalid UTC offset" else pure minute
      | none => throw "invalid UTC offset"
  let offset := hour * 3600 + minute * 60
  let offset := if value.toList[3]? = some '-' then -offset else offset
  if h : -12 * 3600 ≤ offset ∧ offset ≤ 14 * 3600 then return ⟨offset, h⟩
  else throw "UTC offset must be between UTC-12:00 and UTC+14:00"

/-- The name has the form of a fixed offset. -/
def hasOffsetForm (name : String) : Bool := "UTC+".isPrefixOf name || "UTC-".isPrefixOf name

/-- The name, if it can be loaded. -/
def normalizeTimezone [TimezoneDatabase] (value : String) : Except String String := do
  let value := trimSpace value
  if value = "" then return defaultTimezone
  if hasOffsetForm value then
    let offset ← fixedOffset value
    let sign := if offset.val < 0 then "-" else "+"
    let seconds := |offset.val|
    return "UTC" ++ sign ++ pad2 (seconds / 3600) ++ ":" ++ pad2 (seconds / 60 % 60)
  match TimezoneDatabase.loadLocation value with
  | some _ => return value
  | none => throw s!"unknown traffic reset timezone {value.quote}"

/-- The zone of a name that was normalized. -/
def location [TimezoneDatabase] (name : String) : Zone :=
  let name := trimSpace name
  if isBeijingName name then beijingZone
  else
    match hasOffsetForm name, fixedOffset name with
    | true, .ok offset => fixedZone offset.val offset.property
    | _, _ => (TimezoneDatabase.loadLocation name).getD beijingZone

/-! ### Schedules -/

/-- A day of the month, at a clock of a zone. -/
structure Schedule where
  day : ℤ
  clock : Clock
  timezone : String

/-- The schedule of a client's settings. -/
def fromFields [TimezoneDatabase] (day : Option ℤ) (clock timezone : String) : Schedule where
  day := day.getD 0
  clock :=
    match parseClock clock with
    | .ok clock => clock
    | .error _ => Clock.midnight
  timezone :=
    match normalizeTimezone timezone with
    | .ok timezone => timezone
    | .error _ => defaultTimezone

def nanosPerSecond : ℤ := 1000000000

/-- `time.Time{}`: the start of the year 1. -/
def zeroTime : ℤ := -62135596800 * nanosPerSecond

namespace Schedule

section Boundaries

variable [TimezoneDatabase] (s : Schedule)

def loc : Zone := location s.timezone

/-- There are resets. -/
def active : Bool := 1 ≤ s.day && s.day ≤ 31

/-- `daysInMonth`: the day that the zone shows at the start of the last day of the month. -/
def daysInMonth (month : ℤ) (z : Zone) : ℤ :=
  dayOfMonth (z.day (z.date (secondsPerDay * (monthStart (month + 1) - 1))))

/-- The wall clock of the boundary of a month. -/
def boundaryWall (month : ℤ) : ℤ :=
  let last := daysInMonth month s.loc
  let day := if last < s.day then last else s.day
  secondsPerDay * (monthStart month + day - 1) + s.clock.seconds

/-- The reset instant of a month. -/
def boundary (month : ℤ) : ℤ := nanosPerSecond * s.loc.date (s.boundaryWall month)

/-- The month that the zone shows at an instant. -/
def localMonth (now : ℤ) : ℤ := s.loc.month (now / nanosPerSecond)

/-- `Last`: the most recent reset instant at or before `now`. -/
def last (now : ℤ) : ℤ :=
  if s.active = false then zeroTime
  else
    let this := s.boundary (s.localMonth now)
    if ¬now < this then this else s.boundary (s.localMonth now - 1)

/-- `Next`: the upcoming reset instant after `now`. -/
def next (now : ℤ) : ℤ :=
  if s.active = false then zeroTime
  else
    let this := s.boundary (s.localMonth now)
    if now < this then this else s.boundary (s.localMonth now + 1)

/-- Midnight in Beijing. -/
def usesLegacyCycleKey : Bool :=
  s.clock.hour = 0 && s.clock.minute = 0 && s.clock.second = 0 && beijingTimezone s.timezone

/-- The text by which the records of a cycle are stored. -/
def cycleKey (now : ℤ) : String :=
  let last := s.last now
  if last = zeroTime then ""
  else if s.usesLegacyCycleKey then dateOnly (s.loc.day (last / nanosPerSecond))
  else rfc3339 (last / nanosPerSecond)

end Boundaries

end Schedule

end TrafficReset

end Komari
