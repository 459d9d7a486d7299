import Komari.Expiry.Wall
import Mathlib.Tactic.Ring

/-!
# Specifications of jobs

A job runs at a fixed interval, or at the wall clocks that match the fields of a cron expression.
-/

namespace Komari

namespace Corn

open Calendar TrafficReset

/-! ### Fields -/

/-- `strconv.Atoi`. -/
def atoi (s : List Char) : Option ℤ := (TrafficReset.atoi s).filter fun n => InInt64 n

/-- `%q`. -/
def quoted (s : List Char) : String := (String.ofList s).quote

/-- The two ends of a part. -/
def parseRange (base : List Char) (min max : ℤ) : Except String (ℤ × ℤ) :=
  if base = ['*'] ∨ base = [] then .ok (min, max)
  else if '-' ∈ base then
    match base.splitOn '-' with
    | [first, last] =>
      match atoi first, atoi last with
      | none, _ => .error s!"invalid range start {quoted first}"
      | some _, none => .error s!"invalid range end {quoted last}"
      | some start, some stop =>
        if stop < start ∨ start < min ∨ max < stop then
          .error s!"range {quoted base} out of bounds {min}-{max}"
        else .ok (start, stop)
    | _ => .error s!"invalid range {quoted base}"
  else
    match atoi base with
    | none => .error s!"invalid value {quoted base}"
    | some value =>
      if value < min ∨ max < value then .error s!"value {value} out of bounds {min}-{max}"
      else .ok (value, value)

/-- The values of a part, where `i += step` can overflow; the loop is over after 128 steps. -/
def stepValues (start stop step : ℤ) : List ℤ :=
  ((List.range 128).map fun k => int64 (start + k * step)).takeWhile fun i => decide (i ≤ stop)

/-- The base and the step of a part. -/
def splitStep (part : List Char) : Except String (List Char × ℤ) :=
  if '/' ∈ part then
    match part.splitOn '/' with
    | [base, text] =>
      match atoi text with
      | none => .error s!"invalid step {quoted text}"
      | some step => if step ≤ 0 then .error s!"invalid step {quoted text}" else .ok (base, step)
    | _ => .error s!"invalid step {quoted part}"
  else .ok (part, 1)

/-- The loop of `parseField`, for one part. -/
def parsePart (part : List Char) (min max : ℤ) : Except String (List ℤ) := do
  let part := (trimSpace (String.ofList part)).toList
  if part = [] then .error "empty part"
  else
    let (base, step) ← splitStep part
    let (start, stop) ← parseRange base min max
    return stepValues start stop step

/-- The values that a field allows. -/
def parseField (field : List Char) (min max : ℤ) : Except String (List ℤ) :=
  (field.splitOn ',').foldlM (fun values part => do return values ++ (← parsePart part min max)) []

/-! ### Expressions -/

/-- The values that the fields of a cron expression allow. -/
structure Fields where
  seconds : List ℤ
  minutes : List ℤ
  hours : List ℤ
  dom : List ℤ
  months : List ℤ
  /-- `dow`, where Sunday is zero. -/
  dow : List ℤ
deriving DecidableEq

/-- The fields of an expression, in a zone. -/
structure CronSchedule extends Fields where
  /-- `location`, which is never nil. -/
  location : Zone

/-- A plain interval, or an expression. -/
inductive Schedule where
  /-- `everySchedule`. -/
  | every (interval : ℤ)
  /-- `cronSchedule`. -/
  | cron (s : CronSchedule)

/-- `time.ParseDuration`, which computes fractions in floating point. -/
class Durations where
  parseDuration : String → Except String ℤ

/-- A field under its name: `fmt.Errorf("%s: %w", name, err)`. -/
def named (name : String) (field : List Char) (min max : ℤ) : Except String (List ℤ) :=
  match parseField field min max with
  | .error e => .error s!"{name}: {e}"
  | .ok values => .ok values

/-- `strings.Fields`. -/
def fieldsOf (spec : String) : List (List Char) := (spec.toList.splitOnP isSpace).filter (· ≠ [])

/-- The fields of an expression, the seconds first. -/
def parseFields (fields : List (List Char)) : Except String Fields :=
  let fields := if fields.length = 5 then ['0'] :: fields else fields
  match fields with
  | [second, minute, hour, day, month, week] => do
    let seconds ← named "second" second 0 59
    let minutes ← named "minute" minute 0 59
    let hours ← named "hour" hour 0 23
    let dom ← named "day-of-month" day 1 31
    let months ← named "month" month 1 12
    let dow ← named "day-of-week" week 0 7
    return ⟨seconds, minutes, hours, dom, months,
      if 7 ∈ dow then 0 :: dow.filter (· ≠ 7) else dow⟩
  | _ => .error s!"expected 5 or 6 fields, got {fields.length}"

/-- An expression of five or six fields, or an interval. -/
def parseInLocation [Durations] (spec : String) (location : Option Zone) : Except String Schedule :=
  match location with
  | none => .error "location is nil"
  | some location =>
    let spec := trimSpace spec
    if spec = "" then .error "empty spec"
    else if "@every ".toList.isPrefixOf spec.toList then do
      let duration ← Durations.parseDuration (trimSpace (String.ofList (spec.toList.drop 7)))
      if duration ≤ 0 then .error "@every duration must be positive"
      else return .every duration
    else do
      let fields ← parseFields (fieldsOf spec)
      return .cron { fields with location := location }

end Corn

end Komari
