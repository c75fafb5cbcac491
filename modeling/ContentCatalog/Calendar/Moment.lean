import ContentCatalog.Number.Shortest

/-!
# Dates, times of day and moments

Calendar values as documents carry them.  A moment is a date with a time of day
and, optionally, its distance from universal time.  Each kind has an ISO text
and a constructor form, which is how it appears inside a composite key.
-/

namespace ContentCatalog.Calendar

/-- A calendar date. -/
structure Date where
  year : Nat
  month : Nat
  day : Nat
  deriving DecidableEq, Repr

/-- A time of day. -/
structure TimeOfDay where
  hour : Nat
  minute : Nat
  second : Nat
  microsecond : Nat
  deriving DecidableEq, Repr

/-- A date with a time of day and the distance from universal time in seconds,
if one is known. -/
structure Moment where
  date : Date
  time : TimeOfDay
  offset : Option Int
  deriving DecidableEq, Repr

/-- Why numbers make no date or moment. -/
inductive Fault where
  | year (given : Nat)
  | month
  | day
  | hour
  | minute
  | second
  /-- An offset of a day or more, in seconds. -/
  | offset (seconds : Int)
  deriving DecidableEq, Repr

/-- A day has so many seconds. -/
def secondsPerDay : Int := 86400

/-- The constructor form of a span of whole seconds: whole days of any sign and
the rest of a day. -/
def spanForm (seconds : Int) : String :=
  let days := seconds.fdiv secondsPerDay
  let rest := seconds.fmod secondsPerDay
  let parts :=
    (if days = 0 then [] else ["days=" ++ toString days])
      ++ (if rest = 0 then [] else ["seconds=" ++ toString rest])
  "datetime.timedelta(" ++ (if parts.isEmpty then "0" else ", ".intercalate parts) ++ ")"

/-- The report of a fault. -/
def Fault.message : Fault → String
  | .year given => "year " ++ toString given ++ " is out of range"
  | .month => "month must be in 1..12"
  | .day => "day is out of range for month"
  | .hour => "hour must be in 0..23"
  | .minute => "minute must be in 0..59"
  | .second => "second must be in 0..59"
  | .offset seconds =>
    "offset must be a timedelta strictly between -timedelta(hours=24) and timedelta(hours=24), not "
      ++ spanForm seconds ++ "."

/-- The year has a leap day. -/
def isLeap (year : Nat) : Bool :=
  year % 4 == 0 && (year % 100 != 0 || year % 400 == 0)

/-- The number of days of a month. -/
def daysInMonth (year month : Nat) : Nat :=
  if month = 2 then (if isLeap year then 29 else 28)
  else if month = 4 ∨ month = 6 ∨ month = 9 ∨ month = 11 then 30 else 31

/-- The date, if it exists: years run from 1 to 9999. -/
def Date.check (date : Date) : Except Fault Date :=
  if date.year < 1 ∨ 9999 < date.year then .error (.year date.year)
  else if date.month < 1 ∨ 12 < date.month then .error .month
  else if date.day < 1 ∨ daysInMonth date.year date.month < date.day then .error .day
  else .ok date

/-- The time of day, if it exists. -/
def TimeOfDay.check (time : TimeOfDay) : Except Fault TimeOfDay :=
  if 23 < time.hour then .error .hour
  else if 59 < time.minute then .error .minute
  else if 59 < time.second then .error .second
  else .ok time

/-- The moment, if it exists.  The offset is looked at first. -/
def Moment.check (moment : Moment) : Except Fault Moment := do
  match moment.offset with
  | some seconds =>
    if secondsPerDay ≤ seconds ∨ seconds ≤ -secondsPerDay then throw (.offset seconds)
  | none => pure ()
  let _ ← moment.date.check
  let _ ← moment.time.check
  return moment

/-- A number in at least two digits. -/
def two (n : Nat) : String :=
  Double.paddedNat 2 n

/-- The ISO text of a date. -/
def Date.iso (date : Date) : String :=
  Double.paddedNat 4 date.year ++ "-" ++ two date.month ++ "-" ++ two date.day

/-- The ISO text of a time of day; a fraction is written in six digits. -/
def TimeOfDay.iso (time : TimeOfDay) : String :=
  two time.hour ++ ":" ++ two time.minute ++ ":" ++ two time.second
    ++ (if time.microsecond = 0 then "" else "." ++ Double.paddedNat 6 time.microsecond)

/-- The ISO text of an offset; its seconds are written only if there are some. -/
def offsetIso (seconds : Int) : String :=
  let size := seconds.natAbs
  (if seconds < 0 then "-" else "+") ++ two (size / 3600) ++ ":" ++ two (size / 60 % 60)
    ++ (if size % 60 = 0 then "" else ":" ++ two (size % 60))

/-- The text of a moment with the given joint between date and time. -/
def Moment.isoWith (joint : String) (moment : Moment) : String :=
  moment.date.iso ++ joint ++ moment.time.iso ++ (moment.offset.map offsetIso).getD ""

/-- The ISO text of a moment. -/
def Moment.iso (moment : Moment) : String :=
  moment.isoWith "T"

/-- The arguments that show a time of day: the seconds only if they or the
fraction are not zero. -/
def TimeOfDay.arguments (time : TimeOfDay) : List Nat :=
  if time.microsecond ≠ 0 then [time.hour, time.minute, time.second, time.microsecond]
  else if time.second ≠ 0 then [time.hour, time.minute, time.second]
  else [time.hour, time.minute]

/-- Numbers with commas between them. -/
def listed (numbers : List Nat) : String :=
  ", ".intercalate (numbers.map toString)

/-- The constructor form of a date. -/
def Date.form (date : Date) : String :=
  "datetime.date(" ++ listed [date.year, date.month, date.day] ++ ")"

/-- The constructor form of a time of day. -/
def TimeOfDay.form (time : TimeOfDay) : String :=
  "datetime.time(" ++ listed time.arguments ++ ")"

/-- The constructor form of an offset. -/
def offsetForm (seconds : Int) : String :=
  if seconds = 0 then "datetime.timezone.utc"
  else "datetime.timezone(" ++ spanForm seconds ++ ")"

/-- The constructor form of a moment. -/
def Moment.form (moment : Moment) : String :=
  let date := [moment.date.year, moment.date.month, moment.date.day]
  "datetime.datetime(" ++ listed (date ++ moment.time.arguments)
    ++ (moment.offset.map fun seconds => ", tzinfo=" ++ offsetForm seconds).getD "" ++ ")"

/-- The number of days from the first day of year 1 to a date. -/
def Date.ordinal (date : Date) : Nat :=
  let past := date.year - 1
  let years := past * 365 + past / 4 - past / 100 + past / 400
  let months := (List.range (date.month - 1)).foldl
    (fun days month => days + daysInMonth date.year (month + 1)) 0
  years + months + (date.day - 1)

/-- The microseconds from the first day of year 1 to a moment, on its own clock. -/
def Moment.local (moment : Moment) : Int :=
  let seconds := ((moment.date.ordinal * 24 + moment.time.hour) * 60 + moment.time.minute) * 60
    + moment.time.second
  (seconds * 1000000 + moment.time.microsecond : Nat)

/-- The moments are the same: those with an offset as points of universal time,
those without one by their own clocks, and never one of each. -/
def Moment.same (x y : Moment) : Bool :=
  match x.offset, y.offset with
  | some a, some b => x.local - a * 1000000 == y.local - b * 1000000
  | none, none => x == y
  | _, _ => false

end ContentCatalog.Calendar
