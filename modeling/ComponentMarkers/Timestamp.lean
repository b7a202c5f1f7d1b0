/-!
# Points in time as they are written

A marker says when it was written: day of the week, date, time of day, distance from universal time and
year, as in `Mon Oct 19 14:03:11 +02:00 2026`.  The day of the week follows from the date.
-/

namespace ComponentMarkers

/-- A date and time of day at a place with a given distance from universal time. -/
structure Timestamp where
  year : Nat
  /-- From 1 to 12. -/
  month : Nat
  /-- From 1 to the length of the month. -/
  day : Nat
  hour : Nat
  minute : Nat
  second : Nat
  /-- The place is ahead of universal time or keeps it. -/
  isAhead : Bool
  offsetHours : Nat
  offsetMinutes : Nat
  deriving DecidableEq, Repr

namespace Timestamp

/-- Short names of the days of the week. -/
def weekdayNames : List String :=
  ["Mon", "Tue", "Wed", "Thu", "Fri", "Sat", "Sun"]

/-- Short names of the months. -/
def monthNames : List String :=
  ["Jan", "Feb", "Mar", "Apr", "May", "Jun", "Jul", "Aug", "Sep", "Oct", "Nov", "Dec"]

/-- A year with a 29th of February. -/
def isLeapYear (year : Nat) : Bool :=
  (year % 4 == 0 && year % 100 != 0) || year % 400 == 0

/-- The lengths of the months of a year. -/
def monthLengths (year : Nat) : List Nat :=
  [31, if isLeapYear year then 29 else 28, 31, 30, 31, 30, 31, 31, 30, 31, 30, 31]

/-- The days from the first day of the year 1 to the first day of a year. -/
def daysBeforeYear (year : Nat) : Nat :=
  let past := year - 1
  past * 365 + past / 4 - past / 100 + past / 400

/-- The days from the first day of the year 1, a Monday, to the date. -/
def dayNumber (time : Timestamp) : Nat :=
  daysBeforeYear time.year + ((monthLengths time.year).take (time.month - 1)).foldl (· + ·) 0 + (time.day - 1)

/-- The day of the week. -/
def weekdayName (time : Timestamp) : String :=
  (weekdayNames[time.dayNumber % 7]?).getD ""

/-- The name of the month. -/
def monthName (time : Timestamp) : String :=
  (monthNames[time.month - 1]?).getD ""

/-- A number with at least `width` digits. -/
def padded (width n : Nat) : String :=
  let digits := toString n
  String.ofList (List.replicate (width - digits.length) '0') ++ digits

/-- The time as it is written. -/
def text (time : Timestamp) : String :=
  " ".intercalate
    [time.weekdayName, time.monthName, padded 2 time.day,
      ":".intercalate [padded 2 time.hour, padded 2 time.minute, padded 2 time.second],
      (if time.isAhead then "+" else "-") ++ padded 2 time.offsetHours ++ ":" ++
        padded 2 time.offsetMinutes,
      padded 4 time.year]

/-- The fields are within the bounds of calendar and clock. -/
def isValid (time : Timestamp) : Bool :=
  1 ≤ time.year && time.year ≤ 9999 && 1 ≤ time.month && time.month ≤ 12 && 1 ≤ time.day &&
    time.day ≤ ((monthLengths time.year)[time.month - 1]?).getD 0 && time.hour < 24 &&
    time.minute < 60 && time.second < 60 && time.offsetHours < 24 && time.offsetMinutes < 60

/-- The number that some decimal digits write. -/
def digits? (cs : List Char) : Option Nat :=
  if cs.all Char.isDigit then
    some (cs.foldl (fun n c => n * 10 + (c.toNat - 48)) 0)
  else
    none

/-- The fields at their places in a written time; what it says is not checked. -/
def fields? : List Char → Option Timestamp
  | _ :: _ :: _ :: ' ' :: m₁ :: m₂ :: m₃ :: ' ' :: d₁ :: d₂ :: ' ' :: h₁ :: h₂ :: ':' :: i₁ :: i₂ ::
      ':' :: s₁ :: s₂ :: ' ' :: sign :: o₁ :: o₂ :: ':' :: p₁ :: p₂ :: ' ' :: year =>
    if year.length = 4 then do
      return {
        year := ← digits? year
        month := (monthNames.idxOf (String.ofList [m₁, m₂, m₃])) + 1
        day := ← digits? [d₁, d₂]
        hour := ← digits? [h₁, h₂]
        minute := ← digits? [i₁, i₂]
        second := ← digits? [s₁, s₂]
        isAhead := sign = '+'
        offsetHours := ← digits? [o₁, o₂]
        offsetMinutes := ← digits? [p₁, p₂] }
    else
      none
  | _ => none

/-- The time that a text writes, none when it writes none.  The day of the week has to be the right
one. -/
def ofText? (s : String) : Option Timestamp :=
  (fields? s.toList).filter fun time => time.isValid && time.text = s

end Timestamp

end ComponentMarkers
