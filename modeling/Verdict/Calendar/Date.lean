/-!
# Dates of the proleptic Gregorian calendar

Days are numbered from 1970-01-01. Years run from -262143 to 262142.
-/

namespace Verdict

structure Date where
  year : Int
  month : Nat
  day : Nat
deriving DecidableEq, Repr, Inhabited

namespace Date

def isLeapYear (year : Int) : Bool :=
  year % 4 == 0 && (year % 100 != 0 || year % 400 == 0)

def daysInMonth (year : Int) (month : Nat) : Nat :=
  if month = 2 then (if isLeapYear year then 29 else 28)
  else if month = 4 ∨ month = 6 ∨ month = 9 ∨ month = 11 then 30
  else 31

/-- Whether the month and the day exist and the year is in range. -/
def isValid (date : Date) : Bool :=
  -262143 ≤ date.year && date.year ≤ 262142 && 1 ≤ date.month && date.month ≤ 12
    && 1 ≤ date.day && date.day ≤ daysInMonth date.year date.month

def ofFields? (year : Int) (month day : Nat) : Option Date :=
  let date : Date := ⟨year, month, day⟩
  if date.isValid then some date else none

/-- Days from the first day of year 1 to the first day of a year. -/
def daysBeforeYear (year : Int) : Int :=
  let past := year - 1
  365 * past + past / 4 - past / 100 + past / 400

/-- Days from the first day of a year to the first day after `month` of its months. -/
def daysBeforeMonth (year : Int) : Nat → Nat
  | 0 => 0
  | month + 1 => daysBeforeMonth year month + daysInMonth year (month + 1)

/-- The first day of year 1 is this many days before 1970-01-01. -/
def epoch : Int := 719162

def dayNumber (date : Date) : Int :=
  daysBeforeYear date.year + daysBeforeMonth date.year (date.month - 1) + (date.day - 1) - epoch

/-- Splits the days of a year, counted from zero, into month and day. -/
def monthOfDays (year : Int) : Nat → Nat → Nat → Nat × Nat
  | 0, month, days => (month, days + 1)
  | fuel + 1, month, days =>
    let length := daysInMonth year month
    if days < length then (month, days + 1) else monthOfDays year fuel (month + 1) (days - length)

/-- The date of a day: 400 years have 146097 days, and a year in them is a century, a cycle of four
years and a rest, the last century and the last year of a cycle being a day longer. -/
def ofDayNumber (n : Int) : Date :=
  let days := n + epoch
  let era := days / 146097
  let rest := (days % 146097).toNat
  let century := min 3 (rest / 36524)
  let rest := rest - century * 36524
  let cycle := rest / 1461
  let rest := rest - cycle * 1461
  let years := min 3 (rest / 365)
  let year := 400 * era + 100 * century + 4 * cycle + years + 1
  let (month, day) := monthOfDays year 11 1 (rest - years * 365)
  ⟨year, month, day⟩

/-- A number in at least `width` digits. -/
def padded (width n : Nat) : String :=
  let digits := Nat.repr n
  String.ofList (List.replicate (width - digits.length) '0') ++ digits

/-- `YYYY-MM-DD`; a year outside `0 … 9999` has a sign. -/
def toText (date : Date) : String :=
  let sign := if date.year < 0 then "-" else if 9999 < date.year then "+" else ""
  sign ++ padded 4 date.year.natAbs ++ "-" ++ padded 2 date.month ++ "-" ++ padded 2 date.day

end Date

end Verdict
