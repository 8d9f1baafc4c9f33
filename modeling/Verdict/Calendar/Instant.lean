import Verdict.Calendar.Date

/-!
# Instants

An instant is a second of universal time and nanoseconds in it; in a leap second, which is counted
as part of the second before, the nanoseconds are a thousand million or more.
-/

namespace Verdict

structure Instant where
  /-- Seconds from 1970-01-01T00:00:00Z. -/
  seconds : Int
  nanos : Nat
deriving DecidableEq, Repr, Inhabited

namespace Instant

def before (a b : Instant) : Bool :=
  a.seconds < b.seconds || (a.seconds == b.seconds && a.nanos < b.nanos)

/-- The day of the instant in universal time. -/
def dayNumber (a : Instant) : Int := a.seconds / 86400

def date (a : Instant) : Date := Date.ofDayNumber a.dayNumber

end Instant

/-- A time of day; the second may be 60. -/
structure TimeOfDay where
  hour : Nat
  minute : Nat
  second : Nat
  nanos : Nat
deriving DecidableEq, Repr, Inhabited

namespace TimeOfDay

def midnight : TimeOfDay := ⟨0, 0, 0, 0⟩

def isValid (time : TimeOfDay) : Bool :=
  time.hour ≤ 23 && time.minute ≤ 59 && time.second ≤ 60 && time.nanos < 1000000000

end TimeOfDay

/-- The instant of a date and time that is `offset` seconds ahead of universal time. -/
def Instant.ofCivil (date : Date) (time : TimeOfDay) (offset : Int) : Instant :=
  let leap := time.second = 60
  let second := if leap then 59 else time.second
  { seconds :=
      date.dayNumber * 86400 + (time.hour * 3600 + time.minute * 60 + second : Nat) - offset
    nanos := if leap then time.nanos + 1000000000 else time.nanos }

end Verdict
