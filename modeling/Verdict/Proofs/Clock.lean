import Verdict.Proofs.Calendar

/-!
# Instants by calendar and clock

An instant is at one date and one time of day in universal time (`Instant.date`,
`Instant.timeOfDay`), and it is the instant of that date and that time (`Instant.date_ofCivil`,
`Instant.timeOfDay_ofCivil`). A clock that is ahead or behind may show another date, which is then
the next or the previous one of the calendar (`Instant.date_ofCivil_carried`).
-/

namespace Verdict

namespace TimeOfDay

/-- Whole minutes since midnight. -/
def minutes (time : TimeOfDay) : Nat := time.hour * 60 + time.minute

/-- The time at so many minutes since midnight, whole days aside. -/
def atMinutes (time : TimeOfDay) (minutes : Int) : TimeOfDay :=
  { time with hour := (minutes % 1440 / 60).toNat, minute := (minutes % 60).toNat }

theorem isValid_iff {time : TimeOfDay} : time.isValid = true ↔
    time.hour ≤ 23 ∧ time.minute ≤ 59 ∧ time.second ≤ 60 ∧ time.nanos < 1000000000 := by
  simp only [isValid, Bool.and_eq_true, decide_eq_true_eq, and_assoc]

theorem minutes_lt {time : TimeOfDay} (h : time.isValid = true) : time.minutes < 1440 := by
  have := isValid_iff.mp h
  unfold minutes
  omega

theorem atMinutes_minutes {time : TimeOfDay} (h : time.isValid = true) :
    time.atMinutes time.minutes = time := by
  obtain ⟨hour, minute, second, nanos⟩ := time
  have := isValid_iff.mp h
  simp only at this
  simp only [atMinutes, minutes, TimeOfDay.mk.injEq, and_true]
  omega

end TimeOfDay

/-- The date that so many minutes since midnight of a date fall on, less than a day away. -/
def Date.atMinutes (date : Date) (minutes : Int) : Date :=
  if minutes < 0 then date.previous else if 1440 ≤ minutes then date.next else date

namespace Instant

/-- So many seconds later. -/
def later (a : Instant) (seconds : Int) : Instant := { a with seconds := a.seconds + seconds }

/-- The time of day in universal time. -/
def timeOfDay (a : Instant) : TimeOfDay :=
  let second := (a.seconds % 86400).toNat
  let leap := 1000000000 ≤ a.nanos
  { hour := second / 3600
    minute := second / 60 % 60
    second := if leap then second % 60 + 1 else second % 60
    nanos := if leap then a.nanos - 1000000000 else a.nanos }

variable {date : Date} {time : TimeOfDay}

theorem ofCivil_offset (date : Date) (time : TimeOfDay) (offset : Int) :
    ofCivil date time offset = (ofCivil date time 0).later (-offset) := by
  simp only [ofCivil, later, Instant.mk.injEq, and_true]
  omega

/-- A time behind by whole minutes, as days, minutes of a day and seconds of a minute. -/
theorem seconds_ofCivil (htime : time.isValid = true) (date : Date) (ahead : Int) :
    ∃ second : Nat, second = (if time.second = 60 then 59 else time.second) ∧ second < 60 ∧
      (ofCivil date time (ahead * 60)).seconds =
        86400 * (date.dayNumber + (time.minutes - ahead) / 1440) +
          60 * ((time.minutes - ahead) % 1440) + second := by
  have htime := TimeOfDay.isValid_iff.mp htime
  refine ⟨_, rfl, by split <;> omega, ?_⟩
  simp only [ofCivil, TimeOfDay.minutes]
  split <;> omega

theorem date_ofCivil_carried (hdate : date.IsReal) (htime : time.isValid = true) (ahead : Int)
    (h : -1440 < ahead ∧ ahead < 1440) :
    (ofCivil date time (ahead * 60)).date = date.atMinutes (time.minutes - ahead) := by
  obtain ⟨second, -, hsecond, hseconds⟩ := seconds_ofCivil htime date ahead
  have hday : (ofCivil date time (ahead * 60)).dayNumber =
      date.dayNumber + (time.minutes - ahead) / 1440 := by
    rw [dayNumber, hseconds]
    omega
  have hminutes := TimeOfDay.minutes_lt htime
  rw [Instant.date, hday, Date.atMinutes]
  split
  next hbefore =>
    have hprevious : date.dayNumber + (time.minutes - ahead) / 1440 = date.previous.dayNumber := by
      rw [Date.dayNumber_previous hdate]
      omega
    rw [hprevious, Date.ofDayNumber_dayNumber hdate.previous]
  next =>
    split
    next hafter =>
      have hnext : date.dayNumber + (time.minutes - ahead) / 1440 = date.next.dayNumber := by
        rw [Date.dayNumber_next hdate]
        omega
      rw [hnext, Date.ofDayNumber_dayNumber hdate.next]
    next =>
      have hsame : date.dayNumber + (time.minutes - ahead) / 1440 = date.dayNumber := by omega
      rw [hsame, Date.ofDayNumber_dayNumber hdate]

theorem timeOfDay_ofCivil_carried (htime : time.isValid = true) (date : Date) (ahead : Int) :
    (ofCivil date time (ahead * 60)).timeOfDay = time.atMinutes (time.minutes - ahead) := by
  obtain ⟨second, hsecond, hlt, hseconds⟩ := seconds_ofCivil htime date ahead
  obtain ⟨-, -, hsixty, hnanos⟩ := TimeOfDay.isValid_iff.mp htime
  have hofDay : ((ofCivil date time (ahead * 60)).seconds % 86400).toNat =
      ((time.minutes - ahead) % 1440).toNat * 60 + second := by
    rw [hseconds]
    omega
  simp only [timeOfDay, hofDay, TimeOfDay.atMinutes]
  clear hseconds hofDay
  generalize (time.minutes - ahead : Int) = total
  -- the nanoseconds tell a leap second, which is counted as part of the one before
  by_cases hleap : time.second = 60
  · rw [if_pos hleap] at hsecond
    simp only [ofCivil, if_pos hleap, TimeOfDay.mk.injEq]
    rw [if_pos (by omega), if_pos (by omega)]
    omega
  · rw [if_neg hleap] at hsecond
    simp only [ofCivil, if_neg hleap, TimeOfDay.mk.injEq]
    rw [if_neg (by omega), if_neg (by omega)]
    omega

theorem date_ofCivil (hdate : date.IsReal) (htime : time.isValid = true) :
    (ofCivil date time 0).date = date := by
  have hminutes := TimeOfDay.minutes_lt htime
  have hcarried := date_ofCivil_carried hdate htime 0 (by decide)
  rw [Int.zero_mul, Int.sub_zero] at hcarried
  rw [hcarried, Date.atMinutes, if_neg (by omega), if_neg (by omega)]

theorem timeOfDay_ofCivil (htime : time.isValid = true) (date : Date) :
    (ofCivil date time 0).timeOfDay = time := by
  have hcarried := timeOfDay_ofCivil_carried htime date 0
  rw [Int.zero_mul, Int.sub_zero] at hcarried
  rw [hcarried, TimeOfDay.atMinutes_minutes htime]

end Instant

end Verdict
