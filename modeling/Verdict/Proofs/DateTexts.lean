import Verdict.Proofs.Clock
import Verdict.Proofs.DateForms

/-!
# Texts of dates and times

A date is read from its text (`Date.Fits.read?_toText`), and a date and a time from the text of
both, blanks around either aside. The text of both may end in `Z` (`Timestamp.read?_utc`) or not,
and have a blank in place of the `T` (`Timestamp.read?_plain`); what it names shows the date and the
time in universal time. With another offset (`Timestamp.read?_offset`) the date may be a
neighbouring one (`Timestamp.shows_later`).
-/

namespace Verdict

open Calendar

namespace Date

variable {date : Date} {before after : String}

/-- Dates whose month and day can be written in two digits, real or not. -/
structure Fits (date : Date) : Prop where
  month_lt : date.month < 100
  day_lt : date.day < 100

theorem IsReal.fits (h : date.IsReal) : date.Fits where
  month_lt := Nat.lt_of_le_of_lt h.month_le (by decide)
  day_lt := Nat.lt_of_le_of_lt h.day_le (by decide)

/-- Years that are written in four digits, without a sign. -/
def HasPlainYear (date : Date) : Prop := 0 ≤ date.year ∧ date.year ≤ 9999

theorem HasPlainYear.isValid (h : date.HasPlainYear) (hreal : date.IsReal) :
    date.isValid = true := by
  obtain ⟨_, _⟩ := h
  exact isValid_iff.mpr ⟨hreal, by omega, by omega⟩

theorem Fits.digits_month (h : date.Fits) : Digits 2 (padded 2 date.month).toList :=
  digits_padded (by decide) h.month_lt

theorem Fits.digits_day (h : date.Fits) : Digits 2 (padded 2 date.day).toList :=
  digits_padded (by decide) h.day_lt

theorem HasPlainYear.digits (h : date.HasPlainYear) :
    Digits 4 (padded 4 date.year.natAbs).toList := by
  obtain ⟨_, _⟩ := h
  exact digits_padded (by decide) (by omega)

/-- The sign of a year, if it has one. -/
def sign (date : Date) : List Char :=
  if date.year < 0 then ['-'] else if 9999 < date.year then ['+'] else []

theorem toList_toText (date : Date) : date.toText.toList =
    date.sign ++ joined '-' (padded 4 date.year.natAbs).toList (padded 2 date.month).toList
      (padded 2 date.day).toList := by
  simp only [toText, sign, String.toList_append, joined]
  split
  · simp
  · split <;> simp

theorem HasPlainYear.toList_toText (h : date.HasPlainYear) : date.toText.toList =
    joined '-' (padded 4 date.year.natAbs).toList (padded 2 date.month).toList
      (padded 2 date.day).toList := by
  obtain ⟨_, _⟩ := h
  rw [Date.toList_toText, sign, if_neg (by omega), if_neg (by omega), List.nil_append]

theorem toList_padded_ne_nil (width n : Nat) : (padded width n).toList ≠ [] := by
  rw [Calendar.toList_padded]
  exact List.append_ne_nil_of_right_ne_nil _ Nat.toDigits_ne_nil

/-- A year with a sign is read to its last digit. -/
theorem number_year (n : Nat) (rest : List Char) :
    number ((padded 4 n).toList ++ '-' :: rest).length ((padded 4 n).toList ++ '-' :: rest) =
      some (n, '-' :: rest) := by
  have hstops : Stops ('-' :: rest) := by
    rintro c ⟨⟩
    rfl
  rw [number_append isDigit_of_mem_padded (toList_padded_ne_nil 4 n) (by simp) (.inr hstops),
    value_padded]

theorem year_sign (date : Date) (rest : List Char) :
    Calendar.year (date.sign ++ ((padded 4 date.year.natAbs).toList ++ '-' :: rest)) =
      some (date.year, '-' :: rest) := by
  unfold sign
  split
  next hnegative =>
    have hyear : -(date.year.natAbs : Int) = date.year := by omega
    rw [List.singleton_append, year_minus, number_year]
    exact congrArg (fun n => some (n, '-' :: rest)) hyear
  next hpositive =>
    have hyear : (date.year.natAbs : Int) = date.year := by omega
    split
    next =>
      rw [List.singleton_append, year_plus, number_year]
      exact congrArg (fun n => some (n, '-' :: rest)) hyear
    next hsmall =>
      have hplain : date.HasPlainYear := ⟨by omega, by omega⟩
      rw [List.nil_append, year_append hplain.digits, value_padded, hyear]

theorem Fits.date_toText (h : date.Fits) (rest : List Char) :
    Calendar.date (date.toText.toList ++ rest) = some ((date.year, date.month, date.day), rest) := by
  have hyear := year_sign date
    ((padded 2 date.month).toList ++ '-' :: ((padded 2 date.day).toList ++ rest))
  simp only [toList_toText, joined, List.append_assoc, List.cons_append]
  rw [date_of_year hyear h.digits_month h.digits_day, value_padded, value_padded]

/-- A year with a sign is not read in the strict form. -/
theorem Fits.strict_toText_of_no_separator (h : date.Fits) {rest : List Char}
    (hseparator : separator rest = none) : strict (date.toText.toList ++ rest) = none := by
  by_cases hyear : date.HasPlainYear
  · rw [hyear.toList_toText]
    exact strict_of_no_separator hyear.digits h.digits_month h.digits_day hseparator
  · obtain ⟨c, hsign, hc⟩ : ∃ c, date.sign = [c] ∧ isDigit c = false := by
      unfold HasPlainYear at hyear
      unfold sign
      split
      · exact ⟨'-', rfl, rfl⟩
      · rw [if_pos (by omega)]
        exact ⟨'+', rfl, rfl⟩
    rw [Date.toList_toText, hsign]
    exact strict_of_not_digit hc

theorem solid_toText (date : Date) : Text.Solid date.toText.toList := by
  have hsign : Text.Solid date.sign := by
    unfold sign
    split
    · simp [Text.Solid, Text.isBlank]
    · split <;> simp [Text.Solid, Text.isBlank]
  rw [toList_toText, Text.solid_append]
  exact ⟨hsign, solid_joined rfl (solid_padded _ _) (solid_padded _ _) (solid_padded _ _)⟩

theorem isTrimmed_toText (date : Date) : Text.IsTrimmed date.toText.toList := by
  refine date.solid_toText.isTrimmed ?_
  rw [toList_toText]
  exact List.append_ne_nil_of_right_ne_nil _ (joined_ne_nil _)

/-- A date alone is read as the midnight it begins with, if there is such a date. -/
theorem Fits.read?_toText (h : date.Fits) (hbefore : Text.isBlankText before = true)
    (hafter : Text.isBlankText after = true) :
    Instant.read? (before ++ date.toText ++ after) =
      instant? date.year date.month date.day .midnight 0 := by
  -- nothing follows the date: no separator, no `T` and behind no blanks a time
  have hdate := h.date_toText []
  have hstrict : strict (date.toText.toList ++ []) = none := h.strict_toText_of_no_separator rfl
  rw [List.append_nil] at hdate hstrict
  rw [Instant.read?_of_isTrimmed hbefore hafter date.isTrimmed_toText, hstrict,
    dateTime_of_date _ hdate, dateTime_of_date _ hdate, dateOnly_of_date hdate]
  rfl

end Date

theorem Calendar.instant?_of_isValid {date : Date} {time : TimeOfDay} (hdate : date.isValid = true)
    (htime : time.isValid = true) (offset : Int) :
    instant? date.year date.month date.day time offset = some (.ofCivil date time offset) := by
  have hfields : Date.ofFields? date.year date.month date.day = some date := if_pos hdate
  simp only [instant?, hfields, Option.bind_eq_bind, Option.bind_some, if_pos htime]

namespace TimeOfDay

/-- `hh:mm:ss`, the fraction left out. -/
def toText (time : TimeOfDay) : String :=
  Date.padded 2 time.hour ++ ":" ++ Date.padded 2 time.minute ++ ":" ++ Date.padded 2 time.second

theorem toList_toText (time : TimeOfDay) : time.toText.toList =
    joined ':' (Date.padded 2 time.hour).toList (Date.padded 2 time.minute).toList
      (Date.padded 2 time.second).toList := by
  simp [toText, joined]

theorem digits {time : TimeOfDay} (h : time.isValid = true) :
    Digits 2 (Date.padded 2 time.hour).toList ∧ Digits 2 (Date.padded 2 time.minute).toList ∧
      Digits 2 (Date.padded 2 time.second).toList := by
  have htime := isValid_iff.mp h
  exact ⟨digits_padded (by decide) (by omega), digits_padded (by decide) (by omega),
    digits_padded (by decide) (by omega)⟩

end TimeOfDay

/-- A fraction of a second in at most nine digits. -/
structure Fraction where
  width : Nat
  digits : Nat
  width_le : width ≤ 9
  digits_lt : digits < 10 ^ width

namespace Fraction

/-- A point and the digits; without digits the point is left out. -/
def toText (fraction : Fraction) : String :=
  if fraction.width = 0 then "" else "." ++ Date.padded fraction.width fraction.digits

def nanos (fraction : Fraction) : Nat := fraction.digits * 10 ^ (9 - fraction.width)

/-- What may stand behind a fraction: neither a digit nor a point. -/
def Ends (rest : List Char) : Prop := ∀ c ∈ rest.head?, isDigit c = false ∧ c ≠ '.'

theorem fraction_toText (fraction : Fraction) {rest : List Char} (h : Ends rest) :
    Calendar.fraction (fraction.toText.toList ++ rest) = some (fraction.nanos, rest) := by
  obtain ⟨width, digits, hwidth, hdigits⟩ := fraction
  cases width with
  | zero =>
    have hzero : digits = 0 := by simpa using hdigits
    have hpoint : rest.head? ≠ some '.' := fun hhead => (h _ hhead).2 rfl
    simp only [toText, nanos, hzero, Nat.zero_mul]
    exact fraction_of_no_point hpoint
  | succ width =>
    have hread := fraction_of_digits (digits_padded (Nat.succ_pos width) hdigits) hwidth
      (fun c hc => (h c hc).1)
    rw [value_padded] at hread
    simpa [toText, nanos] using hread

theorem solid_toText (fraction : Fraction) : Text.Solid fraction.toText.toList := by
  unfold toText
  split
  · exact fun c hc => absurd hc List.not_mem_nil
  · rw [String.toList_append, Text.solid_append]
    exact ⟨by simp [Text.Solid, Text.isBlank], solid_padded _ _⟩

end Fraction

/-- What an instant shows in universal time. -/
structure Instant.Shows (instant : Instant) (date : Date) (time : TimeOfDay) : Prop where
  date_eq : instant.date = date
  timeOfDay_eq : instant.timeOfDay = time

/-- An offset without its sign. -/
def Calendar.zone (hours minutes : Nat) : String :=
  Date.padded 2 hours ++ ":" ++ Date.padded 2 minutes

/-- A date and a time of day as they can be written with a year in four digits. -/
structure Timestamp where
  date : Date
  time : TimeOfDay
  fraction : Fraction
  isReal : date.IsReal
  plainYear : date.HasPlainYear
  isValid : time.isValid = true
  nanos_eq : time.nanos = fraction.nanos

namespace Timestamp

variable {stamp : Timestamp} {before after : String} {c : Char} {rest : List Char}

/-- `YYYY-MM-DD`, what stands between, `hh:mm:ss` with the fraction, and what follows. -/
def text (stamp : Timestamp) (between zone : String) : String :=
  stamp.date.toText ++ between ++ stamp.time.toText ++ stamp.fraction.toText ++ zone

/-- The instant of the date and the time in universal time. -/
def instant (stamp : Timestamp) : Instant := .ofCivil stamp.date stamp.time 0

/-- The text from the time on. -/
def clock (stamp : Timestamp) (rest : List Char) : List Char :=
  stamp.time.toText.toList ++ (stamp.fraction.toText.toList ++ rest)

theorem toList_text (stamp : Timestamp) {between zone : String} (h : between.toList = [c]) :
    (stamp.text between zone).toList =
      stamp.date.toText.toList ++ c :: stamp.clock zone.toList := by
  simp [text, clock, h]

theorem isTrimmed_text (stamp : Timestamp) (hrest : Text.Solid rest) :
    Text.IsTrimmed (stamp.date.toText.toList ++ c :: stamp.clock rest) := by
  have hclock : Text.Solid (stamp.clock rest) := by
    rw [clock, TimeOfDay.toList_toText, Text.solid_append, Text.solid_append]
    exact ⟨solid_joined rfl (solid_padded _ _) (solid_padded _ _) (solid_padded _ _),
      stamp.fraction.solid_toText, hrest⟩
  have hne : stamp.clock rest ≠ [] := by
    rw [clock, TimeOfDay.toList_toText]
    exact List.append_ne_nil_of_left_ne_nil (joined_ne_nil _) _
  have htrimmed := stamp.date.isTrimmed_toText.append (hclock.isTrimmed hne) [c]
  rwa [List.singleton_append] at htrimmed

theorem time_eq (stamp : Timestamp) :
    (⟨stamp.time.hour, stamp.time.minute, stamp.time.second, stamp.fraction.nanos⟩ : TimeOfDay) =
      stamp.time := by
  rw [← stamp.nanos_eq]

theorem instant?_eq (stamp : Timestamp) (offset : Int) :
    instant? stamp.date.year stamp.date.month stamp.date.day stamp.time offset =
      some (.ofCivil stamp.date stamp.time offset) :=
  instant?_of_isValid (stamp.plainYear.isValid stamp.isReal) stamp.isValid offset

/-- In the strict form all but the offset is read. -/
theorem strict_text (stamp : Timestamp) (hc : c = 'T' ∨ c = 't' ∨ c = ' ')
    (hrest : Fraction.Ends rest) :
    strict (stamp.date.toText.toList ++ c :: stamp.clock rest) =
      (offset rest).bind fun read =>
        if read.2.isEmpty then some (.ofCivil stamp.date stamp.time read.1) else none := by
  obtain ⟨hhour, hminute, hsecond⟩ := TimeOfDay.digits stamp.isValid
  have hyear : (stamp.date.year.natAbs : Int) = stamp.date.year :=
    Int.natAbs_of_nonneg stamp.plainYear.1
  rw [stamp.plainYear.toList_toText, clock, TimeOfDay.toList_toText,
    strict_joined stamp.plainYear.digits stamp.isReal.fits.digits_month stamp.isReal.fits.digits_day
      hhour hminute hsecond hc (stamp.fraction.fraction_toText hrest)]
  simp only [value_padded, hyear, time_eq, instant?_eq]

theorem time_clock (stamp : Timestamp) : Calendar.time (stamp.clock []) = some (stamp.time, []) := by
  obtain ⟨hhour, hminute, hsecond⟩ := TimeOfDay.digits stamp.isValid
  have hends : Fraction.Ends [] := by rintro c ⟨⟩
  rw [clock, TimeOfDay.toList_toText,
    time_joined hhour hminute hsecond (stamp.fraction.fraction_toText hends)]
  simp only [value_padded, time_eq]

/-- Without an offset all of the text is read. -/
theorem dateTime_text (stamp : Timestamp) {between : Scan Unit}
    (hbetween : between (c :: stamp.clock []) = some ((), stamp.clock [])) :
    dateTime between (stamp.date.toText.toList ++ c :: stamp.clock []) = some stamp.instant := by
  rw [dateTime_of_date between (stamp.isReal.fits.date_toText _), hbetween, Option.bind_some,
    stamp.time_clock, Option.bind_some]
  exact stamp.instant?_eq 0

theorem blanks_clock (stamp : Timestamp) :
    blanks (' ' :: stamp.clock []) = some ((), stamp.clock []) := by
  obtain ⟨hhour, -, -⟩ := TimeOfDay.digits stamp.isValid
  have hblank : Text.isBlank ' ' = true := rfl
  rw [blanks, List.dropWhile_cons_of_pos hblank]
  simp only [clock, TimeOfDay.toList_toText, joined, List.append_assoc, dropWhile_isBlank hhour]

theorem shows_instant (stamp : Timestamp) : stamp.instant.Shows stamp.date stamp.time where
  date_eq := Instant.date_ofCivil stamp.isReal stamp.isValid
  timeOfDay_eq := Instant.timeOfDay_ofCivil stamp.isValid stamp.date

/-- Within a day the clock is carried to the neighbouring date. -/
theorem shows_later (stamp : Timestamp) {minutes : Int} (h : -1440 < minutes ∧ minutes < 1440) :
    (stamp.instant.later (minutes * 60)).Shows
      (stamp.date.atMinutes (stamp.time.minutes + minutes))
      (stamp.time.atMinutes (stamp.time.minutes + minutes)) := by
  have hinstant : stamp.instant.later (minutes * 60) =
      .ofCivil stamp.date stamp.time (-minutes * 60) := by
    rw [Instant.ofCivil_offset, Int.neg_mul, Int.neg_neg]
    rfl
  have hminutes : (stamp.time.minutes + minutes : Int) = stamp.time.minutes - -minutes := by omega
  rw [hinstant, hminutes]
  exact ⟨Instant.date_ofCivil_carried stamp.isReal stamp.isValid _ (by omega),
    Instant.timeOfDay_ofCivil_carried stamp.isValid stamp.date _⟩

section
variable (stamp : Timestamp) (hbefore : Text.isBlankText before = true)
  (hafter : Text.isBlankText after = true)
include hbefore hafter

theorem read?_text {between zone : String} {cs : List Char} (hbetween : between.toList = [c])
    (hzone : Text.Solid zone.toList)
    (hcs : stamp.date.toText.toList ++ c :: stamp.clock zone.toList = cs) :
    Instant.read? (before ++ stamp.text between zone ++ after) =
      (strict cs).or ((dateTime (literal 'T') cs).or ((dateTime blanks cs).or (dateOnly cs))) := by
  have htext : (stamp.text between zone).toList =
      stamp.date.toText.toList ++ c :: stamp.clock zone.toList := stamp.toList_text hbetween
  have htrimmed : Text.IsTrimmed (stamp.text between zone).toList := by
    rw [htext]
    exact stamp.isTrimmed_text hzone
  rw [Instant.read?_of_isTrimmed hbefore hafter htrimmed, htext, hcs]

/-- A text with an offset is read in the strict form. -/
theorem read?_zoned {zone : String} {ahead : Int} (hzone : Text.Solid zone.toList)
    (hends : Fraction.Ends zone.toList) (hoffset : offset zone.toList = some (ahead, [])) :
    Instant.read? (before ++ stamp.text "T" zone ++ after) =
      some (.ofCivil stamp.date stamp.time ahead) := by
  rw [stamp.read?_text hbefore hafter (c := 'T') rfl hzone rfl, stamp.strict_text (.inl rfl) hends,
    hoffset]
  rfl

theorem read?_utc : Instant.read? (before ++ stamp.text "T" "Z" ++ after) = some stamp.instant :=
  stamp.read?_zoned hbefore hafter (by simp [Text.Solid, Text.isBlank]) (by rintro c ⟨⟩; decide) rfl

/-- A text without an offset is read in the form for what stands between its date and its time. -/
theorem read?_plain : Instant.read? (before ++ stamp.text "T" "" ++ after) = some stamp.instant ∧
    Instant.read? (before ++ stamp.text " " "" ++ after) = some stamp.instant := by
  have hzone : Text.Solid "".toList := fun c hc => absurd hc List.not_mem_nil
  have hends : Fraction.Ends [] := by rintro c ⟨⟩
  -- the strict form misses the offset, and the form with `T` stops at a blank in its place
  constructor
  · rw [stamp.read?_text hbefore hafter (c := 'T') rfl hzone rfl, String.toList_empty,
      stamp.strict_text (.inl rfl) hends, stamp.dateTime_text (literal_cons 'T' _)]
    rfl
  · rw [stamp.read?_text hbefore hafter (c := ' ') rfl hzone rfl, String.toList_empty,
      stamp.strict_text (.inr (.inr rfl)) hends,
      dateTime_of_date _ (stamp.isReal.fits.date_toText _), stamp.dateTime_text stamp.blanks_clock]
    rfl

/-- A sign, hours and minutes name an instant that is as much earlier or later. -/
theorem read?_offset {sign : Char} {hours minutes : Nat} (hsign : sign = '+' ∨ sign = '-')
    (hhours : hours ≤ 23) (hminutes : minutes ≤ 59) {ahead : Int}
    (hahead : (hours * 60 + minutes : Nat) = ahead) :
    Instant.read? (before ++ stamp.text "T" (String.singleton sign ++ zone hours minutes) ++ after) =
      some (stamp.instant.later ((if sign = '+' then -ahead else ahead) * 60)) := by
  have htext : (String.singleton sign ++ zone hours minutes).toList =
      sign :: ((Date.padded 2 hours).toList ++ ':' :: (Date.padded 2 minutes).toList) := by
    simp [zone]
  have hdigits : ∀ n ≤ 59, Digits 2 (Date.padded 2 n).toList := fun n hn =>
    digits_padded (by decide) (by omega)
  have hoffset := offset_zone hsign (hdigits hours (by omega)) (hdigits minutes hminutes)
    (by rw [value_padded, value_padded]; exact ⟨hhours, hminutes⟩)
  have hends : Fraction.Ends (String.singleton sign ++ zone hours minutes).toList := by
    rw [htext]
    rintro c ⟨⟩
    rcases hsign with rfl | rfl <;> decide
  have hsolid : Text.Solid (String.singleton sign ++ zone hours minutes).toList := by
    rw [htext]
    simp only [Text.solid_cons, Text.solid_append]
    refine ⟨?_, solid_padded _ _, rfl, solid_padded _ _⟩
    rcases hsign with rfl | rfl <;> rfl
  rw [← htext, value_padded, value_padded] at hoffset
  rw [stamp.read?_zoned hbefore hafter hsolid hends hoffset, Instant.ofCivil_offset]
  refine congrArg (fun seconds => some (stamp.instant.later seconds)) ?_
  split <;> omega

end

/-- All spellings of a date and a time name one instant, which shows them in universal time. With an
offset the instant is earlier or later by it, on the neighbouring date if the clock is carried past
midnight, and a date alone names its midnight. -/
theorem spellings_read (stamp : Timestamp) (before after : String)
    (hbefore : Text.isBlankText before = true) (hafter : Text.isBlankText after = true) :
    let read (text : String) := Instant.read? (before ++ text ++ after)
    stamp.instant.Shows stamp.date stamp.time ∧
    read (stamp.text "T" "Z") = some stamp.instant ∧
    read (stamp.text "T" "") = some stamp.instant ∧
    read (stamp.text " " "") = some stamp.instant ∧
    (∀ hours minutes : Nat, hours ≤ 23 → minutes ≤ 59 →
      let ahead : Int := (hours * 60 + minutes : Nat)
      let earlier := stamp.instant.later (-ahead * 60)
      let later := stamp.instant.later (ahead * 60)
      read (stamp.text "T" ("+" ++ zone hours minutes)) = some earlier ∧
      earlier.Shows (stamp.date.atMinutes (stamp.time.minutes + -ahead))
        (stamp.time.atMinutes (stamp.time.minutes + -ahead)) ∧
      read (stamp.text "T" ("-" ++ zone hours minutes)) = some later ∧
      later.Shows (stamp.date.atMinutes (stamp.time.minutes + ahead))
        (stamp.time.atMinutes (stamp.time.minutes + ahead))) ∧
    ∃ midnight : Instant, read stamp.date.toText = some midnight ∧
      midnight.Shows stamp.date .midnight := by
  intro read
  obtain ⟨hT, hblank⟩ := stamp.read?_plain hbefore hafter
  refine ⟨stamp.shows_instant, stamp.read?_utc hbefore hafter, hT, hblank, ?offset, ?date⟩
  case offset =>
    intro hours minutes hhours hminutes ahead earlier later
    have hday : -1440 < ahead ∧ ahead < 1440 := by omega
    refine ⟨?_, stamp.shows_later (by omega), ?_, stamp.shows_later hday⟩
    · exact stamp.read?_offset hbefore hafter (.inl rfl) hhours hminutes rfl
    · exact stamp.read?_offset hbefore hafter (.inr rfl) hhours hminutes rfl
  case date =>
    have hvalid := stamp.plainYear.isValid stamp.isReal
    exact ⟨_, (stamp.isReal.fits.read?_toText hbefore hafter).trans
      (instant?_of_isValid hvalid rfl 0), Instant.date_ofCivil stamp.isReal rfl,
      Instant.timeOfDay_ofCivil rfl _⟩

/-- Half an hour and half a second into the first of March in a leap year. -/
def leapMarch : Timestamp where
  date := ⟨2024, 3, 1⟩
  time := ⟨0, 30, 0, 500000000⟩
  fraction := ⟨1, 5, by decide, by decide⟩
  isReal := Date.isReal_iff.mpr (by decide)
  plainYear := ⟨by decide, by decide⟩
  isValid := by decide
  nanos_eq := by decide

/-- An hour behind it is still the leap day. -/
theorem leapMarch_read :
    leapMarch.text "T" ("+" ++ zone 1 0) = "2024-03-01T00:30:00.5+01:00" ∧
      Text.isBlankText " " = true ∧ Text.isBlankText "\n" = true ∧
      ∃ instant, Instant.read? (" " ++ leapMarch.text "T" ("+" ++ zone 1 0) ++ "\n") = some instant ∧
        instant.Shows ⟨2024, 2, 29⟩ ⟨23, 30, 0, 500000000⟩ := by
  obtain ⟨-, -, -, -, hoffset, -⟩ := leapMarch.spellings_read " " "\n" rfl rfl
  obtain ⟨hread, hshows, -⟩ := hoffset 1 0 (by decide) (by decide)
  exact ⟨by decide +kernel, rfl, rfl, _, hread, hshows⟩

end Timestamp

end Verdict
