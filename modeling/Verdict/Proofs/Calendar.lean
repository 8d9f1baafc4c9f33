import Verdict.Calendar.Instant

/-!
# The calendar

Which dates there are is said by `Date.IsReal`. Their days are numbered in the order of the calendar
(`Date.dayNumber_lt_iff`) and one by one (`Date.dayNumber_next`): the years before a year add up to
`Date.daysBeforeYear`, and the months before a month to `Date.daysBeforeMonth`. Each number is that
of a real date, which is found from it again (`Date.ofDayNumber_dayNumber`).
-/

namespace Verdict

namespace Date

/-- A date of the Gregorian calendar, in whatever year. -/
structure IsReal (date : Date) : Prop where
  one_le_month : 1 ≤ date.month
  month_le : date.month ≤ 12
  one_le_day : 1 ≤ date.day
  day_le : date.day ≤ 31
  short : date.month = 4 ∨ date.month = 6 ∨ date.month = 9 ∨ date.month = 11 → date.day ≤ 30
  february : date.month = 2 → date.day ≤ 29
  leapYear : date.month = 2 → date.day = 29 →
    (4 ∣ date.year ∧ ¬ 100 ∣ date.year) ∨ 400 ∣ date.year

theorem isLeapYear_iff {year : Int} :
    isLeapYear year = true ↔ (4 ∣ year ∧ ¬ 100 ∣ year) ∨ 400 ∣ year := by
  simp only [isLeapYear, Bool.and_eq_true, Bool.or_eq_true, beq_iff_eq, bne_iff_ne]
  omega

variable {date : Date}

theorem isReal_iff : date.IsReal ↔ (1 ≤ date.month ∧ date.month ≤ 12) ∧
    1 ≤ date.day ∧ date.day ≤ daysInMonth date.year date.month := by
  constructor
  · rintro ⟨hmonth, hmonth', hday, hday', hshort, hfebruary, hleap⟩
    refine ⟨⟨hmonth, hmonth'⟩, hday, ?_⟩
    rw [← isLeapYear_iff] at hleap
    unfold daysInMonth
    split
    next h =>
      split
      · exact hfebruary h
      next hcommon =>
        have := hfebruary h
        have := mt (hleap h) hcommon
        omega
    next => split <;> omega
  · rintro ⟨⟨hmonth, hmonth'⟩, hday, hlength⟩
    unfold daysInMonth at hlength
    refine ⟨hmonth, hmonth', hday, ?_, fun h => ?_, fun h => ?_, fun h h' => ?_⟩
    · split at hlength
      · split at hlength <;> omega
      · split at hlength <;> omega
    · rw [if_neg (by omega), if_pos h] at hlength
      exact hlength
    · rw [if_pos h] at hlength
      split at hlength <;> omega
    · rw [if_pos h] at hlength
      split at hlength
      next hleap => exact isLeapYear_iff.mp hleap
      next => omega

theorem isValid_iff :
    date.isValid = true ↔ date.IsReal ∧ -262143 ≤ date.year ∧ date.year ≤ 262142 := by
  simp only [isValid, isReal_iff, Bool.and_eq_true, decide_eq_true_eq]
  omega

/-! ## Years and months -/

theorem daysBeforeMonth_le {m n : Nat} (year : Int) (h : m ≤ n) :
    daysBeforeMonth year m ≤ daysBeforeMonth year n := by
  induction h with
  | refl => exact Nat.le_refl _
  | step _ ih => exact Nat.le_trans ih (Nat.le_add_right _ _)

theorem daysBeforeMonth_twelve (year : Int) :
    daysBeforeMonth year 12 = if isLeapYear year then 366 else 365 := by
  simp only [daysBeforeMonth, daysInMonth]
  cases isLeapYear year <;> rfl

theorem daysBeforeYear_succ (year : Int) :
    daysBeforeYear (year + 1) = daysBeforeYear year + daysBeforeMonth year 12 := by
  rw [daysBeforeMonth_twelve]
  simp only [daysBeforeYear, Int.add_sub_cancel]
  split
  next h =>
    have hleap := isLeapYear_iff.mp h
    omega
  next h =>
    have hcommon := mt isLeapYear_iff.mpr h
    omega

theorem daysBeforeYear_le {y z : Int} (h : y ≤ z) : daysBeforeYear y ≤ daysBeforeYear z := by
  simp only [daysBeforeYear]
  omega

/-- The days of its year before a date. -/
def dayOfYear (date : Date) : Nat := daysBeforeMonth date.year (date.month - 1) + (date.day - 1)

theorem dayNumber_eq (h : date.IsReal) :
    date.dayNumber = daysBeforeYear date.year + date.dayOfYear - epoch := by
  have := h.one_le_day
  simp only [dayNumber, dayOfYear]
  omega

theorem IsReal.dayOfYear_lt (h : date.IsReal) :
    date.dayOfYear < daysBeforeMonth date.year date.month := by
  obtain ⟨⟨hmonth, -⟩, hday, hlength⟩ := isReal_iff.mp h
  obtain ⟨before, hbefore⟩ := Nat.exists_eq_add_of_le' hmonth
  simp only [dayOfYear, hbefore, Nat.add_sub_cancel, daysBeforeMonth]
  rw [hbefore] at hlength
  omega

theorem IsReal.dayOfYear_lt_year (h : date.IsReal) :
    date.dayOfYear < daysBeforeMonth date.year 12 :=
  Nat.lt_of_lt_of_le h.dayOfYear_lt (daysBeforeMonth_le _ h.month_le)

/-! ## Order -/

/-- The order of the calendar. -/
def Precedes (a b : Date) : Prop :=
  a.year < b.year ∨ (a.year = b.year ∧
    (a.month < b.month ∨ (a.month = b.month ∧ a.day < b.day)))

variable {a b : Date}

theorem precedes_or_eq_or_precedes (a b : Date) : a.Precedes b ∨ a = b ∨ b.Precedes a := by
  obtain ⟨_, _, _⟩ := a
  obtain ⟨_, _, _⟩ := b
  simp only [Precedes, Date.mk.injEq]
  omega

theorem dayNumber_lt_of_precedes (ha : a.IsReal) (hb : b.IsReal) (h : a.Precedes b) :
    a.dayNumber < b.dayNumber := by
  rw [dayNumber_eq ha, dayNumber_eq hb]
  rcases h with hyear | ⟨hyear, hmonth | ⟨hmonth, hday⟩⟩
  · have hnext := daysBeforeYear_succ a.year
    have hle := daysBeforeYear_le (y := a.year + 1) (z := b.year) (by omega)
    have := ha.dayOfYear_lt_year
    omega
  · have hlt := ha.dayOfYear_lt
    have hle := daysBeforeMonth_le b.year (m := a.month) (n := b.month - 1) (by omega)
    rw [hyear] at hlt ⊢
    have hofYear : daysBeforeMonth b.year (b.month - 1) ≤ b.dayOfYear := Nat.le_add_right _ _
    omega
  · have := ha.one_le_day
    simp only [dayOfYear, hyear, hmonth]
    omega

theorem dayNumber_lt_iff (ha : a.IsReal) (hb : b.IsReal) :
    a.dayNumber < b.dayNumber ↔ a.Precedes b := by
  refine ⟨fun hlt => ?_, dayNumber_lt_of_precedes ha hb⟩
  rcases precedes_or_eq_or_precedes a b with h | rfl | h
  · exact h
  · omega
  · have := dayNumber_lt_of_precedes hb ha h
    omega

theorem dayNumber_inj (ha : a.IsReal) (hb : b.IsReal) : a.dayNumber = b.dayNumber ↔ a = b := by
  refine ⟨fun heq => ?_, congrArg dayNumber⟩
  rcases precedes_or_eq_or_precedes a b with h | h | h
  · have := dayNumber_lt_of_precedes ha hb h
    omega
  · exact h
  · have := dayNumber_lt_of_precedes hb ha h
    omega

/-! ## Neighbours -/

/-- The date of the day after. -/
def next (date : Date) : Date :=
  if date.day < daysInMonth date.year date.month then { date with day := date.day + 1 }
  else if date.month < 12 then ⟨date.year, date.month + 1, 1⟩
  else ⟨date.year + 1, 1, 1⟩

/-- The date of the day before. -/
def previous (date : Date) : Date :=
  if 1 < date.day then { date with day := date.day - 1 }
  else if 1 < date.month then
    ⟨date.year, date.month - 1, daysInMonth date.year (date.month - 1)⟩
  else ⟨date.year - 1, 12, 31⟩

theorem one_le_daysInMonth (year : Int) (month : Nat) : 1 ≤ daysInMonth year month := by
  unfold daysInMonth
  repeat' split
  all_goals omega

theorem IsReal.next (h : date.IsReal) : date.next.IsReal := by
  have hmonth := isReal_iff.mp h
  have hlength := one_le_daysInMonth date.year (date.month + 1)
  have hlength' := one_le_daysInMonth (date.year + 1) 1
  unfold Date.next
  rw [isReal_iff]
  split
  next => simp only; omega
  next =>
    split
    · simp only; omega
    · simp only; omega

theorem IsReal.previous (h : date.IsReal) : date.previous.IsReal := by
  have hmonth := isReal_iff.mp h
  have hlength := one_le_daysInMonth date.year (date.month - 1)
  have hdecember : daysInMonth (date.year - 1) 12 = 31 := rfl
  unfold Date.previous
  rw [isReal_iff]
  split
  next => simp only; omega
  next =>
    split
    · simp only; omega
    · simp only [hdecember]; omega

/-- Neighbouring dates have neighbouring numbers, also across months and years. -/
theorem dayNumber_next (h : date.IsReal) : date.next.dayNumber = date.dayNumber + 1 := by
  obtain ⟨⟨hmonth, hmonth'⟩, hday, hlength⟩ := isReal_iff.mp h
  obtain ⟨before, hbefore⟩ := Nat.exists_eq_add_of_le' hmonth
  have hstep : daysBeforeMonth date.year date.month =
      daysBeforeMonth date.year (date.month - 1) + daysInMonth date.year date.month := by
    rw [hbefore]
    rfl
  unfold Date.next
  split
  next => simp only [dayNumber]; omega
  next hlast =>
    split
    next => simp only [dayNumber, Nat.add_sub_cancel]; omega
    next hdecember =>
      have hyear := daysBeforeYear_succ date.year
      have htwelve : date.month = 12 := by omega
      rw [htwelve] at hstep hlast hlength
      have hfirst : daysBeforeMonth (date.year + 1) (1 - 1) = 0 := rfl
      simp only [dayNumber, hfirst, htwelve]
      omega

theorem next_previous (h : date.IsReal) : date.previous.next = date := by
  obtain ⟨year, month, day⟩ := date
  obtain ⟨⟨hmonth, hmonth'⟩, hday, hlength⟩ := isReal_iff.mp h
  simp only at hmonth hmonth' hday hlength
  have hdecember : daysInMonth (year - 1) 12 = 31 := rfl
  simp only [previous]
  split
  next =>
    rw [next, if_pos (by simp only; omega)]
    simp only [Date.mk.injEq, true_and]
    omega
  next =>
    split
    · rw [next, if_neg (by simp only; omega), if_pos (by simp only; omega)]
      simp only [Date.mk.injEq, true_and]
      omega
    · rw [next, if_neg (by simp only [hdecember]; omega), if_neg (by simp only; omega)]
      simp only [Date.mk.injEq]
      omega

theorem dayNumber_previous (h : date.IsReal) : date.previous.dayNumber = date.dayNumber - 1 := by
  have hnext := dayNumber_next h.previous
  rw [next_previous h] at hnext
  omega

/-! ## From numbers to dates -/

theorem monthOfDays_spec (year : Int) (fuel before days : Nat)
    (h : daysBeforeMonth year before + days < daysBeforeMonth year (before + 1 + fuel)) :
    ∃ m d, monthOfDays year fuel (before + 1) days = (m + 1, d + 1) ∧ m ≤ before + fuel ∧
      d < daysInMonth year (m + 1) ∧
      daysBeforeMonth year m + d = daysBeforeMonth year before + days := by
  induction fuel generalizing before days with
  | zero =>
    refine ⟨before, days, rfl, Nat.le_refl _, ?_, rfl⟩
    exact Nat.lt_of_add_lt_add_left h
  | succ fuel ih =>
    rw [monthOfDays]
    split
    next hlt => exact ⟨before, days, rfl, Nat.le_add_right _ _, hlt, rfl⟩
    next hge =>
      have hsum : daysBeforeMonth year (before + 1) =
        daysBeforeMonth year before + daysInMonth year (before + 1) := rfl
      have hrest : daysBeforeMonth year (before + 1) + (days - daysInMonth year (before + 1)) =
          daysBeforeMonth year before + days := by omega
      have hindex : before + 1 + 1 + fuel = before + 1 + (fuel + 1) := by omega
      obtain ⟨m, d, heq, hm, hd, hdays⟩ := ih (before + 1) (days - daysInMonth year (before + 1))
        (by rw [hrest, hindex]; exact h)
      exact ⟨m, d, heq, by omega, hd, hdays.trans hrest⟩

/-- The years before a year, counted by eras, centuries and cycles of four years. -/
theorem daysBeforeYear_split (era : Int) {century cycle years : Nat} (hcentury : century ≤ 3)
    (hcycle : cycle ≤ 24) (hyears : years ≤ 3) :
    daysBeforeYear (400 * era + 100 * century + 4 * cycle + years + 1) =
      146097 * era + 36524 * century + 1461 * cycle + 365 * years := by
  simp only [daysBeforeYear]
  omega

/-- The last year of a cycle is a leap year, unless it ends a century that does not end an era. -/
theorem isLeapYear_split (era : Int) {century cycle : Nat} (hcycle : cycle ≤ 24)
    (h : cycle = 24 → century = 3) :
    isLeapYear (400 * era + 100 * century + 4 * cycle + (3 : Nat) + 1) = true := by
  rw [isLeapYear_iff]
  by_cases hlast : cycle = 24
  · rw [hlast, h hlast]
    omega
  · omega

/-- The date of a day from the parts of its number. -/
theorem ofDayNumber_eq {n era : Int} {ofEra century ofCentury cycle ofCycle years ofYear : Nat}
    {month day : Nat} (hera : (n + epoch) / 146097 = era)
    (hofEra : ((n + epoch) % 146097).toNat = ofEra) (hcentury : min 3 (ofEra / 36524) = century)
    (hofCentury : ofEra - century * 36524 = ofCentury) (hcycle : ofCentury / 1461 = cycle)
    (hofCycle : ofCentury - cycle * 1461 = ofCycle) (hyears : min 3 (ofCycle / 365) = years)
    (hofYear : ofCycle - years * 365 = ofYear)
    (hmonth : monthOfDays (400 * era + 100 * century + 4 * cycle + years + 1) 11 1 ofYear =
      (month, day)) :
    ofDayNumber n = ⟨400 * era + 100 * century + 4 * cycle + years + 1, month, day⟩ := by
  -- unfolded as a function, or else the lengths would be computed with to compare the two sides
  rw [ofDayNumber.eq_unfold]
  simp -zeta only
  extract_lets _ era' _ century' ofCentury' cycle' ofCycle' years' year
  have hyear : year = 400 * era + 100 * century + 4 * cycle + years + 1 := by
    subst hera hofEra hcentury hofCentury hcycle hofCycle hyears
    rfl
  have hrest : ofCycle' - years' * 365 = ofYear := by
    subst hofEra hcentury hofCentury hcycle hofCycle hyears
    exact hofYear
  clear_value year ofCycle' years'
  rw [hrest, hyear, hmonth]

/-- Four parts of which only the last may be longer than the others, by one. -/
theorem exists_part (n length : Nat) (hlength : 0 < length) (h : n ≤ 4 * length) :
    ∃ part rest, min 3 (n / length) = part ∧ n - part * length = rest ∧
      n = part * length + rest ∧ part ≤ 3 ∧ (rest < length ∨ part = 3 ∧ rest = length) := by
  refine ⟨_, _, rfl, rfl, ?_⟩
  have hsplit := Nat.div_add_mod' n length
  have hrest := Nat.mod_lt n hlength
  rcases Nat.lt_or_ge (n / length) 3 with hfew | hmany
  · rw [Nat.min_eq_right (by omega)]
    omega
  · have hfull := Nat.mul_le_of_le_div length 3 n hmany
    rw [Nat.min_eq_left hmany]
    omega

/-- The year of a day, and the days before it in that year. -/
theorem exists_year (n : Int) : ∃ (year : Int) (rest : Nat),
    n + epoch = daysBeforeYear year + rest ∧ rest < daysBeforeMonth year 12 ∧
      ∀ month day, monthOfDays year 11 1 rest = (month, day) →
        ofDayNumber n = ⟨year, month, day⟩ := by
  obtain ⟨era, hera⟩ : ∃ era, (n + epoch) / 146097 = era := ⟨_, rfl⟩
  obtain ⟨ofEra, hofEra⟩ : ∃ rest, ((n + epoch) % 146097).toNat = rest := ⟨_, rfl⟩
  have hdays : n + epoch = 146097 * era + ofEra ∧ ofEra < 146097 := by omega
  obtain ⟨century, ofCentury, hcentury, hofCentury, hcenturies⟩ :=
    exists_part ofEra 36524 (by decide) (by omega)
  obtain ⟨cycle, hcycle⟩ : ∃ cycle, ofCentury / 1461 = cycle := ⟨_, rfl⟩
  obtain ⟨ofCycle, hofCycle⟩ : ∃ rest, ofCentury - cycle * 1461 = rest := ⟨_, rfl⟩
  have hcycles : ofCentury = cycle * 1461 + ofCycle ∧ cycle ≤ 24 ∧ ofCycle < 1461 := by
    clear hdays hofEra hcentury hofCentury
    omega
  obtain ⟨years, ofYear, hyears, hofYear, hrest⟩ :=
    exists_part ofCycle 365 (by decide) (by omega)
  refine ⟨400 * era + 100 * century + 4 * cycle + years + 1, ofYear, ?days, ?rest, ?date⟩
  case date =>
    intro month day hmonth
    exact ofDayNumber_eq hera hofEra hcentury hofCentury hcycle hofCycle hyears hofYear hmonth
  all_goals clear hera hofEra hcentury hofCentury hcycle hofCycle hyears hofYear
  case days =>
    rw [daysBeforeYear_split era hcenturies.2.1 hcycles.2.1 hrest.2.1]
    omega
  case rest =>
    rw [daysBeforeMonth_twelve]
    rcases hrest.2.2 with hshort | ⟨rfl, hfull⟩
    · split <;> omega
    · rw [if_pos (isLeapYear_split era hcycles.2.1 (by omega))]
      omega

/-- Each number is that of a real date. -/
theorem exists_ofDayNumber (n : Int) : (ofDayNumber n).IsReal ∧ (ofDayNumber n).dayNumber = n := by
  obtain ⟨year, rest, hdays, hrest, hdate⟩ := exists_year n
  obtain ⟨m, d, hmonth, hm, hd, hsum⟩ :=
    monthOfDays_spec year 11 0 rest (by simpa [daysBeforeMonth] using hrest)
  rw [hdate _ _ hmonth]
  have hzero : daysBeforeMonth year 0 = 0 := rfl
  refine ⟨isReal_iff.mpr (by simp only; omega), ?_⟩
  simp only [dayNumber, Nat.add_sub_cancel]
  omega

theorem ofDayNumber_dayNumber (h : date.IsReal) : ofDayNumber date.dayNumber = date := by
  obtain ⟨hreal, hnumber⟩ := exists_ofDayNumber date.dayNumber
  exact (dayNumber_inj hreal h).mp hnumber

end Date

end Verdict
