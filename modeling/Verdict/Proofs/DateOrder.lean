import Verdict.Proofs.Comparisons
import Verdict.Proofs.DateTexts

/-!
# Dates by their texts

A text in the shape of a date is read if the calendar has that date (`Date.isSome_read?_iff`). Texts
of one width are ordered by their numbers (`Calendar.joined_lt_joined_iff`), and these as the
calendar orders dates and the clock times (`Date.toText_lt_toText_iff`,
`Timestamp.text_lt_text_iff`), so that conditions find texts in the relation in which they stand as
texts.
-/

namespace Verdict

open Calendar

namespace Calendar

/-- `DDDD-DD-DD`, whether or not there is such a date. -/
def IsDateShaped (text : String) : Prop :=
  ∃ year month day, Digits 4 year ∧ Digits 2 month ∧ Digits 2 day ∧
    text.toList = joined '-' year month day

theorem padded_value {width : Nat} {cs : List Char} (hwidth : 0 < width) (h : Digits width cs) :
    (Date.padded width (value cs)).toList = cs := by
  rw [← value_inj (digits_padded hwidth h.value_lt) h, value_padded]

variable {width : Nat} {a b c a' b' c' r s : List Char}

/-- What three numbers are followed by is compared last. -/
theorem joined_lt_joined_iff (between : Char) (ha : Digits width a) (ha' : Digits width a')
    (hb : Digits 2 b) (hb' : Digits 2 b') (hc : Digits 2 c) (hc' : Digits 2 c') :
    joined between a b c ++ r < joined between a' b' c' ++ s ↔
      value a < value a' ∨ (value a = value a' ∧ (value b < value b' ∨ (value b = value b' ∧
        (value c < value c' ∨ (value c = value c' ∧ r < s))))) := by
  simp only [joined, List.append_assoc, List.cons_append, append_lt_append_iff ha ha',
    append_lt_append_iff hb hb', append_lt_append_iff hc hc', List.cons_lt_cons_self]

end Calendar

namespace Date

variable {a b date : Date}

theorem exists_date_of_isDateShaped {text : String} (h : IsDateShaped text) :
    ∃ date : Date, date.Fits ∧ date.HasPlainYear ∧ date.toText = text := by
  obtain ⟨year, month, day, hyear, hmonth, hday, htext⟩ := h
  have hplain : HasPlainYear ⟨value year, value month, value day⟩ := by
    have hlt := hyear.value_lt
    exact ⟨Int.natCast_nonneg _, by simp only; omega⟩
  refine ⟨⟨value year, value month, value day⟩, ⟨hmonth.value_lt, hday.value_lt⟩, hplain, ?_⟩
  rw [← String.toList_inj, hplain.toList_toText, htext, Int.natAbs_natCast,
    padded_value (by decide) hyear, padded_value (by decide) hmonth, padded_value (by decide) hday]

theorem Fits.read?_alone (h : date.Fits) : Instant.read? date.toText =
    instant? date.year date.month date.day .midnight 0 := by
  have hread : Instant.read? ("" ++ date.toText ++ "") = _ := h.read?_toText rfl rfl
  rwa [String.empty_append, String.append_empty] at hread

theorem read?_toText_of_isValid (h : date.isValid = true) :
    Instant.read? date.toText = some (.ofCivil date .midnight 0) := by
  rw [(isValid_iff.mp h).1.fits.read?_alone, instant?_of_isValid h rfl]

/-- A text in the shape of a date is read if it is the text of a real date. -/
theorem isSome_read?_iff {text : String} (h : IsDateShaped text) :
    (Instant.read? text).isSome = true ↔
      ∃ date : Date, date.IsReal ∧ date.HasPlainYear ∧ date.toText = text := by
  constructor
  · intro hsome
    obtain ⟨date, hfits, hplain, rfl⟩ := exists_date_of_isDateShaped h
    refine ⟨date, ?_, hplain, rfl⟩
    rw [hfits.read?_alone] at hsome
    by_cases hvalid : date.isValid = true
    · exact (isValid_iff.mp hvalid).1
    · have hfields : ofFields? date.year date.month date.day = none := if_neg hvalid
      rw [instant?, hfields] at hsome
      cases hsome
  · rintro ⟨date, hreal, hplain, rfl⟩
    rw [read?_toText_of_isValid (hplain.isValid hreal)]
    rfl

/-- The text of the next date, also of that after the last with a plain year, is read as a day
later. -/
theorem read?_next (h : date.IsReal) (hyear : date.HasPlainYear) :
    ∃ instant : Instant, Instant.read? date.toText = some instant ∧
      Instant.read? date.next.toText = some (instant.later 86400) := by
  have hnext : date.next.isValid = true := by
    obtain ⟨hmin, hmax⟩ := hyear
    refine isValid_iff.mpr ⟨h.next, ?_⟩
    unfold next
    split
    · exact ⟨by simp only; omega, by simp only; omega⟩
    · split <;> exact ⟨by simp only; omega, by simp only; omega⟩
  refine ⟨_, read?_toText_of_isValid (hyear.isValid h), ?_⟩
  rw [read?_toText_of_isValid hnext]
  simp only [Instant.ofCivil, Instant.later, dayNumber_next h, Option.some.injEq, Instant.mk.injEq,
    and_true]
  omega

theorem toText_append_lt_iff (ha : a.Fits) (hb : b.Fits) (ha' : a.HasPlainYear)
    (hb' : b.HasPlainYear) {r s : List Char} :
    a.toText.toList ++ r < b.toText.toList ++ s ↔ a.Precedes b ∨ (a = b ∧ r < s) := by
  rw [ha'.toList_toText, hb'.toList_toText, joined_lt_joined_iff '-' ha'.digits hb'.digits
    ha.digits_month hb.digits_month ha.digits_day hb.digits_day]
  obtain ⟨year, month, day⟩ := a
  obtain ⟨year', month', day'⟩ := b
  obtain ⟨_, _⟩ := ha'
  obtain ⟨_, _⟩ := hb'
  simp only at *
  simp only [value_padded, Precedes, Date.mk.injEq]
  by_cases hrest : r < s
  · simp only [hrest, and_true]
    omega
  · simp only [hrest, and_false, or_false]
    omega

theorem toText_lt_toText_iff (ha : a.Fits) (hb : b.Fits) (ha' : a.HasPlainYear)
    (hb' : b.HasPlainYear) : a.toText < b.toText ↔ a.Precedes b := by
  have hiff := toText_append_lt_iff ha hb ha' hb' (r := []) (s := [])
  rw [List.append_nil, List.append_nil] at hiff
  rw [String.lt_iff, hiff]
  simp

theorem toText_inj (ha : a.Fits) (hb : b.Fits) : a.toText = b.toText ↔ a = b := by
  refine ⟨fun h => ?_, congrArg toText⟩
  have hread := ha.date_toText []
  rw [h, hb.date_toText [], Option.some.injEq, Prod.mk.injEq, Prod.mk.injEq, Prod.mk.injEq] at hread
  obtain ⟨⟨hyear, hmonth, hday⟩, -⟩ := hread
  exact (Date.mk.injEq ..).mpr ⟨hyear.symm, hmonth.symm, hday.symm⟩

theorem ofCivil_midnight (date : Date) :
    Instant.ofCivil date .midnight 0 = ⟨date.dayNumber * 86400, 0⟩ := by
  simp [Instant.ofCivil, TimeOfDay.midnight]

theorem dayNumber_midnight (date : Date) : (Instant.ofCivil date .midnight 0).dayNumber =
    date.dayNumber := by
  rw [ofCivil_midnight]
  exact Int.mul_ediv_cancel _ (by decide)

theorem before_midnight_iff (a b : Date) :
    (Instant.ofCivil a .midnight 0).before (.ofCivil b .midnight 0) = true ↔
      a.dayNumber < b.dayNumber := by
  rw [Instant.before_iff, ofCivil_midnight, ofCivil_midnight]
  simp only
  omega

end Date

namespace TimeOfDay

theorem toText_append_lt_iff {a b : TimeOfDay} (ha : a.isValid = true) (hb : b.isValid = true)
    (r : List Char) : a.toText.toList ++ r < b.toText.toList ++ r ↔
      a.hour < b.hour ∨ (a.hour = b.hour ∧
        (a.minute < b.minute ∨ (a.minute = b.minute ∧ a.second < b.second))) := by
  obtain ⟨hhour, hminute, hsecond⟩ := digits ha
  obtain ⟨hhour', hminute', hsecond'⟩ := digits hb
  rw [toList_toText, toList_toText,
    joined_lt_joined_iff ':' hhour hhour' hminute hminute' hsecond hsecond']
  simp only [value_padded, List.lt_irrefl, and_false, or_false]

end TimeOfDay

namespace Timestamp

variable {a b : Timestamp}

/-- The beginning of a date. -/
def midnight {date : Date} (isReal : date.IsReal) (plainYear : date.HasPlainYear) : Timestamp where
  date := date
  time := .midnight
  fraction := ⟨0, 0, by decide, by decide⟩
  isReal := isReal
  plainYear := plainYear
  isValid := by decide
  nanos_eq := (Nat.zero_mul _).symm

theorem text_midnight {date : Date} (isReal : date.IsReal) (plainYear : date.HasPlainYear) :
    (midnight isReal plainYear).text "T" "Z" = date.toText ++ "T00:00:00Z" := by
  have hclock : "T" ++ (TimeOfDay.midnight.toText ++ ("" ++ "Z")) = "T00:00:00Z" := by decide +kernel
  rw [← hclock]
  simp only [text, String.append_assoc]
  rfl

/-- Without fractions texts in universal time are ordered as their instants are. -/
theorem text_lt_text_iff (ha : a.fraction.width = 0) (hb : b.fraction.width = 0) :
    a.text "T" "Z" < b.text "T" "Z" ↔ a.instant.before b.instant = true := by
  have hclock : ∀ stamp : Timestamp, stamp.fraction.width = 0 →
      stamp.time.nanos = 0 ∧ stamp.clock ['Z'] = stamp.time.toText.toList ++ ['Z'] := by
    intro stamp hwidth
    have hdigits := stamp.fraction.digits_lt
    rw [hwidth, Nat.pow_zero, Nat.lt_one_iff] at hdigits
    simp [stamp.nanos_eq, Fraction.nanos, Fraction.toText, clock, hdigits, hwidth]
  have htext : ∀ stamp : Timestamp, (stamp.text "T" "Z").toList =
      stamp.date.toText.toList ++ 'T' :: stamp.clock ['Z'] := fun stamp => stamp.toList_text rfl
  obtain ⟨hnanos, hclock_a⟩ := hclock a ha
  obtain ⟨hnanos', hclock_b⟩ := hclock b hb
  rw [String.lt_iff, htext, htext, hclock_a, hclock_b,
    Date.toText_append_lt_iff a.isReal.fits b.isReal.fits a.plainYear b.plainYear,
    List.cons_lt_cons_self, TimeOfDay.toText_append_lt_iff a.isValid b.isValid,
    ← Date.dayNumber_lt_iff a.isReal b.isReal, ← Date.dayNumber_inj a.isReal b.isReal,
    Instant.before_iff]
  have htime := TimeOfDay.isValid_iff.mp a.isValid
  have htime' := TimeOfDay.isValid_iff.mp b.isValid
  simp only [instant, Instant.ofCivil, hnanos, hnanos']
  -- a leap second is behind the second before it by its nanoseconds only
  split
  · split <;> omega
  · split <;> omega

end Timestamp

namespace Condition

theorem ok_eq_ok_decide {holds : Bool} {p : Prop} [Decidable p] (h : holds = true ↔ p) :
    (.ok holds : Except Failure Bool) = .ok (decide p) :=
  congrArg Except.ok (Bool.eq_iff_iff.mpr (h.trans decide_eq_true_iff.symm))

/-- Dates are compared as their texts are. -/
theorem relate_date_texts (field : String) {a b : Date} (ha : a.IsReal) (ha' : a.HasPlainYear)
    (hb : b.IsReal) (hb' : b.HasPlainYear) :
    let decided relation := relate .date field relation (.string a.toText) (.string b.toText)
    decided .less = .ok (decide (a.toText < b.toText)) ∧
    decided .greater = .ok (decide (b.toText < a.toText)) ∧
    decided .equal = .ok (decide (a.toText = b.toText)) := by
  have hread := Date.read?_toText_of_isValid (ha'.isValid ha)
  have hread' := Date.read?_toText_of_isValid (hb'.isValid hb)
  have hdecided := fun relation => relate_dates field relation hread hread'
  have hlt : ∀ {a b : Date}, a.IsReal → a.HasPlainYear → b.IsReal → b.HasPlainYear →
      ((Instant.ofCivil a .midnight 0).before (.ofCivil b .midnight 0) = true ↔
        a.toText < b.toText) := by
    intro a b ha ha' hb hb'
    rw [Date.before_midnight_iff, Date.dayNumber_lt_iff ha hb,
      Date.toText_lt_toText_iff ha.fits hb.fits ha' hb']
  refine ⟨(hdecided .less).trans (ok_eq_ok_decide (hlt ha ha' hb hb')),
    (hdecided .greater).trans (ok_eq_ok_decide (hlt hb hb' ha ha')),
    (hdecided .equal).trans (ok_eq_ok_decide ?_)⟩
  rw [Relation.holdsOfDates, beq_iff_eq, Date.dayNumber_midnight, Date.dayNumber_midnight,
    Date.dayNumber_inj ha hb, Date.toText_inj ha.fits hb.fits]

theorem relate_timestamp_texts (field : String) {a b : Timestamp} (ha : a.fraction.width = 0)
    (hb : b.fraction.width = 0) :
    let decided relation :=
      relate .date field relation (.string (a.text "T" "Z")) (.string (b.text "T" "Z"))
    decided .less = .ok (decide (a.text "T" "Z" < b.text "T" "Z")) ∧
    decided .greater = .ok (decide (b.text "T" "Z" < a.text "T" "Z")) := by
  have hread : ∀ stamp : Timestamp, Instant.read? (stamp.text "T" "Z") = some stamp.instant := by
    intro stamp
    have hread : Instant.read? ("" ++ stamp.text "T" "Z" ++ "") = _ := stamp.read?_utc rfl rfl
    rwa [String.empty_append, String.append_empty] at hread
  have hdecided := fun relation => relate_dates field relation (hread a) (hread b)
  exact ⟨(hdecided .less).trans (ok_eq_ok_decide (Timestamp.text_lt_text_iff ha hb).symm),
    (hdecided .greater).trans (ok_eq_ok_decide (Timestamp.text_lt_text_iff hb ha).symm)⟩

/-- Conditions on dates follow the calendar: of the texts in the shape of a date those of its dates
are read, from one date to the next it is a day, and dates are in the order of their texts, as
date-times in universal time are. -/
theorem dates_follow_calendar (field : String) :
    (∀ text, IsDateShaped text →
      ((Instant.read? text).isSome = true ↔
        ∃ date : Date, date.IsReal ∧ date.HasPlainYear ∧ date.toText = text)) ∧
    (∀ date : Date, date.IsReal → date.HasPlainYear → ∃ instant : Instant,
      Instant.read? date.toText = some instant ∧
        Instant.read? date.next.toText = some (instant.later 86400)) ∧
    (∀ a b : Date, a.IsReal → a.HasPlainYear → b.IsReal → b.HasPlainYear →
      let decided relation := relate .date field relation (.string a.toText) (.string b.toText)
      decided .less = .ok (decide (a.toText < b.toText)) ∧
      decided .greater = .ok (decide (b.toText < a.toText)) ∧
      decided .equal = .ok (decide (a.toText = b.toText))) ∧
    ∀ a b : Timestamp, a.fraction.width = 0 → b.fraction.width = 0 →
      let decided relation :=
        relate .date field relation (.string (a.text "T" "Z")) (.string (b.text "T" "Z"))
      decided .less = .ok (decide (a.text "T" "Z" < b.text "T" "Z")) ∧
      decided .greater = .ok (decide (b.text "T" "Z" < a.text "T" "Z")) :=
  ⟨fun _ hshape => Date.isSome_read?_iff hshape, fun _ hreal hplain => Date.read?_next hreal hplain,
    fun _ _ ha ha' hb hb' => relate_date_texts field ha ha' hb hb',
    fun _ _ ha hb => relate_timestamp_texts field ha hb⟩

/-- The leap day is read, is the day before the first of March and is compared so in either form. -/
theorem leapDay_precedes_march :
    (IsDateShaped "2024-02-29" ∧ (Instant.read? "2024-02-29").isSome = true) ∧
    (∃ instant : Instant, Instant.read? "2024-02-29" = some instant ∧
      Instant.read? "2024-03-01" = some (instant.later 86400)) ∧
    relate .date "day" .less (.string "2024-02-29") (.string "2024-03-01") = .ok true ∧
    relate .date "day" .less (.string ("2024-02-29" ++ "T00:00:00Z"))
      (.string ("2024-03-01" ++ "T00:00:00Z")) = .ok true := by
  have hreal : (⟨2024, 2, 29⟩ : Date).IsReal := Date.isReal_iff.mpr (by decide)
  have hplain : (⟨2024, 2, 29⟩ : Date).HasPlainYear := ⟨by decide, by decide⟩
  have hreal' : (⟨2024, 3, 1⟩ : Date).IsReal := Date.isReal_iff.mpr (by decide)
  have hplain' : (⟨2024, 3, 1⟩ : Date).HasPlainYear := ⟨by decide, by decide⟩
  have htext : (⟨2024, 2, 29⟩ : Date).toText = "2024-02-29" := by decide +kernel
  have htext' : (⟨2024, 3, 1⟩ : Date).toText = "2024-03-01" := by decide +kernel
  have hshape : IsDateShaped "2024-02-29" :=
    ⟨['2', '0', '2', '4'], ['0', '2'], ['2', '9'], ⟨rfl, List.all_eq_true.mp rfl⟩,
      ⟨rfl, List.all_eq_true.mp rfl⟩, ⟨rfl, List.all_eq_true.mp rfl⟩, rfl⟩
  obtain ⟨hread, hnext, hdates, hstamps⟩ := dates_follow_calendar "day"
  refine ⟨⟨hshape, (hread _ hshape).mpr ⟨_, hreal, hplain, htext⟩⟩, ?next, ?dates, ?stamps⟩
  case next =>
    rw [← htext, ← htext']
    exact hnext _ hreal hplain
  case dates =>
    rw [← htext, ← htext']
    exact (hdates _ _ hreal hplain hreal' hplain').1.trans (congrArg Except.ok (by decide +kernel))
  case stamps =>
    have hless := (hstamps (.midnight hreal hplain) (.midnight hreal' hplain') rfl rfl).1
    rw [Timestamp.text_midnight, Timestamp.text_midnight, htext, htext'] at hless
    exact hless.trans (congrArg Except.ok (by decide +kernel))

end Condition

end Verdict
