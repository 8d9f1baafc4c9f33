import Verdict.Proofs.DateTexts

/-!
# Which form reads a text

Each form has texts of its own (`Calendar.readsSpellings`), though all begin with the same date:
what the strict form reads in fixed widths, the others read as well (`Calendar.year_of_exactly`,
`Calendar.short_of_exactly`). They differ in what they ask for behind the date, and no text goes on
behind its date in two of these ways (`Calendar.Ending.of?_of_read`). So at most one form reads a
text, whatever the text is, and it does not matter in which order they are tried
(`Calendar.forms_tried_in_any_order`).
-/

namespace Verdict.Calendar

variable {n : Nat} {c : Char} {cs rest zone : List Char} {clock : TimeOfDay}
  {instant instant' : Instant}

/-! ## What is read in fixed widths is read without them -/

theorem exists_digits_of_exactly {width : Nat} (h : exactly width cs = some (n, rest)) :
    ∃ ds, Digits width ds ∧ cs = ds ++ rest ∧ n = value ds := by
  unfold exactly at h
  split at h
  next hds =>
    have hdigits : Digits width (cs.take width) := ⟨hds.1, List.all_eq_true.mp hds.2⟩
    have hread : exactly width (cs.take width ++ cs.drop width) =
        some (value (cs.take width), cs.drop width) := exactly_append hdigits
    rw [List.take_append_drop, exactly, if_pos hds, h] at hread
    cases hread
    exact ⟨_, hdigits, (List.take_append_drop width cs).symm, rfl⟩
  next => cases h

theorem short_of_exactly (h : exactly 2 cs = some (n, rest)) : short cs = some (n, rest) := by
  obtain ⟨ds, hdigits, rfl, rfl⟩ := exists_digits_of_exactly h
  exact short_append hdigits

theorem year_of_exactly (h : exactly 4 cs = some (n, rest)) : year cs = some ((n : Int), rest) := by
  obtain ⟨ds, hdigits, rfl, rfl⟩ := exists_digits_of_exactly h
  exact year_append hdigits

/-! ## Where a time begins -/

theorem time_cons_of_blank (h : Text.isBlank c = true) : time (c :: rest) = time rest := by
  have hshort : short (c :: rest) = short rest := by
    rw [short, short, List.dropWhile_cons_of_pos h]
  simp only [time, hshort]

theorem time_cons_of_letter (hblank : Text.isBlank c = false) (hdigit : isDigit c = false) :
    time (c :: rest) = none := by
  have hshort : short (c :: rest) = none := by
    rw [short, List.dropWhile_cons_of_neg (by simp [hblank]), number, if_neg (by simp [hdigit])]
  simp only [time, hshort, Option.bind_eq_bind, Option.bind_none]

theorem time_dropWhile (cs : List Char) : time (cs.dropWhile Text.isBlank) = time cs := by
  induction cs with
  | nil => rfl
  | cons c rest ih =>
    cases hc : Text.isBlank c with
    | true => rw [List.dropWhile_cons_of_pos hc, time_cons_of_blank hc, ih]
    | false => rw [List.dropWhile_cons_of_neg (by simp [hc])]

/-! ## What each form asks for behind the date -/

theorem exists_cons_of_separator {u : Unit} (h : separator cs = some (u, rest)) :
    ∃ c, cs = c :: rest ∧ (c = 'T' ∨ c = 't' ∨ c = ' ') := by
  cases cs with
  | nil => cases h
  | cons c tail =>
    rw [separator] at h
    split at h <;> cases h
    exact ⟨c, rfl, ‹_›⟩

theorem eq_cons_of_literal {u : Unit} (h : literal c cs = some (u, rest)) : cs = c :: rest := by
  cases cs with
  | nil => cases h
  | cons first tail =>
    rw [literal] at h
    split at h <;> cases h
    exact congrArg (· :: rest) ‹_›

/-- The offset that ends the strict form is not nothing. -/
theorem behind_strict (h : strict cs = some instant) :
    ∃ day c rest clock zone, date cs = some (day, c :: rest) ∧ (c = 'T' ∨ c = 't' ∨ c = ' ') ∧
      time rest = some (clock, zone) ∧ zone ≠ [] := by
  simp only [strict, Option.bind_eq_bind, Option.bind_eq_some_iff, Prod.exists] at h
  obtain ⟨year, _, hyear, _, _, hdash, month, _, hmonth, _, _, hdash', day, _, hday, h⟩ := h
  obtain ⟨_, rest, hbetween, hour, _, hhour, _, _, hcolon, minute, _, hminute, h⟩ := h
  obtain ⟨_, _, hcolon', second, _, hsecond, nanos, zone, hnanos, _, _, hoffset, -⟩ := h
  obtain ⟨c, rfl, hc⟩ := exists_cons_of_separator hbetween
  refine ⟨(year, month, day), c, rest, ⟨hour, minute, second, nanos⟩, zone, ?date, hc, ?time, ?zone⟩
  case date =>
    simp only [date, year_of_exactly hyear, hdash, short_of_exactly hmonth, hdash',
      short_of_exactly hday, Option.bind_eq_bind, Option.bind_some]
  case time =>
    simp only [time, short_of_exactly hhour, hcolon, short_of_exactly hminute, hcolon',
      short_of_exactly hsecond, hnanos, Option.bind_eq_bind, Option.bind_some]
  case zone =>
    rintro rfl
    cases hoffset

theorem behind_dateTime {between : Scan Unit} (h : dateTime between cs = some instant) :
    ∃ day rest rest' clock, date cs = some (day, rest) ∧ between rest = some ((), rest') ∧
      time rest' = some (clock, []) := by
  simp only [dateTime, Option.bind_eq_bind, Option.bind_eq_some_iff, Prod.exists] at h
  obtain ⟨_, _, _, rest, hdate, _, rest', hbetween, clock, _, htime, h⟩ := h
  split at h
  next hend =>
    rw [List.isEmpty_iff.mp hend] at htime
    exact ⟨_, rest, rest', clock, hdate, hbetween, htime⟩
  next => cases h

theorem behind_dateOnly (h : dateOnly cs = some instant) : ∃ day, date cs = some (day, []) := by
  simp only [dateOnly, Option.bind_eq_bind, Option.bind_eq_some_iff, Prod.exists] at h
  obtain ⟨_, _, _, _, hdate, h⟩ := h
  split at h
  next hend =>
    rw [List.isEmpty_iff.mp hend] at hdate
    exact ⟨_, hdate⟩
  next => cases h

/-! ## One ending for each form -/

/-- What stands behind the date: a time and an offset, a time behind `T` or behind blanks, or
nothing. -/
inductive Ending
  | zoned
  | lettered
  | spaced
  | bare
deriving DecidableEq, Repr

namespace Ending

variable {ending whole : Ending}

/-- The endings in the order of their forms. -/
def all : List Ending := [zoned, lettered, spaced, bare]

/-- The form for an ending. -/
def read : Ending → List Char → Option Instant
  | zoned => strict
  | lettered => dateTime (literal 'T')
  | spaced => dateTime blanks
  | bare => dateOnly

/-- A time that is the whole rest of a text, or stands in front of something more. -/
def ofTime (whole : Ending) (cs : List Char) : Option Ending :=
  (time cs).map fun read => if read.2.isEmpty then whole else zoned

/-- Blanks in front of a time are read with it, so a character that has to be passed over before a
time is no blank. -/
def behind? : List Char → Option Ending
  | [] => some bare
  | c :: rest => (ofTime spaced (c :: rest)).or (ofTime lettered rest)

/-- The ending of a text that begins with a date. -/
def of? (cs : List Char) : Option Ending := (date cs).bind fun read => behind? read.2

theorem ofTime_of_end (h : time cs = some (clock, [])) : ofTime whole cs = some whole := by
  rw [ofTime, h]
  rfl

theorem ofTime_of_more (h : time cs = some (clock, zone)) (hzone : zone ≠ []) :
    ofTime whole cs = some zoned := by
  rw [ofTime, h, Option.map_some, if_neg (mt List.isEmpty_iff.mp hzone)]

theorem ofTime_letter (hblank : Text.isBlank c = false) (hdigit : isDigit c = false) :
    ofTime whole (c :: cs) = none := by
  rw [ofTime, time_cons_of_letter hblank hdigit, Option.map_none]

theorem behind?_zoned (hc : c = 'T' ∨ c = 't' ∨ c = ' ') (h : time rest = some (clock, zone))
    (hzone : zone ≠ []) : behind? (c :: rest) = some zoned := by
  rw [behind?, ofTime_of_more h hzone]
  rcases hc with rfl | rfl | rfl
  · rw [ofTime_letter rfl rfl, Option.none_or]
  · rw [ofTime_letter rfl rfl, Option.none_or]
  · have hblank : time (' ' :: rest) = some (clock, zone) := (time_cons_of_blank rfl).trans h
    rw [ofTime_of_more hblank hzone, Option.some_or]

theorem behind?_lettered (h : time rest = some (clock, [])) :
    behind? ('T' :: rest) = some lettered := by
  rw [behind?, ofTime_letter rfl rfl, Option.none_or, ofTime_of_end h]

theorem behind?_spaced (h : time rest = some (clock, [])) : behind? rest = some spaced := by
  cases rest with
  | nil => cases h
  | cons c rest => rw [behind?, ofTime_of_end h, Option.some_or]

/-- A text that a form reads has the ending of this form, and an ending belongs to one form. -/
theorem of?_of_read (h : ending.read cs = some instant) : of? cs = some ending := by
  cases ending with
  | zoned =>
    obtain ⟨_, _, _, _, _, hdate, hc, htime, hzone⟩ := behind_strict h
    rw [of?, hdate]
    exact behind?_zoned hc htime hzone
  | lettered =>
    obtain ⟨_, _, _, _, hdate, hletter, htime⟩ := behind_dateTime h
    rw [of?, hdate, eq_cons_of_literal hletter]
    exact behind?_lettered htime
  | spaced =>
    obtain ⟨_, rest, _, _, hdate, hblanks, htime⟩ := behind_dateTime h
    cases hblanks
    rw [time_dropWhile] at htime
    rw [of?, hdate]
    exact behind?_spaced htime
  | bare =>
    obtain ⟨_, hdate⟩ := behind_dateOnly h
    rw [of?, hdate]
    rfl

end Ending

/-! ## The order of the forms -/

theorem forms_eq_map_read : forms = Ending.all.map Ending.read := rfl

theorem exists_ending_of_mem {form : List Char → Option Instant} (h : form ∈ forms) :
    ∃ ending : Ending, ending.read = form := by
  rw [forms_eq_map_read] at h
  obtain ⟨ending, -, hread⟩ := List.mem_map.mp h
  exact ⟨ending, hread⟩

theorem countP_forms_le_one (cs : List Char) : (forms.countP fun form => (form cs).isSome) ≤ 1 := by
  have hof : ∀ ending ∈ Ending.all, (ending.read cs).isSome = true →
      (Ending.of? cs == some ending) = true := by
    intro ending _ h
    obtain ⟨instant, hread⟩ := Option.isSome_iff_exists.mp h
    rw [Ending.of?_of_read hread, beq_self_eq_true]
  calc forms.countP (fun form => (form cs).isSome)
      = Ending.all.countP (fun ending => (ending.read cs).isSome) := by
        rw [forms_eq_map_read, List.countP_map]
        rfl
    _ ≤ Ending.all.countP (Ending.of? cs == some ·) := List.countP_mono_left hof
    _ ≤ 1 := by
        generalize Ending.of? cs = told
        rcases told with _ | _ | _ | _ | _ <;> decide

theorem instant_unique {form form' : List Char → Option Instant} (hform : form ∈ forms)
    (hform' : form' ∈ forms) (h : form cs = some instant) (h' : form' cs = some instant') :
    instant = instant' := by
  obtain ⟨ending, rfl⟩ := exists_ending_of_mem hform
  obtain ⟨ending', rfl⟩ := exists_ending_of_mem hform'
  have hending : some ending = some ending' :=
    (Ending.of?_of_read h).symm.trans (Ending.of?_of_read h')
  cases hending
  exact Option.some.inj (h.symm.trans h')

/-- What some form reads is found, wherever in the order the form stands. -/
theorem findSome?_eq_some_iff {order : List (List Char → Option Instant)}
    (horder : ∀ form ∈ order, form ∈ forms) :
    order.findSome? (· cs) = some instant ↔ ∃ form ∈ order, form cs = some instant := by
  refine ⟨List.exists_of_findSome?_eq_some, fun ⟨form, hform, h⟩ => ?_⟩
  cases hfound : order.findSome? (· cs) with
  | none =>
    have hnone := List.findSome?_eq_none_iff.mp hfound form hform
    cases h.symm.trans hnone
  | some found =>
    obtain ⟨form', hform', h'⟩ := List.exists_of_findSome?_eq_some hfound
    rw [instant_unique (horder form' hform') (horder form hform) h' h]

/-- Each form reads a spelling of a date and a time, or of the date alone. -/
structure ReadsSpellings (stamp : Timestamp) : Prop where
  zoned : strict (stamp.text "T" "Z").toList = some stamp.instant
  lettered : dateTime (literal 'T') (stamp.text "T" "").toList = some stamp.instant
  spaced : dateTime blanks (stamp.text " " "").toList = some stamp.instant
  bare : dateOnly stamp.date.toText.toList = some (.ofCivil stamp.date .midnight 0)

theorem readsSpellings (stamp : Timestamp) : ReadsSpellings stamp where
  zoned := by
    have hends : Fraction.Ends "Z".toList := by
      rintro c ⟨⟩
      decide
    rw [stamp.toList_text (c := 'T') rfl, stamp.strict_text (.inl rfl) hends]
    rfl
  lettered := by
    rw [stamp.toList_text (c := 'T') rfl]
    exact stamp.dateTime_text (literal_cons 'T' _)
  spaced := by
    rw [stamp.toList_text (c := ' ') rfl]
    exact stamp.dateTime_text stamp.blanks_clock
  bare := by
    have hdate := stamp.isReal.fits.date_toText []
    rw [List.append_nil] at hdate
    rw [dateOnly_of_date hdate]
    exact instant?_of_isValid (stamp.plainYear.isValid stamp.isReal) rfl 0

/-- Each of the four forms reads a spelling of its own, and at most one of them reads a text. So
they may be tried in any order: what one of them reads is the result, and there is none exactly if
all four refuse the text. -/
theorem forms_tried_in_any_order :
    (∀ stamp : Timestamp, ReadsSpellings stamp) ∧
    ∀ text : String, let cs := Text.trimList text.toList
      (forms.countP fun form => (form cs).isSome) ≤ 1 ∧
      (∀ order : List (List Char → Option Instant), order.Perm forms →
        order.findSome? (· cs) = Instant.read? text) ∧
      (∀ instant, Instant.read? text = some instant ↔ ∃ form ∈ forms, form cs = some instant) ∧
      (Instant.read? text = none ↔ ∀ form ∈ forms, form cs = none) := by
  refine ⟨readsSpellings, fun text => ?_⟩
  have hread : ∀ instant, Instant.read? text = some instant ↔
      ∃ form ∈ forms, form (Text.trimList text.toList) = some instant :=
    fun instant => findSome?_eq_some_iff fun _ => id
  refine ⟨countP_forms_le_one _, fun order hperm => ?_, hread, List.findSome?_eq_none_iff⟩
  refine Option.ext fun instant => ?_
  rw [findSome?_eq_some_iff fun _ => hperm.mem_iff.mp, hread]
  simp only [hperm.mem_iff]

/-- A year with a sign, a month in one digit and nothing between the day and the hour. -/
theorem lenient_read_in_reverse :
    forms.reverse.Perm forms ∧
    forms.reverse.findSome? (· (Text.trimList " +2024-3-0110:5:7.25\n".toList)) =
      some ⟨1709287507, 250000000⟩ := by
  obtain ⟨-, hforms⟩ := forms_tried_in_any_order
  obtain ⟨-, horder, -, -⟩ := hforms " +2024-3-0110:5:7.25\n"
  have hread : Instant.read? " +2024-3-0110:5:7.25\n" = some ⟨1709287507, 250000000⟩ := by
    decide +kernel
  exact ⟨forms.reverse_perm, (horder _ forms.reverse_perm).trans hread⟩

end Verdict.Calendar
