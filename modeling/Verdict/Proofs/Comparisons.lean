import Verdict.Proofs.Calendar
import Verdict.Proofs.Decisions

/-!
# Comparing two values

A condition that can be decided relates the value of its field to the given value
(`Condition.relate`). Strings are equal as texts and ordered by their lengths, and dates are equal
on one day and ordered by their instants. In either case the order is strict and excludes its
converse (`Condition.Comparable`); for dates it goes by days as far as the days differ
(`Instant.before_of_dayNumber_lt`).
-/

namespace Verdict

/-- The comparison that a relation carries out. -/
def Relation.comparison : Relation → Comparison
  | equal => .equals
  | greater => .greaterThan
  | less => .lessThan

namespace Instant

variable {a b c : Instant}

theorem before_iff :
    a.before b = true ↔ a.seconds < b.seconds ∨ (a.seconds = b.seconds ∧ a.nanos < b.nanos) := by
  simp [before]

theorem before_irrefl (a : Instant) : a.before a = false := by
  simp [before]

theorem before_trans (hab : a.before b = true) (hbc : b.before c = true) : a.before c = true := by
  rw [before_iff] at *
  omega

theorem before_asymm (h : a.before b = true) : b.before a = false := by
  rw [Bool.eq_false_iff]
  intro hba
  rw [before_iff] at *
  omega

/-- An instant on an earlier day is earlier. -/
theorem before_of_dayNumber_lt (h : a.dayNumber < b.dayNumber) : a.before b = true := by
  unfold dayNumber at h
  rw [before_iff]
  omega

theorem before_eq_of_dayNumber_ne (h : a.dayNumber ≠ b.dayNumber) :
    a.before b = decide (a.dayNumber < b.dayNumber) := by
  rcases Int.lt_or_gt_of_ne h with hlt | hgt
  · rw [before_of_dayNumber_lt hlt, decide_eq_true hlt]
  · rw [before_asymm (before_of_dayNumber_lt hgt), decide_eq_false (by omega)]

theorem date_inj : a.date = b.date ↔ a.dayNumber = b.dayNumber := by
  refine ⟨fun h => ?_, congrArg Date.ofDayNumber⟩
  rw [← (Date.exists_ofDayNumber a.dayNumber).2, ← (Date.exists_ofDayNumber b.dayNumber).2]
  exact congrArg Date.dayNumber h

end Instant

theorem Json.asInstant?_string (text : String) :
    (Json.string text).asInstant? = Instant.read? text := by
  simp only [asInstant?, asString?, Option.bind_some]

namespace Condition

/-- What a condition decides on two values, the first that of its field and the second given with
it. -/
def relate (fieldType : FieldType) (field : String) (relation : Relation) (a b : Json) :
    Except Failure Bool :=
  evaluate ⟨relation.comparison, fieldType, field, b⟩ a

theorem relate_numbers (field : String) (relation : Relation) (a b : Number) :
    relate .number field relation (.number a) (.number b) =
      .ok (relation.holdsOfNumbers a.toBinary64 b.toBinary64) := by
  cases relation <;> rfl

theorem relate_strings (field : String) (relation : Relation) (a b : String) :
    relate .string field relation (.string a) (.string b) =
      .ok (relation.holdsOfStrings a b) := by
  cases relation <;> rfl

theorem relate_dates (field : String) (relation : Relation) {a b : String} {i j : Instant}
    (ha : Instant.read? a = some i) (hb : Instant.read? b = some j) :
    relate .date field relation (.string a) (.string b) = .ok (relation.holdsOfDates i j) := by
  have ha : (Json.string a).asInstant? = some i := by rw [Json.asInstant?_string, ha]
  have hb : (Json.string b).asInstant? = some j := by rw [Json.asInstant?_string, hb]
  cases relation <;> simp only [relate, evaluate, compare, readSide, ha, hb] <;> rfl

/-- Texts that can be read as a field type. -/
def Readable (fieldType : FieldType) : Type := { text : String // fieldType.Reads (.string text) }

/-- What a condition decides on two readable texts. -/
def Readable.relate {fieldType : FieldType} (field : String) (relation : Relation)
    (a b : Readable fieldType) : Except Failure Bool :=
  Condition.relate fieldType field relation (.string a.1) (.string b.1)

/-- The relations of a field type as an equivalence and a strict order. -/
structure Comparable (fieldType : FieldType) (field : String) : Prop where
  decided : ∀ relation (a b : Readable fieldType), ∃ holds, a.relate field relation b = .ok holds
  converse : ∀ a b : Readable fieldType, a.relate field .greater b = b.relate field .less a
  equivalence : Equivalence fun a b : Readable fieldType => a.relate field .equal b = .ok true
  irrefl : ∀ a : Readable fieldType, a.relate field .less a = .ok false
  trans : ∀ a b c : Readable fieldType, a.relate field .less b = .ok true →
    b.relate field .less c = .ok true → a.relate field .less c = .ok true
  exclusive : ∀ a b : Readable fieldType,
    ¬ (a.relate field .less b = .ok true ∧ a.relate field .greater b = .ok true)

theorem reads_string (text : String) : FieldType.string.Reads (.string text) := ⟨text, rfl⟩

theorem reads_date_iff {text : String} :
    FieldType.date.Reads (.string text) ↔ (Instant.read? text).isSome = true := by
  rw [← Json.asInstant?_string, Json.asInstant?_isSome_iff, FieldType.Reads]

namespace Readable

variable (field : String) (relation : Relation)

/-- The instant that a readable date names. -/
def instant (a : Readable .date) : Instant := (Instant.read? a.1).get (reads_date_iff.mp a.2)

theorem read?_eq (a : Readable .date) : Instant.read? a.1 = some a.instant :=
  (Option.some_get _).symm

/-- A text that names an instant. -/
def ofDateText (text : String) (h : (Instant.read? text).isSome = true) : Readable .date :=
  ⟨text, reads_date_iff.mpr h⟩

theorem instant_ofDateText (text : String) {i : Instant} {h : (Instant.read? text).isSome = true}
    (hread : Instant.read? text = some i) : (ofDateText text h).instant = i :=
  Option.some.inj ((ofDateText text h).read?_eq.symm.trans hread)

theorem relate_string (a b : Readable .string) :
    a.relate field relation b = .ok (relation.holdsOfStrings a.1 b.1) :=
  relate_strings field relation a.1 b.1

theorem relate_date (a b : Readable .date) :
    a.relate field relation b = .ok (relation.holdsOfDates a.instant b.instant) :=
  relate_dates field relation a.read?_eq b.read?_eq

end Readable

section
variable {fieldType : FieldType} {field : String}

/-- It is enough that equality compares one thing and the order ranks another, each found on the two
sides alike. -/
theorem Comparable.of_keys {κ α : Type} (key : Readable fieldType → κ)
    (rank : Readable fieldType → α) (lt : α → α → Prop) (hirrefl : ∀ x, ¬ lt x x)
    (htrans : ∀ {x y z}, lt x y → lt y z → lt x z)
    (hdecided : ∀ relation (a b : Readable fieldType), ∃ holds, a.relate field relation b = .ok holds)
    (hequal : ∀ a b : Readable fieldType, a.relate field .equal b = .ok true ↔ key a = key b)
    (hless : ∀ a b : Readable fieldType, a.relate field .less b = .ok true ↔ lt (rank a) (rank b))
    (hconverse : ∀ a b : Readable fieldType,
      a.relate field .greater b = b.relate field .less a) :
    Comparable fieldType field where
  decided := hdecided
  converse := hconverse
  equivalence :=
    { refl := fun a => (hequal a a).mpr rfl
      symm := fun h => (hequal _ _).mpr ((hequal _ _).mp h).symm
      trans := fun h h' => (hequal _ _).mpr (((hequal _ _).mp h).trans ((hequal _ _).mp h')) }
  irrefl := by
    intro a
    obtain ⟨holds, heq⟩ := hdecided .less a a
    cases holds with
    | false => exact heq
    | true => exact absurd ((hless a a).mp heq) (hirrefl _)
  trans := fun a b c hab hbc => (hless a c).mpr (htrans ((hless a b).mp hab) ((hless b c).mp hbc))
  exclusive := by
    rintro a b ⟨hab, hba⟩
    rw [hconverse] at hba
    exact hirrefl _ (htrans ((hless a b).mp hab) ((hless b a).mp hba))

theorem comparable_string : Comparable .string field := by
  refine .of_keys (fun a => a.1) (fun a => a.1.length) (· < ·) Nat.lt_irrefl Nat.lt_trans
    (fun relation a b => ⟨_, a.relate_string field relation b⟩) (fun a b => ?equal)
    (fun a b => ?less) (fun a b => ?converse)
  case equal => simp [Readable.relate_string, Relation.holdsOfStrings]
  case less => simp [Readable.relate_string, Relation.holdsOfStrings]
  case converse => rw [Readable.relate_string, Readable.relate_string]; rfl

theorem comparable_date : Comparable .date field := by
  refine .of_keys (fun a => a.instant.dayNumber) Readable.instant (fun i j => i.before j = true)
    (fun i => by simp [Instant.before_irrefl]) Instant.before_trans
    (fun relation a b => ⟨_, a.relate_date field relation b⟩) (fun a b => ?equal)
    (fun a b => ?less) (fun a b => ?converse)
  case equal => simp [Readable.relate_date, Relation.holdsOfDates]
  case less => simp [Readable.relate_date, Relation.holdsOfDates]
  case converse => rw [Readable.relate_date, Readable.relate_date]; rfl

end

/-- Strings are ordered as far as their lengths differ. -/
theorem relate_strings_eq_false_iff (field : String) (a b : Readable .string) :
    (a.relate field .less b = .ok false ∧ a.relate field .greater b = .ok false) ↔
      a.1.length = b.1.length := by
  simp only [Readable.relate_string, Relation.holdsOfStrings, Except.ok.injEq,
    decide_eq_false_iff_not]
  omega

/-- Dates on different days are ordered. -/
theorem relate_dates_of_ne (field : String) (a b : Readable .date)
    (h : a.relate field .equal b = .ok false) :
    (a.relate field .less b = .ok true ∧ a.relate field .greater b = .ok false) ∨
      (a.relate field .less b = .ok false ∧ a.relate field .greater b = .ok true) := by
  have hne : a.instant.dayNumber ≠ b.instant.dayNumber := by
    simpa [Readable.relate_date, Relation.holdsOfDates] using h
  simp only [Readable.relate_date, Relation.holdsOfDates, Except.ok.injEq]
  rcases Int.lt_or_gt_of_ne hne with hlt | hgt
  · have hbefore := Instant.before_of_dayNumber_lt hlt
    exact .inl ⟨hbefore, Instant.before_asymm hbefore⟩
  · have hbefore := Instant.before_of_dayNumber_lt hgt
    exact .inr ⟨Instant.before_asymm hbefore, hbefore⟩

/-- Which instant of its day a date is does not matter on other days. -/
theorem relate_dates_of_date_eq (field : String) (relation : Relation) {a a' b : Readable .date}
    (hsame : a.instant.date = a'.instant.date) (hother : a.instant.date ≠ b.instant.date) :
    a.relate field relation b = a'.relate field relation b := by
  rw [Instant.date_inj] at hsame
  rw [Ne, Instant.date_inj] at hother
  have hother' : a'.instant.dayNumber ≠ b.instant.dayNumber := by
    rw [← hsame]
    exact hother
  rw [Readable.relate_date, Readable.relate_date]
  cases relation with
  | equal => simp only [Relation.holdsOfDates, hsame]
  | less =>
    simp only [Relation.holdsOfDates, Instant.before_eq_of_dayNumber_ne hother,
      Instant.before_eq_of_dayNumber_ne hother', hsame]
  | greater =>
    simp only [Relation.holdsOfDates, Instant.before_eq_of_dayNumber_ne (Ne.symm hother),
      Instant.before_eq_of_dayNumber_ne (Ne.symm hother'), hsame]

/-- Conditions on strings and on dates order what they compare. Strings that are not ordered are
those of one length, equal or not; dates that are not ordered are on one day, and on other days each
instant of a day counts as any other. -/
theorem strings_and_dates_compared (field : String) :
    ((∀ text, FieldType.string.Reads (.string text)) ∧ Comparable .string field ∧
      ∀ a b : Readable .string,
        ((a.relate field .less b = .ok false ∧ a.relate field .greater b = .ok false) ↔
          a.1.length = b.1.length) ∧
        (a.relate field .equal b = .ok true → a.1.length = b.1.length)) ∧
    ((∀ text, FieldType.date.Reads (.string text) ↔ (Instant.read? text).isSome = true) ∧
      Comparable .date field ∧
      (∀ a b : Readable .date, a.relate field .equal b = .ok false →
        (a.relate field .less b = .ok true ∧ a.relate field .greater b = .ok false) ∨
          (a.relate field .less b = .ok false ∧ a.relate field .greater b = .ok true)) ∧
      ∀ a a' b : Readable .date, a.instant.date = a'.instant.date →
        a.instant.date ≠ b.instant.date →
        a.relate field .less b = a'.relate field .less b ∧
          a.relate field .greater b = a'.relate field .greater b) := by
  refine ⟨⟨reads_string, comparable_string, fun a b => ⟨?lengths, ?equal⟩⟩,
    ⟨fun _ => reads_date_iff, comparable_date, ?ordered, fun a a' b hsame hother => ⟨?less, ?greater⟩⟩⟩
  case lengths => exact relate_strings_eq_false_iff field a b
  case equal =>
    intro hequal
    have heq : a.1 = b.1 := by
      simpa [Readable.relate_string, Relation.holdsOfStrings] using hequal
    rw [heq]
  case ordered => exact relate_dates_of_ne field
  case less => exact relate_dates_of_date_eq field .less hsame hother
  case greater => exact relate_dates_of_date_eq field .greater hsame hother

/-- Half past midnight on the first of March, an hour ahead of universal time, is still the leap
day. -/
theorem leapDay_compared :
    let ahead := Readable.ofDateText "2024-03-01T00:30:00+01:00" (by decide)
    let leapDay := Readable.ofDateText "2024-02-29" (by decide)
    let march := Readable.ofDateText "2024-03-01" (by decide)
    (∃ a b : Readable .string, a.1 = "ab" ∧ b.1 = "日本" ∧
      a.relate "day" .less b = .ok false ∧ a.relate "day" .greater b = .ok false) ∧
    ahead.instant.date = leapDay.instant.date ∧ ahead.instant.date ≠ march.instant.date ∧
    ahead.relate "day" .less march = leapDay.relate "day" .less march ∧
    leapDay.relate "day" .equal march = .ok false ∧
    ((leapDay.relate "day" .less march = .ok true ∧
      leapDay.relate "day" .greater march = .ok false) ∨
      (leapDay.relate "day" .less march = .ok false ∧
        leapDay.relate "day" .greater march = .ok true)) := by
  intro ahead leapDay march
  have hahead : ahead.instant = ⟨1709249400, 0⟩ :=
    Readable.instant_ofDateText "2024-03-01T00:30:00+01:00" (by decide +kernel)
  have hleapDay : leapDay.instant = ⟨1709164800, 0⟩ :=
    Readable.instant_ofDateText "2024-02-29" (by rfl)
  have hmarch : march.instant = ⟨1709251200, 0⟩ :=
    Readable.instant_ofDateText "2024-03-01" (by rfl)
  have hsame : ahead.instant.date = leapDay.instant.date := by
    rw [Instant.date_inj, hahead, hleapDay]
    rfl
  have hother : ahead.instant.date ≠ march.instant.date := by
    rw [Ne, Instant.date_inj, hahead, hmarch]
    decide
  have hunequal : leapDay.relate "day" .equal march = .ok false := by
    rw [Readable.relate_date, hleapDay, hmarch]
    rfl
  obtain ⟨⟨-, -, hlength⟩, -, -, hordered, hday⟩ := strings_and_dates_compared "day"
  refine ⟨⟨⟨"ab", reads_string _⟩, ⟨"日本", reads_string _⟩, rfl, rfl, ?_⟩, hsame, hother,
    (hday ahead leapDay march hsame hother).1, hunequal, hordered leapDay march hunequal⟩
  exact (hlength ⟨"ab", reads_string _⟩ ⟨"日本", reads_string _⟩).1.mpr (by decide)

end Condition

end Verdict
