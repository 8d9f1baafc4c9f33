import Verdict.Condition.Evaluation

/-!
# Which conditions can be decided

An evaluation needs a field type and a comparison that are known, and both sides have to be readable
as the field type (`Condition.Decides`). It meets what is missing in a fixed order: the field type,
the comparison, the field, and the given value (`Condition.Obstacle`). One of the two is the case of
every condition and every value.
-/

namespace Verdict

/-- The values that can be read as a field type. -/
def FieldType.Reads : FieldType → Json → Prop
  | .number, v => ∃ n, v = .number n
  | .string, v => ∃ s, v = .string s
  | .date, v => ∃ s instant, v = .string s ∧ Instant.read? s = some instant
  | .unrecognized _, _ => False

namespace Json

variable {v : Json}

theorem asBinary64?_isSome_iff : v.asBinary64?.isSome = true ↔ ∃ n, v = .number n := by
  cases v <;> simp [asBinary64?]

theorem asString?_isSome_iff : v.asString?.isSome = true ↔ ∃ s, v = .string s := by
  cases v <;> simp [asString?]

theorem asInstant?_isSome_iff :
    v.asInstant?.isSome = true ↔ ∃ s instant, v = .string s ∧ Instant.read? s = some instant := by
  cases v <;> simp [asInstant?, asString?, Option.isSome_iff_exists]

end Json

namespace Condition

/-- What an evaluation needs in order to decide on a value. -/
structure Decides (condition : Condition) (value : Json) : Prop where
  comparison : ∀ name, condition.comparison ≠ .unrecognized name
  value : condition.fieldType.Reads value
  compareTo : condition.fieldType.Reads condition.compareTo

/-- What an evaluation fails with on a value. Each obstacle is met only where none before it is. -/
inductive Obstacle (condition : Condition) (value : Json) : Failure → Prop
  | fieldType {name : String} (htype : condition.fieldType = .unrecognized name) :
    Obstacle condition value (.unsupportedFieldType name)
  | comparison {name : String} (htype : ∀ name, condition.fieldType ≠ .unrecognized name)
    (hcomparison : condition.comparison = .unrecognized name) :
    Obstacle condition value (.unsupportedComparison condition.fieldType.name name)
  | field (htype : ∀ name, condition.fieldType ≠ .unrecognized name)
    (hcomparison : ∀ name, condition.comparison ≠ .unrecognized name)
    (hvalue : ¬ condition.fieldType.Reads value) :
    Obstacle condition value (.malformed
      (.unreadable (.field condition.fieldName) condition.fieldType.name value))
  | compareTo (htype : ∀ name, condition.fieldType ≠ .unrecognized name)
    (hcomparison : ∀ name, condition.comparison ≠ .unrecognized name)
    (hvalue : condition.fieldType.Reads value)
    (hcompareTo : ¬ condition.fieldType.Reads condition.compareTo) :
    Obstacle condition value (.malformed
      (.unreadable .compareTo condition.fieldType.name condition.compareTo))

variable {condition : Condition} {value : Json}

/-- All field types are treated alike: both sides are read, and what was read is compared. -/
theorem exists_reader (h : ∀ name, condition.fieldType ≠ .unrecognized name) :
    ∃ (α : Type) (read? : Json → Option α) (holds : Relation → α → α → Bool),
      (∀ v, (read? v).isSome = true ↔ condition.fieldType.Reads v) ∧
      ∀ v, condition.evaluate v = condition.compare read? holds v := by
  cases htype : condition.fieldType with
  | number =>
    exact ⟨_, Json.asBinary64?, Relation.holdsOfNumbers, fun _ => Json.asBinary64?_isSome_iff,
      fun _ => by simp only [evaluate, htype]⟩
  | string =>
    exact ⟨_, Json.asString?, Relation.holdsOfStrings, fun _ => Json.asString?_isSome_iff,
      fun _ => by simp only [evaluate, htype]⟩
  | date =>
    exact ⟨_, Json.asInstant?, Relation.holdsOfDates, fun _ => Json.asInstant?_isSome_iff,
      fun _ => by simp only [evaluate, htype]⟩
  | unrecognized name => exact absurd htype (h name)

theorem exists_relation (h : ∀ name, condition.comparison ≠ .unrecognized name)
    (fieldType : FieldType) :
    ∃ relation, Relation.ofComparison fieldType condition.comparison = .ok relation := by
  cases hc : condition.comparison with
  | equals => exact ⟨.equal, rfl⟩
  | greaterThan => exact ⟨.greater, rfl⟩
  | lessThan => exact ⟨.less, rfl⟩
  | unrecognized name => exact absurd hc (h name)

theorem fieldType_ne_of_reads (h : condition.fieldType.Reads value) (name : String) :
    condition.fieldType ≠ .unrecognized name := by
  intro htype
  rw [htype] at h
  exact h

theorem Decides.evaluate (h : condition.Decides value) :
    ∃ holds, condition.evaluate value = .ok holds := by
  obtain ⟨α, read?, holds, hread, heval⟩ := exists_reader (fieldType_ne_of_reads h.value)
  obtain ⟨relation, hrelation⟩ := exists_relation h.comparison condition.fieldType
  obtain ⟨left, hleft⟩ := Option.isSome_iff_exists.mp ((hread value).mpr h.value)
  obtain ⟨right, hright⟩ := Option.isSome_iff_exists.mp ((hread _).mpr h.compareTo)
  refine ⟨holds relation left right, ?_⟩
  rw [heval, compare, hrelation]
  simp only [readSide, hleft, hright]
  rfl

theorem Obstacle.evaluate {failure : Failure} (h : condition.Obstacle value failure) :
    condition.evaluate value = .error failure := by
  cases h with
  | fieldType htype => simp only [Condition.evaluate, htype]
  | comparison htype hcomparison =>
    obtain ⟨α, read?, holds, -, heval⟩ := exists_reader htype
    rw [heval, compare, hcomparison]
    rfl
  | field htype hcomparison hvalue =>
    obtain ⟨α, read?, holds, hread, heval⟩ := exists_reader htype
    obtain ⟨relation, hrelation⟩ := exists_relation hcomparison condition.fieldType
    have hleft : read? value = none :=
      Option.not_isSome_iff_eq_none.mp (mt (hread value).mp hvalue)
    rw [heval, compare, hrelation]
    simp only [readSide, hleft]
    rfl
  | compareTo htype hcomparison hvalue hcompareTo =>
    obtain ⟨α, read?, holds, hread, heval⟩ := exists_reader htype
    obtain ⟨relation, hrelation⟩ := exists_relation hcomparison condition.fieldType
    obtain ⟨left, hleft⟩ := Option.isSome_iff_exists.mp ((hread value).mpr hvalue)
    have hright : read? condition.compareTo = none :=
      Option.not_isSome_iff_eq_none.mp (mt (hread _).mp hcompareTo)
    rw [heval, compare, hrelation]
    simp only [readSide, hleft, hright]
    rfl

/-- There is no third way. -/
theorem decides_or_exists_obstacle (condition : Condition) (value : Json) :
    condition.Decides value ∨ ∃ failure, condition.Obstacle value failure := by
  cases htype : condition.fieldType with
  | unrecognized name => exact .inr ⟨_, .fieldType htype⟩
  | string | number | date =>
    have hrecognized : ∀ name, condition.fieldType ≠ .unrecognized name := by simp [htype]
    cases hcomparison : condition.comparison with
    | unrecognized name => exact .inr ⟨_, .comparison hrecognized hcomparison⟩
    | equals | greaterThan | lessThan =>
      have hcompares : ∀ name, condition.comparison ≠ .unrecognized name := by simp [hcomparison]
      by_cases hvalue : condition.fieldType.Reads value
      · by_cases hto : condition.fieldType.Reads condition.compareTo
        · exact .inl ⟨hcompares, hvalue, hto⟩
        · exact .inr ⟨_, .compareTo hrecognized hcompares hvalue hto⟩
      · exact .inr ⟨_, .field hrecognized hcompares hvalue⟩

theorem exists_evaluate_eq_ok_iff :
    (∃ holds, condition.evaluate value = .ok holds) ↔ condition.Decides value := by
  refine ⟨fun ⟨holds, hok⟩ => ?_, Decides.evaluate⟩
  rcases decides_or_exists_obstacle condition value with h | ⟨failure, hobstacle⟩
  · exact h
  · cases hok.symm.trans hobstacle.evaluate

theorem evaluate_eq_error_iff {failure : Failure} :
    condition.evaluate value = .error failure ↔ condition.Obstacle value failure := by
  refine ⟨fun herror => ?_, Obstacle.evaluate⟩
  rcases decides_or_exists_obstacle condition value with h | ⟨failure', hobstacle⟩
  · obtain ⟨holds, hok⟩ := h.evaluate
    cases herror.symm.trans hok
  · cases herror.symm.trans hobstacle.evaluate
    exact hobstacle

end Condition

end Verdict
