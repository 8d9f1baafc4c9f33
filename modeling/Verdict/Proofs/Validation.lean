import Verdict.Proofs.Complaints
import Verdict.Proofs.Decisions
import Verdict.Validator

/-!
# What validation accepts

An accepted condition names its field and its comparison, and the given value can be read as the
field type (`Condition.WellFormed`). Such a condition can be evaluated on every value that can be
read as the field type (`WellFormed.evaluate_of_reads`), and fails on all others because of the
field (`WellFormed.evaluate_of_not_reads`). Validation makes its checks in another order than an
evaluation and by other means, but accepts exactly the conditions with a name for their field that
can be decided on some value (`Condition.validation_agrees_with_evaluation`). An accepted tree has a
name, a well-formed condition, a bounded number of repeats, and actions that are known, available
and not yet executed (`Validator.Admits`).
-/

namespace Verdict

/-- Checks in sequence succeed together. -/
theorem check_bind_eq_ok_iff {ε α : Type} {first : Except ε Unit} {next : Unit → Except ε α}
    {v : α} : (first >>= next) = .ok v ↔ first = .ok () ∧ next () = .ok v := by
  cases first with
  | error e => exact ⟨nofun, fun ⟨h, _⟩ => nomatch h⟩
  | ok u => exact ⟨fun h => ⟨rfl, h⟩, fun ⟨_, h⟩ => h⟩

/-! ## Conditions -/

namespace Json

variable {v : Json}

theorem isNumber_iff : v.isNumber = true ↔ ∃ n, v = .number n := by
  cases v <;> simp [isNumber]

theorem isString_iff : v.isString = true ↔ ∃ s, v = .string s := by
  cases v <;> simp [isString]

end Json

namespace Condition

/-- A condition that can be decided on every value that its field type can be read from. -/
structure WellFormed (condition : Condition) : Prop where
  fieldName : Text.isBlankText condition.fieldName = false
  comparison : ∀ name, condition.comparison ≠ .unrecognized name
  compareTo : condition.fieldType.Reads condition.compareTo

variable {condition : Condition} {value : Json}

theorem matchesType?_eq_some_true_iff (condition : Condition) :
    condition.matchesType? = some true ↔ condition.fieldType.Reads condition.compareTo := by
  cases h : condition.fieldType with
  | number => simp only [matchesType?, h, Option.some.injEq, Json.isNumber_iff, FieldType.Reads]
  | string => simp only [matchesType?, h, Option.some.injEq, Json.isString_iff, FieldType.Reads]
  | date =>
    simp only [matchesType?, h, Option.some.injEq, Json.asInstant?_isSome_iff, FieldType.Reads]
  | unrecognized name => simp [matchesType?, h, FieldType.Reads]

theorem validate_eq_ok_iff : condition.validate = .ok () ↔ condition.WellFormed := by
  have hmatch := matchesType?_eq_some_true_iff condition
  constructor
  · intro h
    unfold validate at h
    split at h
    · cases h
    next hname =>
      split at h
      · cases h
      next hcomparison =>
        split at h
        · cases h
        next htype => exact ⟨by simpa using hname, hcomparison, hmatch.mp htype⟩
        · cases h
  · intro ⟨hname, hcomparison, hcompareTo⟩
    unfold validate
    rw [hname, hmatch.mpr hcompareTo]
    split
    · contradiction
    split
    next name h => exact absurd h (hcomparison name)
    next => rfl

namespace WellFormed

theorem decides_iff (h : condition.WellFormed) :
    condition.Decides value ↔ condition.fieldType.Reads value :=
  ⟨Decides.value, fun hvalue => ⟨h.comparison, hvalue, h.compareTo⟩⟩

theorem evaluate_of_reads (h : condition.WellFormed) (hvalue : condition.fieldType.Reads value) :
    ∃ holds, condition.evaluate value = .ok holds :=
  (h.decides_iff.mpr hvalue).evaluate

/-- The field is looked at first, so what cannot be read is the field and never the given value. -/
theorem evaluate_of_not_reads (h : condition.WellFormed)
    (hvalue : ¬ condition.fieldType.Reads value) :
    condition.evaluate value = .error (.malformed
      (.unreadable (.field condition.fieldName) condition.fieldType.name value)) :=
  have hobstacle : condition.Obstacle value _ :=
    .field (fieldType_ne_of_reads h.compareTo) h.comparison hvalue
  hobstacle.evaluate

end WellFormed

/-- The given value is one that a well-formed condition decides on. -/
theorem wellFormed_iff : condition.WellFormed ↔
    Text.isBlankText condition.fieldName = false ∧ ∃ value, condition.Decides value := by
  constructor
  · intro h
    exact ⟨h.fieldName, condition.compareTo, h.decides_iff.mpr h.compareTo⟩
  · rintro ⟨hname, value, h⟩
    exact ⟨hname, h.comparison, h.compareTo⟩

/-- The texts of what an evaluation fails with on a value, by the first obstacle that it meets. -/
structure Explains (condition : Condition) (value : Json) (failure : Failure) : Prop where
  fieldType : ∀ name, condition.fieldType = .unrecognized name →
    failure.message = "Unsupported field type '" ++ name ++ "'"
  comparison : (∀ name, condition.fieldType ≠ .unrecognized name) →
    ∀ name, condition.comparison = .unrecognized name → failure.message =
      "Unsupported " ++ condition.fieldType.name ++ " comparison '" ++ name ++ "'"
  field : (∀ name, condition.fieldType ≠ .unrecognized name) →
    (∀ name, condition.comparison ≠ .unrecognized name) → ¬ condition.fieldType.Reads value →
    failure.message = "Malformed input: '" ++ condition.fieldName ++ "' is not a " ++
      condition.fieldType.name ++ ": " ++ value.compact
  compareTo : (∀ name, condition.fieldType ≠ .unrecognized name) →
    (∀ name, condition.comparison ≠ .unrecognized name) → condition.fieldType.Reads value →
    failure.message = "Malformed input: '" ++ "compareTo" ++ "' is not a " ++
      condition.fieldType.name ++ ": " ++ condition.compareTo.compact

theorem Obstacle.explains {failure : Failure} (h : condition.Obstacle value failure) :
    condition.Explains value failure := by
  cases h with
  | fieldType htype =>
    refine ⟨?_, fun h => absurd htype (h _), fun h => absurd htype (h _),
      fun h => absurd htype (h _)⟩
    intro name hname
    cases htype.symm.trans hname
    rfl
  | comparison htype hcomparison =>
    refine ⟨fun _ h => absurd h (htype _), fun _ => ?_, fun _ h => absurd hcomparison (h _),
      fun _ h => absurd hcomparison (h _)⟩
    intro name hname
    cases hcomparison.symm.trans hname
    rfl
  | field htype hcomparison hvalue =>
    exact ⟨fun _ h => absurd h (htype _), fun _ _ h => absurd h (hcomparison _),
      fun _ _ _ => Failure.message_unreadable .., fun _ _ h => absurd h hvalue⟩
  | compareTo htype hcomparison hvalue hcompareTo =>
    exact ⟨fun _ h => absurd h (htype _), fun _ _ h => absurd h (hcomparison _),
      fun _ _ h => absurd hvalue h, fun _ _ _ => Failure.message_unreadable ..⟩

/-- The text of an unreadable field names the field, and it names nothing else unless one of the
names has a quote in it. -/
theorem names_field (condition : Condition) (value : Json) {failure : Failure}
    (h : failure = .malformed
      (.unreadable (.field condition.fieldName) condition.fieldType.name value)) :
    failure.Names condition.fieldName ∧ ('\'' ∉ condition.fieldName.toList →
      ∀ name, '\'' ∉ name.toList → failure.Names name → name = condition.fieldName) := by
  have hnames : failure.Names condition.fieldName := by
    refine ⟨condition.fieldType.name ++ (": " ++ value.compact), ?_⟩
    rw [h, Failure.message_unreadable]
    simp only [String.append_assoc]
    rfl
  exact ⟨hnames, fun hfield name hname hother => hother.eq hnames hname hfield⟩

/-- Validation accepts the conditions with a name for their field that can be decided on some value.
An accepted condition is decided on the values that can be read as its field type, whatever it
compares them with, and fails on all others because of the field, which is what the text names. What
any condition fails with is the first obstacle in the order of the field type, the comparison, the
field and the given value, and the text says which. -/
theorem validation_agrees_with_evaluation (condition : Condition) :
    (condition.validate = .ok () ↔ Text.isBlankText condition.fieldName = false ∧
      ∃ value holds, condition.evaluate value = .ok holds) ∧
    (condition.validate = .ok () → ∀ value,
      ((∃ holds, condition.evaluate value = .ok holds) ↔ condition.fieldType.Reads value) ∧
      ∀ failure, condition.evaluate value = .error failure → failure = .malformed
        (.unreadable (.field condition.fieldName) condition.fieldType.name value) ∧
        failure.Names condition.fieldName ∧ ('\'' ∉ condition.fieldName.toList →
          ∀ name, '\'' ∉ name.toList → failure.Names name → name = condition.fieldName)) ∧
    (∀ value failure, condition.evaluate value = .error failure ↔
      condition.Obstacle value failure) ∧
    ∀ value failure, condition.evaluate value = .error failure →
      condition.Explains value failure := by
  refine ⟨?_, fun hvalid value => ?_, fun value failure => evaluate_eq_error_iff,
    fun value failure herror => (evaluate_eq_error_iff.mp herror).explains⟩
  · rw [validate_eq_ok_iff, wellFormed_iff]
    simp only [exists_evaluate_eq_ok_iff]
  · have hformed := validate_eq_ok_iff.mp hvalid
    refine ⟨exists_evaluate_eq_ok_iff.trans hformed.decides_iff, fun failure herror => ?_⟩
    have hnot : ¬ condition.fieldType.Reads value := by
      intro hvalue
      obtain ⟨holds, hok⟩ := hformed.evaluate_of_reads hvalue
      cases herror.symm.trans hok
    have hfailure := Except.error.inj (herror.symm.trans (hformed.evaluate_of_not_reads hnot))
    exact ⟨hfailure, names_field condition value hfailure⟩

/-- A condition that is decided on dates, and on nothing else. -/
def overdue : Condition := ⟨.lessThan, .date, "due", .string "2024-06-01"⟩

theorem overdue_decided_on_dates :
    overdue.validate = .ok () ∧
      (∃ holds, overdue.evaluate (.string "2024-05-01T10:00:00+02:00") = .ok holds) ∧
      ∃ failure, overdue.evaluate (.string "tomorrow") = .error failure ∧
        failure = .malformed (.unreadable (.field "due") "date" (.string "tomorrow")) ∧
        failure.message = "Malformed input: 'due' is not a date: \"tomorrow\"" ∧
        ¬ failure.Names "compareTo" := by
  have hvalid : overdue.validate = .ok () := by rfl
  obtain ⟨-, hdecided, hobstacle, hexplains⟩ := overdue.validation_agrees_with_evaluation
  have hdate : FieldType.Reads .date (.string "2024-05-01T10:00:00+02:00") := ⟨_, _, rfl, rfl⟩
  have hword : ¬ FieldType.Reads .date (.string "tomorrow") := by
    rintro ⟨_, _, ⟨⟩, h⟩
    cases h
  have herror := (hobstacle (.string "tomorrow") _).mpr (.field nofun nofun hword)
  obtain ⟨hfailure, -, honly⟩ := (hdecided hvalid _).2 _ herror
  refine ⟨hvalid, (hdecided hvalid _).1.mpr hdate, _, herror, hfailure, ?_, fun hnames => ?_⟩
  · rw [(hexplains _ _ herror).field nofun nofun hword]
    decide +kernel
  · exact absurd (honly (by decide) "compareTo" (by decide) hnames) (by decide)

end Condition

/-! ## Trees -/

namespace Validator

/-- An action that is known, available and not yet executed. -/
structure AdmitsAction (validator : Validator) (action : Action) : Prop where
  known : ∀ name, action.kind ≠ .custom name
  available : ∀ kinds, validator.knownKinds = some kinds → action.kind ∈ kinds
  unexecuted : action.result = none

structure Admits (validator : Validator) (tree : Tree) : Prop where
  name : Text.isBlankText tree.name = false
  condition : tree.root.condition.WellFormed
  repeatCount : ∀ count, tree.root.repeatCount = some count → count ≤ validator.maxRepeatCount
  actions : ∀ action ∈ tree.root.actions, validator.AdmitsAction action

variable {validator : Validator}

theorem any_not_contains_eq_false_iff {kind : ActionKind} :
    (validator.knownKinds.any fun kinds => !kinds.contains kind) = false ↔
      ∀ kinds, validator.knownKinds = some kinds → kind ∈ kinds := by
  cases validator.knownKinds <;> simp

theorem validateAction_eq_ok_iff {action : Action} :
    validator.validateAction action = .ok () ↔ validator.AdmitsAction action := by
  have havailable := @any_not_contains_eq_false_iff validator action.kind
  have hunexecuted : action.isExecuted = false ↔ action.result = none := by
    simp [Action.isExecuted]
  constructor
  · intro h
    unfold validateAction at h
    split at h
    · cases h
    next hknown =>
      split at h
      · cases h
      next hkinds =>
        split at h
        · cases h
        next hresult =>
          exact ⟨hknown, havailable.mp (Bool.eq_false_iff.mpr hkinds),
            hunexecuted.mp (Bool.eq_false_iff.mpr hresult)⟩
  · intro ⟨hknown, hkinds, hresult⟩
    unfold validateAction
    split
    next name h => exact absurd h (hknown name)
    next => rw [havailable.mpr hkinds, hunexecuted.mpr hresult]; rfl

theorem validateActions_eq_ok_iff {actions : List Action} :
    validator.validateActions actions = .ok () ↔
      ∀ action ∈ actions, validator.AdmitsAction action := by
  induction actions with
  | nil => simp [validateActions]
  | cons action rest ih =>
    rw [validateActions, check_bind_eq_ok_iff, validateAction_eq_ok_iff, ih, List.forall_mem_cons]

/-- Actions that are admitted hide nothing that stands behind them. -/
theorem validateActions_append {before after : List Action}
    (h : ∀ action ∈ before, validator.AdmitsAction action) :
    validator.validateActions (before ++ after) = validator.validateActions after := by
  induction before with
  | nil => rfl
  | cons action before ih =>
    obtain ⟨haction, hbefore⟩ := List.forall_mem_cons.mp h
    rw [List.cons_append, validateActions, validateAction_eq_ok_iff.mpr haction]
    exact ih hbefore

theorem validateRepeat_eq_ok_iff {repeatCount : Option UInt32} :
    validator.validateRepeat repeatCount = .ok () ↔
      ∀ count, repeatCount = some count → count ≤ validator.maxRepeatCount := by
  cases repeatCount <;> simp [validateRepeat]

theorem validate_eq_ok_iff {tree : Tree} :
    validator.validate tree = .ok () ↔ validator.Admits tree := by
  cases hname : Text.isBlankText tree.name with
  | true =>
    constructor
    · intro h
      rw [validate, hname, if_pos rfl] at h
      cases h
    · intro h
      rw [h.name] at hname
      cases hname
  | false =>
    rw [validate, hname, if_neg (by decide), check_bind_eq_ok_iff, check_bind_eq_ok_iff,
      Condition.validate_eq_ok_iff, validateRepeat_eq_ok_iff, validateActions_eq_ok_iff]
    exact ⟨fun ⟨hcondition, hrepeat, hactions⟩ => ⟨hname, hcondition, hrepeat, hactions⟩,
      fun h => ⟨h.condition, h.repeatCount, h.actions⟩⟩

end Validator

/-! ## What a refusal says -/

/-- Whatever the check fails with is a complaint about the input. -/
def Complains (check : Except Failure Unit) : Prop :=
  ∀ failure, check = .error failure → ∃ complaint, failure = .malformed complaint

namespace Complains

theorem ok : Complains (.ok ()) := by
  intro failure h
  cases h

theorem error (complaint : Complaint) : Complains (.error (.malformed complaint)) := by
  intro failure h
  cases h
  exact ⟨complaint, rfl⟩

theorem bind {first next : Except Failure Unit} (hfirst : Complains first)
    (hnext : Complains next) : Complains (first >>= fun _ => next) := by
  cases first with
  | error failure => exact hfirst
  | ok _ => exact hnext

end Complains

theorem Condition.validate_complains (condition : Condition) : Complains condition.validate := by
  unfold validate
  split
  · exact .error _
  split
  · exact .error _
  split
  · exact .error _
  · exact .ok
  · exact .error _

namespace Validator

variable (validator : Validator)

theorem validateAction_complains (action : Action) :
    Complains (validator.validateAction action) := by
  unfold validateAction
  split
  · exact .error _
  split
  · exact .error _
  split
  · exact .error _
  · exact .ok

theorem validateActions_complains (actions : List Action) :
    Complains (validator.validateActions actions) := by
  induction actions with
  | nil => exact .ok
  | cons action rest ih => exact .bind (validator.validateAction_complains action) ih

theorem validateRepeat_complains (repeatCount : Option UInt32) :
    Complains (validator.validateRepeat repeatCount) := by
  cases repeatCount with
  | none => exact .ok
  | some count =>
    simp only [validateRepeat]
    split
    · exact .error _
    · exact .ok

theorem validate_complains (tree : Tree) : Complains (validator.validate tree) := by
  unfold validate
  split
  · exact .error _
  · exact .bind tree.root.condition.validate_complains <|
      .bind (validator.validateRepeat_complains _) (validator.validateActions_complains _)

end Validator

end Verdict
