import Verdict.Proofs.Evaluation
import Verdict.Proofs.Validation

/-!
# Evaluating admitted trees

A validator that knows the kinds of a registry admits only trees whose plans the registry can
perform to the end. The field of the data record is then the only thing that an evaluation can fail
on, and it is looked at before any executor is called.
-/

namespace Verdict

namespace Condition

variable {condition : Condition} {data : Record}

theorem fieldOf_of_missing (h : Record.get? condition.fieldName data = none ∨
      Record.get? condition.fieldName data = some .null) :
    condition.fieldOf data = .error (.missingField condition.fieldName) := by
  unfold fieldOf
  rcases h with h | h <;> rw [h]

theorem fieldOf_of_present {value : Json} (h : Record.get? condition.fieldName data = some value)
    (hnull : value ≠ .null) : condition.fieldOf data = .ok value := by
  unfold fieldOf
  rw [h]
  cases value <;> first | rfl | exact absurd rfl hnull

theorem holdsOf_of_missing (h : Record.get? condition.fieldName data = none ∨
      Record.get? condition.fieldName data = some .null) :
    condition.holdsOf data = .error (.missingField condition.fieldName) := by
  rw [holdsOf, fieldOf_of_missing h]
  rfl

theorem holdsOf_of_present {value : Json} (h : Record.get? condition.fieldName data = some value)
    (hnull : value ≠ .null) : condition.holdsOf data = condition.evaluate value := by
  rw [holdsOf, fieldOf_of_present h hnull]
  rfl

/-- The record holds a value that the condition can be decided on. -/
def Answers (condition : Condition) (data : Record) : Prop :=
  ∃ value, Record.get? condition.fieldName data = some value ∧ value ≠ .null ∧
    condition.fieldType.Reads value

/-- The failure tells that the record has no value in the condition's field, or that the value there
cannot be read as the field type. -/
def FieldFailure (condition : Condition) (data : Record) (failure : Failure) : Prop :=
  (Record.get? condition.fieldName data = none ∨
      Record.get? condition.fieldName data = some .null) ∧
    failure = .missingField condition.fieldName ∨
  ∃ value, Record.get? condition.fieldName data = some value ∧ value ≠ .null ∧
    failure = .malformed
      (.unreadable (.field condition.fieldName) condition.fieldType.name value)

namespace WellFormed

theorem exists_holds_of_answers (h : condition.WellFormed) (hanswers : condition.Answers data) :
    ∃ holds, condition.holdsOf data = .ok holds := by
  obtain ⟨value, hget, hnull, hreads⟩ := hanswers
  rw [holdsOf_of_present hget hnull]
  exact h.evaluate_of_reads hreads

theorem exists_failure_of_not_answers (h : condition.WellFormed)
    (hanswers : ¬ condition.Answers data) :
    ∃ failure, condition.holdsOf data = .error failure ∧ condition.FieldFailure data failure := by
  by_cases hmissing : Record.get? condition.fieldName data = none ∨
      Record.get? condition.fieldName data = some .null
  · exact ⟨_, holdsOf_of_missing hmissing, .inl ⟨hmissing, rfl⟩⟩
  obtain ⟨value, hget⟩ := Option.ne_none_iff_exists'.mp fun h => hmissing (.inl h)
  have hnull : value ≠ .null := fun h => hmissing (.inr (h ▸ hget))
  have hreads : ¬ condition.fieldType.Reads value := fun h => hanswers ⟨value, hget, hnull, h⟩
  refine ⟨_, ?_, .inr ⟨value, hget, hnull, rfl⟩⟩
  rw [holdsOf_of_present hget hnull, h.evaluate_of_not_reads hreads]

end WellFormed

end Condition

namespace Validator

variable {registry : Registry} {bound : UInt32} {tree : Tree}

/-- The validator that bounds repeats and knows the kinds of a registry. -/
def ofRegistry (registry : Registry) (bound : UInt32) : Validator where
  maxRepeatCount := bound
  knownKinds := some registry.kinds

theorem Admits.contains (h : (ofRegistry registry bound).Admits tree) {action : Action}
    (haction : action ∈ tree.root.actions) : registry.contains action.kind = true :=
  Registry.mem_kinds_iff.mp ((h.actions action haction).available _ rfl)

/-- The registry can perform the plan of an admitted tree to the end. -/
theorem Admits.failure?_plan (h : (ofRegistry registry bound).Admits tree) (holds : Bool) :
    registry.failure? (tree.root.plan holds) = none :=
  Registry.failure?_eq_none_iff.mpr fun _ haction =>
    h.contains (Node.mem_actions_of_mem_plan haction)

end Validator

namespace Tree

variable {registry : Registry} {bound : UInt32} {tree : Tree} {data : Record}

theorem evaluate_of_answers (h : (Validator.ofRegistry registry bound).Admits tree)
    (hanswers : tree.root.condition.Answers data) (past : List Call) :
    ∃ holds output, tree.root.condition.holdsOf data = .ok holds ∧
      (tree.evaluate registry data past).outcome = .ok output ∧
      (tree.evaluate registry data past).calls.map Call.request =
        (tree.root.plan holds).map Action.request := by
  obtain ⟨holds, hholds⟩ := h.condition.exists_holds_of_answers hanswers
  have hperf := evaluate_performs registry hholds
  have hfail := h.failure?_plan holds
  refine ⟨holds, _, hholds, hperf.ok hfail past, ?_⟩
  rw [hperf.calls, Registry.callsFrom_requests_of_registered past hfail]

theorem evaluate_of_not_answers (h : (Validator.ofRegistry registry bound).Admits tree)
    (hanswers : ¬ tree.root.condition.Answers data) (past : List Call) :
    ∃ failure, tree.evaluate registry data past = ⟨[], .error failure⟩ ∧
      tree.root.condition.FieldFailure data failure := by
  obtain ⟨failure, hfailure, hreason⟩ := h.condition.exists_failure_of_not_answers hanswers
  exact ⟨failure, evaluate_of_error registry hfailure past, hreason⟩

/-- Admitted trees are evaluated as a whole or not at all. An evaluation succeeds exactly if the
record holds a value of the condition's field that can be read as its type, and then it performs its
whole plan. Otherwise the failure is about that field, and no executor has been called. -/
theorem evaluate_all_or_nothing (registry : Registry) (bound : UInt32) (tree : Tree) (data : Record)
    (past : List Call)
    (accepted : (Validator.ofRegistry registry bound).validate tree = .ok ()) :
    let condition := tree.root.condition
    let trace := tree.evaluate registry data past
    ((∃ output, trace.outcome = .ok output) ↔ condition.Answers data) ∧
    (∀ output, trace.outcome = .ok output → ∃ holds, condition.holdsOf data = .ok holds ∧
      trace.calls.map Call.request = (tree.root.plan holds).map Action.request) ∧
    (∀ failure, trace.outcome = .error failure →
      trace.calls = [] ∧ condition.FieldFailure data failure) := by
  intro condition trace
  have hadmits := Validator.validate_eq_ok_iff.mp accepted
  by_cases hanswers : condition.Answers data
  · obtain ⟨holds, output, hholds, hok, hcalls⟩ := evaluate_of_answers hadmits hanswers past
    refine ⟨iff_of_true ⟨output, hok⟩ hanswers, fun _ _ => ⟨holds, hholds, hcalls⟩, ?_⟩
    intro failure herror
    cases hok.symm.trans herror
  · obtain ⟨failure, htrace, hreason⟩ := evaluate_of_not_answers hadmits hanswers past
    have herror : trace.outcome = .error failure := congrArg Trace.outcome htrace
    have hnot : ∀ output, trace.outcome ≠ .ok output := by
      intro output hok
      cases herror.symm.trans hok
    refine ⟨iff_of_false (fun ⟨output, hok⟩ => hnot output hok) hanswers,
      fun output hok => absurd hok (hnot output), ?_⟩
    intro failure' herror'
    cases herror.symm.trans herror'
    exact ⟨congrArg Trace.calls htrace, hreason⟩

theorem reminder_all_or_nothing :
    (Validator.ofRegistry .counting 2).validate ⟨"week", .reminder⟩ = .ok () ∧
      (∃ output, (evaluate .counting ⟨"week", .reminder⟩ [("due", .string "exam")] []).outcome =
        .ok output) ∧
      (evaluate .counting ⟨"week", .reminder⟩ [("due", .bool true)] []).calls = [] := by
  have accepted : (Validator.ofRegistry .counting 2).validate ⟨"week", .reminder⟩ = .ok () := by
    rfl
  have hanswers : Node.reminder.condition.Answers [("due", .string "exam")] :=
    ⟨_, rfl, nofun, "exam", rfl⟩
  have hall := evaluate_all_or_nothing _ _ _ [("due", .string "exam")] [] accepted
  have hnothing := evaluate_all_or_nothing _ _ _ [("due", .bool true)] [] accepted
  exact ⟨accepted, hall.1.mpr hanswers, (hnothing.2.2 _ rfl).1⟩

end Tree

end Verdict
