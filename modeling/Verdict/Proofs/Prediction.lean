import Verdict.Proofs.Execution

/-!
# What the test of a condition foretells

The condition route tests a condition on a record, and the execution route does so on its way
through a tree. A tree that is acceptable in all else is therefore executed to the end exactly if
the test of its condition has a verdict, and the verdict tells which of its actions are performed;
if the test fails, the execution is answered with the same failure
(`Http.condition_foretells_execution`).
-/

namespace Verdict

theorem Failure.body_ne_result (failure : Failure) (v : Json) :
    failure.body ≠ .object [("result", v)] := by
  simp [body]

namespace Node

variable {node : Node}

theorem plan_true (node : Node) :
    node.plan true =
      node.trueActions ++ (List.replicate node.iterations node.subActions).flatten := by
  cases h : node.repeats with
  | true => rw [plan, loop_of_repeats h]; rfl
  | false =>
    have hnone : node.iterations = 0 := by simpa [repeats] using h
    rw [plan, loop_of_not_repeats h, hnone]
    rfl

theorem plan_false (node : Node) : node.plan false = node.falseActions.getD [] := by
  rw [plan, loop, Bool.and_false]
  exact List.append_nil _

end Node

namespace Validator

/-- A tree that is acceptable in all else is refused for its condition or not at all. -/
theorem validate_of_condition {validator : Validator} {tree : Tree}
    (hname : Text.isBlankText tree.name = false)
    (hrepeat : ∀ count, tree.root.repeatCount = some count → count ≤ validator.maxRepeatCount)
    (hactions : ∀ action ∈ tree.root.actions, validator.AdmitsAction action) :
    validator.validate tree = tree.root.condition.validate := by
  rw [validate, hname, validateRepeat_eq_ok_iff.mpr hrepeat,
    validateActions_eq_ok_iff.mpr hactions]
  cases tree.root.condition.validate <;> rfl

end Validator

namespace Service

variable {registry : Registry} {config : Config} {submitted : ExecutionRequest}
  {question : ConditionRequest}

theorem execute_of_undecided {failure : Failure}
    (haccepted : (ofConfig registry config).validator.validate submitted.tree = .ok ())
    (h : submitted.tree.root.condition.holdsOf submitted.data = .error failure)
    (past : List Call) :
    (ofConfig registry config).execute submitted past = ⟨[], .error failure⟩ := by
  have htrace := Tree.evaluate_of_error (ofConfig registry config).registry h past
  rw [execute_of_accepted haccepted, htrace, Trace.within_of_calls_eq_nil rfl]

/-- Once the condition is decided, nothing but the limit of time keeps the plan from being
performed. -/
theorem execute_of_decided {holds : Bool}
    (haccepted : (ofConfig registry config).validator.validate submitted.tree = .ok ())
    (h : submitted.tree.root.condition.holdsOf submitted.data = .ok holds) (past : List Call) :
    (∃ calls, (ofConfig registry config).execute submitted past =
      ⟨calls, .error (.timeout config.timeoutSeconds.toNat)⟩) ∨
    ∃ calls output, (ofConfig registry config).execute submitted past = ⟨calls, .ok output⟩ ∧
      calls.map Call.request = (submitted.tree.root.plan holds).map Action.request := by
  have hperf := Tree.evaluate_performs registry h
  have hfail := (Validator.validate_eq_ok_iff.mp haccepted).failure?_plan holds
  rw [execute_of_accepted haccepted]
  rcases Nat.lt_or_ge (config.timeoutSeconds.toNat * 1000)
    (Call.totalDelay (submitted.tree.evaluate registry submitted.data past).calls)
    with hlate | htime
  · obtain ⟨cut, -, hcut⟩ := Trace.exists_cut_of_lt hlate
    exact .inl ⟨cut, hcut⟩
  · have htrace := hperf.apply_of_registered hfail past
    have hrequests := Registry.callsFrom_requests_of_registered past hfail
    exact .inr ⟨_, _, (Trace.within_of_le htime).trans htrace, hrequests⟩

/-- The test of the condition of a tree that is acceptable in all else fails with what the execution
fails with, or it has a verdict and the execution performs what is planned for that verdict. -/
theorem execute_of_test (hcondition : submitted.tree.root.condition = question.condition)
    (hdata : submitted.data = question.data)
    (hvalidate : (ofConfig registry config).validator.validate submitted.tree =
      submitted.tree.root.condition.validate) (past : List Call) :
    (∃ failure, test question = .error failure ∧
      (ofConfig registry config).execute submitted past = ⟨[], .error failure⟩) ∨
    ∃ holds, test question = .ok holds ∧
      ((∃ calls, (ofConfig registry config).execute submitted past =
        ⟨calls, .error (.timeout config.timeoutSeconds.toNat)⟩) ∨
      ∃ calls output, (ofConfig registry config).execute submitted past = ⟨calls, .ok output⟩ ∧
        calls.map Call.request = (submitted.tree.root.plan holds).map Action.request) := by
  rw [test, ← hcondition, ← hdata]
  cases hvalid : submitted.tree.root.condition.validate with
  | error failure => exact .inl ⟨failure, rfl, execute_of_refused (hvalidate.trans hvalid) past⟩
  | ok _ =>
    have haccepted := hvalidate.trans hvalid
    cases hholds : submitted.tree.root.condition.holdsOf submitted.data with
    | error failure => exact .inl ⟨failure, rfl, execute_of_undecided haccepted hholds past⟩
    | ok holds => exact .inr ⟨holds, rfl, execute_of_decided haccepted hholds past⟩

end Service

namespace Http

/-- The condition and the record that a request submits to be tested. -/
def readQuestion (request : Request) : Except Failure ConditionRequest :=
  readBody ConditionRequest.layout.read request

/-- The answer to a test that ended so. -/
def verdictOf : Except Failure Bool → Response
  | .ok holds => .json 200 (.object [("result", .bool holds)])
  | .error failure => failure.response

section
variable {service : Service} {request : Request} {question : ConditionRequest}

theorem answer_condition (h : readQuestion request = .ok question) (past : List Call) :
    answer service request .condition past = ⟨[], .ok (verdictOf (Service.test question))⟩ := by
  have hrun : (do
      let submitted ← Run.ofExcept (readQuestion request)
      Run.ofExcept (Service.test submitted)) = Run.ofExcept (Service.test question) := by
    rw [h]
    exact Run.ok_bind question fun submitted => Run.ofExcept (Service.test submitted)
  change respond (fun holds => .object [("result", .bool holds)]) (do
      let submitted ← Run.ofExcept (readQuestion request)
      Run.ofExcept (Service.test submitted)) past = _
  rw [hrun, respond]
  cases Service.test question <;> rfl

theorem handle_condition (post : request.method = .post)
    (path : request.path = "/api/conditions/evaluate") (h : readQuestion request = .ok question)
    (past : List Call) :
    handle service request past =
      ⟨[], .ok ((verdictOf (Service.test question)).withHeaders readable)⟩ := by
  have hroute : Route.ofPath? request.path = some .condition := by
    rw [path]
    decide
  have hanswer : answer service request .condition past = _ := answer_condition h past
  rw [handle_of_allowed hroute (by rw [post]; decide) (by rw [post]; decide)
    (congrArg Trace.outcome hanswer), hanswer]

end

/-- What the answer to a condition tells of the answer to a tree around it, and of the calls that
are made for that answer. -/
structure Foretells (node : Node) (verdict response : Response) (calls : List Call) : Prop where
  decided : response.status = 200 ↔
    ∃ holds, verdict.status = 200 ∧ verdict.body = some (.object [("result", .bool holds)])
  holds : verdict.body = some (.object [("result", .bool true)]) →
    calls.map Call.request = (node.trueActions ++
      (List.replicate node.iterations node.subActions).flatten).map Action.request
  fails : verdict.body = some (.object [("result", .bool false)]) →
    calls.map Call.request = (node.falseActions.getD []).map Action.request
  refused : verdict.status ≠ 200 → response = verdict ∧ calls = []

theorem Foretells.of_failure (node : Node) (failure : Failure) :
    Foretells node (failure.response.withHeaders readable) (failure.response.withHeaders readable)
      [] where
  decided := iff_of_false failure.status_ne_ok fun ⟨_, hstatus, _⟩ => failure.status_ne_ok hstatus
  holds h := absurd (Option.some.inj h) (failure.body_ne_result _)
  fails h := absurd (Option.some.inj h) (failure.body_ne_result _)
  refused _ := ⟨rfl, rfl⟩

theorem Foretells.of_performed {node : Node} {holds : Bool} {calls : List Call} (body : Json)
    (h : calls.map Call.request = (node.plan holds).map Action.request) :
    Foretells node ((verdictOf (.ok holds)).withHeaders readable)
      ((Response.json 200 body).withHeaders readable) calls where
  decided := iff_of_true rfl ⟨holds, rfl, rfl⟩
  holds heq := by
    cases heq
    rw [h, Node.plan_true]
  fails heq := by
    cases heq
    rw [h, Node.plan_false]
  refused hne := absurd rfl hne

/-- The answer to a condition on a record foretells the answer to any tree with this condition on
the same record that is acceptable in all else, unless its time runs out. -/
theorem condition_foretells_execution (registry : Registry) (config : Config)
    (asked executed : Request) (question : ConditionRequest) (submitted : ExecutionRequest)
    (before past : List Call)
    (postAsked : asked.method = .post) (pathAsked : asked.path = "/api/conditions/evaluate")
    (readAsked : readQuestion asked = .ok question)
    (postExecuted : executed.method = .post)
    (pathExecuted : executed.path = "/api/execute-decision-tree")
    (readExecuted : readSubmission executed = .ok submitted)
    (condition : submitted.tree.root.condition = question.condition)
    (data : submitted.data = question.data)
    (name : Text.isBlankText submitted.tree.name = false)
    (repeatCount : ∀ count, submitted.tree.root.repeatCount = some count →
      count ≤ config.maxRepeatCount)
    (actions : ∀ action ∈ submitted.tree.root.actions,
      (Service.ofConfig registry config).validator.AdmitsAction action)
    (inTime : ∀ calls response, handle (.ofConfig registry config) executed past =
      ⟨calls, .ok response⟩ → response.status ≠ 504) :
    ∃ verdict response calls,
      handle (.ofConfig registry config) asked before = ⟨[], .ok verdict⟩ ∧
      handle (.ofConfig registry config) executed past = ⟨calls, .ok response⟩ ∧
      Foretells submitted.tree.root verdict response calls := by
  have hasked : handle (.ofConfig registry config) asked before = _ :=
    handle_condition postAsked pathAsked readAsked before
  have hexecuted : handle (.ofConfig registry config) executed past = _ :=
    handle_of_decoded postExecuted pathExecuted readExecuted past
  have hvalidate := Validator.validate_of_condition name repeatCount actions
  rcases Service.execute_of_test condition data hvalidate past with
    ⟨failure, htest, hfailed⟩ | ⟨holds, htest, ⟨calls, hlate⟩ | ⟨calls, output, hok, hcalls⟩⟩
  · rw [htest] at hasked
    rw [hfailed] at hexecuted
    exact ⟨_, _, _, hasked, hexecuted, .of_failure _ failure⟩
  · rw [hlate] at hexecuted
    exact absurd rfl (inTime _ _ hexecuted)
  · rw [htest] at hasked
    rw [hok] at hexecuted
    exact ⟨_, _, _, hasked, hexecuted, .of_performed output.encode hcalls⟩

/-- The request to test a condition on a data record. -/
def inquiring (condition : Condition) (data : Record) : Request where
  method := .post
  target := "/api/conditions/evaluate"
  headers := [("content-type", "application/json")]
  body := textBytes (Json.object [("condition", condition.encode), ("data", .object data)]).compact

theorem path_inquiring (condition : Condition) (data : Record) :
    (inquiring condition data).path = "/api/conditions/evaluate" :=
  Request.path_eq_target (show "/api/conditions/evaluate".toList.all _ = true by decide)

/-- What can be decided to be equal of a condition and a record; it is all of them if their values
are texts. -/
def sketch (condition : Condition) (data : Record) :
    Comparison × FieldType × String × Option String × List (String × Option String) :=
  (condition.comparison, condition.fieldType, condition.fieldName, condition.compareTo.asString?,
    data.map fun member => (member.1, member.2.asString?))

theorem eq_reminder_of_sketch {condition : Condition} {data : Record}
    (h : sketch condition data = sketch Node.reminder.condition [("due", .string "exam")]) :
    condition = Node.reminder.condition ∧ data = [("due", .string "exam")] := by
  have htext : ∀ {v : Json} {s : String}, v.asString? = some s → v = .string s := by
    intro v s hv
    cases v <;> simp_all [Json.asString?]
  obtain ⟨comparison, fieldType, fieldName, compareTo⟩ := condition
  simp only [sketch, Prod.mk.injEq] at h
  obtain ⟨rfl, rfl, rfl, hcompare, hdata⟩ := h
  refine ⟨congrArg _ (htext hcompare), ?_⟩
  obtain ⟨⟨key, value⟩, rfl, hmember⟩ := List.map_eq_singleton_iff.mp hdata
  obtain ⟨hkey, hvalue⟩ := Prod.mk.inj hmember
  exact congrArg (fun member => [member]) (Prod.ext hkey (htext hvalue))

theorem exists_reminder_asked :
    ∃ question,
      readQuestion (inquiring Node.reminder.condition [("due", .string "exam")]) = .ok question ∧
      question.condition = Node.reminder.condition ∧ question.data = [("due", .string "exam")] := by
  obtain ⟨question, hread, hsketch⟩ : ∃ question,
      readQuestion (inquiring Node.reminder.condition [("due", .string "exam")]) = .ok question ∧
      (sketch question.condition question.data ==
        sketch Node.reminder.condition [("due", .string "exam")]) = true :=
    exists_of_any_toOption (by decide +kernel)
  exact ⟨question, hread, eq_reminder_of_sketch (beq_iff_eq.mp hsketch)⟩

theorem reminder_foretold :
    ∃ verdict response calls,
      handle (.ofConfig slow {}) (inquiring Node.reminder.condition [("due", .string "exam")]) [] =
        ⟨[], .ok verdict⟩ ∧
      handle (.ofConfig slow {}) (posting ⟨"week", .reminder⟩ [("due", .string "exam")]) [] =
        ⟨calls, .ok response⟩ ∧
      verdict.body = some (.object [("result", .bool true)]) ∧ response.status = 200 := by
  obtain ⟨question, hasked, hcondition, hdata⟩ := exists_reminder_asked
  obtain ⟨submitted, hread, hsketch⟩ : ∃ submitted,
      readSubmission (posting ⟨"week", .reminder⟩ [("due", .string "exam")]) = .ok submitted ∧
      (sketch submitted.tree.root.condition submitted.data ==
        sketch Node.reminder.condition [("due", .string "exam")]) = true :=
    exists_of_any_toOption (by decide +kernel)
  obtain ⟨hcondition', hdata'⟩ := eq_reminder_of_sketch (beq_iff_eq.mp hsketch)
  obtain ⟨submitted', hread', hvalid, ⟨output, hok⟩, hdelays⟩ := exists_reminder_submitted
  cases hread.symm.trans hread'
  have hadmits := Validator.validate_eq_ok_iff.mp hvalid
  have htime :
      Call.totalDelay (submitted.tree.evaluate slow submitted.data []).calls ≤ 30 * 1000 := by
    rw [Call.totalDelay, hdelays]
    decide
  have inTime : ∀ calls response, handle (.ofConfig slow {})
      (posting ⟨"week", .reminder⟩ [("due", .string "exam")]) [] = ⟨calls, .ok response⟩ →
      response.status ≠ 504 := by
    intro calls response h
    have hexecute : (Service.ofConfig slow {}).execute submitted [] =
        submitted.tree.evaluate slow submitted.data [] :=
      (Service.execute_of_accepted hvalid []).trans (Trace.within_of_le htime)
    have hanswer : handle (.ofConfig slow {}) _ [] = _ :=
      handle_of_decoded rfl (path_posting _ _) hread []
    rw [hexecute, answered, hok] at hanswer
    cases h.symm.trans hanswer
    exact show (200 : Nat) ≠ 504 by decide
  obtain ⟨verdict, response, calls, hverdict, hresponse, hforetells⟩ :=
    condition_foretells_execution slow {} (inquiring Node.reminder.condition [("due", .string "exam")])
      (posting ⟨"week", .reminder⟩ [("due", .string "exam")]) question submitted [] [] rfl
      (path_inquiring _ _) hasked rfl (path_posting _ _) hread (hcondition'.trans hcondition.symm)
      (hdata'.trans hdata.symm) hadmits.name hadmits.repeatCount hadmits.actions inTime
  have htest : Service.test question = .ok true := by
    rw [Service.test, hcondition, hdata]
    rfl
  have hanswer : handle (.ofConfig slow {}) _ [] = _ :=
    handle_condition rfl (path_inquiring _ _) hasked []
  rw [htest] at hanswer
  cases hverdict.symm.trans hanswer
  exact ⟨_, response, calls, hverdict, hresponse, rfl, hforetells.decided.mpr ⟨true, rfl, rfl⟩⟩

end Http

end Verdict
