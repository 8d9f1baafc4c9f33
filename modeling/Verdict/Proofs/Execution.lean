import Mathlib.Data.List.Infix
import Verdict.Http.Route
import Verdict.Proofs.Admitted
import Verdict.Proofs.Deadline

/-!
# The answers of the execution route

A submission is refused, its tree is refused, its evaluation fails, or it runs. The first three call
no executor, and the limit of time matters to the last one only. So the status of an answer tells
whether executors were called (`Http.execution_status`), and a limit leaves either the whole answer
or a cut log and a timeout (`Http.timeout_cuts`).
-/

namespace Verdict

theorem Run.ofExcept_error_bind {α β : Type} (failure : Failure) (next : α → Run β) :
    (Run.ofExcept (.error failure) >>= next) = Run.fail failure := by
  funext past
  have h : (Run.ofExcept (.error failure : Except Failure α) past).outcome = .error failure := rfl
  rw [bind_of_error h]
  rfl

theorem Run.bind_pure_of_ok {α β : Type} {run : Run α} {past : List Call} {v : α}
    (h : (run past).outcome = .ok v) (f : α → β) :
    (run >>= fun v => pure (f v)) past = ⟨(run past).calls, .ok (f v)⟩ := by
  rw [bind_of_ok h]
  exact congrArg (Trace.mk · _) (List.append_nil _)

theorem Failure.status_ne_ok (failure : Failure) : failure.status ≠ 200 := by
  unfold status
  split
  · decide
  · split <;> decide

/-! ## The service -/

namespace Service

variable {service : Service} {submitted : ExecutionRequest} {failure : Failure}

theorem execute_of_refused (h : service.validator.validate submitted.tree = .error failure)
    (past : List Call) : service.execute submitted past = ⟨[], .error failure⟩ := by
  rw [execute, run, h, Run.ofExcept_error_bind]
  exact Trace.within_of_calls_eq_nil rfl

theorem run_of_accepted (h : service.validator.validate submitted.tree = .ok ()) :
    service.run submitted.tree submitted.data =
      submitted.tree.evaluate service.registry submitted.data := by
  rw [run, h]
  exact Run.ok_bind () _

theorem execute_of_accepted (h : service.validator.validate submitted.tree = .ok ())
    (past : List Call) :
    service.execute submitted past =
      (submitted.tree.evaluate service.registry submitted.data past).within
        service.timeoutSeconds := by
  rw [execute, run_of_accepted h]
  rfl

end Service

namespace Http

/-- What a request to execute a tree submits. -/
def readSubmission (request : Request) : Except Failure ExecutionRequest :=
  readBody ExecutionRequest.layout.read request

theorem readBody_complains {α : Type} {reading : Reading α} {request : Request} {failure : Failure}
    (h : readBody reading request = .error failure) :
    ∃ complaint, failure = .malformed complaint := by
  unfold readBody at h
  split at h
  · split at h
    · cases h
      exact ⟨_, rfl⟩
    · split at h
      · cases h
      · cases h
        exact ⟨_, rfl⟩
  · cases h
    exact ⟨_, rfl⟩

/-- What is responded to an evaluation that ended so. -/
def responseTo : Except Failure Tree → Response
  | .ok tree => .json 200 tree.encode
  | .error failure => failure.response

/-- The answer to an evaluation that went as the trace tells. -/
def answered (trace : Trace Tree) : Trace Response :=
  ⟨trace.calls, .ok ((responseTo trace.outcome).withHeaders readable)⟩

section
variable {service : Service} {request : Request} {submitted : ExecutionRequest} {failure : Failure}

theorem respond_apply (run : Run Tree) (past : List Call) :
    respond Tree.encode run past = ⟨(run past).calls, .ok (responseTo (run past).outcome)⟩ := by
  rw [respond]
  cases (run past).outcome <;> rfl

/-- What the execution route evaluates. -/
def evaluation (service : Service) (request : Request) : Run Tree := do
  let submitted ← Run.ofExcept (readSubmission request)
  service.execute submitted

/-- A request of a method that its route allows gets the answer on that route. -/
theorem handle_of_allowed {route : Route} {response : Response} {past : List Call}
    (hroute : Route.ofPath? request.path = some route)
    (hallowed : route.methods.contains request.method = true) (hbody : request.method ≠ .head)
    (hanswer : (answer service request route past).outcome = .ok response) :
    handle service request past =
      ⟨(answer service request route past).calls, .ok (response.withHeaders readable)⟩ := by
  unfold handle
  rw [hroute]
  cases hmethod : request.method with
  | options =>
    rw [hmethod] at hallowed
    cases route <;> exact absurd hallowed (by decide)
  | head => exact absurd hmethod hbody
  | get | post | other =>
    rw [hmethod] at hallowed
    simp only [hallowed, if_true, Run.bind_pure_of_ok hanswer, reduceCtorEq, if_false]

theorem handle_execution (post : request.method = .post)
    (path : request.path = "/api/execute-decision-tree") (past : List Call) :
    handle service request past = answered (evaluation service request past) := by
  have hroute : Route.ofPath? request.path = some .execution := by
    rw [path]
    decide
  have hanswer : (answer service request .execution past).outcome =
      .ok (responseTo (evaluation service request past).outcome) :=
    congrArg Trace.outcome (respond_apply (evaluation service request) past)
  rw [handle_of_allowed hroute (by rw [post]; decide) (by rw [post]; decide) hanswer]
  rfl

theorem handle_of_refused (post : request.method = .post)
    (path : request.path = "/api/execute-decision-tree")
    (h : readSubmission request = .error failure) (past : List Call) :
    handle service request past = answered ⟨[], .error failure⟩ := by
  rw [handle_execution post path, evaluation, h, Run.ofExcept_error_bind]
  rfl

theorem handle_of_decoded (post : request.method = .post)
    (path : request.path = "/api/execute-decision-tree")
    (h : readSubmission request = .ok submitted) (past : List Call) :
    handle service request past = answered (service.execute submitted past) := by
  have hbind := Run.ok_bind submitted service.execute
  rw [handle_execution post path, evaluation, h]
  exact congrArg (fun run => answered (run past)) hbind

end

/-! ## What a status tells -/

/-- The submission is evaluated to its end, and before its time is up. -/
structure RunsInTime (registry : Registry) (config : Config) (past : List Call)
    (submitted : ExecutionRequest) : Prop where
  accepted : (Service.ofConfig registry config).validator.validate submitted.tree = .ok ()
  answers : submitted.tree.root.condition.Answers submitted.data
  inTime : Call.totalDelay (submitted.tree.evaluate registry submitted.data past).calls <
    config.timeoutSeconds.toNat * 1000

/-- What a response tells of the calls that were made for it. -/
structure StatusTells (registry : Registry) (config : Config) (request : Request)
    (past calls : List Call) (response : Response) : Prop where
  status : response.status ∈ [200, 422, 500, 504]
  complete : response.status = 200 → ∃ submitted output,
    readSubmission request = .ok submitted ∧
    (Service.ofConfig registry config).validator.validate submitted.tree = .ok () ∧
    submitted.tree.evaluate registry submitted.data past = ⟨calls, .ok output⟩ ∧
    response.body = some output.encode
  untouched : response.status = 422 ∨ response.status = 500 → calls = []
  failed : response.status ≠ 200 → ∃ failure : Failure,
    response.body = some (.object
      [("error", .string failure.message), ("kind", .string failure.kind)]) ∧
    (failure.kind = "MalformedInput" ↔ response.status = 422) ∧
    (response.status = 500 → ∃ submitted, readSubmission request = .ok submitted ∧
      failure = .missingField submitted.tree.root.condition.fieldName) ∧
    (response.status = 504 → failure = .timeout config.timeoutSeconds.toNat ∧
      failure.kind = "Timeout")
  succeeds : ∀ submitted, readSubmission request = .ok submitted →
    RunsInTime registry config past submitted → response.status = 200

section
variable {registry : Registry} {config : Config} {request : Request} {past calls : List Call}
  {submitted : ExecutionRequest} {failure : Failure}

theorem StatusTells.of_failure (hstatus : failure.status ∈ [422, 500, 504])
    (hcalls : failure.status ≠ 504 → calls = [])
    (hkind : failure.kind = "MalformedInput" ↔ failure.status = 422)
    (hmissing : failure.status = 500 → ∃ submitted, readSubmission request = .ok submitted ∧
      failure = .missingField submitted.tree.root.condition.fieldName)
    (hlate : failure.status = 504 → failure = .timeout config.timeoutSeconds.toNat)
    (hnot : ∀ submitted, readSubmission request = .ok submitted →
      ¬ RunsInTime registry config past submitted) :
    StatusTells registry config request past calls (failure.response.withHeaders readable) := by
  have hresponse : (failure.response.withHeaders readable).status = failure.status := rfl
  constructor
  case status =>
    rw [hresponse]
    exact List.mem_cons_of_mem _ hstatus
  case complete =>
    intro hok
    rw [← hresponse, hok] at hstatus
    exact absurd hstatus (by decide)
  case untouched =>
    rw [hresponse]
    intro h
    exact hcalls (by rcases h with h | h <;> simp [h])
  case failed =>
    intro _
    refine ⟨failure, rfl, hkind, hmissing, fun h => ?_⟩
    rw [hlate h]
    exact ⟨rfl, rfl⟩
  case succeeds => exact fun submitted hread hruns => absurd hruns (hnot submitted hread)

theorem StatusTells.of_malformed (hfailure : ∃ complaint, failure = .malformed complaint)
    (hnot : ∀ submitted, readSubmission request = .ok submitted →
      ¬ RunsInTime registry config past submitted) :
    StatusTells registry config request past [] (failure.response.withHeaders readable) := by
  obtain ⟨complaint, rfl⟩ := hfailure
  have hstatus : (Failure.malformed complaint).status = 422 := rfl
  refine .of_failure (by simp [hstatus]) (fun _ => rfl) (iff_of_true rfl rfl) ?_ ?_ hnot
  · exact fun h => by rw [hstatus] at h; cases h
  · exact fun h => by rw [hstatus] at h; cases h

theorem StatusTells.of_missing (hread : readSubmission request = .ok submitted)
    (hnot : ¬ RunsInTime registry config past submitted) :
    StatusTells registry config request past []
      ((Failure.missingField submitted.tree.root.condition.fieldName).response.withHeaders
        readable) := by
  have hstatus : (Failure.missingField submitted.tree.root.condition.fieldName).status = 500 := rfl
  refine .of_failure (by simp [hstatus]) (fun _ => rfl) ?_ (fun _ => ⟨submitted, hread, rfl⟩) ?_ ?_
  · exact iff_of_false (by simp [Failure.kind]) (by rw [hstatus]; decide)
  · exact fun h => by rw [hstatus] at h; cases h
  · intro submitted' hread'
    cases hread.symm.trans hread'
    exact hnot

theorem StatusTells.of_late (hread : readSubmission request = .ok submitted)
    (hnot : ¬ RunsInTime registry config past submitted) :
    StatusTells registry config request past calls
      ((Failure.timeout config.timeoutSeconds.toNat).response.withHeaders readable) := by
  have hstatus : (Failure.timeout config.timeoutSeconds.toNat).status = 504 := rfl
  refine .of_failure (by simp [hstatus]) (fun h => absurd hstatus h) ?_ ?_ (fun _ => rfl) ?_
  · exact iff_of_false (by simp [Failure.kind]) (by rw [hstatus]; decide)
  · exact fun h => by rw [hstatus] at h; cases h
  · intro submitted' hread'
    cases hread.symm.trans hread'
    exact hnot

theorem StatusTells.of_complete {output : Tree} (hread : readSubmission request = .ok submitted)
    (hvalid : (Service.ofConfig registry config).validator.validate submitted.tree = .ok ())
    (h : submitted.tree.evaluate registry submitted.data past = ⟨calls, .ok output⟩) :
    StatusTells registry config request past calls
      ((Response.json 200 output.encode).withHeaders readable) where
  status := List.mem_cons_self
  complete _ := ⟨submitted, output, hread, hvalid, h, rfl⟩
  untouched := nofun
  failed hne := absurd rfl hne
  succeeds _ _ _ := rfl

/-- An accepted tree whose condition can be decided is evaluated to its end or is late. -/
theorem exists_status_of_answers (hread : readSubmission request = .ok submitted)
    (hvalid : (Service.ofConfig registry config).validator.validate submitted.tree = .ok ())
    (hanswers : submitted.tree.root.condition.Answers submitted.data) :
    ∃ calls response,
      answered ((submitted.tree.evaluate registry submitted.data past).within
        config.timeoutSeconds.toNat) = ⟨calls, .ok response⟩ ∧
      StatusTells registry config request past calls response := by
  have hadmits : (Validator.ofRegistry registry config.maxRepeatCount).Admits submitted.tree :=
    Validator.validate_eq_ok_iff.mp hvalid
  obtain ⟨_, output, -, hok, -⟩ := Tree.evaluate_of_answers hadmits hanswers past
  rcases Nat.lt_or_ge (config.timeoutSeconds.toNat * 1000)
    (Call.totalDelay (submitted.tree.evaluate registry submitted.data past).calls)
    with hlate | htime
  · obtain ⟨cut, -, hcut⟩ := Trace.exists_cut_of_lt hlate
    exact ⟨cut, _, congrArg answered hcut, .of_late hread fun hruns =>
      absurd hruns.inTime (Nat.lt_asymm hlate)⟩
  · have htrace : submitted.tree.evaluate registry submitted.data past =
        ⟨(submitted.tree.evaluate registry submitted.data past).calls, .ok output⟩ := by
      rw [← hok]
    refine ⟨_, _, ?_, .of_complete hread hvalid htrace⟩
    rw [Trace.within_of_le htime, answered, hok]
    rfl

/-- An accepted tree whose condition cannot be decided fails before any call. -/
theorem exists_status_of_not_answers (hread : readSubmission request = .ok submitted)
    (hvalid : (Service.ofConfig registry config).validator.validate submitted.tree = .ok ())
    (hanswers : ¬ submitted.tree.root.condition.Answers submitted.data) :
    ∃ calls response,
      answered ((submitted.tree.evaluate registry submitted.data past).within
        config.timeoutSeconds.toNat) = ⟨calls, .ok response⟩ ∧
      StatusTells registry config request past calls response := by
  have hadmits : (Validator.ofRegistry registry config.maxRepeatCount).Admits submitted.tree :=
    Validator.validate_eq_ok_iff.mp hvalid
  obtain ⟨failure, htrace, hreason⟩ := Tree.evaluate_of_not_answers hadmits hanswers past
  rw [htrace, Trace.within_of_calls_eq_nil rfl]
  refine ⟨_, _, rfl, ?_⟩
  rcases hreason with ⟨-, rfl⟩ | ⟨value, -, -, rfl⟩
  · exact .of_missing hread fun hruns => hanswers hruns.answers
  · refine .of_malformed ⟨_, rfl⟩ fun submitted' hread' hruns => ?_
    cases hread.symm.trans hread'
    exact hanswers hruns.answers

end

/-- The status of an answer of the execution route tells what happened: with 200 the whole
evaluation was made, with 422 and 500 no executor was called. Every other body is that of one
failure. -/
theorem execution_status (registry : Registry) (config : Config) (request : Request)
    (past : List Call) (post : request.method = .post)
    (path : request.path = "/api/execute-decision-tree") :
    ∃ calls response,
      handle (.ofConfig registry config) request past = ⟨calls, .ok response⟩ ∧
      StatusTells registry config request past calls response := by
  cases hread : readSubmission request with
  | error failure =>
    refine ⟨_, _, handle_of_refused post path hread past, ?_⟩
    exact .of_malformed (readBody_complains hread) fun _ h => by rw [hread] at h; cases h
  | ok submitted =>
    rw [handle_of_decoded post path hread]
    cases hvalid : (Service.ofConfig registry config).validator.validate submitted.tree with
    | error failure =>
      rw [Service.execute_of_refused hvalid]
      refine ⟨_, _, rfl, ?_⟩
      refine .of_malformed (Validator.validate_complains _ _ _ hvalid) fun submitted' h hruns => ?_
      cases hread.symm.trans h
      cases hvalid.symm.trans hruns.accepted
    | ok _ =>
      rw [Service.execute_of_accepted hvalid]
      by_cases hanswers : submitted.tree.root.condition.Answers submitted.data
      · exact exists_status_of_answers hread hvalid hanswers
      · exact exists_status_of_not_answers hread hvalid hanswers

/-- A target without a query is a path. -/
theorem Request.path_eq_target {request : Request}
    (h : (request.target.toList.all fun c => c != '?' && c != '#') = true) :
    request.path = request.target := by
  rw [path, List.takeWhile_eq_self_iff.mpr (List.all_eq_true.mp h), String.ofList_toList]

/-- The request to execute a tree on a data record. -/
def posting (tree : Tree) (data : Record) : Request where
  method := .post
  target := "/api/execute-decision-tree"
  headers := [("content-type", "application/json")]
  body := textBytes (Json.object [("decisionTree", tree.encode), ("data", .object data)]).compact

theorem path_posting (tree : Tree) (data : Record) :
    (posting tree data).path = "/api/execute-decision-tree" :=
  Request.path_eq_target (show "/api/execute-decision-tree".toList.all _ = true by decide)

/-- Emails take their time and messages take none. -/
def slow : Registry := [
  { Executor.counting .sendEmail with
    perform := fun past _ =>
      { result := .succeeded "" [("before", .ofNat past.length)], delay := 400 } },
  .counting .sendMessage]

theorem exists_of_any_toOption {ε α : Type} {result : Except ε α} {p : α → Bool}
    (h : result.toOption.any p = true) : ∃ v, result = .ok v ∧ p v = true := by
  cases result with
  | error e => cases h
  | ok v => exact ⟨v, rfl, h⟩

theorem exists_ok_of_isOk {ε α : Type} {result : Except ε α} (h : result.isOk = true) :
    ∃ v, result = .ok v := by
  cases result with
  | error e => cases h
  | ok v => exact ⟨v, rfl⟩

/-- The request can be read, and its tree is accepted and evaluated to the end. -/
theorem exists_reminder_submitted :
    ∃ submitted,
      readSubmission (posting ⟨"week", .reminder⟩ [("due", .string "exam")]) = .ok submitted ∧
      (Service.ofConfig slow {}).validator.validate submitted.tree = .ok () ∧
      (∃ output, (submitted.tree.evaluate slow submitted.data []).outcome = .ok output) ∧
      (submitted.tree.evaluate slow submitted.data []).calls.map (·.receipt.delay) =
        [400, 400, 0, 400, 0] := by
  obtain ⟨submitted, hread, hcheck⟩ : ∃ submitted,
      readSubmission (posting ⟨"week", .reminder⟩ [("due", .string "exam")]) = .ok submitted ∧
      (((Service.ofConfig slow {}).validator.validate submitted.tree).isOk &&
        (submitted.tree.evaluate slow submitted.data []).outcome.isOk &&
        (submitted.tree.evaluate slow submitted.data []).calls.map (·.receipt.delay) ==
          [400, 400, 0, 400, 0]) = true :=
    exists_of_any_toOption (by decide +kernel)
  simp only [Bool.and_eq_true, beq_iff_eq] at hcheck
  obtain ⟨⟨hvalid, hok⟩, hdelays⟩ := hcheck
  exact ⟨submitted, hread, (exists_ok_of_isOk hvalid).choose_spec, exists_ok_of_isOk hok, hdelays⟩

theorem reminder_status :
    ∃ calls response,
      handle (.ofConfig slow {}) (posting ⟨"week", .reminder⟩ [("due", .string "exam")]) [] =
        ⟨calls, .ok response⟩ ∧
      response.status = 200 ∧ calls.map (·.receipt.delay) = [400, 400, 0, 400, 0] := by
  obtain ⟨submitted, hread, hvalid, ⟨output, hok⟩, hdelays⟩ := exists_reminder_submitted
  have hanswers : submitted.tree.root.condition.Answers submitted.data := by
    refine Classical.byContradiction fun hnot => ?_
    obtain ⟨failure, hfailed, -⟩ := Tree.evaluate_of_not_answers
      (Validator.validate_eq_ok_iff.mp hvalid) hnot []
    cases (congrArg Trace.outcome hfailed).symm.trans hok
  have htime : Call.totalDelay (submitted.tree.evaluate slow submitted.data []).calls < 30000 := by
    rw [Call.totalDelay, hdelays]
    decide
  obtain ⟨calls, response, hanswer, htells⟩ := execution_status slow {}
    (posting ⟨"week", .reminder⟩ [("due", .string "exam")]) [] rfl (path_posting _ _)
  have hstatus := htells.succeeds submitted hread ⟨hvalid, hanswers, htime⟩
  refine ⟨calls, response, hanswer, hstatus, ?_⟩
  obtain ⟨submitted', _, hread', -, htrace, -⟩ := htells.complete hstatus
  cases hread.symm.trans hread'
  rw [← hdelays, htrace]

/-! ## What a limit of time leaves -/

/-- A limit of time cuts the log of calls and changes nothing else. Below the limit the answer is
that of the evaluation without a limit; above it the calls that were started in time are left. No
beginning of the log, the empty one included, takes exactly the time that is given. -/
theorem timeout_cuts (registry : Registry) (config : Config) (request : Request)
    (submitted : ExecutionRequest) (past : List Call) (post : request.method = .post)
    (path : request.path = "/api/execute-decision-tree")
    (decoded : readSubmission request = .ok submitted)
    (accepted : (Service.ofConfig registry config).validator.validate submitted.tree = .ok ())
    (noTie : ∀ taken, taken <+: (submitted.tree.evaluate registry submitted.data past).calls →
      Call.totalDelay taken ≠ config.timeoutSeconds.toNat * 1000) :
    let unlimited := submitted.tree.evaluate registry submitted.data past
    let limit := config.timeoutSeconds.toNat * 1000
    let answer := handle (.ofConfig registry config) request past
    (Call.totalDelay unlimited.calls < limit → answer = answered unlimited) ∧
    (¬ Call.totalDelay unlimited.calls < limit → ∃ cut,
      Call.IsCut limit unlimited.calls cut ∧
      answer = ⟨cut, .ok (Response.withHeaders (.json 504 (.object
        [("error", .string ("Evaluation timed out after " ++
            toString config.timeoutSeconds.toNat ++ " seconds")),
          ("kind", .string "Timeout")])) readable)⟩) := by
  intro unlimited limit answer
  have hanswer : answer = answered (unlimited.within config.timeoutSeconds.toNat) :=
    (handle_of_decoded post path decoded past).trans
      (congrArg answered (Service.execute_of_accepted accepted past))
  constructor
  · intro htime
    rw [hanswer, Trace.within_of_le (Nat.le_of_lt htime)]
  · intro hlate
    have hne := noTie unlimited.calls List.prefix_rfl
    obtain ⟨cut, hcut, hwithin⟩ : ∃ cut, Call.IsCut limit unlimited.calls cut ∧
        unlimited.within config.timeoutSeconds.toNat =
          ⟨cut, .error (.timeout config.timeoutSeconds.toNat)⟩ :=
      Trace.exists_cut_of_lt (by omega)
    refine ⟨cut, hcut, ?_⟩
    rw [hanswer, hwithin]
    rfl

/-- The third email is being sent when the second is over; the message behind it is not sent. -/
theorem reminder_cut :
    ∃ submitted,
      readSubmission (posting ⟨"week", .reminder⟩ [("due", .string "exam")]) = .ok submitted ∧
      (submitted.tree.evaluate slow submitted.data []).calls.map (·.receipt.delay) =
        [400, 400, 0, 400, 0] ∧
      (handle (.ofConfig slow { timeoutSeconds := 1 })
        (posting ⟨"week", .reminder⟩ [("due", .string "exam")]) []).calls.map (·.receipt.delay) =
        [400, 400, 0, 400] := by
  obtain ⟨submitted, hread, hvalid, -, hdelays⟩ := exists_reminder_submitted
  have hties : ∀ delays ∈ [400, 400, 0, 400, 0].inits, delays.sum ≠ 1000 := by
    decide
  obtain ⟨cut, hcut, hanswer⟩ := (timeout_cuts slow { timeoutSeconds := 1 } _ submitted [] rfl
    (path_posting _ _) hread hvalid fun taken h => hties _ ((List.mem_inits _ _).mpr (hdelays ▸ h.map _))).2 (by
      rw [Call.totalDelay, hdelays]
      decide)
  refine ⟨submitted, hread, hdelays, ?_⟩
  rw [hanswer]
  have htake : ((submitted.tree.evaluate slow submitted.data []).calls.take 4).map
      (·.receipt.delay) = [400, 400, 0, 400] := by
    rw [List.map_take, hdelays]
    rfl
  have hinitial := hcut.shortest _ (List.take_prefix 4 _) (by
    rw [Call.totalDelay, htake]
    decide)
  have honly : ∀ delays ∈ [400, 400, 0, 400].inits, 1000 < delays.sum →
      delays = [400, 400, 0, 400] := by
    decide
  exact honly _ ((List.mem_inits _ _).mpr (htake ▸ hinitial.map _)) hcut.late

end Http

end Verdict
