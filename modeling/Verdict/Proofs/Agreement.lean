import Verdict.Proofs.Bytes
import Verdict.Proofs.Execution
import Verdict.Proofs.Grammar
import Verdict.Proofs.Logging
import Verdict.Proofs.Submission

/-!
# What the command line and the execution route have in common

The command that runs a tree loads, checks and evaluates on its own what the execution route reads,
checks and evaluates within a limit of time. Without webhooks both are given the standard registry,
whose executors take no time and remember nothing, so a limit makes no difference
(`Service.execute_of_prompt`). A report and a response then tell the same, as far as a status, two
texts and a body can (`Report.Restates`). The log and the stack are written among the errors of a
report, if the environment asks for them.
-/

namespace Verdict

/-! ## Files -/

namespace Text

variable {α : Type} [DecidableEq α] {separator : α} {behind : List α}

theorem splitAt_of_notMem (h : separator ∉ behind) : splitAt separator behind = [behind] := by
  induction behind with
  | nil => rfl
  | cons c behind ih =>
    obtain ⟨hc, hbehind⟩ := not_or.mp (List.mem_cons.not.mp h)
    rw [splitAt, if_neg (Ne.symm hc), ih hbehind]

/-- The last part of a text grows with what is appended if that has no separators in it. -/
theorem exists_splitAt_append (hbehind : separator ∉ behind) {text : List α} (hne : text ≠ [])
    (hlast : text.getLast? ≠ some separator) :
    ∃ parts last, last ≠ [] ∧ splitAt separator (text ++ behind) = parts ++ [last ++ behind] := by
  induction text with
  | nil => exact absurd rfl hne
  | cons c text ih =>
    by_cases htext : text = []
    · subst htext
      have hc : c ≠ separator := by simpa using hlast
      refine ⟨[], [c], List.cons_ne_nil _ _, ?_⟩
      rw [List.singleton_append, splitAt, if_neg hc, splitAt_of_notMem hbehind]
      rfl
    · rw [List.getLast?_cons_of_ne_nil htext] at hlast
      obtain ⟨parts, last, hne', hparts⟩ := ih htext hlast
      rw [List.cons_append, splitAt]
      split
      · exact ⟨[] :: parts, last, hne', by rw [hparts]; rfl⟩
      · rw [hparts]
        cases parts with
        | nil => exact ⟨[], c :: last, List.cons_ne_nil _ _, rfl⟩
        | cons part parts => exact ⟨(c :: part) :: parts, last, hne', rfl⟩

end Text

namespace File

/-- The name of a file that has something before `.json` in its last part. -/
def IsJsonName (name : String) : Prop :=
  ∃ stem : List Char, name.toList = stem ++ ".json".toList ∧ stem ≠ [] ∧ stem.getLast? ≠ some '/'

theorem format_of_isJsonName {file : File} (h : IsJsonName file.name) : file.format = .json := by
  obtain ⟨stem, hname, hne, hlast⟩ := h
  obtain ⟨parts, last, hne', hparts⟩ :=
    Text.exists_splitAt_append (show '/' ∉ ".json".toList by decide) hne hlast
  have hbase : baseName file.name = last ++ ".json".toList := by
    have hkept : last ++ ".json".toList ≠ [] ∧ last ++ ".json".toList ≠ ['.'] :=
      ⟨by simp, fun h => absurd (congrArg List.length h) (by simp)⟩
    rw [baseName, hname, hparts, List.filter_append, List.filter_singleton, decide_eq_true hkept]
    simp
  have hcut : Text.cutAt? '.' (baseName file.name).reverse =
      some ("nosj".toList, last.reverse) := by
    rw [hbase, List.reverse_append]
    rfl
  rw [format, hcut]
  exact if_pos ⟨rfl, mt List.reverse_eq_nil_iff.mp hne'⟩

variable {file : File} {text : String}

theorem decode_of_json {α : Type} {view : Yaml.View} {reading : Reading α} {a : α}
    (hcontent : file.content = .ok (textBytes text)) (hname : IsJsonName file.name)
    (h : Json.decodeText reading (textBytes text) = .ok a) : file.decode view reading = .ok a := by
  have htext : file.text = .ok text := by
    rw [File.text, hcontent]
    simp only [fromUTF8?_textBytes]
  rw [decode, htext, format_of_isJsonName hname]
  change (Json.decodeText reading (textBytes text)).mapError Failure.document = _
  rw [h]
  rfl

end File

/-! ## Registries that take no time -/

/-- What the executors do depends on the parameters alone, and takes no time. -/
structure Registry.Prompt (registry : Registry) : Prop where
  forgets : ∀ executor ∈ registry, ∀ past, executor.perform past = executor.perform []
  instant : ∀ executor ∈ registry, ∀ past parameters, (executor.perform past parameters).delay = 0

namespace Registry.Prompt

variable {registry : Registry}

theorem call? (h : registry.Prompt) (past : List Call) (action : Action) :
    registry.call? past action = registry.call? [] action := by
  rw [Registry.call?, Registry.call?]
  refine Option.map_congr fun executor hexecutor => ?_
  rw [h.forgets executor (List.mem_of_find?_eq_some hexecutor) past]

theorem callsFrom (h : registry.Prompt) (past : List Call) (actions : List Action) :
    registry.callsFrom past actions = registry.callsFrom [] actions := by
  induction actions generalizing past with
  | nil => rfl
  | cons action rest ih =>
    rw [Registry.callsFrom, Registry.callsFrom, h.call?]
    cases registry.call? [] action with
    | none => rfl
    | some call => exact congrArg (call :: ·) ((ih _).trans (ih _).symm)

theorem totalDelay_callsFrom (h : registry.Prompt) (past : List Call) (actions : List Action) :
    Call.totalDelay (registry.callsFrom past actions) = 0 := by
  induction actions generalizing past with
  | nil => rfl
  | cons action rest ih =>
    rw [Registry.callsFrom]
    cases hcall : registry.call? past action with
    | none => rfl
    | some call =>
      obtain ⟨executor, hexecutor, rfl⟩ := exists_executor_of_call? hcall
      dsimp only
      rw [Call.totalDelay_cons, ih, Nat.add_zero]
      exact h.instant executor (List.mem_of_find?_eq_some hexecutor) _ _

theorem apply_of_performs (h : registry.Prompt) {α : Type} {run : Run α} {actions : List Action}
    {value : List Call → α} (hrun : Run.Performs registry run actions value) (past : List Call) :
    run past = run [] := by
  have hcalls : (run past).calls = (run []).calls := by
    rw [hrun.calls, hrun.calls, h.callsFrom]
  have houtcome : (run past).outcome = (run []).outcome := by
    cases hfail : registry.failure? actions with
    | none => rw [hrun.ok hfail, hrun.ok hfail, h.callsFrom]
    | some failure => rw [hrun.error failure hfail, hrun.error failure hfail]
  calc run past = ⟨(run past).calls, (run past).outcome⟩ := rfl
    _ = ⟨(run []).calls, (run []).outcome⟩ := by rw [hcalls, houtcome]

/-- An evaluation does not depend on what was called before and takes no time. -/
theorem evaluate (h : registry.Prompt) (tree : Tree) (data : Record) (past : List Call) :
    tree.evaluate registry data past = tree.evaluate registry data [] ∧
      Call.totalDelay (tree.evaluate registry data past).calls = 0 := by
  cases hholds : tree.root.condition.holdsOf data with
  | error failure =>
    rw [Tree.evaluate_of_error registry hholds, Tree.evaluate_of_error registry hholds]
    exact ⟨rfl, rfl⟩
  | ok holds =>
    have hperf := Tree.evaluate_performs registry hholds
    refine ⟨h.apply_of_performs hperf past, ?_⟩
    rw [hperf.calls, h.totalDelay_callsFrom]

end Registry.Prompt

/-- A limit of time makes no difference where nothing takes time. -/
theorem Service.execute_of_prompt {service : Service} (h : service.registry.Prompt)
    (positive : 0 < service.timeoutSeconds) (submitted : ExecutionRequest) (past : List Call) :
    service.execute submitted past = service.run submitted.tree submitted.data [] := by
  obtain ⟨hpast, hdelay⟩ := h.evaluate submitted.tree submitted.data past
  cases hvalid : service.validator.validate submitted.tree with
  | error failure =>
    rw [execute_of_refused hvalid, run, hvalid, Run.ofExcept_error_bind]
    rfl
  | ok _ =>
    have hlimit : Call.totalDelay
        (submitted.tree.evaluate service.registry submitted.data past).calls <
          service.timeoutSeconds * 1000 := by
      omega
    rw [execute_of_accepted hvalid, run_of_accepted hvalid,
      Trace.within_of_le (Nat.le_of_lt hlimit), hpast]

/-- The channel takes no time. -/
def Channel.Instant (channel : Channel) : Prop := ∀ payload, (channel payload).delay = 0

theorem Channel.logged_instant (name : String) : (logged name).Instant := fun _ => rfl

theorem TextMessage.delay_perform {channel : Channel} (h : channel.Instant) (parameters : Record) :
    (perform channel parameters).delay = 0 := by
  unfold perform
  split
  · rfl
  · exact h _

theorem Email.delay_perform {channel : Channel} (h : channel.Instant) (parameters : Record) :
    (perform channel parameters).delay = 0 := by
  unfold perform
  split
  · rfl
  · exact h _

namespace Registry

theorem builtIn_prompt {texts emails : Channel} (htexts : texts.Instant)
    (hemails : emails.Instant) : (builtIn texts emails).Prompt := by
  have hall : ∀ executor ∈ builtIn texts emails,
      executor = Email.executor emails ∨ executor = TextMessage.executor texts := by
    intro executor hexecutor
    rcases eq_or_mem_of_mem_register hexecutor with rfl | hexecutor
    · exact .inl rfl
    · exact .inr (List.mem_singleton.mp hexecutor)
  constructor
  case forgets =>
    intro executor hexecutor past
    rcases hall executor hexecutor with rfl | rfl <;> rfl
  case instant =>
    intro executor hexecutor past parameters
    rcases hall executor hexecutor with rfl | rfl
    · exact Email.delay_perform hemails parameters
    · exact TextMessage.delay_perform htexts parameters

theorem standard_prompt : standard.Prompt :=
  builtIn_prompt (Channel.logged_instant _) (Channel.logged_instant _)

theorem ofConfig_of_no_webhook (webhook : Webhook) {config : Config}
    (message : config.messageWebhook = none) (email : config.emailWebhook = none) :
    ofConfig webhook config = standard := by
  rw [ofConfig, Executor.ofConfig, message, email]
  rfl

end Registry

/-! ## The command and the route -/

namespace Directory

variable {directory : Directory} {name text : String}

theorem tree_of_json {tree : Tree} (hcontent : directory name = .ok (textBytes text))
    (hname : File.IsJsonName name)
    (h : Json.decodeText Tree.read (textBytes text) = .ok tree) :
    directory.tree name = .ok tree := by
  have hfile : (directory.file name).tree = .ok tree := File.decode_of_json hcontent hname h
  rw [Directory.tree, hfile]
  rfl

theorem record_of_json {record : Record} (hcontent : directory name = .ok (textBytes text))
    (hname : File.IsJsonName name)
    (h : Json.decodeText .json (textBytes text) = .ok (.object record)) :
    directory.record name = .ok record := by
  have hfile : (directory.file name).record = .ok record := by
    have hdecode : (directory.file name).decode .data .json = .ok (.object record) :=
      File.decode_of_json hcontent hname h
    rw [File.record, hdecode]
    rfl
  rw [Directory.record, hfile]
  rfl

end Directory

/-- A text that can be read as a JSON value. -/
def Json.IsText (text : String) : Prop := ∃ v, Json.decodeText .json (textBytes text) = .ok v

/-- The body in which a request submits the text of a tree and the text of a data record. -/
def Http.submissionText (tree data : String) : String :=
  "\x7b\"decisionTree\": " ++ tree ++ ", \"data\": " ++ data ++ "\x7d"

theorem Http.textBytes_submissionText (tree data : String) :
    textBytes (submissionText tree data) = Json.submission (textBytes tree) (textBytes data) := by
  have hbefore : textBytes "\x7b\"decisionTree\": " = 0x7b :: 0x22 :: Json.treeLetters := by
    decide +kernel
  have hbetween : textBytes ", \"data\": " = 0x2c :: 0x20 :: 0x22 :: Json.dataLetters := by
    decide +kernel
  have hbehind : textBytes "\x7d" = [0x7d] := by decide +kernel
  have happend : ∀ before between behind : String,
      textBytes (before ++ tree ++ between ++ data ++ behind) = textBytes before ++
        (textBytes tree ++ (textBytes between ++ (textBytes data ++ textBytes behind))) := by
    simp only [textBytes_append, List.append_assoc, implies_true]
  refine (happend _ _ _).trans ?_
  rw [hbefore, hbetween, hbehind]
  rfl

theorem Http.decodeText_of_readBody {α : Type} {reading : Reading α} {request : Request} {v : α}
    (h : readBody reading request = .ok v) : Json.decodeText reading request.body = .ok v := by
  unfold readBody at h
  split at h
  · split at h
    · cases h
    · split at h
      next hok =>
        cases h
        exact hok
      next => cases h
  · cases h

/-- What is read of a submission is read of each of its texts. -/
theorem Http.decodeText_of_readSubmission {request : Request} {submitted : ExecutionRequest}
    {tree data : String} (htree : Json.IsText tree) (hdata : Json.IsText data)
    (hbody : request.body = textBytes (submissionText tree data))
    (h : readSubmission request = .ok submitted) :
    Json.decodeText Tree.read (textBytes tree) = .ok submitted.tree ∧
      Json.decodeText .json (textBytes data) = .ok (.object submitted.data) := by
  obtain ⟨_, hdecode⟩ := htree
  obtain ⟨v, after, htree⟩ := Json.exists_isValue hdecode
  obtain ⟨_, hdecode⟩ := hdata
  obtain ⟨w, behind, hdata⟩ := Json.exists_isValue hdecode
  have hread := decodeText_of_readBody h
  rw [hbody, textBytes_submissionText] at hread
  exact Json.decodeText_submission htree hdata hread

/-- No variable asks for more than errors in the log, or for the stack. -/
structure Environment.Plain (environment : Environment) : Prop where
  log : environment.lookup "RUST_LOG" = none
  stack : Platform.showsStack environment = false

namespace Report

/-- The report of a failure: there is no output, and the text stands among the errors, between the
log and the stack. In a plain environment it stands there alone. -/
structure Fails (platform : Platform) (environment : Environment) (text : String)
    (report : Report) : Prop where
  status : report.status = 1
  output : report.output = ""
  errors : report.errors = platform.logger.write environment report.notes ++
    ("Error: " ++ text ++ platform.stackText environment ++ "\n")
  plain : environment.Plain → report.errors = "Error: " ++ text ++ "\n"

/-- The report tells what the response tells. After a success its output is a JSON text of the body
and nothing but the log stands among the errors, and after a failure the error in the body does. -/
structure Restates (platform : Platform) (environment : Environment) (report : Report)
    (response : Http.Response) : Prop where
  succeeds : report.status = 0 ↔ response.status = 200
  output : report.status = 0 → ∃ body, response.body = some body ∧
    report.output = body.pretty ++ "\n" ∧ Json.Denotes report.output.toList body ∧
    report.errors = platform.logger.write environment report.notes
  fails : report.status ≠ 0 → ∃ text kind,
    response.body = some (.object [("error", .string text), ("kind", .string kind)]) ∧
    report.Fails platform environment text

end Report

namespace Platform

section
variable {α : Type} (platform : Platform) (environment : Environment) (course : Course α)
  (text : α → String)

@[simp] theorem calls_report : (platform.report environment course text).calls = course.calls := by
  unfold Platform.report
  split <;> rfl

@[simp] theorem notes_report : (platform.report environment course text).notes = course.notes := by
  unfold Platform.report
  split <;> rfl

variable {platform environment course}

theorem status_report_of_ok {v : α} (h : course.outcome = .ok v) :
    (platform.report environment course text).status = 0 := by
  rw [Platform.report, h]

theorem status_report_of_error {trouble : Trouble} (h : course.outcome = .error trouble) :
    (platform.report environment course text).status = 1 := by
  rw [Platform.report, h]

/-- A failure is reported as one. In a plain environment the log is empty, since what it was told is
no error. -/
theorem report_fails {failure : Failure} (h : course.outcome = .error (.direct failure))
    (hcalm : ∀ note ∈ course.notes, note.severity ≠ .error) :
    (platform.report environment course text).Fails platform environment failure.message := by
  have herrors : (platform.report environment course text).errors =
      platform.logger.write environment course.notes ++
        ("Error: " ++ failure.message ++ platform.stackText environment ++ "\n") := by
    rw [Platform.report, h]
    rfl
  constructor
  case status => exact status_report_of_error text h
  case output => rw [Platform.report, h]
  case errors => rw [herrors, notes_report]
  case plain =>
    intro plain
    rw [herrors, platform.logger.write_of_no_errors plain.log hcalm, stackText, plain.stack,
      if_neg Bool.false_ne_true, String.empty_append, String.append_empty]

end

variable {platform : Platform} {environment : Environment} {course : Course Tree}

/-- The report of an evaluation that tells of no errors restates the response to it. -/
theorem report_restates {outcome : Except Failure Tree}
    (houtcome : course.outcome = outcome.mapError .direct)
    (hcalm : ∀ note ∈ course.notes, note.severity ≠ .error) :
    (platform.report environment course fun tree => tree.encode.pretty ++ "\n").Restates platform
      environment ((Http.responseTo outcome).withHeaders Http.readable) := by
  cases outcome with
  | ok tree =>
    have hgap : Json.IsGap "\n".toList := by simp [Json.IsGap]
    rw [Platform.report, houtcome]
    constructor
    case succeeds => exact iff_of_true rfl rfl
    case output =>
      refine fun _ => ⟨tree.encode, rfl, rfl, ?_, rfl⟩
      exact String.toList_append ▸ Json.denotes_pretty tree.encode hgap
    case fails => exact fun hne => absurd rfl hne
  | error failure =>
    have hfails : (platform.report environment course fun tree => tree.encode.pretty ++ "\n").Fails
        platform environment failure.message :=
      report_fails _ houtcome hcalm
    have hstatus := hfails.status.trans_ne Nat.one_ne_zero
    constructor
    case succeeds => exact iff_of_false hstatus failure.status_ne_ok
    case output => exact fun hok => absurd hok hstatus
    case fails => exact fun _ => ⟨failure.message, failure.kind, rfl, hfails⟩

end Platform

namespace Command

variable {platform : Platform} {environment : Environment} {arguments : List String}
  {config : Config} {treeName dataName : String}

theorem start_of_run (command : ofArguments? arguments = some (.run treeName dataName))
    (configured : Config.read (environmentIn platform.directory environment) = .ok config) :
    start platform environment arguments =
      perform platform (environmentIn platform.directory environment) config
        (.run treeName dataName) := by
  rw [start, command]
  dsimp only
  rw [configured]

/-- How an evaluation goes once its files are read. -/
theorem evaluate_of_record (platform : Platform) (config : Config) {tree : Tree} {record : Record}
    (htree : platform.directory.tree treeName = .ok tree)
    (hrecord : platform.directory.record dataName = .ok record) :
    let run := (Service.ofConfig (.ofConfig platform.webhook config) config).run tree record
    (evaluate platform config treeName dataName).calls = run.calls ∧
      (evaluate platform config treeName dataName).outcome = run.outcome.mapError .direct := by
  rw [evaluate, htree, hrecord]
  exact ⟨rfl, rfl⟩

/-- Without webhooks an evaluation tells the log of no errors. -/
theorem severity_of_mem_notes (message : config.messageWebhook = none)
    (email : config.emailWebhook = none) :
    ∀ note ∈ (evaluate platform config treeName dataName).notes, note.severity ≠ .error := by
  have hcalm : (Registry.ofConfig platform.webhook config).Calm :=
    Registry.ofConfig_of_no_webhook platform.webhook message email ▸ Registry.standard_calm
  rw [evaluate]
  split
  next => exact List.forall_mem_nil _
  next => exact List.forall_mem_nil _
  next tree record _ _ =>
    intro note hnote
    rcases List.mem_append.mp hnote with hnote | hnote
    · obtain ⟨executor, -, rfl⟩ := List.mem_map.mp hnote
      nofun
    · split at hnote
      · cases hnote
      · rcases List.mem_cons.mp hnote with rfl | hnote
        · nofun
        · exact hcalm.severity_of_mem_notes note hnote

/-- Running the tree in one file on the record in another one is reported as the execution route
responds to the two texts in one body, under any limit of time. -/
theorem run_restates_execution (platform : Platform) (environment : Environment)
    (arguments : List String) (config : Config)
    (treeName dataName treeText dataText : String) (request : Http.Request)
    (submitted : ExecutionRequest) (past : List Call)
    (command : ofArguments? arguments = some (.run treeName dataName))
    (configured : Config.read (environmentIn platform.directory environment) = .ok config)
    (limited : 0 < config.timeoutSeconds.toNat)
    (noMessageWebhook : config.messageWebhook = none)
    (noEmailWebhook : config.emailWebhook = none)
    (treeNamed : File.IsJsonName treeName) (dataNamed : File.IsJsonName dataName)
    (treeContent : platform.directory treeName = .ok (textBytes treeText))
    (dataContent : platform.directory dataName = .ok (textBytes dataText))
    (treeIsText : Json.IsText treeText) (dataIsText : Json.IsText dataText)
    (post : request.method = .post) (path : request.path = "/api/execute-decision-tree")
    (body : request.body = textBytes (Http.submissionText treeText dataText))
    (decoded : Http.readSubmission request = .ok submitted) :
    ∃ report calls response,
      start platform environment arguments = .finished report ∧
      Http.handle (.ofConfig (.ofConfig platform.webhook config) config) request past =
        ⟨calls, .ok response⟩ ∧
      report.calls = calls ∧
      report.Restates platform (environmentIn platform.directory environment) response := by
  obtain ⟨htree, hdata⟩ :=
    Http.decodeText_of_readSubmission treeIsText dataIsText body decoded
  have hservice : (Service.ofConfig (.ofConfig platform.webhook config) config).registry.Prompt :=
    Registry.ofConfig_of_no_webhook platform.webhook noMessageWebhook noEmailWebhook ▸
      Registry.standard_prompt
  obtain ⟨hcalls, houtcome⟩ := evaluate_of_record platform config
    (Directory.tree_of_json treeContent treeNamed htree)
    (Directory.record_of_json dataContent dataNamed hdata)
  have hanswer : Http.handle (.ofConfig (.ofConfig platform.webhook config) config) request past =
      Http.answered ((Service.ofConfig (.ofConfig platform.webhook config) config).run
        submitted.tree submitted.data []) := by
    rw [Http.handle_of_decoded post path decoded, Service.execute_of_prompt hservice limited]
  exact ⟨_, _, _, start_of_run command configured, hanswer,
    (Platform.calls_report ..).trans hcalls, Platform.report_restates houtcome
      (severity_of_mem_notes noMessageWebhook noEmailWebhook)⟩

def dueTreeText : String :=
  "\x7b\"name\": \"due\", \"trueActions\": [], " ++
  "\"condition\": \x7b\"fieldName\": \"due\", \"fieldType\": \"string\", " ++
  "\"comparisonKind\": \"equals\", \"compareTo\": \"exam\"\x7d\x7d"

/-- The tree together with a data record that is given as a text. -/
def dueDirectory (dataText : String) : Directory := fun name =>
  if name = "week.json" then .ok (textBytes dueTreeText)
  else if name = "due.json" then .ok (textBytes dataText)
  else .error File.absent

/-- A platform that writes of a note how severe it is and its text. -/
def duePlatform (dataText : String) : Platform where
  directory := dueDirectory dataText
  webhook name _ := .logged name
  logger := ⟨fun _ => .ok fun _ => true, fun _ _ note => note.severity.label ++ ": " ++ note.text⟩
  stack := "   0: main"

def dueArguments : List String := ["run", "--tree", "week.json", "--data", "due.json"]

def dueRequest (dataText : String) : Http.Request where
  method := .post
  target := "/api/execute-decision-tree"
  headers := [("content-type", "application/json")]
  body := textBytes (Http.submissionText dueTreeText dataText)

theorem path_dueRequest (dataText : String) :
    (dueRequest dataText).path = "/api/execute-decision-tree" :=
  Http.Request.path_eq_target (show "/api/execute-decision-tree".toList.all _ = true by decide)

/-- The status of a program that has ended, and what it has written among the errors. -/
def ending? : Outcome → Option (Nat × String)
  | .finished report => some (report.status, report.errors)
  | .serving _ => none

theorem due_restated :
    (∃ report calls response,
      start (duePlatform "\x7b\"due\": \"exam\"\x7d") [] dueArguments = .finished report ∧
      Http.handle (.ofConfig .standard {}) (dueRequest "\x7b\"due\": \"exam\"\x7d") [] =
        ⟨calls, .ok response⟩ ∧
      report.status = 0 ∧ response.status = 200) ∧
    ∃ report calls response,
      start (duePlatform "\x7b\x7d") [] dueArguments = .finished report ∧
      Http.handle (.ofConfig .standard {}) (dueRequest "\x7b\x7d") [] = ⟨calls, .ok response⟩ ∧
      report.errors = "Error: Field 'due' is missing from the data record\n" ∧
      response.status ≠ 200 := by
  have htree : Json.IsText dueTreeText := Http.exists_ok_of_isOk (by decide +kernel)
  have hrun : ∀ dataText, (Json.decodeText .json (textBytes dataText)).isOk = true →
      (Http.readSubmission (dueRequest dataText)).isOk = true →
      ∃ report calls response,
        start (duePlatform dataText) [] dueArguments = .finished report ∧
        Http.handle (.ofConfig .standard {}) (dueRequest dataText) [] = ⟨calls, .ok response⟩ ∧
        report.calls = calls ∧ report.Restates (duePlatform dataText) [] response := by
    intro dataText hdata hread
    obtain ⟨submitted, hread⟩ := Http.exists_ok_of_isOk hread
    exact run_restates_execution (duePlatform dataText) [] dueArguments {} "week.json" "due.json"
      dueTreeText dataText (dueRequest dataText) submitted [] rfl rfl (by decide) rfl rfl
      ⟨"week".toList, rfl, by decide, by decide⟩ ⟨"due".toList, rfl, by decide, by decide⟩ rfl rfl
      htree (Http.exists_ok_of_isOk hdata) rfl (path_dueRequest dataText) rfl hread
  constructor
  · obtain ⟨report, calls, response, hstart, hanswer, -, hrestates⟩ :=
      hrun "\x7b\"due\": \"exam\"\x7d" (by decide +kernel) (by decide +kernel)
    have hend : ending? (start (duePlatform "\x7b\"due\": \"exam\"\x7d") [] dueArguments) =
        some (0, "") := by
      decide +kernel
    have hreport := Prod.mk.inj (Option.some.inj ((congrArg ending? hstart).symm.trans hend))
    exact ⟨report, calls, response, hstart, hanswer, hreport.1, hrestates.succeeds.mp hreport.1⟩
  · obtain ⟨report, calls, response, hstart, hanswer, -, hrestates⟩ :=
      hrun "\x7b\x7d" (by decide +kernel) (by decide +kernel)
    have hend : ending? (start (duePlatform "\x7b\x7d") [] dueArguments) =
        some (1, "Error: Field 'due' is missing from the data record\n") := by
      decide +kernel
    have hreport := Prod.mk.inj (Option.some.inj ((congrArg ending? hstart).symm.trans hend))
    refine ⟨report, calls, response, hstart, hanswer, hreport.2, fun hok => ?_⟩
    cases hreport.1.symm.trans (hrestates.succeeds.mpr hok)

/-- A filter that cannot be read is warned of on the same way, so that the error does not stand
alone, whatever its text is. -/
theorem loud_warned_of :
    let environment : Environment := [("RUST_LOG", "arbiter=loud")]
    Config.read (environmentIn (dueDirectory "\x7b\x7d") environment) = .ok {} ∧
    Json.IsText dueTreeText ∧ Json.IsText "\x7b\x7d" ∧
    (∃ submitted, Http.readSubmission (dueRequest "\x7b\x7d") = .ok submitted) ∧
    ∃ report, start (duePlatform "\x7b\x7d") environment dueArguments = .finished report ∧
      report.status = 1 ∧
      report.errors = "warning: invalid logging spec 'loud', ignoring it\n" ++
        "Error: Field 'due' is missing from the data record\n" ∧
      ∀ text, report.errors ≠ "Error: " ++ text ++ "\n" := by
  intro environment
  have hend : ending? (start (duePlatform "\x7b\x7d") environment dueArguments) =
      some (1, "warning: invalid logging spec 'loud', ignoring it\n" ++
        "Error: Field 'due' is missing from the data record\n") := by
    decide +kernel
  have htree : Json.IsText dueTreeText := Http.exists_ok_of_isOk (by decide +kernel)
  have hdata : Json.IsText "\x7b\x7d" := Http.exists_ok_of_isOk (by decide +kernel)
  refine ⟨rfl, htree, hdata, Http.exists_ok_of_isOk (by decide +kernel), ?_⟩
  cases hstart : start (duePlatform "\x7b\x7d") environment dueArguments with
  | serving config =>
    rw [hstart] at hend
    cases hend
  | finished report =>
    rw [hstart] at hend
    obtain ⟨hstatus, herrors⟩ := Prod.mk.inj (Option.some.inj hend)
    refine ⟨report, rfl, hstatus, herrors, fun text htext => ?_⟩
    have hfirst := congrArg (fun text => text.toList.head?) (herrors.symm.trans htext)
    simp [String.toList_append] at hfirst

end Command

end Verdict
