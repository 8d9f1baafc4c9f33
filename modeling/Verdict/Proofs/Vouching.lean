import Verdict.Proofs.Agreement
import Verdict.Proofs.Availability
import Verdict.Proofs.Registration

/-!
# What checking a tree says of running it

A tree is checked without a registry and run with one. The registry that a configuration asks for
holds the built-in kinds whatever the configuration is, and only these kinds get as far as the
question of what is available, so both ways validate alike (`Validator.validate_ofRegistry`). A tree
that passes the check is run to its end or fails on the field of its condition before anything is
done; a tree that does not pass is not run (`Command.check_vouches_for_run`).
-/

namespace Verdict

/-! ## Both ways validate alike -/

namespace Registry

theorem contains_builtIn (texts emails : Channel) {kind : ActionKind} (h : kind.BuiltIn) :
    (builtIn texts emails).contains kind = true := by
  rw [contains, builtIn_eq, get?_register, get?_register]
  rcases h with rfl | rfl <;> rfl

end Registry

namespace Validator

variable {registry : Registry} {bound : UInt32}

theorem validateAction_ofRegistry
    (h : ∀ kind : ActionKind, kind.BuiltIn → registry.contains kind = true) (action : Action) :
    (ofRegistry registry bound).validateAction action =
      ({ maxRepeatCount := bound } : Validator).validateAction action := by
  unfold validateAction
  split
  · rfl
  next hknown =>
    have hmem : action.kind ∈ registry.kinds :=
      Registry.mem_kinds_iff.mpr (h action.kind (ActionKind.builtIn_iff.mpr hknown))
    have havailable : ((ofRegistry registry bound).knownKinds.any fun kinds =>
        !kinds.contains action.kind) = false :=
      any_not_contains_eq_false_iff.mpr fun kinds hkinds => Option.some.inj hkinds ▸ hmem
    rw [havailable]
    rfl

theorem validateActions_ofRegistry
    (h : ∀ kind : ActionKind, kind.BuiltIn → registry.contains kind = true)
    (actions : List Action) :
    (ofRegistry registry bound).validateActions actions =
      ({ maxRepeatCount := bound } : Validator).validateActions actions := by
  induction actions with
  | nil => rfl
  | cons action rest ih => rw [validateActions, validateActions, validateAction_ofRegistry h, ih]

/-- A registry with all built-in kinds makes no difference to validation. -/
theorem validate_ofRegistry
    (h : ∀ kind : ActionKind, kind.BuiltIn → registry.contains kind = true) (tree : Tree) :
    (ofRegistry registry bound).validate tree =
      ({ maxRepeatCount := bound } : Validator).validate tree := by
  rw [validate, validate, validateActions_ofRegistry h]
  rfl

end Validator

/-! ## The two commands -/

/-- The program has ended with an error about the field of the tree's condition, and no executor was
called. -/
structure Report.FailsOnField (platform : Platform) (environment : Environment) (tree : Tree)
    (record : Record) (report : Report) : Prop where
  calls : report.calls = []
  fails : ∃ failure, tree.root.condition.FieldFailure record failure ∧
    report.Fails platform environment failure.message

/-- What the report of checking a tree says of the report of running it on data. -/
structure Report.VouchesFor (checked ran : Report) (platform : Platform)
    (environment : Environment) (treeName dataName : String) : Prop where
  status : checked.status = 0 ∨ checked.status = 1
  valid : checked.status = 0 → ∀ record, platform.directory.record dataName = .ok record →
    ∃ tree, platform.directory.tree treeName = .ok tree ∧
      (ran.status = 0 ∨ ran.FailsOnField platform environment tree record)
  invalid : checked.status = 1 → ran.status = 1

/-- A command that fails vouches for one that fails too. -/
theorem Platform.vouchesFor_of_error {α β : Type} {platform : Platform} {environment : Environment}
    {checked : Course α} {ran : Course β} {trouble trouble' : Trouble}
    (hchecked : checked.outcome = .error trouble) (hran : ran.outcome = .error trouble')
    (text : α → String) (text' : β → String) (treeName dataName : String) :
    (platform.report environment checked text).VouchesFor
      (platform.report environment ran text') platform environment treeName dataName where
  status := .inr (status_report_of_error text hchecked)
  valid h := absurd ((status_report_of_error text hchecked).symm.trans h) Nat.one_ne_zero
  invalid _ := status_report_of_error text' hran

namespace Command

variable {platform : Platform} {environment : Environment} {arguments : List String}
  {config : Config} {treeName dataName : String} {trouble : Trouble} {tree : Tree}

theorem start_of_validate (command : ofArguments? arguments = some (.validate treeName))
    (configured : Config.read (environmentIn platform.directory environment) = .ok config) :
    start platform environment arguments =
      perform platform (environmentIn platform.directory environment) config
        (.validate treeName) := by
  rw [start, command]
  dsimp only
  rw [configured]

theorem check_of_tree {directory : Directory} (htree : directory.tree treeName = .ok tree) :
    check directory config treeName =
      (({ maxRepeatCount := config.maxRepeatCount } : Validator).validate tree).mapError .direct >>=
        fun _ => .ok tree := by
  rw [check, htree]
  rfl

/-- A tree that is refused is not run, whatever the data are. -/
theorem exists_evaluate_error_of_refused {failure : Failure}
    (htree : platform.directory.tree treeName = .ok tree)
    (hrefused : (Service.ofConfig (.ofConfig platform.webhook config) config).validator.validate
      tree = .error failure) :
    ∃ trouble, (evaluate platform config treeName dataName).outcome = .error trouble := by
  cases hrecord : platform.directory.record dataName with
  | error trouble =>
    rw [evaluate, htree, hrecord]
    exact ⟨trouble, rfl⟩
  | ok record =>
    obtain ⟨-, houtcome⟩ := evaluate_of_record platform config htree hrecord
    rw [houtcome, Service.run, hrefused, Run.ofExcept_error_bind]
    exact ⟨.direct failure, rfl⟩

/-- A tree that is accepted is run to its end, or fails on the condition's field. -/
theorem report_of_accepted {record : Record} {text : Tree → String}
    (htree : platform.directory.tree treeName = .ok tree)
    (hrecord : platform.directory.record dataName = .ok record)
    (haccepted : (Service.ofConfig (.ofConfig platform.webhook config) config).validator.validate
      tree = .ok ())
    (hcalm : ∀ note ∈ (evaluate platform config treeName dataName).notes,
      note.severity ≠ .error) :
    let ran := platform.report environment (evaluate platform config treeName dataName) text
    ran.status = 0 ∨ ran.FailsOnField platform environment tree record := by
  intro ran
  obtain ⟨hcalls, houtcome⟩ := evaluate_of_record platform config htree hrecord
  have hadmits :
      (Validator.ofRegistry (.ofConfig platform.webhook config) config.maxRepeatCount).Admits
        tree :=
    Validator.validate_eq_ok_iff.mp haccepted
  have hrun : (Service.ofConfig (.ofConfig platform.webhook config) config).run tree record =
      tree.evaluate (.ofConfig platform.webhook config) record := by
    rw [Service.run, haccepted]
    exact Run.ok_bind () _
  rw [hrun] at hcalls houtcome
  by_cases hanswers : tree.root.condition.Answers record
  · obtain ⟨_, output, -, hok, -⟩ := Tree.evaluate_of_answers hadmits hanswers []
    rw [Run.outcome, hok] at houtcome
    exact .inl (Platform.status_report_of_ok text houtcome)
  · obtain ⟨failure, hfailed, hreason⟩ := Tree.evaluate_of_not_answers hadmits hanswers []
    rw [Run.outcome, hfailed] at houtcome
    rw [Run.calls, hfailed] at hcalls
    exact .inr ⟨(Platform.calls_report ..).trans hcalls, failure, hreason,
      Platform.report_fails text houtcome hcalm⟩

/-- The commands that check and run a tree give it the same verdict whatever the configuration is.
Where no webhook is configured, a tree that passes the check runs to its end on every data record,
or fails on the field of its condition with nothing done; a tree that does not pass is never run. -/
theorem check_vouches_for_run (platform : Platform) (environment : Environment)
    (checking running : List String) (config : Config) (treeName dataName : String)
    (configured : Config.read (environmentIn platform.directory environment) = .ok config)
    (checks : ofArguments? checking = some (.validate treeName))
    (runs : ofArguments? running = some (.run treeName dataName)) :
    let service := Service.ofConfig (.ofConfig platform.webhook config) config
    (∀ tree, service.validator.validate tree =
      ({ maxRepeatCount := config.maxRepeatCount } : Validator).validate tree) ∧
    (config.messageWebhook = none → config.emailWebhook = none → ∃ checked ran,
      start platform environment checking = .finished checked ∧
      start platform environment running = .finished ran ∧
      checked.VouchesFor ran platform (environmentIn platform.directory environment) treeName
        dataName) := by
  intro service
  have hagree : ∀ tree, service.validator.validate tree =
      ({ maxRepeatCount := config.maxRepeatCount } : Validator).validate tree :=
    Validator.validate_ofRegistry fun _ => Registry.contains_builtIn _ _
  refine ⟨hagree, fun message email => ?_⟩
  refine ⟨_, _, start_of_validate checks configured, start_of_run runs configured, ?_⟩
  cases htree : platform.directory.tree treeName with
  | error trouble =>
    have hcheck : check platform.directory config treeName = .error trouble := by
      rw [check, htree]
      rfl
    have hrun : (evaluate platform config treeName dataName).outcome = .error trouble := by
      rw [evaluate, htree]
    exact Platform.vouchesFor_of_error hcheck hrun ..
  | ok tree =>
    cases hvalid : service.validator.validate tree with
    | error failure =>
      have hcheck : check platform.directory config treeName = .error (.direct failure) := by
        rw [check_of_tree htree, ← hagree, hvalid]
        rfl
      obtain ⟨trouble, hrun⟩ := exists_evaluate_error_of_refused htree hvalid
      exact Platform.vouchesFor_of_error hcheck hrun ..
    | ok _ =>
      have hcheck : check platform.directory config treeName = .ok tree := by
        rw [check_of_tree htree, ← hagree, hvalid]
        rfl
      have hchecked : ∀ text : Tree → String,
          (platform.report (environmentIn platform.directory environment)
            { outcome := check platform.directory config treeName } text).status = 0 :=
        fun text => Platform.status_report_of_ok text hcheck
      constructor
      case status => exact .inl (hchecked _)
      case valid =>
        exact fun _ record hrecord => ⟨tree, htree,
          report_of_accepted htree hrecord hvalid (severity_of_mem_notes message email)⟩
      case invalid => exact fun h => absurd ((hchecked _).symm.trans h) Nat.zero_ne_one

theorem due_vouched_for : ∃ tree record ran,
    (dueDirectory "\x7b\x7d").tree "week.json" = .ok tree ∧
    (dueDirectory "\x7b\x7d").record "due.json" = .ok record ∧
    start (duePlatform "\x7b\x7d") [] dueArguments = .finished ran ∧
    ran.FailsOnField (duePlatform "\x7b\x7d") [] tree record := by
  have hcheck : ending? (start (duePlatform "\x7b\x7d") [] ["validate", "--tree", "week.json"]) =
      some (0, "") := by
    decide +kernel
  have hrun : ending? (start (duePlatform "\x7b\x7d") [] dueArguments) =
      some (1, "Error: Field 'due' is missing from the data record\n") := by
    decide +kernel
  obtain ⟨record, hrecord⟩ : ∃ record, (dueDirectory "\x7b\x7d").record "due.json" = .ok record :=
    Http.exists_ok_of_isOk (by decide +kernel)
  obtain ⟨-, hwebhook⟩ := check_vouches_for_run (duePlatform "\x7b\x7d") []
    ["validate", "--tree", "week.json"] dueArguments {} "week.json" "due.json" rfl rfl rfl
  obtain ⟨checked, ran, hchecked, hran, hvouches⟩ := hwebhook rfl rfl
  rw [hchecked] at hcheck
  obtain ⟨tree, htree, hdone | hfails⟩ :=
    hvouches.valid (Prod.mk.inj (Option.some.inj hcheck)).1 record hrecord
  · rw [hran] at hrun
    cases hdone.symm.trans (Prod.mk.inj (Option.some.inj hrun)).1
  · exact ⟨tree, record, ran, htree, hrecord, hran, hfails⟩

end Command

end Verdict
