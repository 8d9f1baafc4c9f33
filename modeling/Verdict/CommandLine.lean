import Verdict.CommandLine.Arguments
import Verdict.CommandLine.Help
import Verdict.File
import Verdict.Notice.Executor
import Verdict.Schema.Tree
import Verdict.Service

/-!
# The command line

A command works on the files of a directory under a configuration and ends in a report, or in
serving requests. A file of assignments completes the environment before the configuration is read
from it.
-/

namespace Verdict

/-- What the system gives for the names of files. -/
abbrev Directory := String → Except String (List UInt8)

/-- What a command is started on: the files, the way to webhooks, the logger, and the stack as it is
described where a failure arises. -/
structure Platform where
  directory : Directory
  webhook : Webhook
  logger : Logger
  stack : String

/-- What is written and what was done, and the status that the program ends with. The log is written
among the errors; what it was told is kept apart too. -/
structure Report where
  status : Nat
  output : String
  errors : String
  calls : List Call := []
  notes : List Note := []
deriving BEq, Repr, Inhabited

inductive Outcome
  | finished (report : Report)
  | serving (config : Config)
deriving BEq, Repr, Inhabited

/-- Why a command fails: for itself or by a file that cannot be loaded. -/
inductive Trouble
  | direct (failure : Failure)
  | loading (subject : String) (name : String) (failure : Failure)
deriving BEq, Repr, Inhabited

namespace Trouble

/-- A text whose lines are indented. -/
def indented (text : String) : String :=
  "    " ++ String.ofList (text.toList.flatMap fun c => if c = '\n' then "\n    ".toList else [c])

def message : Trouble → String
  | direct failure => "Error: " ++ failure.message
  | loading subject name failure =>
    "Error: failed to load " ++ subject ++ " " ++ name ++ "\n\nCaused by:\n"
      ++ indented failure.message

end Trouble

namespace Directory

def file (directory : Directory) (name : String) : File := ⟨name, directory name⟩

def tree (directory : Directory) (name : String) : Except Trouble Tree :=
  (directory.file name).tree.mapError (.loading "tree" name)

def record (directory : Directory) (name : String) : Except Trouble Record :=
  (directory.file name).record.mapError (.loading "data" name)

end Directory

/-- How a command went on its way to its result: the calls it made, what it told the log, and how it
ended. -/
structure Course (α : Type) where
  calls : List Call := []
  notes : List Note := []
  outcome : Except Trouble α

namespace Platform

/-- Whether a failure is reported together with the stack. -/
def showsStack (environment : Environment) : Bool :=
  match environment.lookup "RUST_LIB_BACKTRACE" with
  | some value => value != "0"
  | none => (environment.lookup "RUST_BACKTRACE").any (· != "0")

/-- What is written about the stack behind the message of a failure. -/
def stackText (platform : Platform) (environment : Environment) : String :=
  if showsStack environment then "\n\nStack backtrace:\n" ++ platform.stack else ""

/-- The report of a result that is printed as `text` says. -/
def report {α : Type} (platform : Platform) (environment : Environment) (course : Course α)
    (text : α → String) : Report :=
  let log := platform.logger.write environment course.notes
  match course.outcome with
  | .ok v => ⟨0, text v, log, course.calls, course.notes⟩
  | .error trouble =>
    ⟨1, "", log ++ (trouble.message ++ platform.stackText environment ++ "\n"), course.calls,
      course.notes⟩

/-- The report of a text that is printed whatever there is to do. -/
def print (platform : Platform) (environment : Environment) (text : String) : Report :=
  platform.report environment { outcome := .ok text } id

/-- The report of arguments that are misused. -/
def misused (platform : Platform) (environment : Environment) : Report :=
  ⟨2, "", platform.logger.write environment [] ++ Help.overview, [], []⟩

end Platform

namespace Command

/-- Evaluates the tree in a file on the data record in a file. -/
def evaluate (platform : Platform) (config : Config) (tree data : String) : Course Tree :=
  match platform.directory.tree tree, platform.directory.record data with
  | .error trouble, _ | .ok _, .error trouble => { outcome := .error trouble }
  | .ok tree, .ok record =>
    let service := Service.ofConfig (.ofConfig platform.webhook config) config
    let run := service.run tree record
    let announcements := (Executor.ofConfig platform.webhook config).map (·.announcement)
    let told := match service.validator.validate tree with
      | .error _ => []
      | .ok _ => ⟨.info, "arbiter", "Running decision tree: " ++ tree.name⟩ ::
          tree.root.notes service.registry record []
    ⟨run.calls, announcements ++ told, run.outcome.mapError .direct⟩

/-- Checks the tree in a file against the limits of a configuration. -/
def check (directory : Directory) (config : Config) (tree : String) : Except Trouble Tree := do
  let tree ← directory.tree tree
  (({ maxRepeatCount := config.maxRepeatCount } : Validator).validate tree).mapError .direct
  return tree

/-- Carries out a command. -/
def perform (platform : Platform) (environment : Environment) (config : Config)
    (command : Command) : Outcome :=
  match command with
  | serve port => .serving { config with port := port.getD config.port }
  | run tree data =>
    .finished (platform.report environment (evaluate platform config tree data) fun tree =>
      tree.encode.pretty ++ "\n")
  | validate tree =>
    let checked : Course Tree := { outcome := check platform.directory config tree }
    .finished (platform.report environment checked fun tree =>
      "Decision tree '" ++ tree.name ++ "' is valid\n")
  | schema => .finished (platform.print environment (Schema.ofTree.encode.pretty ++ "\n"))
  | help none => .finished (platform.print environment Help.overview)
  | help (some verb) => .finished (platform.print environment (Help.about verb))
  | version => .finished (platform.print environment Help.version)

/-- The environment together with the assignments of the directory. -/
def environmentIn (directory : Directory) (environment : Environment) : Environment :=
  match directory ".env" with
  | .ok bytes => environment.addFile bytes
  | .error _ => environment

/-- Starts the program. Help is given whatever the configuration is. -/
def start (platform : Platform) (environment : Environment) (arguments : List String) : Outcome :=
  let environment := environmentIn platform.directory environment
  match ofArguments? arguments with
  | none => .finished (platform.misused environment)
  | some (.help topic) => perform platform environment {} (.help topic)
  | some .version => perform platform environment {} .version
  | some command =>
    match Config.read environment with
    | .error bad =>
      let course : Course String := { outcome := .error (.direct bad.failure) }
      .finished (platform.report environment course id)
    | .ok config => command.perform platform environment config

end Command

end Verdict
