import Verdict.Environment

/-!
# Notes and the log

A run has notes to tell beside what comes of it. Which of them are shown the variable `RUST_LOG`
says: it lists rules, each about the sources with some beginning, and a pattern may follow them. A
part that cannot be read is told of and left out.
-/

namespace Verdict

/-- How much a note matters, from the most to the least. -/
inductive Severity
  | error
  | warning
  | info
  | debug
  | trace
deriving DecidableEq, Repr, Inhabited

namespace Severity

def rank : Severity → Nat
  | error => 1
  | warning => 2
  | info => 3
  | debug => 4
  | trace => 5

/-- The name that a shown note carries. -/
def label : Severity → String
  | error => "ERROR"
  | warning => "WARN"
  | info => "INFO"
  | debug => "DEBUG"
  | trace => "TRACE"

/-- The limit that a word in any case sets; `off` lets nothing through. -/
def limit? (word : List Char) : Option (Option Severity) :=
  let names (name : String) : Bool := word.map Char.toUpper == name.toList
  if names "OFF" then some none
  else ([error, warning, info, debug, trace].find? fun severity => names severity.label).map some

end Severity

structure Note where
  severity : Severity
  /-- The path of the part of the program that tells it. -/
  source : String
  text : String
deriving DecidableEq, Repr, Inhabited

/-- How severe notes have to be to be shown. -/
structure LogRule where
  /-- How the sources of the notes begin that the rule is about; without it these are all. -/
  source : Option String
  limit : Option Severity
deriving DecidableEq, Repr, Inhabited

namespace LogRule

def covers (rule : LogRule) (note : Note) : Bool :=
  rule.source.all fun source => source.toList.isPrefixOf note.source.toList

def admits (rule : LogRule) (note : Note) : Bool :=
  rule.limit.any fun limit => note.severity.rank ≤ limit.rank

/-- How much of a source the rule fixes. -/
def size (rule : LogRule) : Nat := (rule.source.map String.utf8ByteSize).getD 0

/-- The rule shows what matters most, wherever it comes from. -/
def errors : LogRule := ⟨none, some .error⟩

/-- Adds a rule in the place of the one about the same sources. -/
def insert (rule : LogRule) : List LogRule → List LogRule
  | [] => [rule]
  | other :: rest =>
    if other.source = rule.source then rule :: rest else other :: insert rule rest

end LogRule

/-- Why a part of what `RUST_LOG` says is left out. -/
inductive LogDefect
  | unreadable (part : String)
  | crowded (text : String)
  | pattern (message : String)
deriving DecidableEq, Repr, Inhabited

namespace LogDefect

def message : LogDefect → String
  | unreadable part => "invalid logging spec '" ++ part ++ "'"
  | crowded text => "invalid logging spec '" ++ text ++ "' (too many '/'s)"
  | pattern message => "invalid regex filter - " ++ message

end LogDefect

/-- Reads a rule: a limit, the beginning of sources, or both with an equals sign between them. -/
def LogRule.read (part : List Char) : Except LogDefect LogRule :=
  match Text.splitAt '=' part with
  | [word] =>
    match Severity.limit? word with
    | some limit => .ok ⟨none, limit⟩
    | none => .ok ⟨some (String.ofList word), some .trace⟩
  | [source, word] =>
    let word := Text.trimList word
    if word = [] then .ok ⟨some (String.ofList source), some .trace⟩
    else
      match Severity.limit? word with
      | some limit => .ok ⟨some (String.ofList source), limit⟩
      | none => .error (.unreadable (String.ofList word))
  | _ => .error (.unreadable (String.ofList part))

/-- What decides about notes: rules, of which there may be none, and a pattern for their texts. -/
structure LogFilter where
  rules : List LogRule := []
  fits : String → Bool := fun _ => true

namespace LogFilter

/-- Of the rules about a note the one that fixes most of its source, the last if there are more. -/
def ruleFor? (filter : LogFilter) (note : Note) : Option LogRule :=
  let rules := if filter.rules.isEmpty then [.errors] else filter.rules
  (rules.filter (·.covers note)).foldl
    (fun best rule => if best.all (·.size ≤ rule.size) then some rule else best) none

def shows (filter : LogFilter) (note : Note) : Bool :=
  (filter.ruleFor? note).any (·.admits note) && filter.fits note.text

/-- Reads rules one by one. -/
def readRules (parts : List (List Char)) : List LogRule × List LogDefect :=
  parts.foldl (fun (rules, defects) part =>
    match LogRule.read part with
    | .ok rule => (rule.insert rules, defects)
    | .error defect => (rules, defects ++ [defect])) ([], [])

/-- The filter that a text asks for, and what is left out of it. Patterns are read by `pattern`. -/
def read (pattern : String → Except String (String → Bool)) (text : String) :
    LogFilter × List LogDefect :=
  let rulesOf (part : List Char) : List LogRule × List LogDefect :=
    readRules (((Text.splitAt ',' part).map Text.trimList).filter (· ≠ []))
  match Text.splitAt '/' text.toList with
  | [part] =>
    let (rules, defects) := rulesOf part
    (⟨rules, fun _ => true⟩, defects)
  | [part, expression] =>
    let (rules, defects) := rulesOf part
    match pattern (String.ofList expression) with
    | .ok fits => (⟨rules, fits⟩, defects)
    | .error message => (⟨rules, fun _ => true⟩, defects ++ [.pattern message])
  | _ => ({}, [.crowded text])

end LogFilter

/-- The logger as far as it is not the program's own: how it reads patterns, and how it writes the
note that it shows after a number of others, with the time and in the colours it chooses. -/
structure Logger where
  pattern : String → Except String (String → Bool)
  line : Environment → Nat → Note → String

namespace Logger

/-- The filter that an environment asks for, and what is left out of it. -/
def filterIn (logger : Logger) (environment : Environment) : LogFilter × List LogDefect :=
  match environment.lookup "RUST_LOG" with
  | none => ({}, [])
  | some text => LogFilter.read logger.pattern text

/-- What is written of notes: first of what is left out of the filter, then of those that it shows.
-/
def write (logger : Logger) (environment : Environment) (notes : List Note) : String :=
  let (filter, defects) := logger.filterIn environment
  let warnings := defects.map fun defect => "warning: " ++ defect.message ++ ", ignoring it\n"
  String.join (warnings ++ (notes.filter filter.shows).mapIdx (logger.line environment))

end Logger

end Verdict
