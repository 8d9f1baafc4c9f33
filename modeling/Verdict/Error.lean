import Verdict.Document.Refusal
import Verdict.Json.Printer

/-!
# Failures

Every failure is a case of its own, so that bad input can be told from a failed evaluation. The
texts are those of the program, but for `Failure.notYaml`, whose text is the scanner's own.
-/

namespace Verdict

/-- Which side of a comparison a value stands on. -/
inductive Side
  | field (name : String)
  | compareTo
deriving DecidableEq, Repr, Inhabited

namespace Side

def name : Side → String
  | field name => name
  | compareTo => "compareTo"

end Side

/-- Why an input is malformed although it can be read. -/
inductive Complaint
  | unreadable (side : Side) (type : String) (value : Json)
  | emptyTreeName
  | emptyFieldName
  | unknownComparison (name : String)
  | unknownFieldType (name : String)
  | mismatchedCompareTo (value : Json) (fieldType : String)
  | excessiveRepeat (count : Nat) (maximum : Nat)
  | unknownAction (name : String)
  | unavailableAction (name : String)
  | alreadyExecuted (name : String)
  | notARecord (value : Json)
  | bodyNotJson
  | bodyTooLong
  | bodyRefused (refusal : Refusal)
  | other (message : String)
deriving BEq, Repr, Inhabited

namespace Complaint

/-- A value as a complaint shows it: a string in single quotes, all else as JSON. -/
def showValue : Json → String
  | .string s => "'" ++ s ++ "'"
  | v => v.compact

def message : Complaint → String
  | unreadable side type value =>
    "'" ++ side.name ++ "' is not a " ++ type ++ ": " ++ value.compact
  | emptyTreeName => "decision tree name must not be empty"
  | emptyFieldName => "condition fieldName must not be empty"
  | unknownComparison name => "unknown comparisonKind '" ++ name ++ "'"
  | unknownFieldType name => "unknown fieldType '" ++ name ++ "'"
  | mismatchedCompareTo value fieldType =>
    "compareTo " ++ showValue value ++ " does not match fieldType '" ++ fieldType ++ "'"
  | excessiveRepeat count maximum =>
    "repeatCount " ++ toString count ++ " exceeds the maximum of " ++ toString maximum
  | unknownAction name => "unknown action kind '" ++ name ++ "'"
  | unavailableAction name => "action kind '" ++ name ++ "' is not available"
  | alreadyExecuted name => "action '" ++ name ++ "' already carries an execution result"
  | notARecord value => "data record must be an object, got " ++ value.compact
  | bodyNotJson => "Expected request with `Content-Type: application/json`"
  | bodyTooLong => "Failed to buffer the request body: length limit exceeded"
  | bodyRefused refusal =>
    (if refusal.isDefect then "Failed to parse the request body as JSON: "
      else "Failed to deserialize the JSON body into the target type: ") ++ refusal.located
  | other message => message

end Complaint

inductive Failure
  | unsupportedFieldType (name : String)
  | unsupportedComparison (fieldType : String) (comparison : String)
  | unknownActionKind (name : String)
  | missingField (name : String)
  | malformed (complaint : Complaint)
  | document (refusal : Refusal)
  /-- A text that is not YAML at all. The scanner says where and why in words of its own; these are
  not modelled, and one text stands for all of them. -/
  | notYaml
  | config (message : String)
  | timeout (seconds : Nat)
  | io (message : String)
deriving BEq, Repr, Inhabited

namespace Failure

def message : Failure → String
  | unsupportedFieldType name => "Unsupported field type '" ++ name ++ "'"
  | unsupportedComparison fieldType comparison =>
    "Unsupported " ++ fieldType ++ " comparison '" ++ comparison ++ "'"
  | unknownActionKind name => "Unknown action kind '" ++ name ++ "'"
  | missingField name => "Field '" ++ name ++ "' is missing from the data record"
  | malformed complaint => "Malformed input: " ++ complaint.message
  | document refusal =>
    match refusal.format with
    | .json => refusal.message
    | .yaml => refusal.located
  | notYaml => "invalid YAML"
  | config message => "Configuration error: " ++ message
  | timeout seconds => "Evaluation timed out after " ++ toString seconds ++ " seconds"
  | io message => message

/-- The stable name of the kind of failure. -/
def kind : Failure → String
  | unsupportedFieldType _ => "UnsupportedFieldType"
  | unsupportedComparison .. => "UnsupportedComparison"
  | unknownActionKind _ => "UnknownActionKind"
  | missingField _ => "MissingField"
  | malformed _ | document _ | notYaml => "MalformedInput"
  | config _ => "Config"
  | timeout _ => "Timeout"
  | io _ => "Io"

/-- Whether the input is at fault and not the evaluation. -/
def isValidation : Failure → Bool
  | malformed _ | document _ | notYaml => true
  | _ => false

end Failure

end Verdict
