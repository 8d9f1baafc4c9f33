import Verdict.Schema.Basic

/-!
# The schema of decision trees
-/

namespace Verdict.Schema

def ofActionResult : Schema := [
  .description "Results of executing an action.",
  .type [.object],
  .required ["resultMessage", "success"],
  .properties [
    ("success", [.type [.boolean]]),
    ("resultMessage", text),
    ("output", openRecord)]]

def ofAction : Schema := [
  .description "An action as declared in a decision node.\n\n`execution_result` stays `None` until the action has run.",
  .type [.object],
  .required ["kind"],
  .properties [
    ("kind", [.reference "ActionKind"]),
    ("parameters", openRecord),
    ("executionResult", [.anyOf [[.reference "ActionResult"], [.type [.null]]]])]]

def ofComparison : Schema := [.type [.string], .words ["equals", "greaterThan", "lessThan"]]

def ofFieldType : Schema := [.type [.string], .words ["string", "number", "date"]]

def ofCondition : Schema := [
  .description "A typed comparison test against one named field of the data record",
  .type [.object],
  .required ["compareTo", "comparisonKind", "fieldName", "fieldType"],
  .properties [
    ("comparisonKind", [.reference "ComparisonKind"]),
    ("fieldType", [
      .description "How both sides are read (comparison rules differ per type)",
      .allOf [[.reference "FieldType"]]]),
    ("fieldName", [.description "Key into the data record", .type [.string]]),
    ("compareTo",
      [.description "The value the field is compared against; must match `field_type`"])]]

/-- A list of actions; `types` says whether it may be null. -/
def actionsDescribed (description : String) (types : List JsonType) : Schema := [
  .description description, .type types, .items [.reference "Action"]]

def ofTree : Schema := [
  draft,
  .title "DecisionTree",
  .description "A named decision node, the unit a caller submits for evaluation",
  .type [.object],
  .required ["condition", "name"],
  .properties [
    ("name", [
      .description "Identifier of the tree, e.g. \"Christmas Bonus Detector\"",
      .type [.string]]),
    ("condition", [.reference "Condition"]),
    ("trueActions",
      .default (.array []) :: actionsDescribed "Run in order when the condition holds" [.array]),
    ("falseActions",
      actionsDescribed "Run in order when the condition does not hold" [.array, .null]),
    ("conditionResult", [
      .description "Set to `false` when the false branch ran", .type [.boolean, .null]]),
    ("repeatCount", [
      .description "Number of sub-action iterations",
      .type [.integer, .null],
      .format "uint32",
      .minimum (.zero false)]),
    ("subActions",
      actionsDescribed "Run on each iteration whose fresh condition check holds" [.array]),
    ("subtreeOutputs", [
      .description "One entry per iteration, present only when repetition occurred",
      .type [.array, .null],
      .items [.type [.array], .items [.reference "Action"]]])],
  .definitions [
    ("Action", ofAction),
    ("ActionKind", text),
    ("ActionResult", ofActionResult),
    ("ComparisonKind", ofComparison),
    ("Condition", ofCondition),
    ("FieldType", ofFieldType)]]

end Verdict.Schema
