import Verdict.Condition
import Verdict.Calendar.Reader
import Verdict.Error

/-!
# Evaluating conditions

Numbers are compared as double precision numbers, strings are equal as texts but ordered by their
lengths, and dates are equal on one day but ordered by their instants. The field type is settled
before the comparison, the comparison before the field, and the field before the given value.
-/

namespace Verdict

/-- The comparisons that can be carried out. -/
inductive Relation
  | equal
  | greater
  | less
deriving DecidableEq, Repr, Inhabited

namespace Relation

def ofComparison (fieldType : FieldType) : Comparison → Except Failure Relation
  | .equals => .ok equal
  | .greaterThan => .ok greater
  | .lessThan => .ok less
  | .unrecognized name => .error (.unsupportedComparison fieldType.name name)

def holdsOfNumbers (relation : Relation) (a b : Binary64) : Bool :=
  match relation with
  | equal => decide (a.units = b.units)
  | greater => decide (b.units < a.units)
  | less => decide (a.units < b.units)

def holdsOfStrings (relation : Relation) (a b : String) : Bool :=
  match relation with
  | equal => a == b
  | greater => decide (b.length < a.length)
  | less => decide (a.length < b.length)

def holdsOfDates (relation : Relation) (a b : Instant) : Bool :=
  match relation with
  | equal => a.dayNumber == b.dayNumber
  | greater => b.before a
  | less => a.before b

end Relation

namespace Json

def asInstant? (v : Json) : Option Instant := v.asString?.bind Instant.read?

end Json

namespace Condition

/-- Reads one side of a comparison. -/
def readSide {α : Type} (read? : Json → Option α) (type : String) (side : Side) (value : Json) :
    Except Failure α :=
  match read? value with
  | some v => .ok v
  | none => .error (.malformed (.unreadable side type value))

/-- Compares the two sides once both can be read. -/
def compare {α : Type} (read? : Json → Option α) (condition : Condition)
    (holds : Relation → α → α → Bool) (value : Json) : Except Failure Bool := do
  let relation ← Relation.ofComparison condition.fieldType condition.comparison
  let type := condition.fieldType.name
  let left ← readSide read? type (.field condition.fieldName) value
  let right ← readSide read? type .compareTo condition.compareTo
  return holds relation left right

/-- Whether the condition holds of a value of its field. -/
def evaluate (condition : Condition) (value : Json) : Except Failure Bool :=
  match condition.fieldType with
  | .number => condition.compare Json.asBinary64? Relation.holdsOfNumbers value
  | .string => condition.compare Json.asString? Relation.holdsOfStrings value
  | .date => condition.compare Json.asInstant? Relation.holdsOfDates value
  | .unrecognized name => .error (.unsupportedFieldType name)

/-- The value of the condition's field; an absent or null value is missing. -/
def fieldOf (condition : Condition) (data : Record) : Except Failure Json :=
  match Record.get? condition.fieldName data with
  | none | some .null => .error (.missingField condition.fieldName)
  | some value => .ok value

/-- Whether the condition holds of a data record. -/
def holdsOf (condition : Condition) (data : Record) : Except Failure Bool := do
  let value ← condition.fieldOf data
  condition.evaluate value

end Condition

end Verdict
