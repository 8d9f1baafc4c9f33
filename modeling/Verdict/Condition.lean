import Verdict.Json.Basic

/-!
# Conditions

A condition compares one named field of the data with a given value.
-/

namespace Verdict

inductive Comparison
  | equals
  | greaterThan
  | lessThan
  | unrecognized (name : String)
deriving DecidableEq, Repr, Inhabited

namespace Comparison

def name : Comparison → String
  | equals => "equals"
  | greaterThan => "greaterThan"
  | lessThan => "lessThan"
  | unrecognized name => name

/-- The comparison that a name or its older spelling stands for. -/
def ofName (name : String) : Comparison :=
  if name = "equals" ∨ name = "directComparison" then equals
  else if name = "greaterThan" then greaterThan
  else if name = "lessThan" then lessThan
  else unrecognized name

end Comparison

/-- How both sides of a comparison are read. -/
inductive FieldType
  | string
  | number
  | date
  | unrecognized (name : String)
deriving DecidableEq, Repr, Inhabited

namespace FieldType

def name : FieldType → String
  | string => "string"
  | number => "number"
  | date => "date"
  | unrecognized name => name

def ofName (name : String) : FieldType :=
  if name = "string" then string
  else if name = "number" then number
  else if name = "date" then date
  else unrecognized name

end FieldType

structure Condition where
  comparison : Comparison
  fieldType : FieldType
  fieldName : String
  compareTo : Json
deriving BEq, Repr, Inhabited

end Verdict
