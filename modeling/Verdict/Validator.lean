import Verdict.Condition.Evaluation
import Verdict.Tree

/-!
# Validation

A tree is checked before it is evaluated, so that an evaluation fails only because of the data.
Checks are made in a fixed order and the first that fails is reported.
-/

namespace Verdict

namespace Condition

/-- Whether the given value can be read as the field type; `none` for an unrecognized type. -/
def matchesType? (condition : Condition) : Option Bool :=
  match condition.fieldType with
  | .number => some condition.compareTo.isNumber
  | .string => some condition.compareTo.isString
  | .date => some condition.compareTo.asInstant?.isSome
  | .unrecognized _ => none

def validate (condition : Condition) : Except Failure Unit :=
  if Text.isBlankText condition.fieldName then .error (.malformed .emptyFieldName)
  else
    match condition.comparison with
    | .unrecognized name => .error (.malformed (.unknownComparison name))
    | _ =>
      match condition.matchesType? with
      | none => .error (.malformed (.unknownFieldType condition.fieldType.name))
      | some true => .ok ()
      | some false =>
        .error (.malformed (.mismatchedCompareTo condition.compareTo condition.fieldType.name))

end Condition

/-- The bound on repeats, and the kinds of actions that are available if that is limited. -/
structure Validator where
  maxRepeatCount : UInt32 := 1000
  knownKinds : Option (List ActionKind) := none

namespace Validator

def validateAction (validator : Validator) (action : Action) : Except Failure Unit :=
  match action.kind with
  | .custom name => .error (.malformed (.unknownAction name))
  | kind =>
    if validator.knownKinds.any fun kinds => !kinds.contains kind then
      .error (.malformed (.unavailableAction kind.name))
    else if action.isExecuted then .error (.malformed (.alreadyExecuted kind.name))
    else .ok ()

def validateActions (validator : Validator) : List Action → Except Failure Unit
  | [] => .ok ()
  | action :: rest => do
    validator.validateAction action
    validator.validateActions rest

def validateRepeat (validator : Validator) : Option UInt32 → Except Failure Unit
  | none => .ok ()
  | some count =>
    if validator.maxRepeatCount < count then
      .error (.malformed (.excessiveRepeat count.toNat validator.maxRepeatCount.toNat))
    else .ok ()

def validate (validator : Validator) (tree : Tree) : Except Failure Unit :=
  if Text.isBlankText tree.name then .error (.malformed .emptyTreeName)
  else do
    tree.root.condition.validate
    validator.validateRepeat tree.root.repeatCount
    validator.validateActions tree.root.actions

end Validator

end Verdict
