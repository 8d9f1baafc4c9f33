import Verdict.Action
import Verdict.Error
import Verdict.Log

/-!
# Executors and their registry

An executor performs the actions of one kind. What it does is its receipt: the result it reports,
the deliveries it makes, the time it takes, and what it tells the log; it may depend on all calls
that were made before. A registry holds one executor a kind, in ascending order of the names of
kinds.
-/

namespace Verdict

/-- What came of performing an action; the time is in milliseconds. -/
structure Receipt where
  result : ActionResult
  deliveries : List Json := []
  delay : Nat := 0
  notes : List Note := []
deriving BEq, Repr, Inhabited

/-- One performed action. -/
structure Call where
  kind : ActionKind
  parameters : Record
  receipt : Receipt
deriving BEq, Repr, Inhabited

structure Executor where
  kind : ActionKind
  description : String
  /-- The JSON Schema of the parameters. -/
  parameterSchema : Json
  /-- What comes of some parameters after the calls made before, of whatever executors. -/
  perform : List Call → Record → Receipt

/-- How a computation went: the calls it made in their order, and how it ended. -/
structure Trace (α : Type) where
  calls : List Call
  outcome : Except Failure α

/-- A computation that calls executors, given the calls that were made before it. -/
def Run (α : Type) : Type := List Call → Trace α

namespace Run

def ofExcept {α : Type} (outcome : Except Failure α) : Run α := fun _ => ⟨[], outcome⟩

def ok {α : Type} (v : α) : Run α := ofExcept (.ok v)

def fail {α : Type} (failure : Failure) : Run α := ofExcept (.error failure)

def bind {α β : Type} (run : Run α) (next : α → Run β) : Run β := fun past =>
  let first := run past
  match first.outcome with
  | .error failure => ⟨first.calls, .error failure⟩
  | .ok v =>
    let rest := next v (past ++ first.calls)
    ⟨first.calls ++ rest.calls, rest.outcome⟩

instance : Monad Run where
  pure := ok
  bind := bind

/-- The calls of a run that no calls precede. -/
def calls {α : Type} (run : Run α) : List Call := (run []).calls

/-- The outcome of a run that no calls precede. -/
def outcome {α : Type} (run : Run α) : Except Failure α := (run []).outcome

end Run

abbrev Registry := List Executor

namespace Registry

/-- Puts an executor in its place, replacing one of the same kind. -/
def register (executor : Executor) : Registry → Registry
  | [] => [executor]
  | other :: rest =>
    if executor.kind = other.kind then executor :: rest
    else if executor.kind.name < other.kind.name then executor :: other :: rest
    else other :: register executor rest

def ofList (executors : List Executor) : Registry :=
  executors.foldl (fun registry executor => register executor registry) []

def get? (registry : Registry) (kind : ActionKind) : Option Executor :=
  registry.find? fun executor => decide (executor.kind = kind)

def contains (registry : Registry) (kind : ActionKind) : Bool := (registry.get? kind).isSome

def kinds (registry : Registry) : List ActionKind := registry.map (·.kind)

/-- Performs an action and gives it with its result. -/
def execute (registry : Registry) (action : Action) : Run Action :=
  match registry.get? action.kind with
  | none => .fail (.unknownActionKind action.kind.name)
  | some executor => fun past =>
    let receipt := executor.perform past action.parameters
    ⟨[⟨action.kind, action.parameters, receipt⟩], .ok (action.executed receipt.result)⟩

/-- Performs actions in their order; a result that reports failure does not stop the rest. -/
def executeAll (registry : Registry) : List Action → Run (List Action)
  | [] => .ok []
  | action :: rest => do
    let action ← registry.execute action
    let rest ← registry.executeAll rest
    return action :: rest

end Registry

end Verdict
