import Verdict.Condition.Evaluation
import Verdict.Registry
import Verdict.Tree

/-!
# Evaluating trees

The condition chooses a branch, whose actions are run; then it is tested again before each iteration
over the sub actions. A failure ends the evaluation, and the calls made until then remain made.

Only executors take time. A limit of no seconds at all would also stop an evaluation where it gives
way to others, before each iteration; this is left out, and limits are meant to be positive.
-/

namespace Verdict

namespace Node

/-- The sub actions of one iteration, run if the condition holds. -/
def iteration (registry : Registry) (node : Node) (holds : Bool) : Run (List Action) :=
  if holds then registry.executeAll node.subActions else .ok node.subActions

/-- The sub actions of each of `count` iterations, before which the condition is tested. -/
def iterate (registry : Registry) (node : Node) (data : Record) : Nat → Run (List (List Action))
  | 0 => .ok []
  | count + 1 => do
    let holds ← Run.ofExcept (node.condition.holdsOf data)
    let first ← node.iteration registry holds
    let rest ← iterate registry node data count
    return first :: rest

/-- Runs the branch that the condition chooses. -/
def runBranch (registry : Registry) (node : Node) (holds : Bool) : Run Node :=
  if holds then do
    let trueActions ← registry.executeAll node.trueActions
    return { node with trueActions }
  else
    match node.falseActions with
    | none | some [] => .ok node
    | some actions => do
      let actions ← registry.executeAll actions
      return { node with falseActions := some actions, conditionResult := some false }

/-- The node with the results of a run on a data record. -/
def evaluate (registry : Registry) (node : Node) (data : Record) : Run Node := do
  let holds ← Run.ofExcept (node.condition.holdsOf data)
  let output ← node.runBranch registry holds
  if node.repeats then do
    let outputs ← node.iterate registry data node.iterations
    return { output with subtreeOutputs := some outputs }
  else return output

end Node

/-! ## What the log is told -/

namespace Node

/-- The source of the notes on evaluating trees. -/
def logSource : String := "arbiter_rs::arbiter::tree::executor"

/-- The note on the branch that is chosen. -/
def branchNote (node : Node) (holds : Bool) : Note :=
  let condition := "Condition on '" ++ node.condition.fieldName ++ "' "
  let running (actions : List Action) (branch : String) : String :=
    ", running " ++ toString actions.length ++ " " ++ branch ++ " actions"
  ⟨.debug, logSource, condition ++
    if holds then "held" ++ running node.trueActions "true"
    else
      match node.falseActions with
      | none | some [] => "failed with no false actions"
      | some actions => "failed" ++ running actions "false"⟩

def iterationNote (number count : Nat) (holds : Bool) : Note :=
  ⟨.debug, logSource, "Iteration " ++ toString number ++ "/" ++ toString count ++
    if holds then ": running sub actions" else ": condition failed, skipping"⟩

/-- The notes on the iterations that are left, after the calls made before. A failure ends them. -/
def iterationNotes (registry : Registry) (node : Node) (data : Record) (past : List Call) :
    Nat → List Note
  | 0 => []
  | left + 1 =>
    match node.condition.holdsOf data with
    | .error _ => []
    | .ok holds =>
      let trace := node.iteration registry holds past
      let told := iterationNote (node.iterations - left) node.iterations holds ::
        trace.calls.flatMap (·.receipt.notes)
      match trace.outcome with
      | .error _ => told
      | .ok _ => told ++ iterationNotes registry node data (past ++ trace.calls) left

/-- The notes of a run on a data record, in the order in which they are told. -/
def notes (registry : Registry) (node : Node) (data : Record) (past : List Call) : List Note :=
  match node.condition.holdsOf data with
  | .error _ => []
  | .ok holds =>
    let branch := node.runBranch registry holds past
    let told := node.branchNote holds :: branch.calls.flatMap (·.receipt.notes)
    match branch.outcome with
    | .error _ => told
    | .ok _ =>
      if node.repeats then
        told ++ node.iterationNotes registry data (past ++ branch.calls) node.iterations
      else told

end Node

namespace Tree

def evaluate (registry : Registry) (tree : Tree) (data : Record) : Run Tree := do
  let root ← tree.root.evaluate registry data
  return { tree with root }

end Tree

/-- The calls that are started before more than `limit` milliseconds have passed, and whether the
time is up before the last of them ends. -/
def Call.within (limit : Nat) : List Call → List Call × Bool
  | [] => ([], false)
  | call :: rest =>
    if limit < call.receipt.delay then ([call], true)
    else
      let (calls, late) := within (limit - call.receipt.delay) rest
      (call :: calls, late)

/-- The trace cut off after some seconds. -/
def Trace.within {α : Type} (seconds : Nat) (trace : Trace α) : Trace α :=
  match Call.within (seconds * 1000) trace.calls with
  | (_, false) => trace
  | (calls, true) => ⟨calls, .error (.timeout seconds)⟩

/-- The run cut off after some seconds, of which there is at least one. -/
def Run.within {α : Type} (seconds : Nat) (run : Run α) : Run α :=
  fun past => (run past).within seconds

end Verdict
