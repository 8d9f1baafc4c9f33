import Verdict.Action
import Verdict.Condition

/-!
# Decision trees

A node tests a condition, runs the actions of one branch, and may run further actions a bounded
number of times. A tree is a named node.
-/

namespace Verdict

structure Node where
  condition : Condition
  /-- Run in order when the condition holds. -/
  trueActions : List Action := []
  /-- Run in order when the condition does not hold. -/
  falseActions : Option (List Action) := none
  /-- Set to `false` when the false branch ran. -/
  conditionResult : Option Bool := none
  repeatCount : Option UInt32 := none
  /-- Run in each iteration in which the condition holds. -/
  subActions : List Action := []
  /-- The actions of each iteration, present only when there were iterations. -/
  subtreeOutputs : Option (List (List Action)) := none
deriving BEq, Repr, Inhabited

namespace Node

/-- How many times the sub actions run; none at all if there are none. -/
def iterations (node : Node) : Nat :=
  if node.subActions.isEmpty then 0 else (node.repeatCount.getD 0).toNat

/-- Whether there are iterations over the sub actions. -/
def repeats (node : Node) : Bool := node.iterations != 0

/-- All declared actions, in the order of the branches. -/
def actions (node : Node) : List Action :=
  node.trueActions ++ node.falseActions.getD [] ++ node.subActions

end Node

structure Tree where
  name : String
  root : Node
deriving BEq, Repr, Inhabited

end Verdict
