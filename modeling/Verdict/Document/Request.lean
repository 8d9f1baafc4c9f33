import Verdict.Document.Tree

/-!
# Requests in documents
-/

namespace Verdict

/-- A tree to be executed on a data record. -/
structure ExecutionRequest where
  tree : Tree
  data : Record
deriving BEq, Repr, Inhabited

/-- A condition to be tested on a data record. -/
structure ConditionRequest where
  condition : Condition
  data : Record
deriving BEq, Repr, Inhabited

namespace ExecutionRequest

structure Draft where
  tree : Option Tree := none
  data : Option Record := none

def layout : Layout Draft ExecutionRequest where
  title := "ExecutionRequest"
  slots := [
    .reading "decisionTree" [] (·.tree) (fun v d => { d with tree := some v }) Tree.read,
    .reading "data" [] (·.data) (fun v d => { d with data := some v }) .record]
  blank := {}
  finish draft :=
    match draft.tree, draft.data with
    | none, _ => .error "decisionTree"
    | _, none => .error "data"
    | some tree, some data => .ok ⟨tree, data⟩

end ExecutionRequest

namespace ConditionRequest

structure Draft where
  condition : Option Condition := none
  data : Option Record := none

def layout : Layout Draft ConditionRequest where
  title := "ConditionRequest"
  slots := [
    .reading "condition" [] (·.condition) (fun v d => { d with condition := some v })
      Condition.layout.read,
    .reading "data" [] (·.data) (fun v d => { d with data := some v }) .record]
  blank := {}
  finish draft :=
    match draft.condition, draft.data with
    | none, _ => .error "condition"
    | _, none => .error "data"
    | some condition, some data => .ok ⟨condition, data⟩

end ConditionRequest

end Verdict
