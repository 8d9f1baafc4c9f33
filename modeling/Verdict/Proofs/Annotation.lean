import Verdict.Proofs.Evaluation

/-!
# What an evaluation leaves in the node

The result of each call lands in the action it was made for: in the branch that was run, or in the
entry of its iteration. Places are counted in the log of calls, so no result is shared by two
actions even where one action is performed many times. All else stays as it was submitted.
-/

namespace Verdict

namespace Registry

variable {registry : Registry} {past log : List Call}

/-- The calls of `log` from `start` on were made for `actions`, and `outputs` are these actions with
what came of their calls. -/
def Annotates (registry : Registry) (past log : List Call) (start : Nat)
    (actions outputs : List Action) : Prop :=
  outputs.length = actions.length ∧
  ∀ i action, actions[i]? = some action →
    ∃ executor receipt, registry.get? action.kind = some executor ∧
      receipt = executor.perform (past ++ log.take (start + i)) action.parameters ∧
      log[start + i]? = some ⟨action.kind, action.parameters, receipt⟩ ∧
      outputs[i]? = some { action with result := some receipt.result }

/-- A stretch of performed actions finds its calls at its own place in the log. -/
theorem annotates_annotate (past : List Call) (before actions after : List Action)
    (hfail : registry.failure? (before ++ actions ++ after) = none) :
    registry.Annotates past (registry.callsFrom past (before ++ actions ++ after)) before.length
      actions (Action.annotate actions
        (((registry.callsFrom past (before ++ actions ++ after)).drop before.length).take
          actions.length)) := by
  have hlen := length_callsFrom past hfail
  generalize hlog : registry.callsFrom past (before ++ actions ++ after) = log at hlen ⊢
  simp only [List.length_append] at hlen
  refine ⟨?_, fun i action hi => ?_⟩
  · simp only [Action.annotate, List.length_zipWith, List.length_take, List.length_drop]
    omega
  · have hlt : i < actions.length := (List.getElem?_eq_some_iff.mp hi).1
    obtain ⟨call, hcall⟩ : ∃ call, log[before.length + i]? = some call :=
      ⟨_, List.getElem?_eq_getElem (by omega)⟩
    obtain ⟨action', hget, hanswer⟩ := exists_action_of_getElem?_callsFrom (hlog ▸ hcall)
    -- nothing before the place was passed over, so the action of that place in the plan was called
    have haction : action' = action := by
      rw [List.append_assoc, List.getElem?_append_right (Nat.le_add_right ..),
        Nat.add_sub_cancel_left, List.getElem?_append_left hlt, hi] at hget
      exact (Option.some.inj hget).symm
    rw [haction, hlog] at hanswer
    obtain ⟨executor, he, rfl⟩ := exists_executor_of_call? hanswer
    refine ⟨executor, _, he, rfl, hcall, ?_⟩
    rw [Action.annotate, List.getElem?_zipWith, hi, List.getElem?_take_of_lt hlt,
      List.getElem?_drop, hcall]
    rfl

end Registry

namespace Node

/-- The output of an evaluation that found `holds` and made the calls of `log`: what was run carries
the results of its own calls, and all else is as in the node. -/
structure Annotated (registry : Registry) (past log : List Call) (holds : Bool)
    (node output : Node) : Prop where
  condition : output.condition = node.condition
  repeatCount : output.repeatCount = node.repeatCount
  subActions : output.subActions = node.subActions
  whenTrue : holds = true →
    registry.Annotates past log 0 node.trueActions output.trueActions ∧
      output.falseActions = node.falseActions ∧ output.conditionResult = node.conditionResult
  whenFalse : holds = false → ∀ actions, node.falseActions = some actions → actions ≠ [] →
    (∃ outputs, output.falseActions = some outputs ∧
      registry.Annotates past log 0 actions outputs) ∧
      output.conditionResult = some false ∧ output.trueActions = node.trueActions
  whenEmpty : holds = false → node.falseActions.getD [] = [] →
    output.trueActions = node.trueActions ∧ output.falseActions = node.falseActions ∧
      output.conditionResult = node.conditionResult
  iterations : node.repeats = true → ∃ outputs, output.subtreeOutputs = some outputs ∧
    outputs.length = (node.repeatCount.getD 0).toNat ∧
    ∀ k entry, outputs[k]? = some entry →
      entry.length = node.subActions.length ∧
      (holds = true → registry.Annotates past log
        (node.trueActions.length + k * node.subActions.length) node.subActions entry) ∧
      (holds = false → entry = node.subActions)
  noIterations : node.repeats = false → output.subtreeOutputs = node.subtreeOutputs

section
variable {registry : Registry} {node : Node} {past : List Call} {holds : Bool}

theorem mem_annotateLoop {count k : Nat} {calls : List Call} {entry : List Action}
    (h : (node.annotateLoop holds count calls)[k]? = some entry) :
    k < count ∧ entry = if holds then
      Action.annotate node.subActions
        ((calls.drop (k * node.subActions.length)).take node.subActions.length)
      else node.subActions := by
  rw [annotateLoop, List.getElem?_map, Option.map_eq_some_iff] at h
  obtain ⟨j, hj, rfl⟩ := h
  obtain ⟨hlt, rfl⟩ := List.getElem?_eq_some_iff.mp hj
  rw [List.length_range] at hlt
  rw [List.getElem_range]
  exact ⟨hlt, rfl⟩

theorem flatten_replicate_split {α : Type} {count k : Nat} (h : k < count) (items : List α) :
    (List.replicate count items).flatten = (List.replicate k items).flatten ++ items ++
      (List.replicate (count - (k + 1)) items).flatten := by
  obtain ⟨rest, rfl⟩ := Nat.exists_eq_add_of_le h
  rw [Nat.add_sub_cancel_left, ← List.replicate_append_replicate, List.flatten_append,
    List.replicate_succ', List.flatten_append, List.flatten_singleton]

/-- The plan of an evaluation that repeats, cut at its `k`-th iteration. -/
theorem plan_split (hrep : node.repeats = true) {k : Nat} (hk : k < node.iterations) :
    node.plan true =
      (node.trueActions ++ (List.replicate k node.subActions).flatten) ++ node.subActions ++
        (List.replicate (node.iterations - (k + 1)) node.subActions).flatten := by
  rw [plan, loop_of_repeats hrep, if_pos rfl, flatten_replicate_split hk]
  simp only [branch, if_true, List.append_assoc]

theorem annotates_branch (past : List Call) (hfail : registry.failure? (node.plan holds) = none) :
    registry.Annotates past (registry.callsFrom past (node.plan holds)) 0 (node.branch holds)
      (Action.annotate (node.branch holds)
        ((registry.callsFrom past (node.plan holds)).take (node.branch holds).length)) :=
  Registry.annotates_annotate past [] (node.branch holds) (node.loop holds) hfail

theorem annotates_iteration (past : List Call)
    (hfail : registry.failure? (node.plan true) = none) (hrep : node.repeats = true) {k : Nat}
    (hk : k < node.iterations) :
    registry.Annotates past (registry.callsFrom past (node.plan true))
      (node.trueActions.length + k * node.subActions.length) node.subActions
      (Action.annotate node.subActions
        ((((registry.callsFrom past (node.plan true)).drop node.trueActions.length).drop
          (k * node.subActions.length)).take node.subActions.length)) := by
  have hsplit := plan_split hrep hk
  have hlen : (node.trueActions ++ (List.replicate k node.subActions).flatten).length =
      node.trueActions.length + k * node.subActions.length := by
    simp
  rw [List.drop_drop, ← hlen, hsplit]
  exact Registry.annotates_annotate past _ _ _ (hsplit ▸ hfail)

theorem annotated_annotate (hfail : registry.failure? (node.plan holds) = none) :
    Annotated registry past (registry.callsFrom past (node.plan holds)) holds node
      (node.annotate holds (registry.callsFrom past (node.plan holds))) := by
  have hbranch := annotates_branch past hfail
  have hframe := annotateBranch_frame node holds
    ((registry.callsFrom past (node.plan holds)).take (node.branch holds).length)
  rw [annotate_eq]
  constructor
  case condition => exact hframe.1
  case repeatCount => exact hframe.2.1
  case subActions => exact hframe.2.2.1
  case whenTrue =>
    rintro rfl
    exact ⟨hbranch, rfl, rfl⟩
  case whenFalse =>
    rintro rfl actions hactions hne
    obtain ⟨action, rest, rfl⟩ := List.exists_cons_of_ne_nil hne
    rw [branch_of_cons hactions] at hbranch
    rw [branch_of_cons hactions, annotateBranch_of_cons hactions]
    exact ⟨⟨_, rfl, hbranch⟩, rfl, rfl⟩
  case whenEmpty =>
    rintro rfl hempty
    simp only [annotateBranch_of_empty hempty, and_self]
  case iterations =>
    intro hrep
    rw [if_pos hrep]
    refine ⟨_, rfl, ?_, fun k entry hentry => ?_⟩
    · rw [annotateLoop, List.length_map, List.length_range, iterations_of_repeats hrep]
    obtain ⟨hk, rfl⟩ := mem_annotateLoop hentry
    cases holds with
    | true =>
      have hiteration := annotates_iteration past hfail hrep hk
      exact ⟨hiteration.1, fun _ => hiteration, fun h => (by cases h)⟩
    | false => exact ⟨rfl, fun h => (by cases h), fun _ => rfl⟩
  case noIterations =>
    intro hrep
    rw [hrep]
    rfl

/-- A successful evaluation annotates the node with the results of its own calls, and the evaluation
of a tree keeps the name besides. -/
theorem evaluate_annotates (registry : Registry) (node : Node) (data : Record) (past : List Call)
    (output : Node) (success : (node.evaluate registry data past).outcome = .ok output) :
    (∃ holds, node.condition.holdsOf data = .ok holds ∧
      Annotated registry past (node.evaluate registry data past).calls holds node output) ∧
    ∀ name, (Tree.mk name node).evaluate registry data past =
      ⟨(node.evaluate registry data past).calls, .ok ⟨name, output⟩⟩ := by
  constructor
  · obtain ⟨holds, hholds, hfail, hcalls, rfl⟩ := exists_holds_of_evaluate_ok success
    rw [hcalls]
    exact ⟨holds, hholds, annotated_annotate hfail⟩
  · intro name
    rw [Tree.evaluate, Run.bind_of_ok success]
    exact congrArg (Trace.mk · _) (List.append_nil _)

/-- The node `reminder` after its calls. -/
def reminded : Node where
  condition := reminder.condition
  trueActions := [⟨.sendEmail, [], some (.succeeded "" [("before", .ofNat 0)])⟩]
  falseActions := reminder.falseActions
  repeatCount := reminder.repeatCount
  subActions := reminder.subActions
  subtreeOutputs := some [
    [⟨.sendEmail, [("to", .string "ops")], some (.succeeded "" [("before", .ofNat 1)])⟩,
      ⟨.sendMessage, [], some (.succeeded "" [("before", .ofNat 2)])⟩],
    [⟨.sendEmail, [("to", .string "ops")], some (.succeeded "" [("before", .ofNat 3)])⟩,
      ⟨.sendMessage, [], some (.succeeded "" [("before", .ofNat 4)])⟩]]

theorem reminder_annotated :
    (reminder.evaluate .counting [("due", .string "exam")] []).outcome = .ok reminded ∧
      (∃ holds, reminder.condition.holdsOf [("due", .string "exam")] = .ok holds ∧
        Annotated .counting [] (reminder.evaluate .counting [("due", .string "exam")] []).calls
          holds reminder reminded) ∧
      (Tree.mk "week" reminder).evaluate .counting [("due", .string "exam")] [] =
        ⟨(reminder.evaluate .counting [("due", .string "exam")] []).calls,
          .ok ⟨"week", reminded⟩⟩ := by
  have success :
      (reminder.evaluate .counting [("due", .string "exam")] []).outcome = .ok reminded := by
    rfl
  obtain ⟨hannotated, htree⟩ := evaluate_annotates _ _ _ _ _ success
  exact ⟨success, hannotated, htree "week"⟩

end

end Node

end Verdict
