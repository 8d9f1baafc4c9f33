import Verdict.Proofs.Admitted

/-!
# Submitting a result again

The result of an evaluation is a tree, and it can be submitted like one. The actions of the branch
that was run carry results in it, and validation refuses them
(`Validator.validate_annotate_of_cons`). The sub actions are left as they were declared: the results
of iterations stand in the outputs, where validation does not look. Hence a result is refused
exactly if a branch was run, and a tree that only repeats can be submitted again and again
(`Tree.resubmission_refused_iff`).
-/

namespace Verdict

namespace Validator

variable {validator : Validator} {action : Action} {before after : List Action}

theorem AdmitsAction.validateAction_executed (h : validator.AdmitsAction action)
    (result : ActionResult) : validator.validateAction (action.executed result) =
      .error (.malformed (.alreadyExecuted action.kind.name)) := by
  unfold validateAction
  simp only [Action.executed]
  split
  next name hname => exact absurd hname (h.known name)
  next => rw [any_not_contains_eq_false_iff.mpr h.available, if_neg (by decide)]; rfl

/-- Actions that are admitted hide no executed action that stands behind them. -/
theorem validateActions_of_executed (h : ∀ action ∈ before, validator.AdmitsAction action)
    (haction : validator.AdmitsAction action) (result : ActionResult) :
    validator.validateActions (before ++ action.executed result :: after) =
      .error (.malformed (.alreadyExecuted action.kind.name)) := by
  rw [validateActions_append h, validateActions, haction.validateAction_executed result]
  rfl

/-- Of a node in place of an admitted one, only the actions are left to be checked if the condition
and the number of repeats are the same. -/
theorem Admits.validate_eq {tree : Tree} (h : validator.Admits tree) {node : Node}
    (hcondition : node.condition = tree.root.condition)
    (hrepeat : node.repeatCount = tree.root.repeatCount) :
    validator.validate ⟨tree.name, node⟩ = validator.validateActions node.actions := by
  rw [validate, h.name, if_neg (by decide), hcondition, hrepeat,
    Condition.validate_eq_ok_iff.mpr h.condition, validateRepeat_eq_ok_iff.mpr h.repeatCount]
  rfl

end Validator

namespace Node

variable {node : Node} {holds : Bool} {calls : List Call}

/-- An evaluation that runs no branch leaves all but the outputs of iterations as it is. -/
theorem exists_annotate_eq_of_branch_eq_nil (node : Node) {holds : Bool}
    (h : node.branch holds = []) (calls : List Call) :
    ∃ outputs, node.annotate holds calls = { node with subtreeOutputs := outputs } := by
  have hbranch : node.annotateBranch holds (calls.take (node.branch holds).length) = node := by
    cases holds with
    | true =>
      have htrue : node.trueActions = [] := h
      simp only [annotateBranch, if_true, htrue, Action.annotate, List.zipWith_nil_left]
      rw [← htrue]
    | false => exact annotateBranch_of_empty h _
  rw [annotate_eq, hbranch]
  exact ⟨_, rfl⟩

/-- The first action of the branch that was run carries a result, and only declared actions stand
before it. -/
theorem exists_actions_annotate_of_branch_eq_cons {action : Action} {rest : List Action}
    (h : node.branch holds = action :: rest)
    (hlen : calls.length = (node.plan holds).length) :
    ∃ before result after,
      (node.annotate holds calls).actions = before ++ action.executed result :: after ∧
      ∀ other ∈ before, other ∈ node.actions := by
  rw [plan, h, List.cons_append, List.length_cons] at hlen
  obtain ⟨call, calls, rfl⟩ := List.exists_cons_of_length_eq_add_one hlen
  have hactions : (node.annotate holds (call :: calls)).actions =
      (node.annotateBranch holds ((call :: calls).take (node.branch holds).length)).actions := by
    rw [annotate_eq]
    rfl
  rw [hactions, h, List.length_cons, List.take_succ_cons]
  cases holds with
  | true =>
    have htrue : node.trueActions = action :: rest := h
    refine ⟨[], call.receipt.result, Action.annotate rest (calls.take rest.length) ++
      node.falseActions.getD [] ++ node.subActions, ?_, List.forall_mem_nil _⟩
    simp only [annotateBranch, actions, if_true, htrue, Action.annotate, List.zipWith_cons_cons,
      List.cons_append, List.nil_append]
  | false =>
    obtain hempty | ⟨first, others, hfalse⟩ := node.falseActions_cases
    · rw [branch_of_empty hempty] at h
      cases h
    · rw [branch_of_cons hfalse] at h
      cases h
      refine ⟨node.trueActions, call.receipt.result, Action.annotate rest (calls.take rest.length) ++
        node.subActions, ?_, fun other hother =>
          List.mem_append_left _ (List.mem_append_left _ hother)⟩
      rw [annotateBranch_of_cons hfalse]
      simp only [actions, Option.getD_some, Action.annotate, List.zipWith_cons_cons,
        List.append_assoc, List.cons_append]

end Node

namespace Validator

variable {validator : Validator} {tree : Tree} {holds : Bool} {calls : List Call}

theorem validate_annotate_of_cons (h : validator.Admits tree) {action : Action}
    {rest : List Action} (hbranch : tree.root.branch holds = action :: rest)
    (hlen : calls.length = (tree.root.plan holds).length) :
    validator.validate ⟨tree.name, tree.root.annotate holds calls⟩ =
      .error (.malformed (.alreadyExecuted action.kind.name)) := by
  obtain ⟨before, result, after, hactions, hbefore⟩ :=
    Node.exists_actions_annotate_of_branch_eq_cons hbranch hlen
  have haction : action ∈ tree.root.actions := by
    have hplan : action ∈ tree.root.plan holds := by
      rw [Node.plan, hbranch]
      exact List.mem_cons_self
    exact Node.mem_actions_of_mem_plan hplan
  rw [h.validate_eq (Node.annotate_condition ..) (Node.annotate_repeatCount ..), hactions]
  exact validateActions_of_executed (fun other hother => h.actions other (hbefore other hother))
    (h.actions action haction) result

theorem validate_annotate_of_nil (h : validator.Admits tree) (hbranch : tree.root.branch holds = []) :
    validator.validate ⟨tree.name, tree.root.annotate holds calls⟩ = .ok () := by
  obtain ⟨outputs, heq⟩ := tree.root.exists_annotate_eq_of_branch_eq_nil hbranch calls
  have hchecked := @Admits.validate_eq _ _ h { tree.root with subtreeOutputs := outputs } rfl rfl
  rw [heq, hchecked]
  exact validateActions_eq_ok_iff.mpr h.actions

end Validator

namespace Tree

/-- The result of an evaluation is refused as executed exactly if a branch was run, and it is the
first action of the branch that is reported. A result of iterations alone is accepted like the tree
it came from, and asks the same of the executors once more. -/
theorem resubmission_refused_iff (registry : Registry) (bound : UInt32) (tree : Tree)
    (data : Record) (past : List Call) (output : Tree)
    (accepted : (Validator.ofRegistry registry bound).validate tree = .ok ())
    (success : (tree.evaluate registry data past).outcome = .ok output) :
    let verdict := (Validator.ofRegistry registry bound).validate output
    ∃ holds, tree.root.condition.holdsOf data = .ok holds ∧
      ((∃ name, verdict = .error (.malformed (.alreadyExecuted name))) ↔
        tree.root.branch holds ≠ []) ∧
      (∀ action rest, tree.root.branch holds = action :: rest →
        verdict = .error (.malformed (.alreadyExecuted action.kind.name))) ∧
      (tree.root.branch holds = [] → verdict = .ok () ∧
        ∀ past', (output.evaluate registry data past').calls.map Call.request =
          (tree.evaluate registry data past).calls.map Call.request) := by
  intro verdict
  have hadmits := Validator.validate_eq_ok_iff.mp accepted
  obtain ⟨holds, hholds, hfail, -, rfl⟩ := exists_holds_of_evaluate_ok success
  have hlen := Registry.length_callsFrom past hfail
  have hrun : ∀ action rest, tree.root.branch holds = action :: rest →
      verdict = .error (.malformed (.alreadyExecuted action.kind.name)) :=
    fun action rest hbranch => Validator.validate_annotate_of_cons hadmits hbranch hlen
  have hskipped : tree.root.branch holds = [] → verdict = .ok () :=
    Validator.validate_annotate_of_nil hadmits
  refine ⟨holds, hholds, ⟨?_, ?_⟩, hrun, fun hbranch => ⟨hskipped hbranch, fun past' => ?_⟩⟩
  · rintro ⟨name, hrefused⟩ hbranch
    cases (hskipped hbranch).symm.trans hrefused
  · intro hbranch
    obtain ⟨action, rest, hcons⟩ := List.exists_cons_of_ne_nil hbranch
    exact ⟨_, hrun action rest hcons⟩
  · obtain ⟨outputs, heq⟩ := tree.root.exists_annotate_eq_of_branch_eq_nil hbranch
      (registry.callsFrom past (tree.root.plan holds))
    -- the outputs of iterations have no part in the condition and in the plan
    have hagain := @evaluate_performs ⟨tree.name, { tree.root with subtreeOutputs := outputs }⟩ data
      registry holds hholds
    rw [heq, (evaluate_performs registry hholds).requests past]
    exact hagain.requests past'

/-- After the reminder has been sent, its result is refused. -/
theorem reminder_refused :
    (Validator.ofRegistry .counting 2).validate ⟨"week", .reminder⟩ = .ok () ∧
      ∃ output, (evaluate .counting ⟨"week", .reminder⟩ [("due", .string "exam")] []).outcome =
          .ok output ∧
        (Validator.ofRegistry .counting 2).validate output =
          .error (.malformed (.alreadyExecuted "send-email")) := by
  have accepted : (Validator.ofRegistry .counting 2).validate ⟨"week", .reminder⟩ = .ok () := by
    rfl
  obtain ⟨holds, hholds, -, hrefused, -⟩ :=
    resubmission_refused_iff _ _ _ [("due", .string "exam")] [] _ accepted rfl
  cases hholds
  exact ⟨accepted, _, rfl, hrefused _ _ rfl⟩

/-- A tree that does nothing but repeat a notice. -/
def echo : Tree where
  name := "echo"
  root := {
    condition := ⟨.equals, .string, "f", .string "x"⟩
    repeatCount := some 1
    subActions := [⟨.sendEmail, [], none⟩] }

/-- The result of the echo is accepted, and sends the notice again. -/
theorem echo_resent :
    let validator := Validator.ofRegistry .counting 1
    let heard := echo.evaluate .counting [("f", .string "x")] []
    validator.validate echo = .ok () ∧ heard.calls ≠ [] ∧
      ∃ output, heard.outcome = .ok output ∧ validator.validate output = .ok () ∧
        (output.evaluate .counting [("f", .string "x")] heard.calls).calls.map Call.request =
          [⟨.sendEmail, []⟩] :=
  ⟨rfl, nofun, _, rfl, rfl, rfl⟩

end Tree

end Verdict
