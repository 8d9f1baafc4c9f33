import Verdict.Engine
import Verdict.Proofs.Calls

/-!
# What an evaluation performs

Once the condition has been decided, an evaluation performs a plan that is known beforehand: the
branch, and then the sub actions as often as the node repeats (`Node.evaluate_performs`). The
condition is tested again before each iteration, but on the same record, so its verdict stays. What
the evaluated node looks like is a function of the calls alone (`Node.annotate`).
-/

namespace Verdict

namespace Run

variable {α β : Type}

theorem ok_bind (v : α) (next : α → Run β) : (Run.ok v >>= next) = next v := by
  funext past
  rw [bind_of_ok (v := v) rfl]
  simp [Run.ok, Run.ofExcept]

end Run

/-- Reports how many calls were made before, so no two of its results are the same. -/
def Executor.counting (kind : ActionKind) : Executor where
  kind := kind
  description := "Counts calls."
  parameterSchema := .object []
  perform past _ := { result := .succeeded "" [("before", .ofNat past.length)] }

def Registry.counting : Registry := [.counting .sendEmail, .counting .sendMessage]

namespace Node

/-! ## Repetition -/

theorem repeats_iff {node : Node} :
    node.repeats = true ↔ 0 < (node.repeatCount.getD 0).toNat ∧ node.subActions ≠ [] := by
  cases h : node.subActions <;> simp [repeats, iterations, h, Nat.pos_iff_ne_zero]

theorem iterations_of_repeats {node : Node} (h : node.repeats = true) :
    node.iterations = (node.repeatCount.getD 0).toNat := by
  have hsub := (repeats_iff.mp h).2
  rw [iterations, if_neg]
  simpa using hsub

/-! ## The plan of an evaluation -/

/-- The actions of the branch that the condition chooses. -/
def branch (node : Node) (holds : Bool) : List Action :=
  if holds then node.trueActions else node.falseActions.getD []

/-- The actions of all iterations, which are passed over if the condition does not hold. -/
def loop (node : Node) (holds : Bool) : List Action :=
  if node.repeats && holds then
    (List.replicate (node.repeatCount.getD 0).toNat node.subActions).flatten
  else []

/-- All actions in the order in which an evaluation performs them. -/
def plan (node : Node) (holds : Bool) : List Action := node.branch holds ++ node.loop holds

/-- The node after the calls of its branch. -/
def annotateBranch (node : Node) (holds : Bool) (calls : List Call) : Node :=
  if holds then { node with trueActions := Action.annotate node.trueActions calls }
  else
    match node.falseActions with
    | none | some [] => node
    | some actions => { node with
        falseActions := some (Action.annotate actions calls), conditionResult := some false }

/-- The sub actions of each of `count` iterations after all their calls. -/
def annotateLoop (node : Node) (holds : Bool) (count : Nat) (calls : List Call) :
    List (List Action) :=
  (List.range count).map fun k =>
    if holds then
      let size := node.subActions.length
      Action.annotate node.subActions ((calls.drop (k * size)).take size)
    else node.subActions

/-- The node after all calls of an evaluation. -/
def annotate (node : Node) (holds : Bool) (calls : List Call) : Node :=
  let size := (node.branch holds).length
  let output := node.annotateBranch holds (calls.take size)
  if node.repeats then
    { output with
      subtreeOutputs := some (node.annotateLoop holds node.iterations (calls.drop size)) }
  else output

section
variable {registry : Registry} {node : Node} {data : Record} {holds : Bool}

/-! ## The branch -/

theorem falseActions_cases (node : Node) :
    node.falseActions.getD [] = [] ∨
      ∃ action rest, node.falseActions = some (action :: rest) := by
  cases h : node.falseActions with
  | none => exact .inl rfl
  | some actions =>
    cases actions with
    | nil => exact .inl rfl
    | cons action rest => exact .inr ⟨action, rest, rfl⟩

theorem branch_of_empty (h : node.falseActions.getD [] = []) : node.branch false = [] := h

theorem branch_of_cons {action : Action} {rest : List Action}
    (h : node.falseActions = some (action :: rest)) : node.branch false = action :: rest := by
  simp only [branch, h, Bool.false_eq_true, if_false, Option.getD_some]

theorem runBranch_of_empty (h : node.falseActions.getD [] = []) :
    node.runBranch registry false = pure node := by
  rcases hf : node.falseActions with _ | _ | ⟨action, rest⟩
  · simp only [runBranch, hf, Bool.false_eq_true, if_false]; rfl
  · simp only [runBranch, hf, Bool.false_eq_true, if_false]; rfl
  · rw [hf] at h; cases h

theorem annotateBranch_of_empty (h : node.falseActions.getD [] = []) (calls : List Call) :
    node.annotateBranch false calls = node := by
  rcases hf : node.falseActions with _ | _ | ⟨action, rest⟩
  · simp only [annotateBranch, hf, Bool.false_eq_true, if_false]
  · simp only [annotateBranch, hf, Bool.false_eq_true, if_false]
  · rw [hf] at h; cases h

theorem annotateBranch_of_cons {action : Action} {rest : List Action}
    (h : node.falseActions = some (action :: rest)) (calls : List Call) :
    node.annotateBranch false calls = { node with
      falseActions := some (Action.annotate (action :: rest) calls)
      conditionResult := some false } := by
  simp only [annotateBranch, h, Bool.false_eq_true, if_false]

theorem runBranch_performs (holds : Bool) :
    Run.Performs registry (node.runBranch registry holds) (node.branch holds)
      (node.annotateBranch holds) := by
  cases holds with
  | true => exact (registry.executeAll_performs node.trueActions).map _
  | false =>
    rcases node.falseActions_cases with h | ⟨action, rest, h⟩
    · rw [runBranch_of_empty h, branch_of_empty h]
      exact (Run.Performs.pure node).congr fun calls _ => (annotateBranch_of_empty h calls).symm
    · have hrun := (registry.executeAll_performs (action :: rest)).map fun actions =>
        { node with falseActions := some actions, conditionResult := some false }
      simp only [runBranch, h, Bool.false_eq_true, if_false, branch_of_cons h]
      exact hrun.congr fun calls _ => (annotateBranch_of_cons h calls).symm

/-- A branch touches the actions it has run and the result of the condition, and nothing else. -/
theorem annotateBranch_frame (node : Node) (holds : Bool) (calls : List Call) :
    (node.annotateBranch holds calls).condition = node.condition ∧
      (node.annotateBranch holds calls).repeatCount = node.repeatCount ∧
      (node.annotateBranch holds calls).subActions = node.subActions ∧
      (node.annotateBranch holds calls).subtreeOutputs = node.subtreeOutputs := by
  cases holds with
  | true => exact ⟨rfl, rfl, rfl, rfl⟩
  | false =>
    rcases node.falseActions_cases with h | ⟨action, rest, h⟩
    · simp only [annotateBranch_of_empty h, and_self]
    · simp only [annotateBranch_of_cons h, and_self]

/-- The iterations touch their outputs and nothing else. -/
theorem annotate_eq (node : Node) (holds : Bool) (calls : List Call) :
    node.annotate holds calls =
      { node.annotateBranch holds (calls.take (node.branch holds).length) with
        subtreeOutputs := if node.repeats then
          some (node.annotateLoop holds node.iterations
            (calls.drop (node.branch holds).length)) else node.subtreeOutputs } := by
  rw [annotate]
  cases node.repeats with
  | true => rfl
  | false =>
    simp only [Bool.false_eq_true, if_false]
    rw [← (annotateBranch_frame node holds _).2.2.2]

@[simp] theorem annotate_condition (node : Node) (holds : Bool) (calls : List Call) :
    (node.annotate holds calls).condition = node.condition := by
  rw [annotate_eq]
  exact (annotateBranch_frame node holds _).1

@[simp] theorem annotate_repeatCount (node : Node) (holds : Bool) (calls : List Call) :
    (node.annotate holds calls).repeatCount = node.repeatCount := by
  rw [annotate_eq]
  exact (annotateBranch_frame node holds _).2.1

/-! ## The iterations -/

theorem annotateLoop_succ (count : Nat) (calls : List Call) :
    node.annotateLoop true (count + 1) calls =
      Action.annotate node.subActions (calls.take node.subActions.length) ::
        node.annotateLoop true count (calls.drop node.subActions.length) := by
  simp [annotateLoop, List.range_succ_eq_map, Nat.succ_mul, Nat.add_comm]

theorem annotateLoop_false (count : Nat) (calls : List Call) :
    node.annotateLoop false count calls = List.replicate count node.subActions := by
  simp [annotateLoop, List.map_const']

/-- The verdict is the same in every iteration, since the record does not change. -/
theorem iterate_performs (h : node.condition.holdsOf data = .ok holds) (count : Nat) :
    Run.Performs registry (node.iterate registry data count)
      (List.replicate count (if holds then node.subActions else [])).flatten
      (node.annotateLoop holds count) := by
  induction count with
  | zero => exact Run.Performs.pure []
  | succ count ih =>
    -- the test before each iteration is `h` again, so `holds` is fixed throughout the induction
    rw [iterate, h]
    change Run.Performs registry (Run.ok holds >>= _) _ _
    rw [Run.ok_bind]
    cases holds with
    | true =>
      have hfirst : Run.Performs registry (node.iteration registry true) _ _ :=
        registry.executeAll_performs node.subActions
      refine (hfirst.bind fun first => ih.map (first :: ·)).congr fun calls _ => ?_
      rw [annotateLoop_succ]
    | false =>
      change Run.Performs registry (Run.ok node.subActions >>= _) _ _
      rw [Run.ok_bind]
      refine (ih.map (node.subActions :: ·)).congr fun calls _ => ?_
      simp only [annotateLoop_false, List.replicate_succ]

theorem loop_of_not_repeats (h : node.repeats = false) : node.loop holds = [] := by
  rw [loop, h]
  rfl

theorem loop_of_repeats (h : node.repeats = true) :
    node.loop holds =
      (List.replicate node.iterations (if holds then node.subActions else [])).flatten := by
  rw [loop, h, iterations_of_repeats h]
  cases holds <;> simp

theorem iterations_performs (registry : Registry) (h : node.condition.holdsOf data = .ok holds)
    (output : Node) :
    Run.Performs registry
      (if node.repeats then do
        let outputs ← node.iterate registry data node.iterations
        return { output with subtreeOutputs := some outputs }
      else return output)
      (node.loop holds) fun calls =>
        if node.repeats then
          { output with subtreeOutputs := some (node.annotateLoop holds node.iterations calls) }
        else output := by
  cases hrep : node.repeats with
  | false =>
    rw [loop_of_not_repeats hrep]
    exact Run.Performs.pure output
  | true =>
    rw [loop_of_repeats hrep]
    exact (iterate_performs h node.iterations).map _

theorem mem_of_mem_flatten_replicate {α : Type} {item : α} {items : List α} {count : Nat}
    (h : item ∈ (List.replicate count items).flatten) : item ∈ items := by
  obtain ⟨copy, hcopy, hmem⟩ := List.mem_flatten.mp h
  rwa [List.eq_of_mem_replicate hcopy] at hmem

/-- Only declared actions are performed. -/
theorem mem_actions_of_mem_plan {action : Action} (h : action ∈ node.plan holds) :
    action ∈ node.actions := by
  rw [plan, List.mem_append] at h
  rw [actions, List.mem_append, List.mem_append]
  rcases h with h | h
  · cases holds with
    | true => exact .inl (.inl h)
    | false => exact .inl (.inr h)
  · right
    rw [loop] at h
    split at h
    · exact mem_of_mem_flatten_replicate h
    · cases h

/-! ## The evaluation -/

theorem evaluate_of_error (registry : Registry) {failure : Failure}
    (h : node.condition.holdsOf data = .error failure) (past : List Call) :
    node.evaluate registry data past = ⟨[], .error failure⟩ := by
  rw [evaluate, h]
  rfl

theorem evaluate_performs (registry : Registry) (h : node.condition.holdsOf data = .ok holds) :
    Run.Performs registry (node.evaluate registry data) (node.plan holds)
      (node.annotate holds) := by
  rw [evaluate, h]
  change Run.Performs registry (Run.ok holds >>= _) _ _
  rw [Run.ok_bind, plan]
  exact (runBranch_performs holds).bind (iterations_performs registry h)

theorem exists_holds_of_evaluate_ok {past : List Call} {output : Node}
    (h : (node.evaluate registry data past).outcome = .ok output) :
    ∃ holds, node.condition.holdsOf data = .ok holds ∧
      registry.failure? (node.plan holds) = none ∧
      (node.evaluate registry data past).calls = registry.callsFrom past (node.plan holds) ∧
      output = node.annotate holds (registry.callsFrom past (node.plan holds)) := by
  cases hholds : node.condition.holdsOf data with
  | error failure =>
    rw [evaluate_of_error registry hholds] at h
    cases h
  | ok holds =>
    have hperf := evaluate_performs registry hholds
    obtain ⟨hfail, rfl⟩ := hperf.of_ok h
    exact ⟨holds, rfl, hfail, hperf.calls past, rfl⟩

end

/-! ## The calls of an evaluation -/

/-- A node with actions for both branches that repeats. -/
def reminder : Node where
  condition := ⟨.lessThan, .string, "due", .string "friday"⟩
  trueActions := [⟨.sendEmail, [], none⟩]
  falseActions := some [⟨.sendMessage, [], none⟩]
  repeatCount := some 2
  subActions := [⟨.sendEmail, [("to", .string "ops")], none⟩, ⟨.sendMessage, [], none⟩]

/-- The node as it is declared: no action carries a result, and nothing tells of an evaluation. -/
def unexecuted (node : Node) : Node where
  condition := node.condition
  trueActions := node.trueActions.map Action.unexecuted
  falseActions := node.falseActions.map (List.map Action.unexecuted)
  repeatCount := node.repeatCount
  subActions := node.subActions.map Action.unexecuted

theorem condition_unexecuted (node : Node) : node.unexecuted.condition = node.condition := rfl

theorem branch_unexecuted (node : Node) (holds : Bool) :
    node.unexecuted.branch holds = (node.branch holds).map Action.unexecuted := by
  cases holds with
  | true => rfl
  | false => cases h : node.falseActions <;> simp [branch, unexecuted, h]

theorem repeats_unexecuted (node : Node) : node.unexecuted.repeats = node.repeats := by
  simp [repeats, iterations, unexecuted]

theorem plan_unexecuted (node : Node) (holds : Bool) :
    node.unexecuted.plan holds = (node.plan holds).map Action.unexecuted := by
  rw [plan, plan, List.map_append, branch_unexecuted, loop, loop, repeats_unexecuted]
  cases node.repeats && holds <;> simp [unexecuted]

/-- The calls of an evaluation. If the condition cannot be decided there are none. Otherwise they
are the longest prefix of the plan that has executors, each the answer of its executor after the
calls before it, and the evaluation succeeds if that prefix is the whole plan. Neither the results
that executors report nor those that actions carry already have a part in this. -/
theorem evaluate_calls (registry : Registry) (node : Node) (data : Record) (past : List Call) :
    (∀ failure, node.condition.holdsOf data = .error failure →
      node.evaluate registry data past = ⟨[], .error failure⟩) ∧
    ∀ holds, node.condition.holdsOf data = .ok holds →
      let planned := node.plan holds
      let trace := node.evaluate registry data past
      trace.calls.map Call.request =
        (planned.takeWhile fun action => registry.contains action.kind).map Action.request ∧
      (∀ i call, trace.calls[i]? = some call →
        ∃ executor, registry.get? call.kind = some executor ∧
          call.receipt = executor.perform (past ++ trace.calls.take i) call.parameters) ∧
      ((∃ output, trace.outcome = .ok output) ↔
        ∀ action ∈ planned, registry.contains action.kind = true) ∧
      (∀ failure, trace.outcome = .error failure ↔
        ∃ action, planned.find? (fun action => !registry.contains action.kind) = some action ∧
          failure = .unknownActionKind action.kind.name) ∧
      ∀ (registry' : Registry) (node' : Node) (past' : List Call),
        (∀ kind, registry'.contains kind = registry.contains kind) →
        node'.unexecuted = node.unexecuted →
        let trace' := node'.evaluate registry' data past'
        trace'.calls.map Call.request = trace.calls.map Call.request ∧
          trace'.failure? = trace.failure? := by
  refine ⟨fun failure h => evaluate_of_error registry h past, fun holds h => ?_⟩
  have hperf := evaluate_performs registry h
  refine ⟨hperf.requests past, fun i call hcall => hperf.exists_executor hcall,
    hperf.succeeds_iff past, hperf.fails_iff past, ?_⟩
  intro registry' node' past' hkinds hnode
  have hcondition : node'.condition = node.condition := by
    rw [← condition_unexecuted, hnode, condition_unexecuted]
  have hperf' := evaluate_performs registry' (hcondition ▸ h)
  have hplan : (node'.plan holds).map Action.unexecuted =
      (node.plan holds).map Action.unexecuted := by
    rw [← plan_unexecuted, hnode, plan_unexecuted]
  exact hperf.same_requests hperf' hkinds hplan past past'

/-- The email of the branch and that of the first iteration are sent before the evaluation fails. -/
example : reminder.evaluate [.counting .sendEmail] [("due", .string "exam")] [] =
    ⟨[⟨.sendEmail, [], { result := .succeeded "" [("before", .ofNat 0)] }⟩,
      ⟨.sendEmail, [("to", .string "ops")], { result := .succeeded "" [("before", .ofNat 1)] }⟩],
      .error (.unknownActionKind "send-message")⟩ := by
  rfl

end Node

namespace Tree

variable {registry : Registry} {tree : Tree} {data : Record}

theorem evaluate_of_error (registry : Registry) {failure : Failure}
    (h : tree.root.condition.holdsOf data = .error failure) (past : List Call) :
    tree.evaluate registry data past = ⟨[], .error failure⟩ := by
  have hroot := Node.evaluate_of_error registry h past
  have herror := congrArg Trace.outcome hroot
  rw [evaluate, Run.bind_of_error herror, hroot]

theorem evaluate_performs (registry : Registry) {holds : Bool}
    (h : tree.root.condition.holdsOf data = .ok holds) :
    Run.Performs registry (tree.evaluate registry data) (tree.root.plan holds) fun calls =>
      { tree with root := tree.root.annotate holds calls } :=
  (Node.evaluate_performs registry h).map _

theorem exists_holds_of_evaluate_ok {past : List Call} {output : Tree}
    (h : (tree.evaluate registry data past).outcome = .ok output) :
    ∃ holds, tree.root.condition.holdsOf data = .ok holds ∧
      registry.failure? (tree.root.plan holds) = none ∧
      (tree.evaluate registry data past).calls = registry.callsFrom past (tree.root.plan holds) ∧
      output = { tree with
        root := tree.root.annotate holds (registry.callsFrom past (tree.root.plan holds)) } := by
  cases hholds : tree.root.condition.holdsOf data with
  | error failure =>
    rw [evaluate_of_error registry hholds] at h
    cases h
  | ok holds =>
    have hperf := evaluate_performs registry hholds
    obtain ⟨hfail, rfl⟩ := hperf.of_ok h
    exact ⟨holds, rfl, hfail, hperf.calls past, rfl⟩

end Tree

end Verdict
