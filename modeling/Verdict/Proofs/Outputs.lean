import Verdict.Notice.Executor
import Verdict.Proofs.Admitted

/-!
# The fields that an evaluation fills in

`conditionResult`, `subtreeOutputs` and the results of actions are to tell what an evaluation did.
Validation refuses actions that carry a result already, but it does not look at the first two
fields, and an evaluation overwrites them only where it has something to say. Hence an answer can be
trusted exactly if nothing was submitted in a field that the evaluation leaves alone
(`Node.trusted_annotate_iff`).
-/

namespace Verdict

namespace Action

theorem countP_annotate {actions : List Action} {calls : List Call}
    (h : calls.length = actions.length) :
    (annotate actions calls).countP isExecuted = actions.length := by
  have hall : ∀ action ∈ annotate actions calls, action.isExecuted = true := by
    intro action haction
    obtain ⟨i, hi⟩ := List.getElem?_of_mem haction
    obtain ⟨_, _, _, _, rfl⟩ := List.getElem?_zipWith_eq_some.mp hi
    rfl
  rw [List.countP_eq_length.mpr hall, annotate, List.length_zipWith, h, Nat.min_self]

theorem countP_of_unexecuted {actions : List Action}
    (h : ∀ action ∈ actions, action.result = none) : actions.countP isExecuted = 0 := by
  refine List.countP_eq_zero.mpr fun action haction => ?_
  rw [isExecuted, h action haction]
  decide

end Action

namespace Node

/-- The actions that carry a result in the lists of iterations. -/
def executedOutputs (node : Node) : Nat :=
  (node.subtreeOutputs.getD []).flatten.countP Action.isExecuted

/-- The actions that carry a result, wherever they stand in the node. -/
def executedCount (node : Node) : Nat :=
  node.actions.countP Action.isExecuted + node.executedOutputs

/-- The condition does not hold and there are actions for that case. -/
def RunsElse (node : Node) (holds : Bool) : Prop :=
  holds = false ∧ node.falseActions.getD [] ≠ []

/-- What the output tells of an evaluation is what the evaluation did. -/
structure Trusted (node : Node) (holds : Bool) (calls : List Call) (output : Node) : Prop where
  outputs : output.subtreeOutputs.isSome = true ↔ node.repeats = true
  result : output.conditionResult = some false ↔ node.RunsElse holds
  noResult : ¬ node.RunsElse holds → output.conditionResult = none
  count : output.executedCount = calls.length

section
variable {registry : Registry} {node : Node} {past calls : List Call} {holds : Bool}

theorem countP_annotateBranch (h : ∀ action ∈ node.actions, action.result = none)
    (hlen : calls.length = (node.branch holds).length) :
    (node.annotateBranch holds calls).actions.countP Action.isExecuted =
      (node.branch holds).length := by
  simp only [actions, List.mem_append] at h
  have htrue := Action.countP_of_unexecuted fun action ha => h action (.inl (.inl ha))
  have hfalse := Action.countP_of_unexecuted fun action ha => h action (.inl (.inr ha))
  have hsub := Action.countP_of_unexecuted fun action ha => h action (.inr ha)
  cases holds with
  | true =>
    simp only [annotateBranch, branch, if_true, actions, List.countP_append] at hlen ⊢
    rw [Action.countP_annotate hlen, hfalse, hsub]
    rfl
  | false =>
    rcases node.falseActions_cases with hf | ⟨action, rest, hf⟩
    · rw [annotateBranch_of_empty hf, branch_of_empty hf, actions, List.countP_append,
        List.countP_append, htrue, hfalse, hsub]
      rfl
    · rw [branch_of_cons hf] at hlen ⊢
      rw [annotateBranch_of_cons hf, actions, List.countP_append, List.countP_append, htrue, hsub,
        Option.getD_some, Action.countP_annotate hlen]
      omega

theorem countP_annotateLoop (h : ∀ action ∈ node.subActions, action.result = none) (count : Nat)
    (hlen : calls.length =
      (List.replicate count (if holds then node.subActions else [])).flatten.length) :
    (node.annotateLoop holds count calls).flatten.countP Action.isExecuted = calls.length := by
  cases holds with
  | false =>
    have hloop : ∀ action ∈ (List.replicate count node.subActions).flatten,
        action.result = none := fun action ha => h action (mem_of_mem_flatten_replicate ha)
    rw [annotateLoop_false, Action.countP_of_unexecuted hloop]
    simpa using hlen.symm
  | true =>
    induction count generalizing calls with
    | zero => simpa [annotateLoop] using hlen.symm
    | succ count ih =>
      simp only [if_true, List.replicate_succ, List.flatten_cons, List.length_append] at hlen ih
      have hfirst : (calls.take node.subActions.length).length = node.subActions.length := by
        rw [List.length_take]
        omega
      have hrest : (calls.drop node.subActions.length).length =
          (List.replicate count node.subActions).flatten.length := by
        rw [List.length_drop]
        omega
      rw [annotateLoop_succ, List.flatten_cons, List.countP_append, Action.countP_annotate hfirst,
        ih hrest, List.length_drop]
      omega

theorem executedCount_annotate (h : ∀ action ∈ node.actions, action.result = none)
    (hlen : calls.length = (node.plan holds).length) :
    (node.annotate holds calls).executedCount =
      calls.length + if node.repeats then 0 else node.executedOutputs := by
  rw [plan, List.length_append] at hlen
  have hbranch : (calls.take (node.branch holds).length).length = (node.branch holds).length := by
    rw [List.length_take]
    omega
  have hrest : (calls.drop (node.branch holds).length).length = (node.loop holds).length := by
    rw [List.length_drop]
    omega
  have hactions := countP_annotateBranch h hbranch
  rw [annotate_eq, executedCount]
  change (node.annotateBranch holds _).actions.countP _ + _ = _
  rw [hactions, executedOutputs]
  cases hrep : node.repeats with
  | false =>
    rw [loop_of_not_repeats hrep] at hlen
    simp only [Bool.false_eq_true, if_false, List.length_nil] at hlen ⊢
    rw [hlen]
    rfl
  | true =>
    have hsub : ∀ action ∈ node.subActions, action.result = none := fun action ha =>
      h action (List.mem_append_right _ ha)
    rw [loop_of_repeats hrep] at hrest
    simp only [if_true, Option.getD_some]
    rw [countP_annotateLoop hsub _ hrest, List.length_drop]
    omega

theorem conditionResult_annotate (hbranch : node.RunsElse holds) :
    (node.annotate holds calls).conditionResult = some false := by
  obtain ⟨rfl, hne⟩ := hbranch
  obtain h | ⟨action, rest, h⟩ := node.falseActions_cases
  · exact absurd h hne
  · rw [annotate_eq, annotateBranch_of_cons h]

theorem conditionResult_annotate_of_not (hbranch : ¬ node.RunsElse holds) :
    (node.annotate holds calls).conditionResult = node.conditionResult := by
  rw [annotate_eq]
  cases holds with
  | true => rfl
  | false =>
    have hempty : node.falseActions.getD [] = [] :=
      Classical.byContradiction fun hne => hbranch ⟨rfl, hne⟩
    rw [annotateBranch_of_empty hempty]

theorem subtreeOutputs_annotate (h : node.repeats = true) :
    (node.annotate holds calls).subtreeOutputs.isSome = true := by
  rw [annotate_eq, if_pos h]
  rfl

theorem subtreeOutputs_annotate_of_not (h : node.repeats = false) :
    (node.annotate holds calls).subtreeOutputs = node.subtreeOutputs := by
  rw [annotate_eq, h]
  rfl

/-- What was submitted in a field is no matter where the evaluation fills the field in. -/
theorem trusted_annotate_iff (h : ∀ action ∈ node.actions, action.result = none)
    (hlen : calls.length = (node.plan holds).length) :
    node.Trusted holds calls (node.annotate holds calls) ↔
      (node.subtreeOutputs = none ∨ node.repeats = true) ∧
      (node.conditionResult = none ∨ node.RunsElse holds) := by
  constructor
  · intro htrusted
    constructor
    · cases hrep : node.repeats with
      | true => exact .inr rfl
      | false =>
        left
        have houtputs := htrusted.outputs
        rw [subtreeOutputs_annotate_of_not hrep, hrep] at houtputs
        simpa using houtputs
    · by_cases helse : node.RunsElse holds
      · exact .inr helse
      · rw [← conditionResult_annotate_of_not helse]
        exact .inl (htrusted.noResult helse)
  · intro ⟨houtputs, hresult⟩
    constructor
    case outputs =>
      cases hrep : node.repeats with
      | true => exact iff_of_true (subtreeOutputs_annotate hrep) rfl
      | false =>
        have hnone := houtputs.resolve_right (by rw [hrep]; decide)
        rw [subtreeOutputs_annotate_of_not hrep, hnone]
        decide
    case result =>
      by_cases helse : node.RunsElse holds
      · exact iff_of_true (conditionResult_annotate helse) helse
      · have hnone := hresult.resolve_right helse
        rw [conditionResult_annotate_of_not helse, hnone]
        exact iff_of_false nofun helse
    case noResult =>
      intro helse
      rw [conditionResult_annotate_of_not helse]
      exact hresult.resolve_right helse
    case count =>
      rw [executedCount_annotate h hlen]
      cases hrep : node.repeats with
      | true => rfl
      | false =>
        have hnone := houtputs.resolve_right (by rw [hrep]; decide)
        rw [if_neg (by decide), executedOutputs, hnone]
        rfl

end

end Node

namespace Tree

/-- The answer to an admitted tree tells what its evaluation did exactly if the tree was submitted
without outputs of iterations or repeats, and without a result of its condition or runs the actions
for the false case. Else what was submitted in these fields stands in the answer. -/
theorem outputs_trusted_iff (registry : Registry) (bound : UInt32) (tree : Tree) (data : Record)
    (past : List Call) (output : Tree)
    (accepted : (Validator.ofRegistry registry bound).validate tree = .ok ())
    (success : (tree.evaluate registry data past).outcome = .ok output) :
    ∃ holds, tree.root.condition.holdsOf data = .ok holds ∧
      (tree.root.Trusted holds (tree.evaluate registry data past).calls output.root ↔
        (tree.root.subtreeOutputs = none ∨ tree.root.repeats = true) ∧
        (tree.root.conditionResult = none ∨ tree.root.RunsElse holds)) ∧
      (tree.root.repeats = false → output.root.subtreeOutputs = tree.root.subtreeOutputs) ∧
      (¬ tree.root.RunsElse holds →
        output.root.conditionResult = tree.root.conditionResult) ∧
      output.root.executedCount = (tree.evaluate registry data past).calls.length +
        if tree.root.repeats then 0 else tree.root.executedOutputs := by
  have hadmits := Validator.validate_eq_ok_iff.mp accepted
  obtain ⟨holds, hholds, hfail, hcalls, rfl⟩ := exists_holds_of_evaluate_ok success
  rw [hcalls]
  have hfresh : ∀ action ∈ tree.root.actions, action.result = none := fun action haction =>
    (hadmits.actions action haction).unexecuted
  have hlen := Registry.length_callsFrom past hfail
  exact ⟨holds, hholds, Node.trusted_annotate_iff hfresh hlen,
    Node.subtreeOutputs_annotate_of_not, Node.conditionResult_annotate_of_not,
    Node.executedCount_annotate hfresh hlen⟩

/-- A tree that tells of an evaluation before it has had one. -/
def pretending (name : String) (node : Node) : Tree :=
  ⟨name, { node with
    conditionResult := some true
    subtreeOutputs := some [[⟨.sendEmail, [], some (.succeeded "forged" [])⟩]] }⟩

/-- Where both branch and iterations run, nothing of the pretence is left. -/
theorem reminder_outputs_trusted :
    (Validator.ofRegistry .counting 2).validate (pretending "week" .reminder) = .ok () ∧
      ∃ output, ((pretending "week" .reminder).evaluate .counting
          [("due", .string "saturday")] []).outcome = .ok output ∧
        (pretending "week" .reminder).root.Trusted false
          ((pretending "week" .reminder).evaluate .counting
            [("due", .string "saturday")] []).calls output.root := by
  have accepted :
      (Validator.ofRegistry .counting 2).validate (pretending "week" .reminder) = .ok () := by
    rfl
  refine ⟨accepted, _, rfl, ?_⟩
  obtain ⟨holds, hholds, htrusted, -⟩ :=
    outputs_trusted_iff _ _ _ [("due", .string "saturday")] [] _ accepted rfl
  cases hholds
  exact htrusted.mpr ⟨.inr rfl, .inr ⟨rfl, nofun⟩⟩

/-- Where neither does, the pretence stands in the answer. -/
theorem forged_outputs_survive :
    let forged := pretending "t" { condition := ⟨.equals, .string, "f", .string "x"⟩ }
    (Validator.ofRegistry .standard 1000).validate forged = .ok () ∧
      forged.evaluate .standard [("f", .string "x")] [] = ⟨[], .ok forged⟩ ∧
      ∀ holds, ¬ forged.root.Trusted holds [] forged.root := by
  refine ⟨rfl, rfl, fun holds htrusted => ?_⟩
  have hrep := htrusted.outputs.mp rfl
  cases hrep

end Tree

end Verdict
