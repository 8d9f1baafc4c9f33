import Verdict.Proofs.Evaluation
import Verdict.Proofs.Spelling

/-!
# Decoded trees

Reading leaves nothing behind that is not canonical: every kind, comparison and field type of what
was read is the one that some name stands for, and every record and every kept value is canonical
(`Tree.read_yields_canonical`). An evaluation keeps it so as long as the results of executors carry
records (`Tree.canonical_of_evaluate`).
-/

namespace Verdict

theorem forall_mem_some {α : Type} {P : α → Prop} {a : α} (h : P a) : ∀ b ∈ some a, P b := by
  rintro _ ⟨⟩
  exact h

/-! ## Parts of documents -/

namespace Reading

/-- What is kept of a value is its canonical form. -/
theorem json_yields : Reading.json.Yields fun v => v.canonical = v :=
  fun _ doc _ h => Doc.canonical_of_toJson doc h

/-- A record holds each key once and in order, whatever members the object had. -/
theorem record_yields : Reading.record.Yields Record.Canonical := by
  intro origin doc record h
  unfold Reading.record at h
  split at h
  · exact Members.canonical_of_toRecord _ .nil h
  · cases h

end Reading

namespace Condition

/-- What was found of a condition is canonical. -/
structure Draft.Canonical (draft : Draft) : Prop where
  comparison : ∀ comparison ∈ draft.comparison, comparison.Named
  fieldType : ∀ type ∈ draft.fieldType, type.Named
  compareTo : ∀ v ∈ draft.compareTo, v.canonical = v

theorem Draft.Canonical.blank : Draft.Canonical {} := ⟨nofun, nofun, nofun⟩

/-- Comparisons and field types are read from names, so each is one that some name stands for. -/
theorem read_yields_canonical : layout.read.Yields Canonical := by
  refine Layout.yields_read (P := Draft.Canonical) ?_ ?_ .blank
  · refine List.forall_iff_forall_mem.mp ⟨?_, ?_, ?_, ?_⟩
    · exact Slot.keeps_reading (Reading.yields_map fun s => ⟨s, rfl⟩)
        fun v draft hv h => { h with comparison := forall_mem_some hv }
    · exact Slot.keeps_reading (Reading.yields_map fun s => ⟨s, rfl⟩)
        fun v draft hv h => { h with fieldType := forall_mem_some hv }
    · exact Slot.keeps_reading Reading.yields_true fun _ _ _ h => { h with }
    · exact Slot.keeps_reading Reading.json_yields
        fun v draft hv h => { h with compareTo := forall_mem_some hv }
  · rintro ⟨_ | comparison, _ | type, _ | name, _ | v⟩ condition h ⟨⟩
    exact ⟨h.comparison _ rfl, h.fieldType _ rfl, h.compareTo _ rfl⟩

end Condition

/-! ## Actions -/

namespace ActionResult

/-- What was found of a result is canonical. -/
structure Draft.Canonical (draft : Draft) : Prop where
  output : ∀ record ∈ draft.output, record.Canonical

theorem Draft.Canonical.blank : Draft.Canonical {} := ⟨nofun⟩

/-- A result that leaves out its output carries the empty record, which is canonical too. -/
theorem read_yields_canonical : layout.read.Yields fun result => result.output.Canonical := by
  refine Layout.yields_read (P := Draft.Canonical) ?_ ?_ .blank
  · refine List.forall_iff_forall_mem.mp ⟨?_, ?_, ?_⟩
    · exact Slot.keeps_reading Reading.yields_true fun _ _ _ h => { h with }
    · exact Slot.keeps_reading Reading.yields_true fun _ _ _ h => { h with }
    · exact Slot.keeps_reading Reading.record_yields
        fun v draft hv h => { h with output := forall_mem_some hv }
  · rintro ⟨_ | success, _ | message, _ | output⟩ result h ⟨⟩
    · exact .nil
    · exact h.output output rfl

end ActionResult

namespace Action

/-- What was found of an action is canonical. -/
structure Draft.Canonical (draft : Draft) : Prop where
  kind : ∀ kind ∈ draft.kind, kind.Named
  parameters : ∀ record ∈ draft.parameters, record.Canonical
  result : ∀ result? ∈ draft.result, ∀ result ∈ result?, result.output.Canonical

theorem Draft.Canonical.blank : Draft.Canonical {} := ⟨nofun, nofun, nofun⟩

theorem read_yields_canonical : layout.read.Yields Canonical := by
  refine Layout.yields_read (P := Draft.Canonical) ?_ ?_ .blank
  · refine List.forall_iff_forall_mem.mp ⟨?_, ?_, ?_⟩
    · exact Slot.keeps_reading (Reading.yields_map fun s => ⟨s, rfl⟩)
        fun v draft hv h => { h with kind := forall_mem_some hv }
    · exact Slot.keeps_reading Reading.record_yields
        fun v draft hv h => { h with parameters := forall_mem_some hv }
    · exact Slot.keeps_reading ActionResult.read_yields_canonical.optional
        fun v draft hv h => { h with result := forall_mem_some hv }
  · rintro ⟨_ | kind, parameters, result⟩ action h ⟨⟩
    refine ⟨h.kind _ rfl, ?_, ?_⟩
    · cases parameters with
      | none => exact .nil
      | some parameters => exact h.parameters parameters rfl
    · rcases result with _ | _ | result
      · exact nofun
      · exact nofun
      · exact h.result (some result) rfl

/-- With brackets or without, each action that is read is canonical. -/
theorem readOneOrMany_yields_canonical :
    readOneOrMany.Yields fun actions => ∀ action ∈ actions, action.Canonical :=
  read_yields_canonical.oneOrMany

end Action

/-! ## Nodes and trees -/

namespace Node

/-- What was found of a node is canonical. -/
structure Draft.Canonical (draft : Draft) : Prop where
  condition : ∀ condition ∈ draft.condition, condition.Canonical
  trueActions : ∀ actions ∈ draft.trueActions, ∀ action ∈ actions, action.Canonical
  falseActions : ∀ actions? ∈ draft.falseActions, ∀ actions ∈ actions?, ∀ action ∈ actions,
    action.Canonical
  subActions : ∀ actions ∈ draft.subActions, ∀ action ∈ actions, action.Canonical
  subtreeOutputs : ∀ outputs? ∈ draft.subtreeOutputs, ∀ outputs ∈ outputs?, ∀ actions ∈ outputs,
    ∀ action ∈ actions, action.Canonical

theorem Draft.Canonical.blank : Draft.Canonical {} := ⟨nofun, nofun, nofun, nofun, nofun⟩

/-- Each slot puts something canonical into its own part of the draft and leaves the others. -/
theorem slots_keep_canonical : ∀ slot ∈ layout.slots, slot.Keeps Draft.Canonical := by
  refine List.forall_iff_forall_mem.mp ⟨?_, ?_, ?_, ?_, ?_, ?_, ?_⟩
  · exact Slot.keeps_reading Condition.read_yields_canonical
      fun v draft hv h => { h with condition := forall_mem_some hv }
  · exact Slot.keeps_reading Action.readOneOrMany_yields_canonical
      fun v draft hv h => { h with trueActions := forall_mem_some hv }
  · exact Slot.keeps_reading Action.readOneOrMany_yields_canonical.optional
      fun v draft hv h => { h with falseActions := forall_mem_some hv }
  · exact Slot.keeps_reading Reading.yields_true fun _ _ _ h => { h with }
  · exact Slot.keeps_reading Reading.yields_true fun _ _ _ h => { h with }
  · exact Slot.keeps_reading Action.read_yields_canonical.list
      fun v draft hv h => { h with subActions := forall_mem_some hv }
  · exact Slot.keeps_reading Action.read_yields_canonical.list.list.optional
      fun v draft hv h => { h with subtreeOutputs := forall_mem_some hv }

/-- The defaults of a node are canonical, so nothing but the draft can spoil it. -/
theorem canonical_of_finish (draft : Draft) (node : Node) (h : draft.Canonical)
    (hfinish : layout.finish draft = .ok node) : node.Canonical := by
  obtain ⟨_ | condition, trueActions, falseActions, _, _, subActions, subtreeOutputs⟩ := draft
  · cases hfinish
  · cases hfinish
    constructor
    case condition => exact h.condition _ rfl
    case trueActions =>
      cases trueActions with
      | none => exact nofun
      | some actions => exact h.trueActions actions rfl
    case falseActions =>
      rcases falseActions with _ | _ | actions
      · exact nofun
      · exact nofun
      · exact h.falseActions (some actions) rfl
    case subActions =>
      cases subActions with
      | none => exact nofun
      | some actions => exact h.subActions actions rfl
    case subtreeOutputs =>
      rcases subtreeOutputs with _ | _ | outputs
      · exact nofun
      · exact nofun
      · exact h.subtreeOutputs (some outputs) rfl

theorem read_yields_canonical : layout.read.Yields Canonical :=
  Layout.yields_read slots_keep_canonical canonical_of_finish .blank

end Node

/-- The root is read from the members that are set aside, by the slots of a node. -/
theorem Tree.read_yields_canonical : Tree.read.Yields fun tree => tree.root.Canonical := by
  intro origin doc tree h
  unfold Tree.read at h
  split at h
  · split at h
    · cases h
    next parts _ =>
      obtain ⟨-, hroot⟩ := ofParts_eq_ok_iff.mp (mapError_eq_ok_iff.mp h)
      exact Layout.yields_readMembers Node.slots_keep_canonical Node.canonical_of_finish .blank
        hroot
  · cases h

/-! ## Evaluated trees -/

/-- The results that executors report carry records. -/
def Registry.ReportsRecords (registry : Registry) : Prop :=
  ∀ executor ∈ registry, ∀ past parameters,
    (executor.perform past parameters).result.output.Canonical

theorem Registry.ReportsRecords.of_mem_callsFrom {registry : Registry}
    (h : registry.ReportsRecords) {past : List Call} {actions : List Action} {call : Call}
    (hcall : call ∈ registry.callsFrom past actions) : call.receipt.result.output.Canonical := by
  obtain ⟨i, hi⟩ := List.mem_iff_getElem?.mp hcall
  obtain ⟨action, -, hanswer⟩ := exists_action_of_getElem?_callsFrom hi
  obtain ⟨executor, hexecutor, rfl⟩ := exists_executor_of_call? hanswer
  exact h executor (List.mem_of_find?_eq_some hexecutor) _ _

/-- The results of calls carry records. -/
def Call.ReportRecords (calls : List Call) : Prop :=
  ∀ call ∈ calls, call.receipt.result.output.Canonical

/-- An action takes nothing from its call but the result, of which only the record matters. -/
theorem Action.canonical_annotate {actions : List Action} {calls : List Call}
    (hactions : ∀ action ∈ actions, action.Canonical) (hcalls : Call.ReportRecords calls) :
    ∀ action ∈ Action.annotate actions calls, action.Canonical := by
  intro output houtput
  obtain ⟨i, hi⟩ := List.mem_iff_getElem?.mp houtput
  obtain ⟨action, call, haction, hcall, rfl⟩ := List.getElem?_zipWith_eq_some.mp hi
  have hcanonical := hactions action (List.mem_of_getElem? haction)
  exact { hcanonical with result := forall_mem_some (hcalls call (List.mem_of_getElem? hcall)) }

namespace Node

variable {node : Node} {calls : List Call}

theorem Canonical.annotateBranch (h : node.Canonical) (hcalls : Call.ReportRecords calls)
    (holds : Bool) : (node.annotateBranch holds calls).Canonical := by
  cases holds with
  | true => exact { h with trueActions := Action.canonical_annotate h.trueActions hcalls }
  | false =>
    rcases node.falseActions_cases with hempty | ⟨action, rest, hcons⟩
    · rw [annotateBranch_of_empty hempty]
      exact h
    · rw [annotateBranch_of_cons hcons]
      have hfalse := h.falseActions (action :: rest) hcons
      exact { h with falseActions := forall_mem_some (Action.canonical_annotate hfalse hcalls) }

theorem Canonical.annotate (h : node.Canonical) (hcalls : Call.ReportRecords calls)
    (holds : Bool) : (node.annotate holds calls).Canonical := by
  have htake : ∀ n, Call.ReportRecords (calls.take n) :=
    fun n call hcall => hcalls call (List.mem_of_mem_take hcall)
  have hdrop : ∀ n, Call.ReportRecords (calls.drop n) :=
    fun n call hcall => hcalls call (List.mem_of_mem_drop hcall)
  rw [annotate_eq]
  refine { h.annotateBranch (htake _) holds with subtreeOutputs := ?_ }
  split
  · refine forall_mem_some fun actions hactions => ?_
    obtain ⟨k, _, rfl⟩ := List.mem_map.mp hactions
    split
    · refine Action.canonical_annotate h.subActions fun call hcall => ?_
      exact hdrop _ call (List.mem_of_mem_drop (List.mem_of_mem_take hcall))
    · exact h.subActions
  · exact h.subtreeOutputs

end Node

/-- An evaluation leaves a canonical tree canonical. -/
theorem Tree.canonical_of_evaluate {registry : Registry} (hregistry : registry.ReportsRecords)
    {tree output : Tree} (htree : tree.root.Canonical) {data : Record} {past : List Call}
    (h : (tree.evaluate registry data past).outcome = .ok output) : output.root.Canonical := by
  obtain ⟨holds, _, _, _, rfl⟩ := exists_holds_of_evaluate_ok h
  exact htree.annotate (fun _ hcall => hregistry.of_mem_callsFrom hcall) holds

end Verdict
