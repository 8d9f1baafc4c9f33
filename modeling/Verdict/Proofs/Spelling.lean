import Mathlib.Data.List.Forall2
import Verdict.Document.Tree
import Verdict.Proofs.Canonical
import Verdict.Proofs.Structures

/-!
# Spellings

A field may go by an older name, some names of kinds and comparisons have an older spelling, and a
list of one action may stand without its brackets. What spells a tree is said by `Tree.SpelledIn`:
each field is given once, under any of its names, and members that name no field do not matter.
Every such object is read as the tree (`Tree.takes_of_spelledIn`).
-/

namespace Verdict

/-! ## The layouts are lawful -/

/-- Whichever names the fields go by, no two slots share a name or a part of the draft. -/
theorem Condition.layout_lawful : Condition.layout.Lawful where
  independent := by
    simp only [Condition.layout, List.pairwise_cons, List.forall_mem_cons, List.not_mem_nil,
      false_imp_iff, implies_true, List.Pairwise.nil, and_true]
    and_intros <;> exact Slot.independent_reading (by decide) (fun _ _ => rfl) fun _ _ _ => rfl
  filled := by
    refine ⟨?_, ?_, ?_, ?_⟩ <;> exact Slot.filled_of_fill_reading fun _ _ => rfl
  blank := ⟨rfl, rfl, rfl, rfl⟩

theorem ActionResult.layout_lawful : ActionResult.layout.Lawful where
  independent := by
    simp only [ActionResult.layout, List.pairwise_cons, List.forall_mem_cons, List.not_mem_nil,
      false_imp_iff, implies_true, List.Pairwise.nil, and_true]
    and_intros <;> exact Slot.independent_reading (by decide) (fun _ _ => rfl) fun _ _ _ => rfl
  filled := by
    refine ⟨?_, ?_, ?_⟩ <;> exact Slot.filled_of_fill_reading fun _ _ => rfl
  blank := ⟨rfl, rfl, rfl⟩

theorem Action.layout_lawful : Action.layout.Lawful where
  independent := by
    simp only [Action.layout, List.pairwise_cons, List.forall_mem_cons, List.not_mem_nil,
      false_imp_iff, implies_true, List.Pairwise.nil, and_true]
    and_intros <;> exact Slot.independent_reading (by decide) (fun _ _ => rfl) fun _ _ _ => rfl
  filled := by
    refine ⟨?_, ?_, ?_⟩ <;> exact Slot.filled_of_fill_reading fun _ _ => rfl
  blank := ⟨rfl, rfl, rfl⟩

theorem Node.layout_lawful : Node.layout.Lawful where
  independent := by
    simp only [Node.layout, List.pairwise_cons, List.forall_mem_cons, List.not_mem_nil,
      false_imp_iff, implies_true, List.Pairwise.nil, and_true]
    and_intros <;> exact Slot.independent_reading (by decide) (fun _ _ => rfl) fun _ _ _ => rfl
  filled := by
    refine ⟨?_, ?_, ?_, ?_, ?_, ?_, ?_⟩ <;> exact Slot.filled_of_fill_reading fun _ _ => rfl
  blank := ⟨rfl, rfl, rfl, rfl, rfl, rfl, rfl⟩

/-! ## Reading what is written -/

theorem forall₂_imp_of_mem {α β : Type} {P Q : α → β → Prop} {as : List α} {bs : List β}
    (h : List.Forall₂ P as bs) (himp : ∀ a ∈ as, ∀ b, P a b → Q a b) : List.Forall₂ Q as bs :=
  ((List.forall₂_and_left as bs).mpr ⟨himp, h⟩).imp fun _ b ⟨himp, hb⟩ => himp b hb

namespace Json

/-- An object whose members have a property. -/
def ObjectOf (P : List (String × Json) → Prop) (v : Json) : Prop :=
  ∃ members, v = .object members ∧ P members

/-- An array of what stands for some values, in their order. -/
def ArrayOf {α : Type} (P : α → Json → Prop) (values : List α) (v : Json) : Prop :=
  ∃ items, v = .array items ∧ List.Forall₂ P values items

end Json

namespace Reading

variable {α : Type} {reading : Reading α} {origin : Origin}

/-- Items are read one by one, and each has to be read. -/
theorem items_ofJson {index : Nat} {items : List Json} {values : List α} :
    Reading.items reading origin index (Items.ofJson items) = .ok values ↔
      List.Forall₂ (reading.Takes origin) values items := by
  induction items generalizing index values with
  | nil => rw [Items.ofJson, Reading.items, List.forall₂_nil_right_iff, Except.ok.injEq, eq_comm]
  | cons v items ih =>
    rw [Items.ofJson, Reading.items, List.forall₂_cons_right_iff]
    constructor
    · intro h
      split at h
      · cases h
      next a ha =>
        split at h
        · cases h
        next rest hrest =>
          cases h
          exact ⟨a, rest, ha, ih.mp hrest, rfl⟩
    · rintro ⟨a, rest, ha, hrest, rfl⟩
      simp only [show reading origin (Doc.ofJson v) = .ok a from ha, ih.mpr hrest]

theorem list_takes_array_iff {items : List Json} {values : List α} :
    reading.list.Takes origin values (.array items) ↔
      List.Forall₂ (reading.Takes origin) values items := by
  rw [Takes, Doc.ofJson, Reading.list]
  exact items_ofJson

theorem list_takes {P : α → Json → Prop} {values : List α} {v : Json}
    (h : Json.ArrayOf P values v) (hp : ∀ a ∈ values, ∀ v, P a v → reading.Takes origin a v) :
    reading.list.Takes origin values v := by
  obtain ⟨items, rfl, hitems⟩ := h
  exact list_takes_array_iff.mpr (forall₂_imp_of_mem hitems hp)

theorem count_takes {n : UInt32} : Reading.count.Takes origin n (.ofNat n.toNat) := by
  have hn : n.toNat < 2 ^ 32 := n.toNat_lt
  rw [Takes, Json.ofNat, Doc.ofJson, Reading.count, if_pos (by omega), Int.toNat_natCast,
    UInt32.ofNat_toNat]

/-- A canonical value is kept as it is. -/
theorem json_takes {v : Json} (h : v.canonical = v) : Reading.json.Takes origin v v := by
  rw [Takes, Reading.json, Doc.toJson_ofJson, h]

theorem record_takes {record : Record} (h : record.Canonical) :
    Reading.record.Takes origin record (.object record) := by
  rw [Takes, Doc.ofJson, Reading.record, Members.toRecord_ofJson,
    Json.canonicalMembers_of_record h]

/-- An optional value is given where it is present. -/
theorem gives_optional {members : List (String × Json)} {names : List String}
    {P : α → Json → Prop} {value : Option α} (h : Json.Gives members names P value)
    (hp : ∀ a ∈ value, ∀ v, P a v → v ≠ .null ∧ reading.Takes origin a v) :
    Json.Gives members names (reading.optional.Takes origin) (value.map some) := by
  cases value with
  | none => exact h
  | some a =>
    obtain ⟨v, hv, hpv⟩ := h
    obtain ⟨hnull, htakes⟩ := hp a rfl v hpv
    refine ⟨v, hv, ?_⟩
    cases v with
    | null => exact absurd rfl hnull
    | _ => exact map_eq_ok_iff.mpr ⟨a, htakes, rfl⟩

theorem oneOrMany_takes_of_single {type : String} {v : Json} {a : α}
    (h : reading.Takes .buffer a v) : (reading.oneOrMany type).Takes origin [a] v := by
  simp only [Takes, Reading.oneOrMany, Doc.sound_ofJson,
    show reading .buffer (Doc.ofJson v) = .ok a from h]

/-- A list is tried as one item first, so no item may be read from it. -/
theorem oneOrMany_takes_of_list {type : String} {v : Json} {values : List α}
    (hsingle : ∀ a, ¬reading.Takes .buffer a v) (h : reading.list.Takes .buffer values v) :
    (reading.oneOrMany type).Takes origin values v := by
  simp only [Takes, Reading.oneOrMany, Doc.sound_ofJson]
  split
  next a ha => exact absurd ha (hsingle a)
  next => simp only [show reading.list .buffer (Doc.ofJson v) = .ok values from h]

end Reading

/-! ## Names -/

namespace ActionKind

/-- The names that stand for a kind. -/
def spellings : ActionKind → List String
  | sendMessage => ["send-message", "SMSAction"]
  | sendEmail => ["send-email", "EmailAction"]
  | custom name => [name]

theorem name_mem_spellings (kind : ActionKind) : kind.name ∈ kind.spellings := by
  cases kind <;> exact List.mem_cons_self

/-- Some name stands for the kind. -/
def Named (kind : ActionKind) : Prop := ∃ name, ofName name = kind

/-- A kind that some name stands for is the one that its own name stands for: no kind besides is
called like a known one. -/
theorem Named.ofName_name {kind : ActionKind} (h : kind.Named) : ofName kind.name = kind := by
  obtain ⟨name, rfl⟩ := h
  unfold ofName
  split
  · rfl
  · split
    · rfl
    · simp only [ActionKind.name, *, if_false]

/-- Older names stand for the same kinds. -/
theorem Named.ofName_of_mem {kind : ActionKind} (h : kind.Named) {name : String}
    (hname : name ∈ kind.spellings) : ofName name = kind := by
  cases kind with
  | sendMessage => rcases List.mem_pair.mp hname with rfl | rfl <;> rfl
  | sendEmail => rcases List.mem_pair.mp hname with rfl | rfl <;> rfl
  | custom kind =>
    rw [List.mem_singleton.mp hname]
    exact h.ofName_name

end ActionKind

namespace Comparison

/-- The names that stand for a comparison. -/
def spellings : Comparison → List String
  | equals => ["equals", "directComparison"]
  | comparison => [comparison.name]

theorem name_mem_spellings (comparison : Comparison) : comparison.name ∈ comparison.spellings := by
  cases comparison <;> exact List.mem_cons_self

/-- Some name stands for the comparison. -/
def Named (comparison : Comparison) : Prop := ∃ name, ofName name = comparison

theorem Named.ofName_name {comparison : Comparison} (h : comparison.Named) :
    ofName comparison.name = comparison := by
  obtain ⟨name, rfl⟩ := h
  unfold ofName
  split
  · rfl
  · split
    · rfl
    · split
      · rfl
      · simp only [Comparison.name, *, if_false]

theorem Named.ofName_of_mem {comparison : Comparison} (h : comparison.Named) {name : String}
    (hname : name ∈ comparison.spellings) : ofName name = comparison := by
  cases comparison with
  | equals => rcases List.mem_pair.mp hname with rfl | rfl <;> rfl
  | _ =>
    rw [List.mem_singleton.mp hname]
    exact h.ofName_name

end Comparison

namespace FieldType

/-- Some name stands for the type. -/
def Named (type : FieldType) : Prop := ∃ name, ofName name = type

theorem Named.ofName_name {type : FieldType} (h : type.Named) : ofName type.name = type := by
  obtain ⟨name, rfl⟩ := h
  unfold ofName
  split
  · rfl
  · split
    · rfl
    · split
      · rfl
      · simp only [FieldType.name, *, if_false]

end FieldType

/-! ## Conditions -/

namespace Condition

/-- Names stand for the comparison and the type, and the value is canonical. -/
structure Canonical (condition : Condition) : Prop where
  comparison : condition.comparison.Named
  fieldType : condition.fieldType.Named
  compareTo : condition.compareTo.canonical = condition.compareTo

/-- Some members spell a condition: each field is given once, under its newer or its older name. -/
structure SpelledIn (condition : Condition) (members : List (String × Json)) : Prop where
  comparison : Json.Gives members ["comparisonKind", "comparisonType"]
    (fun comparison v => ∃ name ∈ comparison.spellings, v = .string name)
    (some condition.comparison)
  fieldType : Json.Gives members ["fieldType", "targetPropertyType"]
    (fun type v => v = .string type.name) (some condition.fieldType)
  fieldName : Json.Gives members ["fieldName", "targetPropertyName"]
    (fun name v => v = .string name) (some condition.fieldName)
  compareTo : Json.Gives members ["compareTo"] (fun value v => v = value) (some condition.compareTo)

/-- The encoding is the spelling with the newer names. -/
theorem spelledIn_encode (condition : Condition) :
    Json.ObjectOf condition.SpelledIn condition.encode := by
  refine ⟨_, rfl, ⟨_, rfl, condition.comparison.name, ?_, rfl⟩, ⟨_, rfl, rfl⟩, ⟨_, rfl, rfl⟩,
    ⟨_, rfl, rfl⟩⟩
  exact condition.comparison.name_mem_spellings

/-- What spells a condition is read as it, whatever other members there are and in whatever order.
-/
theorem takes_of_spelledIn {condition : Condition} {members : List (String × Json)}
    {origin : Origin} (hcondition : condition.Canonical) (h : condition.SpelledIn members) :
    layout.read.Takes origin condition (.object members) := by
  have comparison := h.comparison.imp (Q := (Reading.text.map Comparison.ofName).Takes origin) <| by
    rintro _ ⟨⟩ v ⟨name, hname, rfl⟩
    exact congrArg Except.ok (hcondition.comparison.ofName_of_mem hname)
  have fieldType := h.fieldType.imp (Q := (Reading.text.map FieldType.ofName).Takes origin) <| by
    rintro _ ⟨⟩ v rfl
    exact congrArg Except.ok hcondition.fieldType.ofName_name
  have fieldName := h.fieldName.imp (Q := Reading.text.Takes origin) fun _ _ _ hv => hv ▸ rfl
  have compareTo := h.compareTo.imp (Q := Reading.json.Takes origin) <| by
    rintro _ ⟨⟩ v rfl
    exact Reading.json_takes hcondition.compareTo
  have hfill : Slot.fillFrom origin members {} layout.slots =
      .ok ⟨some condition.comparison, some condition.fieldType, some condition.fieldName,
        some condition.compareTo⟩ := by
    rw [layout, Slot.fillFrom_cons_reading comparison, Slot.fillFrom_cons_reading fieldType,
      Slot.fillFrom_cons_reading fieldName, Slot.fillFrom_cons_reading compareTo]
    rfl
  exact layout_lawful.read_of_fillFrom
    ⟨comparison.length_le, fieldType.length_le, fieldName.length_le, compareTo.length_le⟩ hfill rfl

end Condition

/-! ## Actions -/

namespace ActionResult

/-- Some members spell a result. -/
structure SpelledIn (result : ActionResult) (members : List (String × Json)) : Prop where
  success : Json.Gives members ["success"] (fun b v => v = .bool b) (some result.success)
  message : Json.Gives members ["resultMessage"] (fun s v => v = .string s) (some result.message)
  output : Json.Gives members ["output"] (fun record v => v = .object record) (some result.output)

theorem spelledIn_encode (result : ActionResult) :
    Json.ObjectOf result.SpelledIn result.encode :=
  ⟨_, rfl, ⟨_, rfl, rfl⟩, ⟨_, rfl, rfl⟩, ⟨_, rfl, rfl⟩⟩

theorem takes_of_spelledIn {result : ActionResult} {members : List (String × Json)}
    {origin : Origin} (hresult : result.output.Canonical) (h : result.SpelledIn members) :
    layout.read.Takes origin result (.object members) := by
  have success := h.success.imp (Q := Reading.flag.Takes origin) fun _ _ _ hv => hv ▸ rfl
  have message := h.message.imp (Q := Reading.text.Takes origin) fun _ _ _ hv => hv ▸ rfl
  have output := h.output.imp (Q := Reading.record.Takes origin) <| by
    rintro _ ⟨⟩ v rfl
    exact Reading.record_takes hresult
  have hfill : Slot.fillFrom origin members {} layout.slots =
      .ok ⟨some result.success, some result.message, some result.output⟩ := by
    rw [layout, Slot.fillFrom_cons_reading success, Slot.fillFrom_cons_reading message,
      Slot.fillFrom_cons_reading output]
    rfl
  exact layout_lawful.read_of_fillFrom
    ⟨success.length_le, message.length_le, output.length_le⟩ hfill rfl

end ActionResult

namespace Action

/-- A name stands for the kind, and the records are canonical. -/
structure Canonical (action : Action) : Prop where
  kind : action.kind.Named
  parameters : action.parameters.Canonical
  result : ∀ result ∈ action.result, result.output.Canonical

/-- Some members spell an action. -/
structure SpelledIn (action : Action) (members : List (String × Json)) : Prop where
  kind : Json.Gives members ["kind", "type"]
    (fun kind v => ∃ name ∈ kind.spellings, v = .string name) (some action.kind)
  parameters : Json.Gives members ["parameters"] (fun record v => v = .object record)
    (some action.parameters)
  result : Json.Gives members ["executionResult"] (fun result => Json.ObjectOf result.SpelledIn)
    action.result

theorem spelledIn_encode (action : Action) : Json.ObjectOf action.SpelledIn action.encode := by
  obtain ⟨kind, parameters, result⟩ := action
  have hkind := kind.name_mem_spellings
  cases result with
  | none => exact ⟨_, rfl, ⟨_, rfl, kind.name, hkind, rfl⟩, ⟨_, rfl, rfl⟩, rfl⟩
  | some result =>
    exact ⟨_, rfl, ⟨_, rfl, kind.name, hkind, rfl⟩, ⟨_, rfl, rfl⟩,
      ⟨_, rfl, result.spelledIn_encode⟩⟩

theorem takes_of_spelledIn {action : Action} {members : List (String × Json)}
    {origin : Origin} (haction : action.Canonical) (h : action.SpelledIn members) :
    layout.read.Takes origin action (.object members) := by
  have kind := h.kind.imp (Q := (Reading.text.map ActionKind.ofName).Takes origin) <| by
    rintro _ ⟨⟩ v ⟨name, hname, rfl⟩
    exact congrArg Except.ok (haction.kind.ofName_of_mem hname)
  have parameters := h.parameters.imp (Q := Reading.record.Takes origin) <| by
    rintro _ ⟨⟩ v rfl
    exact Reading.record_takes haction.parameters
  have result : Json.Gives members ["executionResult"]
      ((Reading.optional ActionResult.layout.read).Takes origin) (action.result.map some) := by
    refine Reading.gives_optional h.result ?_
    rintro result hresult _ ⟨members, rfl, hmembers⟩
    exact ⟨nofun, ActionResult.takes_of_spelledIn (haction.result result hresult) hmembers⟩
  have hfill : Slot.fillFrom origin members {} layout.slots =
      .ok ⟨some action.kind, some action.parameters, action.result.map some⟩ := by
    rw [layout, Slot.fillFrom_cons_reading kind, Slot.fillFrom_cons_reading parameters,
      Slot.fillFrom_cons_reading result]
    cases action.result <;> rfl
  refine layout_lawful.read_of_fillFrom
    ⟨kind.length_le, parameters.length_le, result.length_le⟩ hfill ?_
  obtain ⟨_, _, _ | _⟩ := action <;> rfl

/-- What spells some actions between brackets. -/
def SpelledList (actions : List Action) (v : Json) : Prop :=
  Json.ArrayOf (fun action => Json.ObjectOf action.SpelledIn) actions v

/-- One action may stand without the brackets. -/
def SpelledOneOrMany (actions : List Action) (v : Json) : Prop :=
  SpelledList actions v ∨ ∃ action, actions = [action] ∧ Json.ObjectOf action.SpelledIn v

theorem spelledList_encode (actions : List Action) :
    SpelledList actions (Node.encodeActions actions) := by
  refine ⟨_, rfl, List.forall₂_map_right_iff.mpr (List.forall₂_same.mpr fun action _ => ?_)⟩
  exact action.spelledIn_encode

variable {actions : List Action} {v : Json} {origin : Origin}

theorem list_takes_of_spelled (hactions : ∀ action ∈ actions, action.Canonical)
    (h : SpelledList actions v) : layout.read.list.Takes origin actions v := by
  refine Reading.list_takes h ?_
  rintro action haction v ⟨members, rfl, hmembers⟩
  exact takes_of_spelledIn (hactions action haction) hmembers

/-- A list that starts with an object is no action: the first field of an action is its kind. -/
theorem not_takes_array {items : List Json}
    (h : ∀ item ∈ items.head?, ∃ members, item = .object members) (action : Action) :
    ¬layout.read.Takes origin action (.array items) := by
  cases items with
  | nil => exact nofun
  | cons item rest =>
    obtain ⟨members, rfl⟩ := h item rfl
    exact nofun

/-- With brackets or without, the actions that are spelled are read. -/
theorem readOneOrMany_takes_of_spelled (hactions : ∀ action ∈ actions, action.Canonical)
    (h : SpelledOneOrMany actions v) : readOneOrMany.Takes origin actions v := by
  rcases h with h | ⟨action, rfl, members, rfl, hmembers⟩
  · refine Reading.oneOrMany_takes_of_list (fun action => ?_) (list_takes_of_spelled hactions h)
    obtain ⟨items, rfl, hitems⟩ := h
    refine not_takes_array (fun item hitem => ?_) action
    cases hitems with
    | nil => cases hitem
    | cons hfirst _ =>
      cases hitem
      obtain ⟨members, rfl, _⟩ := hfirst
      exact ⟨members, rfl⟩
  · exact Reading.oneOrMany_takes_of_single
      (takes_of_spelledIn (hactions action List.mem_cons_self) hmembers)

end Action

/-! ## Nodes -/

namespace Node

/-- The condition and all actions are canonical. -/
structure Canonical (node : Node) : Prop where
  condition : node.condition.Canonical
  trueActions : ∀ action ∈ node.trueActions, action.Canonical
  falseActions : ∀ actions ∈ node.falseActions, ∀ action ∈ actions, action.Canonical
  subActions : ∀ action ∈ node.subActions, action.Canonical
  subtreeOutputs : ∀ outputs ∈ node.subtreeOutputs, ∀ actions ∈ outputs, ∀ action ∈ actions,
    action.Canonical

/-- Some members spell a node. -/
structure SpelledIn (node : Node) (members : List (String × Json)) : Prop where
  condition : Json.Gives members ["condition"]
    (fun condition => Json.ObjectOf condition.SpelledIn) (some node.condition)
  trueActions : Json.Gives members ["trueActions", "action"] Action.SpelledOneOrMany
    (some node.trueActions)
  falseActions : Json.Gives members ["falseActions", "elseAction"] Action.SpelledOneOrMany
    node.falseActions
  conditionResult : Json.Gives members ["conditionResult"] (fun b v => v = .bool b)
    node.conditionResult
  repeatCount : Json.Gives members ["repeatCount", "x"] (fun n v => v = .ofNat n.toNat)
    node.repeatCount
  subActions : Json.Gives members ["subActions", "subtree"] Action.SpelledList
    (if node.subActions.isEmpty then none else some node.subActions)
  subtreeOutputs : Json.Gives members ["subtreeOutputs"] (Json.ArrayOf Action.SpelledList)
    node.subtreeOutputs

theorem given_ifSome {α : Type} {names : List String} {key : String} {encode : α → Json}
    {value : Option α} : Json.given names (ifSome key encode value) =
      if key ∈ names then (value.map encode).toList else [] := by
  cases value with
  | none => exact (ite_self _).symm
  | some a => exact Json.given_cons

/-- Sub actions are written like an option: not at all if there are none. -/
theorem encodeMembers_eq (node : Node) : node.encodeMembers =
    [("condition", node.condition.encode), ("trueActions", encodeActions node.trueActions)]
      ++ ifSome "falseActions" encodeActions node.falseActions
      ++ ifSome "conditionResult" .bool node.conditionResult
      ++ ifSome "repeatCount" (fun n => .ofNat n.toNat) node.repeatCount
      ++ ifSome "subActions" encodeActions
        (if node.subActions.isEmpty then none else some node.subActions)
      ++ ifSome "subtreeOutputs" (fun outputs => .array (outputs.map encodeActions))
        node.subtreeOutputs := by
  rw [encodeMembers]
  congr 2
  split <;> rfl

/-- The encoding of a node leaves out what is absent, as a spelling does. -/
theorem spelledIn_encodeMembers (node : Node) : node.SpelledIn node.encodeMembers where
  condition := ⟨_, by simp [encodeMembers_eq, Json.given_append, Json.given_cons, given_ifSome],
    node.condition.spelledIn_encode⟩
  trueActions := ⟨_, by simp [encodeMembers_eq, Json.given_append, Json.given_cons, given_ifSome],
    .inl (Action.spelledList_encode node.trueActions)⟩
  falseActions := by
    refine .of_given_eq ?_ fun actions _ => .inl (Action.spelledList_encode actions)
    simp [encodeMembers_eq, Json.given_append, Json.given_cons, given_ifSome]
  conditionResult := by
    refine .of_given_eq ?_ fun _ _ => rfl
    simp [encodeMembers_eq, Json.given_append, Json.given_cons, given_ifSome]
  repeatCount := by
    refine .of_given_eq ?_ fun _ _ => rfl
    simp [encodeMembers_eq, Json.given_append, Json.given_cons, given_ifSome]
  subActions := by
    refine .of_given_eq ?_ fun actions _ => Action.spelledList_encode actions
    simp [encodeMembers_eq, Json.given_append, Json.given_cons, given_ifSome]
  subtreeOutputs := by
    refine .of_given_eq ?_ fun outputs _ =>
      ⟨_, rfl, List.forall₂_map_right_iff.mpr
        (List.forall₂_same.mpr fun actions _ => Action.spelledList_encode actions)⟩
    simp [encodeMembers_eq, Json.given_append, Json.given_cons, given_ifSome]

theorem takes_of_spelledIn {node : Node} {members : List (String × Json)}
    {origin : Origin} (hnode : node.Canonical) (h : node.SpelledIn members) :
    layout.read.Takes origin node (.object members) := by
  have condition := h.condition.imp (Q := Condition.layout.read.Takes origin) <| by
    rintro _ ⟨⟩ v ⟨members, rfl, hmembers⟩
    exact Condition.takes_of_spelledIn hnode.condition hmembers
  have trueActions := h.trueActions.imp (Q := Action.readOneOrMany.Takes origin) <| by
    rintro _ ⟨⟩ v hv
    exact Action.readOneOrMany_takes_of_spelled hnode.trueActions hv
  have falseActions : Json.Gives members ["falseActions", "elseAction"]
      (Action.readOneOrMany.optional.Takes origin) (node.falseActions.map some) := by
    refine Reading.gives_optional h.falseActions fun actions hactions v hv => ⟨?_, ?_⟩
    · rcases hv with ⟨_, rfl, _⟩ | ⟨_, _, _, rfl, _⟩ <;> exact nofun
    · exact Action.readOneOrMany_takes_of_spelled (hnode.falseActions actions hactions) hv
  have conditionResult : Json.Gives members ["conditionResult"]
      (Reading.flag.optional.Takes origin) (node.conditionResult.map some) := by
    refine Reading.gives_optional h.conditionResult ?_
    rintro b _ v rfl
    exact ⟨nofun, rfl⟩
  have repeatCount : Json.Gives members ["repeatCount", "x"]
      (Reading.count.optional.Takes origin) (node.repeatCount.map some) := by
    refine Reading.gives_optional h.repeatCount ?_
    rintro n _ v rfl
    exact ⟨nofun, Reading.count_takes⟩
  have subActions := h.subActions.imp (Q := (Reading.list Action.layout.read).Takes origin) <| by
    intro actions hactions v hv
    split at hactions
    · cases hactions
    · cases hactions
      exact Action.list_takes_of_spelled hnode.subActions hv
  have subtreeOutputs : Json.Gives members ["subtreeOutputs"]
      (Reading.optional (.list (.list Action.layout.read)) |>.Takes origin)
      (node.subtreeOutputs.map some) := by
    refine Reading.gives_optional h.subtreeOutputs fun outputs houtputs v hv => ⟨?_, ?_⟩
    · obtain ⟨_, rfl, _⟩ := hv
      exact nofun
    · exact Reading.list_takes hv fun actions hactions _ =>
        Action.list_takes_of_spelled (hnode.subtreeOutputs outputs houtputs actions hactions)
  have hfill : Slot.fillFrom origin members {} layout.slots = .ok {
      condition := some node.condition
      trueActions := some node.trueActions
      falseActions := node.falseActions.map some
      conditionResult := node.conditionResult.map some
      repeatCount := node.repeatCount.map some
      subActions := if node.subActions.isEmpty then none else some node.subActions
      subtreeOutputs := node.subtreeOutputs.map some } := by
    rw [layout, Slot.fillFrom_cons_reading condition, Slot.fillFrom_cons_reading trueActions,
      Slot.fillFrom_cons_reading falseActions, Slot.fillFrom_cons_reading conditionResult,
      Slot.fillFrom_cons_reading repeatCount, Slot.fillFrom_cons_reading subActions,
      Slot.fillFrom_cons_reading subtreeOutputs]
    -- an option that is left out leaves its part of the draft empty
    obtain ⟨_, _, _ | _, _ | _, _ | _, _ | _, _ | _⟩ := node <;> rfl
  refine layout_lawful.read_of_fillFrom
    ⟨condition.length_le, trueActions.length_le, falseActions.length_le,
      conditionResult.length_le, repeatCount.length_le, subActions.length_le,
      subtreeOutputs.length_le⟩ hfill ?_
  obtain ⟨_, _, _ | _, _ | _, _ | _, _ | _, _ | _⟩ := node <;> rfl

end Node

/-! ## Trees -/

namespace Tree

/-- Some members spell a tree: its name, and beside it what spells the root. -/
structure SpelledIn (tree : Tree) (members : List (String × Json)) : Prop where
  name : Json.Gives members ["name"] (fun name v => v = .string name) (some tree.name)
  root : tree.root.SpelledIn members

theorem spelledIn_encode (tree : Tree) : Json.ObjectOf tree.SpelledIn tree.encode := by
  have hroot := tree.root.spelledIn_encodeMembers
  refine ⟨_, rfl, ⟨_, ?_, rfl⟩, ?_⟩
  · simp [Node.encodeMembers_eq, Json.given_append, Json.given_cons, Node.given_ifSome]
  · exact ⟨hroot.condition.cons (by decide), hroot.trueActions.cons (by decide),
      hroot.falseActions.cons (by decide), hroot.conditionResult.cons (by decide),
      hroot.repeatCount.cons (by decide), hroot.subActions.cons (by decide),
      hroot.subtreeOutputs.cons (by decide)⟩

/-- The members that are set aside. -/
def asideOf (members : List (String × Json)) : List (Key × Doc) :=
  (members.filter (·.1 ≠ "name")).map fun member => (.text member.1, Doc.ofJson member.2)

theorem members_asideOf {members : List (String × Json)} :
    Parts.members (asideOf members) = Members.ofJson (members.filter (·.1 ≠ "name")) := by
  rw [asideOf]
  induction members.filter (·.1 ≠ "name") with
  | nil => rfl
  | cons member rest ih => rw [List.map_cons, Parts.members, ih, Members.ofJson]

/-- The name is looked for among all members and may be given once; the others are set aside in
their order. -/
theorem readParts_ofJson_iff {origin : Origin} {name : Option String} {aside : List (Key × Doc)}
    {members : List (String × Json)} {parts : Parts} :
    readParts origin name aside (Members.ofJson members) = .ok parts ↔
      parts.aside = aside.reverse ++ asideOf members ∧ parts.stop = 0 ∧
        name.toList.map Json.string ++ Json.given ["name"] members =
          parts.name.toList.map Json.string := by
  induction members generalizing name aside with
  | nil =>
    obtain ⟨found, _, _⟩ := parts
    have hname : name.toList.map Json.string = found.toList.map Json.string ↔ name = found := by
      cases name <;> cases found <;> simp
    simp only [Members.ofJson, readParts, Except.ok.injEq, Parts.mk.injEq, asideOf, List.filter_nil,
      List.map_nil, Json.given_nil, List.append_nil, hname]
    exact ⟨fun ⟨hn, ha, hs⟩ => ⟨ha.symm, hs.symm, hn⟩, fun ⟨ha, hs, hn⟩ => ⟨hn, ha.symm, hs.symm⟩⟩
  | cons member rest ih =>
    obtain ⟨key, v⟩ := member
    by_cases hkey : key = "name"
    · subst hkey
      have haside : asideOf (("name", v) :: rest) = asideOf rest := rfl
      rw [Json.given_cons_of_mem List.mem_cons_self, haside, Members.ofJson, readParts]
      cases name with
      | some first =>
        refine ⟨nofun, fun ⟨_, _, h⟩ => ?_⟩
        cases hfound : parts.name <;> simp [hfound] at h
      | none =>
        cases v with
        | string s => exact ih
        | _ =>
          refine ⟨nofun, fun ⟨_, _, h⟩ => ?_⟩
          cases hfound : parts.name <;> simp [hfound] at h
    · have haside : asideOf ((key, v) :: rest) = (.text key, Doc.ofJson v) :: asideOf rest := by
        simp [asideOf, hkey]
      rw [Json.given_cons_of_not_mem (by simpa using hkey), haside, List.append_cons,
        ← List.reverse_cons, ← ih, Members.ofJson, readParts]
      simp only [Key.text, Doc.sound_ofJson]

theorem ofParts_eq_ok_iff {parts : Parts} {tree : Tree} :
    ofParts parts = .ok tree ↔ parts.name = some tree.name ∧
      Node.layout.readMembers .buffer {} (Parts.members parts.aside) = .ok tree.root := by
  rw [ofParts]
  constructor
  · intro h
    split at h
    · cases h
    next name hname =>
      split at h
      · cases h
      next root hroot =>
        cases h
        exact ⟨hname, hroot⟩
  · rintro ⟨hname, hroot⟩
    rw [hname]
    simp only [hroot]

/-- A tree is read from its name and from what is read as its root. -/
theorem takes_object_iff {origin : Origin} {tree : Tree} {members : List (String × Json)} :
    read.Takes origin tree (.object members) ↔
      Json.given ["name"] members = [.string tree.name] ∧
        Node.layout.read.Takes .buffer tree.root (.object members) := by
  have hnames : ∀ slot ∈ Node.layout.slots, "name" ∉ slot.names := by
    simp only [Node.layout, List.forall_mem_cons, List.not_mem_nil, false_imp_iff, implies_true,
      and_true]
    and_intros <;> decide
  have hroot : Node.layout.readMembers .buffer {} (Parts.members (asideOf members)) =
      Node.layout.readMembers .buffer {} (Members.ofJson members) := by
    rw [members_asideOf]
    refine Layout.readMembers_filter fun member _ hname => ?_
    rw [show member.1 = "name" by simpa using hname]
    exact hnames
  rw [Reading.Takes, Reading.Takes, Layout.read_ofJson_object, Doc.ofJson, read]
  constructor
  · intro h
    split at h
    · cases h
    next parts hparts =>
      obtain ⟨haside, -, hgiven⟩ := readParts_ofJson_iff.mp hparts
      obtain ⟨hname, hread⟩ := ofParts_eq_ok_iff.mp (mapError_eq_ok_iff.mp h)
      rw [hname] at hgiven
      rw [haside] at hread
      exact ⟨hgiven, hroot ▸ hread⟩
  · rintro ⟨hgiven, hread⟩
    have hparts : readParts origin none [] (Members.ofJson members) =
        .ok ⟨some tree.name, asideOf members, 0⟩ := readParts_ofJson_iff.mpr ⟨rfl, rfl, hgiven⟩
    rw [hparts]
    exact mapError_eq_ok_iff.mpr (ofParts_eq_ok_iff.mpr ⟨rfl, hroot.trans hread⟩)

/-- What spells a tree is read as the tree. -/
theorem takes_of_spelledIn {tree : Tree} {members : List (String × Json)}
    {origin : Origin} (htree : tree.root.Canonical) (h : tree.SpelledIn members) :
    read.Takes origin tree (.object members) := by
  obtain ⟨v, hgiven, rfl⟩ := h.name
  exact takes_object_iff.mpr ⟨hgiven, Node.takes_of_spelledIn htree h.root⟩

end Tree

end Verdict
