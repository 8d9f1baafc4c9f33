import Verdict.Tree
import Verdict.Document.Action

/-!
# Conditions and trees in documents

The fields of a tree's root stand beside the tree's name. They are set aside until the name is
known, so a fault in them has no place of its own: it is reported behind the whole tree.
-/

namespace Verdict

namespace Condition

structure Draft where
  comparison : Option Comparison := none
  fieldType : Option FieldType := none
  fieldName : Option String := none
  compareTo : Option Json := none

def layout : Layout Draft Condition where
  title := "Condition"
  slots := [
    .reading "comparisonKind" ["comparisonType"] (·.comparison)
      (fun v d => { d with comparison := some v }) (Reading.text.map .ofName),
    .reading "fieldType" ["targetPropertyType"] (·.fieldType)
      (fun v d => { d with fieldType := some v }) (Reading.text.map .ofName),
    .reading "fieldName" ["targetPropertyName"] (·.fieldName)
      (fun v d => { d with fieldName := some v }) .text,
    .reading "compareTo" [] (·.compareTo) (fun v d => { d with compareTo := some v }) .json]
  blank := {}
  finish draft :=
    match draft.comparison, draft.fieldType, draft.fieldName, draft.compareTo with
    | none, _, _, _ => .error "comparisonKind"
    | _, none, _, _ => .error "fieldType"
    | _, _, none, _ => .error "fieldName"
    | _, _, _, none => .error "compareTo"
    | some comparison, some fieldType, some fieldName, some compareTo =>
      .ok ⟨comparison, fieldType, fieldName, compareTo⟩

def encode (condition : Condition) : Json :=
  .object [
    ("comparisonKind", .string condition.comparison.name),
    ("fieldType", .string condition.fieldType.name),
    ("fieldName", .string condition.fieldName),
    ("compareTo", condition.compareTo)]

end Condition

/-- One action or a list of actions. -/
def Action.readOneOrMany : Reading (List Action) := .oneOrMany "ActionList" Action.layout.read

namespace Node

structure Draft where
  condition : Option Condition := none
  trueActions : Option (List Action) := none
  falseActions : Option (Option (List Action)) := none
  conditionResult : Option (Option Bool) := none
  repeatCount : Option (Option UInt32) := none
  subActions : Option (List Action) := none
  subtreeOutputs : Option (Option (List (List Action))) := none

def layout : Layout Draft Node where
  title := "DecisionNode"
  slots := [
    .reading "condition" [] (·.condition) (fun v d => { d with condition := some v })
      Condition.layout.read,
    .reading "trueActions" ["action"] (·.trueActions) (fun v d => { d with trueActions := some v })
      Action.readOneOrMany,
    .reading "falseActions" ["elseAction"] (·.falseActions)
      (fun v d => { d with falseActions := some v }) (.optional Action.readOneOrMany),
    .reading "conditionResult" [] (·.conditionResult)
      (fun v d => { d with conditionResult := some v }) (.optional .flag),
    .reading "repeatCount" ["x"] (·.repeatCount) (fun v d => { d with repeatCount := some v })
      (.optional .count),
    .reading "subActions" ["subtree"] (·.subActions) (fun v d => { d with subActions := some v })
      (.list Action.layout.read),
    .reading "subtreeOutputs" [] (·.subtreeOutputs)
      (fun v d => { d with subtreeOutputs := some v })
      (.optional (.list (.list Action.layout.read)))]
  blank := {}
  finish draft :=
    match draft.condition with
    | none => .error "condition"
    | some condition => .ok {
        condition
        trueActions := draft.trueActions.getD []
        falseActions := draft.falseActions.join
        conditionResult := draft.conditionResult.join
        repeatCount := draft.repeatCount.join
        subActions := draft.subActions.getD []
        subtreeOutputs := draft.subtreeOutputs.join }

/-- The member of an option, if there is something in it. -/
def ifSome {α : Type} (key : String) (encode : α → Json) : Option α → List (String × Json)
  | some v => [(key, encode v)]
  | none => []

def encodeActions (actions : List Action) : Json := .array (actions.map Action.encode)

/-- The members of a node: absent options and an empty list of sub actions are left out. -/
def encodeMembers (node : Node) : List (String × Json) :=
  [("condition", node.condition.encode), ("trueActions", encodeActions node.trueActions)]
    ++ ifSome "falseActions" encodeActions node.falseActions
    ++ ifSome "conditionResult" .bool node.conditionResult
    ++ ifSome "repeatCount" (fun n => .ofNat n.toNat) node.repeatCount
    ++ (if node.subActions.isEmpty then [] else [("subActions", encodeActions node.subActions)])
    ++ ifSome "subtreeOutputs" (fun outputs => .array (outputs.map encodeActions))
      node.subtreeOutputs

def encode (node : Node) : Json := .object node.encodeMembers

end Node

namespace Tree

/-- What was found of a tree: its name, and the members that are set aside. -/
structure Parts where
  name : Option String
  aside : List (Key × Doc)
  stop : Nat

def Parts.members : List (Key × Doc) → Members
  | [] => .closed 0
  | (key, doc) :: rest => .member key 0 doc 0 none (Parts.members rest)

/-- Reads the name and sets the other members aside, the last one first. -/
def readParts (origin : Origin) (name : Option String) (aside : List (Key × Doc)) :
    Members → Except Fault Parts
  | .closed stop => .ok ⟨name, aside.reverse, stop⟩
  | .flawed flaw => .error (.ofFlaw flaw)
  | .refused fault => .error fault
  | .cut key settled flaw =>
    if key.content = .string "name" ∧ name.isSome then
      .error ⟨.duplicateField "name", origin.place settled, []⟩
    else .error (.ofFlaw flaw)
  | .member key keySettled doc _ _ rest =>
    match key.content with
    | .string "name" =>
      if name.isSome then .error ⟨.duplicateField "name", origin.place keySettled, []⟩
      else
        match Reading.text origin doc with
        | .error fault => .error (fault.under key.step)
        | .ok name => readParts origin (some name) aside rest
    | .string _ =>
      match doc.sound with
      | .error fault => .error (fault.under key.step)
      | .ok () => readParts origin name ((key, doc) :: aside) rest
    | _ => .error ((key.mismatch "field identifier").settle origin keySettled)

/-- The tree of a name and of members that were set aside. -/
def ofParts (parts : Parts) : Except Fault Tree :=
  match parts.name with
  | none => .error ⟨.missingField "name", none, []⟩
  | some name =>
    match Node.layout.readMembers .buffer {} (Parts.members parts.aside) with
    | .error fault => .error { fault with path := [] }
    | .ok root => .ok ⟨name, root⟩

def read : Reading Tree
  | origin, .map _ members =>
    match readParts origin none [] members with
    | .error fault => .error fault
    | .ok parts => (ofParts parts).mapError (·.settle origin parts.stop)
  | origin, doc => .error (doc.mismatch origin "struct DecisionTree")

def encode (tree : Tree) : Json := .object (("name", .string tree.name) :: tree.root.encodeMembers)

end Tree

end Verdict
