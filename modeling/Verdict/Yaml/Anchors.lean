import Verdict.Yaml.Node

/-!
# Anchors

An anchor takes the number of names that are known before it, so an anchor that is given anew shares
its number with the next new name. An alias stands for the node that was last given its number,
wherever in the document that was.
-/

namespace Verdict.Yaml

mutual

/-- A node and all nodes in it, in the order of the text. -/
def Node.parts : Node → List Node
  | .scalar text style properties => [.scalar text style properties]
  | .sequence items properties => .sequence items properties :: Node.itemParts items
  | .mapping members properties => .mapping members properties :: Node.memberParts members
  | .alias name start => [.alias name start]

def Node.itemParts : List Node → List Node
  | [] => []
  | item :: rest => item.parts ++ Node.itemParts rest

def Node.memberParts : List (Node × Node) → List Node
  | [] => []
  | (key, value) :: rest => key.parts ++ value.parts ++ Node.memberParts rest

end

namespace Node

def anchor? : Node → Option String
  | scalar _ _ properties | sequence _ properties | mapping _ properties => properties.anchor
  | .alias .. => none

/-- A collection has a start and an end. -/
def events : Node → Nat
  | sequence .. | mapping .. => 2
  | _ => 1

end Node

/-- The numbers of names and of aliases, the latter by their offsets, and the nodes of numbers. -/
structure Anchors where
  numbers : List (String × Nat) := []
  uses : List (Nat × Nat) := []
  targets : List (Nat × Node) := []

namespace Anchors

def give (anchors : Anchors) (name : String) (node : Node) : Anchors :=
  let number := anchors.numbers.length
  { anchors with
    numbers := (name, number) :: anchors.numbers.filter (·.1 != name)
    targets := (number, node) :: anchors.targets }

/-- Takes the anchor of a node into account; an alias has to have a name that is known. -/
def add? (anchors : Anchors) : Node → Option Anchors
  | .alias name start =>
    (anchors.numbers.lookup name).map fun number =>
      { anchors with uses := (start, number) :: anchors.uses }
  | node =>
    match node.anchor? with
    | some name => some (anchors.give name node)
    | none => some anchors

def ofParts? (parts : List Node) : Option Anchors := parts.foldlM add? {}

/-- The node that the alias at an offset stands for. -/
def target? (anchors : Anchors) (start : Nat) : Option Node :=
  (anchors.uses.lookup start).bind fun number => anchors.targets.lookup number

end Anchors

end Verdict.Yaml
