import Verdict.Document.Reading
import Verdict.Yaml.Anchors
import Verdict.Yaml.Atom

/-!
# Values

A value is a node without aliases whose scalars have a meaning. Every part keeps the offset where
its node starts, also if it is reached by an alias.
-/

namespace Verdict.Yaml

/-- A scalar keeps its text beside its meaning, for a reader that asks for text takes it as it is
written. A member has a step by which the way to it goes. -/
inductive Value
  | scalar (text : String) (atom : Except Atom.Misfit Atom) (start : Nat)
  | sequence (items : List Value) (start : Nat)
  | mapping (members : List (Step × Value × Value)) (start : Nat)
  | tagged (tag : String) (content : Value)
deriving Inhabited

namespace Value

/-! ## Expanding aliases -/

/-- Puts a tag of the application before a value; other tags say nothing about collections. -/
def withTag (tag : Option String) (content : Value) : Value :=
  match tag with
  | some tag => if tag.toList.head? = some '!' then .tagged tag content else content
  | none => content

/-- The node itself or the one an alias stands for, which takes one of the jumps that are left. -/
def follow (anchors : Anchors) : Node → StateT Nat Option Node
  | .alias _ start => fun jumps =>
    if jumps = 0 then none else (anchors.target? start).map (·, jumps - 1)
  | node => pure node

def stepOf : Node → Step
  | .scalar text .. => .key text
  | _ => .unknown

/-- The value of a node whose collections are at most `depth` deep. -/
def ofNode (anchors : Anchors) (depth : Nat) (node : Node) : StateT Nat Option Value := do
  match ← follow anchors node with
  | .scalar text style properties =>
    return withTag properties.tag
      (.scalar text (Atom.ofScalar text style properties.tag) properties.start)
  | .sequence items properties =>
    match depth with
    | 0 => failure
    | depth + 1 =>
      let items ← items.mapM (ofNode anchors depth)
      return withTag properties.tag (.sequence items properties.start)
  | .mapping members properties =>
    match depth with
    | 0 => failure
    | depth + 1 =>
      let members ← members.mapM fun (key, value) => do
        let key' ← ofNode anchors depth key
        let value' ← ofNode anchors depth value
        return (stepOf key, key', value')
      return withTag properties.tag (.mapping members properties.start)
  | .alias .. => failure

/-- The value of a document: collections are at most 128 deep, and there are at most a hundred jumps
for each event of the document. -/
def ofRoot? (root : Node) : Option Value := do
  let parts := root.parts
  let anchors ← Anchors.ofParts? parts
  let jumps := 100 * (parts.map Node.events).foldr (· + ·) 0
  return (← (ofNode anchors 128 root).run jumps).1

/-! ## Documents -/

def start : Value → Nat
  | scalar _ _ start | sequence _ start | mapping _ start => start
  | tagged _ content => content.start

/-- The key of a member where text is asked for. -/
def textKey (step : Step) : Value → Key
  | scalar text _ _ => ⟨.string text, step⟩
  | sequence .. => ⟨.array, step⟩
  | mapping .. => ⟨.map, step⟩
  | tagged _ content => textKey step content

mutual

/-- The document of a value. Its keys are text where text is asked for; otherwise they are set
aside, which a key with a tag refuses. -/
def doc (textual : Bool) : Value → Doc
  | .scalar _ (.ok atom) start => atom.doc start
  | .scalar _ (.error misfit) start => misfit.doc start
  | .sequence items start => .array start (docItems textual start items)
  | .mapping members start => .map start (docMembers textual start members)
  | .tagged _ content =>
    .refused (.wrongType .variant "any valid JSON value") .taggedContent content.start

def docItems (textual : Bool) (stop : Nat) : List Value → Items
  | [] => .closed stop
  | item :: rest => .item item.start (doc textual item) item.start (docItems textual stop rest)

def docMembers (textual : Bool) (stop : Nat) : List (Step × Value × Value) → Members
  | [] => .closed stop
  | (step, key, value) :: rest =>
    let member (key' : Key) : Members :=
      .member key' key.start (doc textual value) value.start none (docMembers textual stop rest)
    if textual then member (key.textKey step)
    else
      let keyDoc := doc textual key
      match keyDoc.sound with
      | .error fault => .refused fault
      | .ok () => member ⟨keyDoc.found, step⟩

end

/-- The document of a value where text is asked for. -/
def textDoc : Value → Doc
  | scalar text _ start => .string text start
  | tagged _ content => textDoc content
  | value => value.doc false

/-- The members of a tree: their keys and the tree's name are text, and all else is set aside. -/
def treeMembers (stop : Nat) : List (Step × Value × Value) → Members
  | [] => .closed stop
  | (step, key, value) :: rest =>
    let key' := key.textKey step
    let doc := if key'.content = .string "name" then value.textDoc else value.doc false
    .member key' key.start doc value.start none (treeMembers stop rest)

/-- The document of a tree; an empty text is a tree without members. -/
def treeDoc : Value → Doc
  | mapping members start => .map start (treeMembers start members)
  | scalar "" _ start => .map start (.closed start)
  | tagged _ content => treeDoc content
  | value => value.doc false

end Value

end Verdict.Yaml
