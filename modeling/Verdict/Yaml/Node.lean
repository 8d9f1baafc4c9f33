import Verdict.Yaml.Token

/-!
# Nodes

The tokens of a stream are put together into the node of its document. There is at most one
document; an empty stream has none.
-/

namespace Verdict.Yaml

/-- What may stand before a node, and the offset where the node starts. -/
structure Properties where
  anchor : Option String := none
  tag : Option String := none
  start : Nat
deriving DecidableEq, Repr, Inhabited

inductive Node
  | scalar (text : String) (style : Style) (properties : Properties)
  | sequence (items : List Node) (properties : Properties)
  | mapping (members : List (Node × Node)) (properties : Properties)
  | alias (name : String) (start : Nat)
deriving Repr, Inhabited

/-- Meanings of tag handles. -/
abbrev Handles := List (String × String)

namespace Handles

def standard : Handles := [("!", "!"), ("!!", "tag:yaml.org,2002:")]

/-- The tag that a name stands for; a handle has to have a meaning. -/
def resolve? (handles : Handles) (name : TagName) : Option String :=
  if name.handle.isEmpty then some name.suffix
  else (handles.lookup name.handle).map (· ++ name.suffix)

end Handles

namespace Node

/-- A scalar that is not there. -/
def absent (start : Nat) : Node := .scalar "" .plain { start }

/-- Reads the properties of a node: an anchor and a tag in either order. -/
def properties? (handles : Handles) : List Token → Option (Properties × List Token)
  | [] => none
  | ⟨.anchor anchor, start, _⟩ :: ⟨.tag tag, _, _⟩ :: rest
  | ⟨.tag tag, start, _⟩ :: ⟨.anchor anchor, _, _⟩ :: rest => do
    let tag ← handles.resolve? tag
    return ({ anchor, tag, start }, rest)
  | ⟨.anchor anchor, start, _⟩ :: rest => some ({ anchor, start }, rest)
  | ⟨.tag tag, start, _⟩ :: rest => do
    let tag ← handles.resolve? tag
    return ({ tag, start }, rest)
  | ⟨kind, start, stop⟩ :: rest => some ({ start }, ⟨kind, start, stop⟩ :: rest)

/-- Whether the next token is one of those after which a node is absent. -/
def nextIs (test : TokenKind → Bool) : List Token → Bool
  | [] => false
  | token :: _ => test token.kind

def endsBlock : TokenKind → Bool
  | .blockEnd => true
  | _ => false

def endsEntry (kind : TokenKind) : Bool := kind == .blockEntry || endsBlock kind

def endsPair (kind : TokenKind) : Bool := kind == .key || kind == .value || endsBlock kind

def endsLooseEntry (kind : TokenKind) : Bool := kind == .blockEntry || endsPair kind

def endsFlowItem (close kind : TokenKind) : Bool := kind == .flowEntry || kind == close

def endsFlowKey (close : TokenKind) (kind : TokenKind) : Bool :=
  kind == .value || endsFlowItem close kind

/-- The non-specific tag leaves a scalar plain whatever its style. -/
def ofScalar (text : String) (style : Style) (properties : Properties) : Node :=
  if properties.tag = some "!" then .scalar text style { properties with tag := none }
  else .scalar text style properties

mutual

/-- Reads a node. In a block it may open a block; as a part of a pair it may be a sequence whose
entries stand at the column of the key. -/
def parse (handles : Handles) (fuel : Nat) (block loose : Bool) (tokens : List Token) :
    Option (Node × List Token) :=
  match fuel, tokens with
  | 0, _ => none
  | _ + 1, ⟨.alias name, start, _⟩ :: rest => some (.alias name start, rest)
  | fuel + 1, tokens => do
    let (properties, after) ← properties? handles tokens
    match after with
    | [] => none
    | ⟨kind, start, stop⟩ :: rest =>
      match kind, block with
      | .scalar text style, _ => return (ofScalar text style properties, rest)
      | .flowSequence, _ =>
        let (items, rest) ← parseFlowItems handles fuel true rest
        return (.sequence items properties, rest)
      | .flowMapping, _ =>
        let (members, rest) ← parseFlowPairs handles fuel true rest
        return (.mapping members properties, rest)
      | .blockSequence, true =>
        let (items, rest) ← parseEntries handles fuel rest
        return (.sequence items properties, rest)
      | .blockMapping, true =>
        let (members, rest) ← parsePairs handles fuel rest
        return (.mapping members properties, rest)
      | kind, _ =>
        if loose && kind == .blockEntry then
          let (items, rest) ← parseLooseEntries handles fuel (⟨kind, start, stop⟩ :: rest)
          return (.sequence items properties, rest)
        else if properties.anchor.isSome || properties.tag.isSome then
          return (.scalar "" .plain properties, ⟨kind, start, stop⟩ :: rest)
        else none

/-- Reads a node unless what comes next says that it is absent. -/
def parseUnless (handles : Handles) (fuel : Nat) (block loose : Bool) (ends : TokenKind → Bool)
    (start : Nat) (tokens : List Token) : Option (Node × List Token) :=
  match fuel with
  | 0 => none
  | fuel + 1 =>
    if nextIs ends tokens then some (absent start, tokens)
    else parse handles fuel block loose tokens

/-- The entries of a block sequence up to its end. -/
def parseEntries (handles : Handles) (fuel : Nat) (tokens : List Token) :
    Option (List Node × List Token) :=
  match fuel, tokens with
  | fuel + 1, ⟨.blockEntry, _, stop⟩ :: rest => do
    let (item, rest) ← parseUnless handles fuel true false endsEntry stop rest
    let (items, rest) ← parseEntries handles fuel rest
    return (item :: items, rest)
  | _ + 1, ⟨.blockEnd, _, _⟩ :: rest => some ([], rest)
  | _, _ => none

/-- The entries of a sequence without a block of its own. -/
def parseLooseEntries (handles : Handles) (fuel : Nat) (tokens : List Token) :
    Option (List Node × List Token) :=
  match fuel, tokens with
  | fuel + 1, ⟨.blockEntry, _, stop⟩ :: rest => do
    let (item, rest) ← parseUnless handles fuel true false endsLooseEntry stop rest
    let (items, rest) ← parseLooseEntries handles fuel rest
    return (item :: items, rest)
  | _ + 1, tokens => some ([], tokens)
  | 0, _ => none

/-- The pairs of a block mapping up to its end. -/
def parsePairs (handles : Handles) (fuel : Nat) (tokens : List Token) :
    Option (List (Node × Node) × List Token) :=
  match fuel, tokens with
  | fuel + 1, ⟨.key, _, stop⟩ :: rest => do
    let (key, rest) ← parseUnless handles fuel true true endsPair stop rest
    let (value, rest) ← parsePairValue handles fuel rest
    let (members, rest) ← parsePairs handles fuel rest
    return ((key, value) :: members, rest)
  | _ + 1, ⟨.blockEnd, _, _⟩ :: rest => some ([], rest)
  | _, _ => none

/-- The value of a pair in a block mapping. -/
def parsePairValue (handles : Handles) (fuel : Nat) (tokens : List Token) :
    Option (Node × List Token) :=
  match fuel, tokens with
  | fuel + 1, ⟨.value, _, stop⟩ :: rest => parseUnless handles fuel true true endsPair stop rest
  | _ + 1, ⟨kind, start, stop⟩ :: rest => some (absent start, ⟨kind, start, stop⟩ :: rest)
  | _, _ => none

/-- The items of a flow sequence up to its bracket; all but the first follow a comma. -/
def parseFlowItems (handles : Handles) (fuel : Nat) (first : Bool) (tokens : List Token) :
    Option (List Node × List Token) :=
  match fuel, first, tokens with
  | _ + 1, _, ⟨.flowSequenceEnd, _, _⟩ :: rest => some ([], rest)
  | fuel + 1, true, tokens => parseFlowItem handles fuel tokens
  | fuel + 1, false, ⟨.flowEntry, _, _⟩ :: rest => parseFlowItem handles fuel rest
  | _, _, _ => none

/-- An item of a flow sequence, which may be a single pair, and the items behind it. -/
def parseFlowItem (handles : Handles) (fuel : Nat) (tokens : List Token) :
    Option (List Node × List Token) :=
  match fuel, tokens with
  | _ + 1, ⟨.flowSequenceEnd, _, _⟩ :: rest => some ([], rest)
  | fuel + 1, ⟨.key, start, _⟩ :: rest => do
    let (key, rest) ← parseFlowKey handles fuel rest
    let (value, rest) ← parseFlowValue handles fuel .flowSequenceEnd rest
    let (items, rest) ← parseFlowItems handles fuel false rest
    return (.mapping [(key, value)] { start } :: items, rest)
  | fuel + 1, tokens => do
    let (item, rest) ← parse handles fuel false false tokens
    let (items, rest) ← parseFlowItems handles fuel false rest
    return (item :: items, rest)
  | 0, _ => none

/-- The key of a single pair; the token behind an absent key is passed over. -/
def parseFlowKey (handles : Handles) (fuel : Nat) (tokens : List Token) :
    Option (Node × List Token) :=
  match fuel with
  | 0 => none
  | fuel + 1 =>
    match tokens with
    | [] => none
    | token :: rest =>
      if endsFlowKey .flowSequenceEnd token.kind then some (absent token.stop, rest)
      else parse handles fuel false false (token :: rest)

/-- The value of a pair in a flow collection. -/
def parseFlowValue (handles : Handles) (fuel : Nat) (close : TokenKind) (tokens : List Token) :
    Option (Node × List Token) :=
  match fuel, tokens with
  | fuel + 1, ⟨.value, _, _⟩ :: rest =>
    let start := (rest.head?.map (·.start)).getD 0
    parseUnless handles fuel false false (endsFlowItem close) start rest
  | _ + 1, ⟨kind, start, stop⟩ :: rest => some (absent start, ⟨kind, start, stop⟩ :: rest)
  | _, _ => none

/-- The pairs of a flow mapping up to its brace; all but the first follow a comma. -/
def parseFlowPairs (handles : Handles) (fuel : Nat) (first : Bool) (tokens : List Token) :
    Option (List (Node × Node) × List Token) :=
  match fuel, first, tokens with
  | _ + 1, _, ⟨.flowMappingEnd, _, _⟩ :: rest => some ([], rest)
  | fuel + 1, true, tokens => parseFlowPair handles fuel tokens
  | fuel + 1, false, ⟨.flowEntry, _, _⟩ :: rest => parseFlowPair handles fuel rest
  | _, _, _ => none

/-- A pair of a flow mapping, which may lack its value, and the pairs behind it. -/
def parseFlowPair (handles : Handles) (fuel : Nat) (tokens : List Token) :
    Option (List (Node × Node) × List Token) :=
  match fuel, tokens with
  | _ + 1, ⟨.flowMappingEnd, _, _⟩ :: rest => some ([], rest)
  | fuel + 1, ⟨.key, _, _⟩ :: rest => do
    let start := (rest.head?.map (·.start)).getD 0
    let (key, rest) ← parseUnless handles fuel false false (endsFlowKey .flowMappingEnd) start rest
    let (value, rest) ← parseFlowValue handles fuel .flowMappingEnd rest
    let (members, rest) ← parseFlowPairs handles fuel false rest
    return ((key, value) :: members, rest)
  | fuel + 1, tokens => do
    let (key, rest) ← parse handles fuel false false tokens
    let start := (rest.head?.map (·.start)).getD 0
    let (members, rest) ← parseFlowPairs handles fuel false rest
    return ((key, absent start) :: members, rest)
  | 0, _ => none

end

end Node

/-! ## Documents -/

/-- What a stream holds: nothing, or the node of its document. -/
inductive Stream
  | empty (start : Nat)
  | document (root : Node)
deriving Repr, Inhabited

namespace Stream

/-- Reads directives: one version, which is 1.1 or 1.2, and one meaning for a handle. -/
def directives? (version : Bool) (handles : Handles) : List Token → Option (Handles × List Token)
  | ⟨.directive (.version major minor), _, _⟩ :: rest =>
    if version ∨ major ≠ 1 ∨ (minor ≠ 1 ∧ minor ≠ 2) then none else directives? true handles rest
  | ⟨.directive (.tag handle meaning), _, _⟩ :: rest =>
    if (handles.lookup handle).isSome then none
    else directives? version ((handle, meaning) :: handles) rest
  | tokens => some (handles, tokens)

/-- Whether a document without content ends here. -/
def endsDocument : TokenKind → Bool
  | .directive _ | .documentStart | .documentEnd | .streamEnd => true
  | _ => false

/-- The node behind the start of a document. -/
def root? (handles : Handles) (explicit : Bool) (tokens : List Token) :
    Option (Node × List Token) :=
  match tokens with
  | [] => none
  | token :: rest =>
    if explicit && endsDocument token.kind then some (.absent token.start, token :: rest)
    else Node.parse handles (4 * tokens.length) true false tokens

/-- Reads a whole stream; behind the document only marks of its end may stand. -/
def ofTokens? (tokens : List Token) : Option Stream :=
  match tokens with
  | [⟨.streamEnd, start, _⟩] => some (.empty start)
  | tokens => do
    let (given, rest) ← directives? false [] tokens
    let handles := given ++ Handles.standard
    let (explicit, rest) ← match rest with
      | ⟨.documentStart, _, _⟩ :: rest => some (true, rest)
      | rest => if rest.length = tokens.length then some (false, rest) else none
    let (root, rest) ← root? handles explicit rest
    match rest.dropWhile (·.kind == .documentEnd) with
    | [⟨.streamEnd, _, _⟩] => return .document root
    | _ => none

end Stream

end Verdict.Yaml
