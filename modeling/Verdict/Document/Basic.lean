import Verdict.Json.Basic
import Verdict.Number.Shortest
import Verdict.Text.Quoted

/-!
# Documents

A document is a value as it was written: members keep their order and repetitions, every part knows
where it stands in its text, and a flaw of the text stands as a leaf at the place where it was met.
Reading a document from left to right therefore meets type errors and flaws in the order of the
text.
-/

namespace Verdict

/-- What is wrong with a text. -/
inductive Defect
  | endInArray | endInObject | endInString | endInValue
  | expectedColon | expectedArrayEnd | expectedObjectEnd | expectedWord | expectedValue
  | invalidEscape | invalidNumber | numberOutOfRange | invalidCodePoint | controlCharacter
  | keyNotString | loneSurrogate | trailingComma | trailingCharacters | endOfHexEscape
  | recursionLimit
deriving DecidableEq, Repr, Inhabited

/-- A defect and the number of bytes before the place that is reported. -/
structure Flaw where
  defect : Defect
  offset : Nat
deriving DecidableEq, Repr, Inhabited

/-- Numbers that JSON cannot write. -/
inductive NonFinite
  | infinity (negative : Bool)
  | notANumber
deriving DecidableEq, Repr, Inhabited

/-- What stands where something else was expected. -/
inductive Found
  | unit
  | bool (b : Bool)
  | integer (n : Int)
  /-- An integer that is too large to be kept. -/
  | wide (n : Int)
  | real (x : Binary64)
  | nonFinite (x : NonFinite)
  | string (s : String)
  | array
  | map
  | variant
deriving DecidableEq, Repr, Inhabited

/-- A step from a part of a document to a part inside it. -/
inductive Step
  | key (key : String)
  | unknown
  | index (n : Nat)
deriving DecidableEq, Repr, Inhabited

/-- Why a document is refused. -/
inductive Reason
  | defect (defect : Defect)
  | wrongType (found : Found) (expected : String)
  | wrongValue (found : Found) (expected : String)
  | wrongLength (length : Nat) (expected : String)
  | missingField (name : String)
  | duplicateField (name : String)
  | noVariant (type : String)
  | taggedContent
deriving DecidableEq, Repr, Inhabited

/-- A refusal, the place in the text if it has one, and the way to the refused part. -/
structure Fault where
  reason : Reason
  offset : Option Nat
  path : List Step
deriving DecidableEq, Repr, Inhabited

namespace Fault

def under (step : Step) (fault : Fault) : Fault := { fault with path := step :: fault.path }

end Fault

/-- The key of a member, and how the way to the member names it. -/
structure Key where
  content : Found
  step : Step
deriving DecidableEq, Repr, Inhabited

namespace Key

/-- A textual key; JSON has no other. -/
def text (s : String) : Key := ⟨.string s, .key s⟩

end Key

/-!
`start` and `stop` are the offsets before and after a part. `settled` is the offset after a part,
the blanks behind it and the closing bracket or, between items, the comma and its blanks, if they
follow.
-/

mutual

inductive Doc
  | null (stop : Nat)
  | bool (b : Bool) (stop : Nat)
  | number (n : Number) (stop : Nat)
  | nonFinite (x : NonFinite) (stop : Nat)
  | string (s : String) (stop : Nat)
  | array (start : Nat) (items : Items)
  | map (start : Nat) (members : Members)
  /-- A part that is never read: why it is no value, and why it cannot be set aside. -/
  | refused (asValue aside : Reason) (start : Nat)
  | flawed (flaw : Flaw)

inductive Items
  | closed (stop : Nat)
  | flawed (flaw : Flaw)
  | item (start : Nat) (doc : Doc) (settled : Nat) (rest : Items)

/-- `skim` is the flaw met when the value is passed over without being read. -/
inductive Members
  | closed (stop : Nat)
  | flawed (flaw : Flaw)
  /-- A key that cannot be read at all. -/
  | refused (fault : Fault)
  | cut (key : Key) (settled : Nat) (flaw : Flaw)
  | member (key : Key) (keySettled : Nat) (doc : Doc) (settled : Nat) (skim : Option Flaw)
      (rest : Members)

end

instance : Inhabited Doc := ⟨.null 0⟩

mutual

/-- The document of a value that was never text. -/
def Doc.ofJson : Json → Doc
  | .null => .null 0
  | .bool b => .bool b 0
  | .number n => .number n 0
  | .string s => .string s 0
  | .array items => .array 0 (Items.ofJson items)
  | .object members => .map 0 (Members.ofJson members)

def Items.ofJson : List Json → Items
  | [] => .closed 0
  | v :: rest => .item 0 (Doc.ofJson v) 0 (Items.ofJson rest)

def Members.ofJson : List (String × Json) → Members
  | [] => .closed 0
  | (k, v) :: rest => .member (.text k) 0 (Doc.ofJson v) 0 none (Members.ofJson rest)

end

namespace Defect

def message : Defect → String
  | endInArray => "EOF while parsing a list"
  | endInObject => "EOF while parsing an object"
  | endInString => "EOF while parsing a string"
  | endInValue => "EOF while parsing a value"
  | expectedColon => "expected `:`"
  | expectedArrayEnd => "expected `,` or `]`"
  | expectedObjectEnd => "expected `,` or `\x7d`"
  | expectedWord => "expected ident"
  | expectedValue => "expected value"
  | invalidEscape => "invalid escape"
  | invalidNumber => "invalid number"
  | numberOutOfRange => "number out of range"
  | invalidCodePoint => "invalid unicode code point"
  | controlCharacter => "control character (\\u0000-\\u001F) found while parsing a string"
  | keyNotString => "key must be a string"
  | loneSurrogate => "lone leading surrogate in hex escape"
  | trailingComma => "trailing comma"
  | trailingCharacters => "trailing characters"
  | endOfHexEscape => "unexpected end of hex escape"
  | recursionLimit => "recursion limit exceeded"

end Defect

/-- The two formats of documents differ in how messages name an absent value and a float. -/
inductive Format
  | json
  | yaml
deriving DecidableEq, Repr, Inhabited

namespace Found

def describe (format : Format) : Found → String
  | unit => match format with
    | .json => "null"
    | .yaml => "unit value"
  | bool b => "boolean `" ++ toString b ++ "`"
  | integer n => "integer `" ++ toString n ++ "`"
  | wide n => "integer `" ++ toString n ++ "` as " ++ (if n < 0 then "i128" else "u128")
  | real x => match format with
    | .json => "floating point `" ++ x.toText ++ "`"
    | .yaml => "floating point `" ++ x.toPositional ++ "`"
  | nonFinite (.infinity false) => "floating point `inf`"
  | nonFinite (.infinity true) => "floating point `-inf`"
  | nonFinite .notANumber => "floating point `NaN`"
  | string s => "string " ++ Text.quoted s
  | array => "sequence"
  | map => "map"
  | variant => "enum"

end Found

namespace Reason

def message (format : Format) : Reason → String
  | defect d => d.message
  | wrongType found expected =>
    "invalid type: " ++ found.describe format ++ ", expected " ++ expected
  | wrongValue found expected =>
    "invalid value: " ++ found.describe format ++ ", expected " ++ expected
  | wrongLength length expected =>
    "invalid length " ++ toString length ++ ", expected " ++ expected
  | missingField name => "missing field `" ++ name ++ "`"
  | duplicateField name => "duplicate field `" ++ name ++ "`"
  | noVariant type => "data did not match any variant of untagged enum " ++ type
  | taggedContent => "untagged and internally tagged enums do not support enum input"

end Reason

end Verdict
