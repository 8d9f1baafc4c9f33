import Verdict.Text.Blank
import Verdict.Text.Parts

/-!
# Environments

An environment gives values to variables. A file of assignments, one a line, can complete it: what
the environment has already stays as it is, and the first line that is no assignment ends the file.
Values may name variables behind a dollar sign, earlier lines included.
-/

namespace Verdict

/-- The values of variables; of two with one name the first counts. -/
abbrev Environment := List (String × String)

namespace Environment

/-- The value of a variable as it stands in another value; that of an unknown one is empty. -/
def valueChars (environment : Environment) (name : List Char) : List Char :=
  ((environment.lookup (String.ofList name)).getD "").toList

/-- Gives a variable a value unless it has one. -/
def complete (environment : Environment) (name value : String) : Environment :=
  match environment.lookup name with
  | some _ => environment
  | none => environment ++ [(name, value)]

/-! ## Values -/

/-- Where a value is read: in its text, between single quotes, behind a backslash, in the name of a
variable that stands bare or in braces, or behind the end of the value. -/
inductive ValuePart
  | text
  | literal
  | escape
  | name (name : List Char)
  | braced (name : List Char)
  | ended
deriving DecidableEq, Repr, Inhabited

/-- Letters and digits, and all characters beyond ASCII, make up bare names. -/
def isNameChar (c : Char) : Bool := c.isAlphanum || 0x80 ≤ c.toNat

/-- What a character behind a backslash stands for. -/
def escaped? (c : Char) : Option Char :=
  if ['\\', '\'', '"', '$', ' '].contains c then some c
  else if c = 'n' then some '\n'
  else none

/-- Reads a value; `taken` is what was read, and `quoted` says whether a double quote is open. The
character that ends a bare name is text whatever it is, unless it starts another name. -/
def readValue (environment : Environment) (quoted : Bool) (part : ValuePart) (taken : List Char) :
    List Char → Option (List Char)
  | [] =>
    match part with
    | .literal | .braced _ => none
    | .name name => if quoted then none else some (taken ++ environment.valueChars name)
    | _ => if quoted then none else some taken
  | c :: rest =>
    match part with
    | .ended =>
      if c = ' ' ∨ c = '\t' then readValue environment quoted .ended taken rest
      else if c = '#' then some taken
      else none
    | .escape =>
      match escaped? c with
      | some e => readValue environment quoted .text (taken ++ [e]) rest
      | none => none
    | .literal =>
      if c = '\'' then readValue environment quoted .text taken rest
      else readValue environment quoted .literal (taken ++ [c]) rest
    | .name name =>
      if isNameChar c then readValue environment quoted (.name (name ++ [c])) taken rest
      else if c = '\x7b' ∧ name = [] then readValue environment quoted (.braced []) taken rest
      else
        let taken := taken ++ environment.valueChars name
        if c = '$' then readValue environment quoted (.name []) taken rest
        else readValue environment quoted .text (taken ++ [c]) rest
    | .braced name =>
      if c = '\x7d' then
        readValue environment quoted .text (taken ++ environment.valueChars name) rest
      else readValue environment quoted (.braced (name ++ [c])) taken rest
    | .text =>
      if c = '$' then readValue environment quoted (.name []) taken rest
      else if c = '"' then readValue environment (!quoted) .text taken rest
      else if c = '\\' then readValue environment quoted .escape taken rest
      else if c = '\'' ∧ quoted = false then readValue environment quoted .literal taken rest
      else if (c = ' ' ∨ c = '\t') ∧ quoted = false then
        readValue environment quoted .ended taken rest
      else readValue environment quoted .text (taken ++ [c]) rest

/-! ## Lines -/

/-- Whether nothing or a comment is left of a line. -/
def isOver : List Char → Bool
  | [] => true
  | c :: _ => c == '#'

/-- Takes the name of a variable. -/
def readName (line : List Char) : Option (List Char × List Char) :=
  match line with
  | [] => none
  | c :: _ =>
    if c.isAlpha || c == '_' then
      let (name, rest) := line.span fun c => c.isAlphanum || c == '_' || c == '.'
      some (name, rest.dropWhile Text.isBlank)
    else none

/-- Takes an equals sign and the blanks behind it. -/
def readEquals : List Char → Option (List Char)
  | '=' :: rest => some (rest.dropWhile Text.isBlank)
  | _ => none

/-- Takes the left side of an assignment, before which the word `export` may stand. -/
def readLeft (line : List Char) : Option (List Char × List Char) := do
  let (name, rest) ← readName line
  match readEquals rest with
  | some rest => return (name, rest)
  | none =>
    if name = "export".toList then
      let (name, rest) ← readName rest
      return (name, ← readEquals rest)
    else none

/-- Takes an assignment into account; a line that is neither one nor blank nor a comment is none. -/
def addLine (environment : Environment) (line : List Char) : Option Environment :=
  let line := Text.trimList line
  if isOver line then some environment
  else do
    let (name, rest) ← readLeft line
    let value ← if isOver rest then some [] else readValue environment false .text [] rest
    return environment.complete (String.ofList name) (String.ofList value)

/-- Takes lines into account up to the first that is no assignment. -/
def addLines (environment : Environment) : List (List UInt8) → Environment
  | [] => environment
  | bytes :: rest =>
    match (String.fromUTF8? bytes.toByteArray).bind fun line => environment.addLine line.toList with
    | some environment => addLines environment rest
    | none => environment

/-- Completes an environment by a file of assignments. -/
def addFile (environment : Environment) (bytes : List UInt8) : Environment :=
  environment.addLines (Text.splitAt 0x0a bytes)

end Environment

end Verdict
