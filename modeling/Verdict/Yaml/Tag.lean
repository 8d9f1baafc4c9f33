import Verdict.Text.Parts
import Verdict.Yaml.Text

/-!
# Tags and directives

A tag is a handle, which a directive or a rule gives a meaning, and a suffix. A verbatim tag has no
handle.
-/

namespace Verdict.Yaml

structure TagName where
  handle : String
  suffix : String
deriving DecidableEq, Repr, Inhabited

inductive Directive
  | version (major minor : Nat)
  | tag (handle : String) (meaning : String)
deriving DecidableEq, Repr, Inhabited

namespace TagName

/-- Whether a character may stand in a tag; `wide` admits the marks of flow collections. -/
def isUriChar (wide : Bool) (c : Char) : Bool :=
  isWordChar c
    || [';', '/', '?', ':', '@', '&', '=', '+', '$', '.', '%', '!', '~', '*', '\'', '(', ')'].any
      (· == c)
    || (wide && (c == ',' || c == '[' || c == ']'))

/-- The bytes of a text in which a percent sign and two digits stand for one byte. -/
def unescape? : List Char → Option (List UInt8)
  | [] => some []
  | '%' :: a :: b :: rest => do
    let high ← Text.digitOf? 16 a
    let low ← Text.digitOf? 16 b
    let bytes ← unescape? rest
    return UInt8.ofNat (high * 16 + low) :: bytes
  | c :: rest =>
    if c = '%' then none
    else (unescape? rest).map ((String.singleton c).toUTF8.data.toList ++ ·)

/-- Reads the characters of a tag. -/
def readUri (wide : Bool) (c : Cursor) : Option (String × Cursor) := do
  let (chars, c) := c.takeWhile (isUriChar wide)
  let bytes ← unescape? chars
  let text ← String.fromUTF8? bytes.toByteArray
  return (text, c)

/-- Reads an exclamation mark, the word behind it and the exclamation mark that closes it; without
the latter it is no handle unless it stands alone. -/
def readHandle (c : Cursor) : Option (String × Bool × Cursor) :=
  if c.rest.head? = some '!' then
    let (word, c) := c.next.takeWhile isWordChar
    if c.rest.head? = some '!' then some (String.ofList ('!' :: word ++ ['!']), true, c.next)
    else some (String.ofList ('!' :: word), word.isEmpty, c)
  else none

/-- Reads a tag; the cursor stands at its exclamation mark. -/
def read (flow : Bool) (c : Cursor) : Option (TagName × Cursor) := do
  let (tag, c) ←
    match c.rest with
    | '!' :: '<' :: _ => do
      let (suffix, c) ← readUri true (c.skip 2)
      if suffix.isEmpty ∨ c.rest.head? ≠ some '>' then none else pure (⟨"", suffix⟩, c.next)
    | _ => do
      let (handle, closed, c) ← readHandle c
      if closed ∧ handle ≠ "!" then
        let (suffix, c) ← readUri false c
        if suffix.isEmpty then none else pure (⟨handle, suffix⟩, c)
      else
        let (rest, c) ← readUri false c
        let suffix := String.ofList (handle.toList.drop 1) ++ rest
        pure (if suffix.isEmpty then ⟨"", "!"⟩ else ⟨"!", suffix⟩, c)
  if endsWord c.rest ∨ (flow ∧ c.rest.head? = some ',') then return (tag, c) else none

end TagName

namespace Directive

/-- Reads a number of at most nine digits. -/
def readNumber (c : Cursor) : Option (Nat × Cursor) := do
  let (digits, c) := c.takeWhile Char.isDigit
  if 9 < digits.length then none
  else
    let n ← Text.numberOf? 10 digits
    return (n, c)

/-- Reads a directive and its line; the cursor stands at the percent sign. -/
def read (c : Cursor) : Option (Directive × Cursor) := do
  let (name, c) := c.next.takeWhile isWordChar
  if endsWord c.rest = false then none
  else
    let c := c.skipBlanks
    let (directive, c) ←
      if name = ['Y', 'A', 'M', 'L'] then do
        let (major, c) ← readNumber c
        if c.rest.head? ≠ some '.' then none
        else
          let (minor, c) ← readNumber c.next
          pure (Directive.version major minor, c)
      else if name = ['T', 'A', 'G'] then do
        let (handle, closed, c) ← TagName.readHandle c
        if closed ∧ c.rest.head?.any isBlank then
          let (meaning, c) ← TagName.readUri true c.skipBlanks
          if meaning.isEmpty ∨ endsWord c.rest = false then none
          else pure (Directive.tag handle meaning, c)
        else none
      else none
    let c := c.skipBlanks.skipComment
    if endsLine c.rest then return (directive, c.nextLine) else none

end Directive

end Verdict.Yaml
