import Verdict.Text.Parts
import Verdict.Yaml.Text

/-!
# Scalars

The texts of plain, quoted and block scalars. Every reader takes what stands at its cursor and gives
the text together with the cursor behind it; `none` is a scalar that cannot be read.
-/

namespace Verdict.Yaml

namespace Scalar

/-! ## Quoted scalars -/

/-- The character that a letter behind a backslash stands for. -/
def unescaped? (c : Char) : Option Char :=
  match c with
  | '0' => some '\x00'
  | 'a' => some '\x07'
  | 'b' => some '\x08'
  | 't' | '\t' => some '\t'
  | 'n' => some '\n'
  | 'v' => some '\x0b'
  | 'f' => some '\x0c'
  | 'r' => some '\x0d'
  | 'e' => some '\x1b'
  | ' ' => some ' '
  | '"' => some '"'
  | '/' => some '/'
  | '\\' => some '\\'
  | 'N' => some (Char.ofNat 0x85)
  | '_' => some (Char.ofNat 0xa0)
  | 'L' => some (Char.ofNat 0x2028)
  | 'P' => some (Char.ofNat 0x2029)
  | _ => none

/-- How many hexadecimal digits follow a letter behind a backslash. -/
def codeLength? (c : Char) : Option Nat :=
  match c with
  | 'x' => some 2
  | 'u' => some 4
  | 'U' => some 8
  | _ => none

/-- The character of a code in hexadecimal digits. -/
def ofCode? (length : Nat) (digits : List Char) : Option Char := do
  let n ← if digits.length = length then Text.numberOf? 16 digits else none
  if (0xd800 ≤ n ∧ n ≤ 0xdfff) ∨ 0x10ffff < n then none else return Char.ofNat n

/-- Reads an escape; the cursor stands at the backslash. -/
def readEscape (c : Cursor) : Option (Char × Cursor) :=
  match c.rest.drop 1 with
  | [] => none
  | letter :: rest =>
    match codeLength? letter with
    | some length => (ofCode? length (rest.take length)).map (·, c.skip (length + 2))
    | none => (unescaped? letter).map (·, c.skip 2)

/-- Reads up to the closing quote; `taken` is what was read, backwards. -/
def readQuoted (single : Bool) : Nat → List Char → Cursor → Option (List Char × Cursor)
  | 0, _, _ => none
  | fuel + 1, taken, c =>
    if c.atDocumentMarker then none
    else
      match c.rest with
      | [] => none
      | b :: rest =>
        if single && b == '\'' then
          if rest.head? = some '\'' then readQuoted single fuel ('\'' :: taken) (c.skip 2)
          else some (taken.reverse, c.next)
        else if !single && b == '"' then some (taken.reverse, c.next)
        else if !single && b == '\\' then
          if rest.head?.any isBreak then
            match Gap.extend 0 { broken := true } c.next.nextLine.rest c.next.nextLine.mark with
            | none => none
            | some (gap, c) => readQuoted single fuel (gap.text.reverse ++ taken) c
          else
            match readEscape c with
            | none => none
            | some (e, c) => readQuoted single fuel (e :: taken) c
        else if isBlank b || isBreak b then
          match Gap.extend 0 {} c.rest c.mark with
          | none => none
          | some (gap, c) => readQuoted single fuel (gap.text.reverse ++ taken) c
        else readQuoted single fuel (b :: taken) c.next

/-- Reads a quoted scalar from its opening quote on. -/
def quoted (single : Bool) (c : Cursor) : Option (List Char × Cursor) :=
  readQuoted single (c.rest.length + 1) [] c.next

/-! ## Plain scalars -/

def isFlowMark (c : Char) : Bool :=
  c == ',' || c == '[' || c == ']' || c == '\x7b' || c == '\x7d'

/-- Whether a plain scalar ends before what comes next on its line. -/
def endsPlain (flow : Bool) (rest : List Char) : Bool :=
  match rest with
  | ':' :: rest => endsWord rest
  | c :: _ => flow && isFlowMark c
  | [] => true

/-- A colon before a mark of a flow collection, where it is neither a key's end nor text. -/
def isStrayColon (flow : Bool) (rest : List Char) : Bool :=
  match rest with
  | ':' :: c :: _ => flow && (isFlowMark c || c == '?')
  | _ => false

/-- Takes the characters of a plain scalar up to a blank, a line break or its end. -/
def plainWord (flow : Bool) (taken : List Char) : List Char → Mark → Option (List Char × Cursor)
  | [], mark => some (taken, ⟨[], mark⟩)
  | c :: rest, mark =>
    if isBlank c || isBreak c then some (taken, ⟨c :: rest, mark⟩)
    else if isStrayColon flow (c :: rest) then none
    else if endsPlain flow (c :: rest) then some (taken, ⟨c :: rest, mark⟩)
    else plainWord flow (c :: taken) rest mark.next

/-- A plain scalar, where it ends, where reading goes on, and whether a line break was passed. -/
structure Plain where
  text : List Char
  stop : Mark
  after : Cursor
  broken : Bool

/-- Reads words and the gaps between them; `gap` is the gap before what comes next. -/
def readPlain (flow : Bool) (indent : Nat) : Nat → List Char → Mark → Gap → Cursor → Option Plain
  | 0, _, _, _, _ => none
  | fuel + 1, taken, stop, gap, c =>
    if c.atDocumentMarker || c.rest.head? = some '#' then some ⟨taken.reverse, stop, c, gap.broken⟩
    else
      match plainWord flow [] c.rest c.mark with
      | none => none
      | some ([], c) => some ⟨taken.reverse, stop, c, gap.broken⟩
      | some (word, c) =>
        let taken := word ++ gap.text.reverse ++ taken
        if c.rest.head?.any fun b => isBlank b || isBreak b then
          match Gap.extend indent {} c.rest c.mark with
          | none => none
          | some (gap, after) =>
            if !flow && after.mark.column < indent then
              some ⟨taken.reverse, c.mark, after, gap.broken⟩
            else readPlain flow indent fuel taken c.mark gap after
        else some ⟨taken.reverse, c.mark, c, false⟩

/-- Reads a plain scalar; its further lines stand right of `indent - 1` outside flow collections. -/
def plain (flow : Bool) (indent : Nat) (c : Cursor) : Option Plain :=
  readPlain flow indent (c.rest.length + 1) [] c.mark {} c

/-! ## Block scalars -/

/-- What is kept of the line breaks at the end. -/
inductive Chomp
  | strip
  | clip
  | keep
deriving DecidableEq, Repr, Inhabited

/-- Reads the indicators behind the mark of a block scalar: in either order the chomping and the
indentation, which is not zero. -/
def blockHeader (c : Cursor) : Option (Chomp × Option Nat × Cursor) :=
  let chomp? (c : Cursor) : Option Chomp :=
    match c.rest.head? with
    | some '+' => some .keep
    | some '-' => some .strip
    | _ => none
  let digit? (c : Cursor) : Option Nat := c.rest.head?.bind (Text.digitOf? 10)
  match chomp? c, digit? c with
  | some chomp, _ =>
    match digit? c.next with
    | none => some (chomp, none, c.next)
    | some 0 => none
    | some n => some (chomp, some n, c.skip 2)
  | none, none => some (.clip, none, c)
  | none, some 0 => none
  | none, some n =>
    match chomp? c.next with
    | none => some (.clip, some n, c.next)
    | some chomp => some (chomp, some n, c.skip 2)

/-- Passes over indentation and empty lines. `indent` is the indentation if it is known already, and
`widest` the widest seen so far; the breaks are given in their order. -/
def blockBreaks (indent : Option Nat) (widest : Nat) (breaks : List Char) :
    List Char → Mark → Option (Nat × List Char × Cursor)
  | [], mark => some (max widest mark.column, breaks, ⟨[], mark⟩)
  | '\x0d' :: '\n' :: rest, mark =>
    blockBreaks indent (max widest mark.column) (breaks ++ ['\n']) rest (mark.nextLine 2)
  | c :: rest, mark =>
    let inside := indent.all (mark.column < ·)
    if c == ' ' && inside then blockBreaks indent widest breaks rest mark.next
    else if c == '\t' && inside then none
    else if isBreak c then
      blockBreaks indent (max widest mark.column) (breaks ++ [breakText c]) rest (mark.nextLine 1)
    else some (max widest mark.column, breaks, ⟨c :: rest, mark⟩)

/-- Reads the lines of a block scalar: `first` is the line break behind the last line, `more` are
the breaks of empty lines behind it, and `spaced` says whether the last line starts with a blank. -/
def blockLines (literal : Bool) (indent : Nat) : Nat → List Char → List Char → List Char → Bool →
    Cursor → Option (List Char × List Char × List Char × Cursor)
  | 0, _, _, _, _, _ => none
  | fuel + 1, taken, first, more, spaced, c =>
    if c.mark.column = indent ∧ c.rest ≠ [] then
      let starts := c.rest.head?.any isBlank
      let folds := !literal && first == ['\n'] && !spaced && !starts
      let joint := if folds then (if more.isEmpty then [' '] else []) else first
      let (line, c) := c.takeWhile fun _ => true
      let first := c.breakChars
      let c := c.nextLine
      match blockBreaks (some indent) 0 [] c.rest c.mark with
      | none => none
      | some (_, breaks, c) =>
        blockLines literal indent fuel (taken ++ joint ++ more ++ line) first breaks starts c
    else some (taken, first, more, c)

/-- Reads a block scalar from its mark on, inside a block of some indentation. -/
def block (literal : Bool) (parent : Int) (c : Cursor) : Option (List Char × Cursor) := do
  let (chomp, increment, c) ← blockHeader c.next
  let c := c.skipBlanks.skipComment
  if endsLine c.rest = false then none
  else
    let c := c.nextLine
    let base := max parent 0
    let (widest, breaks, c) ←
      blockBreaks (increment.map fun n => (base + n).toNat) 0 [] c.rest c.mark
    let indent := match increment with
      | some n => (base + n).toNat
      | none => max widest (max (parent + 1) 1).toNat
    let (text, first, more, c) ←
      blockLines literal indent (c.rest.length + 1) [] [] breaks false c
    return (match chomp with
      | .strip => text
      | .clip => text ++ first
      | .keep => text ++ first ++ more, c)

end Scalar

end Verdict.Yaml
