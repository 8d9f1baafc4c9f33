/-!
# YAML texts

A text is read from left to right under a mark, which counts characters, lines and columns. Line
breaks are carriage returns, line feeds, both together, next lines and the two separators of
Unicode.
-/

namespace Verdict.Yaml

/-- A place in a text. -/
structure Mark where
  offset : Nat
  line : Nat
  column : Nat
deriving DecidableEq, Repr, Inhabited

namespace Mark

def next (mark : Mark) : Mark := { mark with offset := mark.offset + 1, column := mark.column + 1 }

/-- The mark behind a line break of some characters. -/
def nextLine (mark : Mark) (width : Nat) : Mark := ⟨mark.offset + width, mark.line + 1, 0⟩

end Mark

/-- What is left of a text, and the mark before it. -/
structure Cursor where
  rest : List Char
  mark : Mark
deriving Inhabited

/-- Whether a text may hold a character. -/
def isPrintable (c : Char) : Bool :=
  let n := c.toNat
  n == 0x09 || n == 0x0a || n == 0x0d || (0x20 ≤ n && n ≤ 0x7e) || n == 0x85
    || (0xa0 ≤ n && n ≤ 0xd7ff) || (0xe000 ≤ n && n ≤ 0xfffd && n != 0xfeff) || 0x10000 ≤ n

def isBreak (c : Char) : Bool :=
  c == '\n' || c == '\x0d' || c.toNat == 0x85 || c.toNat == 0x2028 || c.toNat == 0x2029

def isBlank (c : Char) : Bool := c == ' ' || c == '\t'

/-- Whether the text ends, or a blank or a line break comes next. -/
def endsWord : List Char → Bool
  | [] => true
  | c :: _ => isBlank c || isBreak c

/-- Whether the line ends. -/
def endsLine : List Char → Bool
  | [] => true
  | c :: _ => isBreak c

def isWordChar (c : Char) : Bool := c.isAlphanum || c == '_' || c == '-'

/-- How a line break is kept: all but the separators become line feeds. -/
def breakText (c : Char) : Char := if c.toNat == 0x2028 || c.toNat == 0x2029 then c else '\n'

namespace Cursor

def start (text : String) : Cursor := ⟨text.toList, ⟨0, 0, 0⟩⟩

/-- Passes over one character that is no line break. -/
def next (c : Cursor) : Cursor := ⟨c.rest.drop 1, c.mark.next⟩

def skip : Nat → Cursor → Cursor
  | 0, c => c
  | n + 1, c => skip n c.next

/-- Passes over a line break, if there is one. -/
def nextLine (c : Cursor) : Cursor :=
  match c.rest with
  | '\x0d' :: '\n' :: rest => ⟨rest, c.mark.nextLine 2⟩
  | b :: rest => if isBreak b then ⟨rest, c.mark.nextLine 1⟩ else c
  | [] => c

/-- The line break that comes next as it is kept. -/
def breakChars (c : Cursor) : List Char :=
  match c.rest with
  | b :: _ => if isBreak b then [breakText b] else []
  | [] => []

def takeWhileFrom (test : Char → Bool) : List Char → Mark → List Char × Cursor
  | [], mark => ([], ⟨[], mark⟩)
  | c :: rest, mark =>
    if test c then
      let (taken, after) := takeWhileFrom test rest mark.next
      (c :: taken, after)
    else ([], ⟨c :: rest, mark⟩)

/-- Takes characters of one line. -/
def takeWhile (test : Char → Bool) (c : Cursor) : List Char × Cursor :=
  takeWhileFrom (fun c => test c && !isBreak c) c.rest c.mark

def skipBlanks (c : Cursor) : Cursor := (c.takeWhile isBlank).2

/-- Passes over a comment, if there is one. -/
def skipComment (c : Cursor) : Cursor :=
  if c.rest.head? = some '#' then (c.takeWhile fun _ => true).2 else c

/-- Whether a marker of a document's start or end comes next. -/
def atDocumentMarker (c : Cursor) : Bool :=
  c.mark.column == 0 &&
    match c.rest with
    | '-' :: '-' :: '-' :: rest => endsWord rest
    | '.' :: '.' :: '.' :: rest => endsWord rest
    | _ => false

end Cursor

/-! ## Gaps

Blanks and line breaks inside a scalar. A gap on one line is kept; of a gap with line breaks the
blanks go, and a single break becomes a blank.
-/

structure Gap where
  blanks : List Char := []
  broken : Bool := false
  first : List Char := []
  more : List Char := []

namespace Gap

def text (gap : Gap) : List Char :=
  if gap.broken then
    if gap.first = ['\n'] then (if gap.more.isEmpty then [' '] else gap.more)
    else gap.first ++ gap.more
  else gap.blanks

def addBlank (c : Char) (gap : Gap) : Gap :=
  if gap.broken then gap else { gap with blanks := gap.blanks ++ [c] }

def addBreak (c : Char) (gap : Gap) : Gap :=
  if gap.broken then { gap with more := gap.more ++ [breakText c] }
  else { gap with broken := true, first := [breakText c] }

/-- Extends a gap as far as it goes. A tab left of `indent` on a line of its own is no indentation.
-/
def extend (indent : Nat) (gap : Gap) : List Char → Mark → Option (Gap × Cursor)
  | [], mark => some (gap, ⟨[], mark⟩)
  | '\x0d' :: '\n' :: rest, mark => extend indent (gap.addBreak '\n') rest (mark.nextLine 2)
  | c :: rest, mark =>
    if isBreak c then extend indent (gap.addBreak c) rest (mark.nextLine 1)
    else if isBlank c then
      if gap.broken && c == '\t' && mark.column < indent then none
      else extend indent (gap.addBlank c) rest mark.next
    else some (gap, ⟨c :: rest, mark⟩)

end Gap

end Verdict.Yaml
