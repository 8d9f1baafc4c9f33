import Verdict.Yaml.Scalar
import Verdict.Yaml.Tag

/-!
# Tokens

A text is cut into tokens. Indentation opens and closes blocks by tokens of its own, and a key that
is not marked by a question mark is recognized only by the colon behind it: its marker is put in
later, in front of the first token of the key.
-/

namespace Verdict.Yaml

/-- How a scalar was written. -/
inductive Style
  | plain
  | quoted
deriving DecidableEq, Repr, Inhabited

inductive TokenKind
  | directive (directive : Directive)
  | documentStart
  | documentEnd
  | blockSequence
  | blockMapping
  | blockEnd
  | flowSequence
  | flowSequenceEnd
  | flowMapping
  | flowMappingEnd
  | blockEntry
  | flowEntry
  | key
  | value
  | alias (name : String)
  | anchor (name : String)
  | tag (tag : TagName)
  | scalar (text : String) (style : Style)
  | streamEnd
deriving DecidableEq, Repr, Inhabited

/-- A token and the offsets before and behind it. -/
structure Token where
  kind : TokenKind
  start : Nat
  stop : Nat
deriving DecidableEq, Repr, Inhabited

/-- A place where a key may have started: how many tokens stand before it, and whether it has to be
a key because of its indentation. -/
structure Candidate where
  index : Nat
  required : Bool
  mark : Mark
deriving Inhabited

structure Lexer where
  tokens : Array Token := #[]
  cursor : Cursor
  /-- The column of the innermost block, or `-1`. -/
  indent : Int := -1
  outer : List Int := []
  /-- One candidate for the innermost collection. -/
  candidate : Option Candidate := none
  /-- Candidates of the collections around the innermost flow collection. -/
  suspended : List (Option Candidate) := []
  keyAllowed : Bool := true

namespace Lexer

def inFlow (s : Lexer) : Bool := !s.suspended.isEmpty

def mark (s : Lexer) : Mark := s.cursor.mark

def push (kind : TokenKind) (start stop : Mark) (s : Lexer) : Lexer :=
  { s with tokens := s.tokens.push ⟨kind, start.offset, stop.offset⟩ }

def insert (index : Nat) (kind : TokenKind) (mark : Mark) (s : Lexer) : Lexer :=
  let token : Token := ⟨kind, mark.offset, mark.offset⟩
  { s with tokens := (s.tokens.extract 0 index).push token ++ s.tokens.extract index s.tokens.size }

/-- Goes on behind a token that was read. -/
def accept (kind : TokenKind) (after : Cursor) (s : Lexer) : Lexer :=
  { s.push kind s.mark after.mark with cursor := after }

/-! ## Candidates -/

/-- Gives a candidate up; a required one must not be given up. -/
def dropCandidate (s : Lexer) : Option Lexer :=
  if s.candidate.any (·.required) then none else some { s with candidate := none }

/-- Notes that a key may start here. -/
def noteCandidate (s : Lexer) : Option Lexer :=
  if s.keyAllowed then do
    let required := !s.inFlow && s.indent == s.mark.column
    let s ← s.dropCandidate
    return { s with candidate := some ⟨s.tokens.size, required, s.mark⟩ }
  else some s

/-- A key ends on its line and within 1024 characters. -/
def isStale (mark : Mark) (candidate : Candidate) : Bool :=
  candidate.mark.line < mark.line || candidate.mark.offset + 1024 < mark.offset

def freshen (mark : Mark) (candidate : Option Candidate) : Option (Option Candidate) :=
  match candidate with
  | none => some none
  | some candidate =>
    if isStale mark candidate then (if candidate.required then none else some none)
    else some (some candidate)

/-- Gives up the candidates that can be no keys any more. -/
def dropStale (s : Lexer) : Option Lexer := do
  let suspended ← s.suspended.mapM (freshen s.mark)
  let candidate ← freshen s.mark s.candidate
  return { s with suspended, candidate }

/-! ## Blocks -/

/-- Opens a block at a column, unless one is open there or a flow collection is; its marker is put
in at `index` if it does not stand last. -/
def openBlock (column : Nat) (index : Option Nat) (kind : TokenKind) (mark : Mark) (s : Lexer) :
    Lexer :=
  if !s.inFlow && s.indent < column then
    let s := { s with outer := s.indent :: s.outer, indent := column }
    match index with
    | some index => s.insert index kind mark
    | none => s.push kind mark mark
  else s

/-- Closes blocks until the innermost one is at most at a column. -/
def closeBlocksFrom (column : Int) : List Int → Lexer → Lexer
  | [], s => s
  | outer :: rest, s =>
    if column < s.indent then
      closeBlocksFrom column rest
        { s.push .blockEnd s.mark s.mark with indent := outer, outer := rest }
    else s

def closeBlocks (column : Int) (s : Lexer) : Lexer :=
  if s.inFlow then s else closeBlocksFrom column s.outer s

/-! ## Blanks between tokens -/

/-- Passes over blanks, comments and line breaks. Tabs are no indentation. -/
def skipBlanks : Nat → Lexer → Lexer
  | 0, s => s
  | fuel + 1, s =>
    let tabs := s.inFlow || !s.keyAllowed
    let c := (s.cursor.takeWhile fun c => c == ' ' || (tabs && c == '\t')).2.skipComment
    if c.rest.head?.any isBreak then
      skipBlanks fuel { s with cursor := c.nextLine, keyAllowed := s.keyAllowed || !s.inFlow }
    else { s with cursor := c }

/-! ## Single tokens -/

/-- Starts a new part of the stream, outside all blocks. -/
def leaveBlocks (s : Lexer) : Option Lexer := do
  let s ← (s.closeBlocks (-1)).dropCandidate
  return { s with keyAllowed := false }

def scanEnd (s : Lexer) : Option Lexer := do
  let mark := s.mark
  let mark := if mark.column = 0 then mark else mark.nextLine 1
  let s ← { s with cursor := ⟨[], mark⟩ }.leaveBlocks
  return s.push .streamEnd mark mark

def scanDirective (s : Lexer) : Option Lexer := do
  let s ← s.leaveBlocks
  let (directive, c) ← Directive.read s.cursor
  return s.accept (.directive directive) c

def scanDocumentMarker (kind : TokenKind) (s : Lexer) : Option Lexer := do
  let s ← s.leaveBlocks
  return s.accept kind (s.cursor.skip 3)

def scanFlowStart (kind : TokenKind) (s : Lexer) : Option Lexer := do
  let s ← s.noteCandidate
  let s := s.accept kind s.cursor.next
  return { s with suspended := s.candidate :: s.suspended, candidate := none, keyAllowed := true }

def scanFlowEnd (kind : TokenKind) (s : Lexer) : Option Lexer := do
  let s ← s.dropCandidate
  let s := { s.accept kind s.cursor.next with keyAllowed := false }
  match s.suspended with
  | [] => return s
  | candidate :: suspended => return { s with suspended, candidate }

def scanFlowEntry (s : Lexer) : Option Lexer := do
  let s ← s.dropCandidate
  return { s.accept .flowEntry s.cursor.next with keyAllowed := true }

/-- Opens a block for a mark that stands where a key could stand. -/
def openBlockHere (kind : TokenKind) (s : Lexer) : Option Lexer :=
  if s.inFlow then some s
  else if s.keyAllowed then some (s.openBlock s.mark.column none kind s.mark)
  else none

def scanBlockEntry (s : Lexer) : Option Lexer := do
  let s ← (← s.openBlockHere .blockSequence).dropCandidate
  return { s.accept .blockEntry s.cursor.next with keyAllowed := true }

def scanKey (s : Lexer) : Option Lexer := do
  let s ← (← s.openBlockHere .blockMapping).dropCandidate
  return { s.accept .key s.cursor.next with keyAllowed := !s.inFlow }

/-- Reads a colon; a candidate before it turns out to be a key. -/
def scanValue (s : Lexer) : Option Lexer := do
  match s.candidate with
  | some candidate =>
    let s := s.insert candidate.index .key candidate.mark
    let s := s.openBlock candidate.mark.column (some candidate.index) .blockMapping candidate.mark
    return { s.accept .value s.cursor.next with candidate := none, keyAllowed := false }
  | none =>
    let s ← s.openBlockHere .blockMapping
    return { s.accept .value s.cursor.next with keyAllowed := !s.inFlow }

/-- Reads the name behind the mark of an anchor or an alias. -/
def scanName (kind : String → TokenKind) (s : Lexer) : Option Lexer := do
  let s ← s.noteCandidate
  let (name, c) := s.cursor.next.takeWhile isWordChar
  let closed := endsWord c.rest
    || c.rest.head?.any (['?', ':', ',', ']', '\x7d', '%', '@', '\x60'].contains ·)
  if name.isEmpty ∨ closed = false then none
  else return { s.accept (kind (String.ofList name)) c with keyAllowed := false }

def scanTag (s : Lexer) : Option Lexer := do
  let s ← s.noteCandidate
  let (tag, c) ← TagName.read s.inFlow s.cursor
  return { s.accept (.tag tag) c with keyAllowed := false }

def scanBlockScalar (literal : Bool) (s : Lexer) : Option Lexer := do
  let s ← s.dropCandidate
  let (text, c) ← Scalar.block literal s.indent s.cursor
  return { s.accept (.scalar (String.ofList text) .quoted) c with keyAllowed := true }

def scanQuoted (single : Bool) (s : Lexer) : Option Lexer := do
  let s ← s.noteCandidate
  let (text, c) ← Scalar.quoted single s.cursor
  return { s.accept (.scalar (String.ofList text) .quoted) c with keyAllowed := false }

def scanPlain (s : Lexer) : Option Lexer := do
  let s ← s.noteCandidate
  let plain ← Scalar.plain s.inFlow (s.indent + 1).toNat s.cursor
  let s := s.push (.scalar (String.ofList plain.text) .plain) s.mark plain.stop
  return { s with cursor := plain.after, keyAllowed := plain.broken }

/-- Characters that start no plain scalar. -/
def isIndicator (c : Char) : Bool :=
  ['-', '?', ':', ',', '[', ']', '\x7b', '\x7d', '#', '&', '*', '!', '|', '>', '\'', '"', '%', '@',
    '\x60'].contains c

def startsPlain (flow : Bool) (c : Char) (rest : List Char) : Bool :=
  !(isBlank c || isBreak c || isIndicator c)
    || (c == '-' && !rest.head?.any isBlank)
    || (!flow && (c == '?' || c == ':') && !endsWord rest)

/-- Reads the token that comes next, which is not the end. -/
def scanToken (c : Char) (rest : List Char) (s : Lexer) : Option Lexer :=
  let flow := s.inFlow
  if s.mark.column = 0 ∧ c = '%' then s.scanDirective
  else if s.cursor.atDocumentMarker then
    s.scanDocumentMarker (if c = '-' then .documentStart else .documentEnd)
  else if c = '[' then s.scanFlowStart .flowSequence
  else if c = '\x7b' then s.scanFlowStart .flowMapping
  else if c = ']' then s.scanFlowEnd .flowSequenceEnd
  else if c = '\x7d' then s.scanFlowEnd .flowMappingEnd
  else if c = ',' then s.scanFlowEntry
  else if c = '-' ∧ endsWord rest then s.scanBlockEntry
  else if c = '?' ∧ (flow ∨ endsWord rest) then s.scanKey
  else if c = ':' ∧ (flow ∨ endsWord rest) then s.scanValue
  else if c = '*' then s.scanName .alias
  else if c = '&' then s.scanName .anchor
  else if c = '!' then s.scanTag
  else if c = '|' ∧ flow = false then s.scanBlockScalar true
  else if c = '>' ∧ flow = false then s.scanBlockScalar false
  else if c = '\'' then s.scanQuoted true
  else if c = '"' then s.scanQuoted false
  else if startsPlain flow c rest then s.scanPlain
  else none

/-- Reads all tokens; every step but the last takes a character. -/
def scan : Nat → Lexer → Option (List Token)
  | 0, _ => none
  | fuel + 1, s => do
    let s ← (s.skipBlanks (s.cursor.rest.length + 1)).dropStale
    let s := s.closeBlocks s.mark.column
    match s.cursor.rest with
    | [] => return (← s.scanEnd).tokens.toList
    | c :: rest => scan fuel (← s.scanToken c rest)

end Lexer

/-- The tokens of a text; `none` if it cannot be cut into tokens. -/
def tokens? (text : String) : Option (List Token) :=
  if text.toList.all isPrintable then
    Lexer.scan (text.toList.length + 1) { cursor := .start text }
  else none

end Verdict.Yaml
