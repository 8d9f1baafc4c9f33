import Verdict.Document.Basic

/-!
# Reading JSON texts

A text is read into a document. A part that cannot be read leaves a flaw in its place, and reading
goes on behind it if the part can be passed over, which asks for less: numbers out of range, lone
surrogates and deep nesting can be passed over but not read.
-/

namespace Verdict.Json

/-- What is left of a text, and the number of bytes before it. -/
structure Cursor where
  rest : List UInt8
  offset : Nat
deriving Inhabited

namespace Cursor

def skipBlanks : List UInt8 → Nat → Cursor
  | [], offset => ⟨[], offset⟩
  | b :: rest, offset =>
    if b == 0x20 || b == 0x0a || b == 0x09 || b == 0x0d then skipBlanks rest (offset + 1)
    else ⟨b :: rest, offset⟩

def blanks (c : Cursor) : Cursor := skipBlanks c.rest c.offset

/-- A defect at the byte that comes next. -/
def ahead (c : Cursor) (defect : Defect) : Flaw :=
  ⟨defect, if c.rest.isEmpty then c.offset else c.offset + 1⟩

/-- A defect at the byte before. -/
def behind (c : Cursor) (defect : Defect) : Flaw := ⟨defect, c.offset⟩

end Cursor

def isDigit (b : UInt8) : Bool := 0x30 ≤ b && b ≤ 0x39

def digitValue (b : UInt8) : Nat := (b - 0x30).toNat

/-! ## Words -/

/-- Reads the bytes of a word. -/
def readWord : List UInt8 → Cursor → Except Flaw Cursor
  | [], c => .ok c
  | w :: word, c =>
    match c.rest with
    | [] => .error (c.behind .endInValue)
    | b :: rest =>
      let c : Cursor := ⟨rest, c.offset + 1⟩
      if b == w then readWord word c else .error (c.behind .expectedWord)

/-! ## Numbers -/

/-- Passes over digits. -/
def skipDigits : List UInt8 → Nat → Cursor
  | [], offset => ⟨[], offset⟩
  | b :: rest, offset => if isDigit b then skipDigits rest (offset + 1) else ⟨b :: rest, offset⟩

/-- Takes digits onto `value` as long as the value stays at most `limit`; also says whether a digit
was left because of the limit. -/
def takeDigits (limit value : Nat) : List UInt8 → Nat → Nat × Cursor × Bool
  | [], offset => (value, ⟨[], offset⟩, false)
  | b :: rest, offset =>
    if isDigit b then
      let next := value * 10 + digitValue b
      if limit < next then (value, ⟨b :: rest, offset⟩, true)
      else takeDigits limit next rest (offset + 1)
    else (value, ⟨b :: rest, offset⟩, false)

/-- The power of ten that scales a significand, as a double precision number. -/
def powerOfTen (n : Nat) : Binary64 := (Binary64.ofRatio? false (10 ^ n) 1).getD (.zero false)

/-- Scales by a power of ten, rounding at each step: powers up to `10^308` in one step, smaller
numbers by repeated division. `none` is overflow. -/
def scaleByTen : Nat → Binary64 → Int → Option Binary64
  | 0, x, _ => some (.zero x.negative)
  | fuel + 1, x, exponent =>
    if exponent.natAbs ≤ 308 then
      if 0 ≤ exponent then x.mul? (powerOfTen exponent.natAbs)
      else x.div? (powerOfTen exponent.natAbs)
    else if x.isZero then some x
    else if 0 ≤ exponent then none
    else
      match x.div? (powerOfTen 308) with
      | none => none
      | some x => scaleByTen fuel x (exponent + 308)

/-- The number `± significand · 10^exponent`. -/
def realOf (negative : Bool) (significand : Nat) (exponent : Int) (c : Cursor) :
    Except Flaw (Number × Cursor) :=
  let start := (Binary64.ofRatio? negative significand 1).getD (.zero negative)
  match scaleByTen 4 start exponent with
  | some x => .ok (.real x, c)
  | none => .error (c.behind .numberOutOfRange)

/-- Reads an exponent; the cursor stands before its letter. -/
def readExponent (negative : Bool) (significand : Nat) (exponent : Int) (c : Cursor) :
    Except Flaw (Number × Cursor) :=
  let rest := c.rest.drop 1
  let offset := c.offset + 1
  let (down, digits, offset) := match rest with
    | 0x2b :: rest => (false, rest, offset + 1)
    | 0x2d :: rest => (true, rest, offset + 1)
    | rest => (false, rest, offset)
  match digits with
  | [] => .error ⟨.endInValue, offset⟩
  | b :: _ =>
    if isDigit b then
      match takeDigits (2 ^ 31 - 1) 0 digits offset with
      | (_, c, true) =>
        if significand ≠ 0 ∧ down = false then .error ⟨.numberOutOfRange, c.offset + 1⟩
        else .ok (.real (.zero negative), skipDigits c.rest c.offset)
      | (value, c, false) =>
        realOf negative significand (if down then exponent - value else exponent + value) c
    else .error ⟨.invalidNumber, offset + 1⟩

def endsInExponent (c : Cursor) : Bool :=
  match c.rest with
  | b :: _ => b == 0x65 || b == 0x45
  | [] => false

/-- Ends a number that cannot be an integer any more. -/
def readScaled (negative : Bool) (significand : Nat) (exponent : Int) (c : Cursor) :
    Except Flaw (Number × Cursor) :=
  if endsInExponent c then readExponent negative significand exponent c
  else realOf negative significand exponent c

/-- Reads the digits behind a point; the cursor stands before the point. Digits that do not fit a
significand of 64 bits are passed over. -/
def readFraction (negative : Bool) (significand : Nat) (exponent : Int) (c : Cursor) :
    Except Flaw (Number × Cursor) :=
  let start := c.offset + 1
  match takeDigits (2 ^ 64 - 1) significand (c.rest.drop 1) start with
  | (value, c, true) =>
    readScaled negative value (exponent - (c.offset - start : Nat)) (skipDigits c.rest c.offset)
  | (value, c, false) =>
    if c.offset = start then
      .error (c.ahead (if c.rest.isEmpty then .endInValue else .invalidNumber))
    else readScaled negative value (exponent - (c.offset - start : Nat)) c

/-- The number that ends with its whole part. -/
def wholeNumber (negative : Bool) (significand : Nat) : Number :=
  if negative then
    if significand = 0 ∨ 2 ^ 63 < significand then
      .real ((Binary64.ofRatio? true significand 1).getD (.zero true))
    else .integer (-(significand : Int))
  else .integer significand

/-- Reads a number behind its sign. -/
def readNumber (negative : Bool) (c : Cursor) : Except Flaw (Number × Cursor) :=
  match c.rest with
  | [] => .error (c.behind .endInValue)
  | b :: rest =>
    if isDigit b = false then .error ⟨.invalidNumber, c.offset + 1⟩
    else if b == 0x30 && (rest.head?.any isDigit) then .error ⟨.invalidNumber, c.offset + 2⟩
    else
      match takeDigits (2 ^ 64 - 1) 0 c.rest c.offset with
      | (value, c, true) =>
        let after := skipDigits c.rest c.offset
        let exponent : Int := (after.offset - c.offset : Nat)
        match after.rest with
        | 0x2e :: _ => readFraction negative value exponent after
        | _ => readScaled negative value exponent after
      | (value, c, false) =>
        match c.rest with
        | 0x2e :: _ => readFraction negative value 0 c
        | _ =>
          if endsInExponent c then readExponent negative value 0 c
          else .ok (wholeNumber negative value, c)

/-- Passes over a number behind its sign. -/
def skipNumber (c : Cursor) : Except Flaw Cursor :=
  let skipExponent (c : Cursor) : Except Flaw Cursor :=
    let rest := c.rest.drop 1
    let offset := c.offset + 1
    let (digits, offset) := match rest with
      | 0x2b :: rest | 0x2d :: rest => (rest, offset + 1)
      | rest => (rest, offset)
    match digits with
    | [] => .error ⟨.invalidNumber, offset⟩
    | b :: rest =>
      if isDigit b then .ok (skipDigits rest (offset + 1)) else .error ⟨.invalidNumber, offset + 1⟩
  let skipRest (c : Cursor) : Except Flaw Cursor :=
    if endsInExponent c then skipExponent c
    else
      match c.rest with
      | 0x2e :: rest =>
        let after := skipDigits rest (c.offset + 1)
        if after.offset = c.offset + 1 then .error (after.ahead .invalidNumber)
        else if endsInExponent after then skipExponent after
        else .ok after
      | _ => .ok c
  match c.rest with
  | [] => .error (c.behind .invalidNumber)
  | b :: rest =>
    if isDigit b = false then .error ⟨.invalidNumber, c.offset + 1⟩
    else if b == 0x30 then
      if rest.head?.any isDigit then .error ⟨.invalidNumber, c.offset + 2⟩
      else skipRest ⟨rest, c.offset + 1⟩
    else skipRest (skipDigits rest (c.offset + 1))

/-! ## Strings -/

def hexValue? (b : UInt8) : Option Nat :=
  if isDigit b then some (digitValue b)
  else if 0x61 ≤ b && b ≤ 0x66 then some ((b - 0x61).toNat + 10)
  else if 0x41 ≤ b && b ≤ 0x46 then some ((b - 0x41).toNat + 10)
  else none

def hexOf? (a b c d : UInt8) : Option Nat := do
  some ((((← hexValue? a) * 16 + (← hexValue? b)) * 16 + (← hexValue? c)) * 16 + (← hexValue? d))

/-- The byte that a letter behind a backslash stands for. -/
def unescaped? (b : UInt8) : Option UInt8 :=
  if b == 0x22 || b == 0x5c || b == 0x2f then some b
  else if b == 0x62 then some 0x08
  else if b == 0x66 then some 0x0c
  else if b == 0x6e then some 0x0a
  else if b == 0x72 then some 0x0d
  else if b == 0x74 then some 0x09
  else none

/-- Puts the bytes of a character in front of bytes that are kept backwards. -/
def pushChar (n : Nat) (taken : List UInt8) : List UInt8 :=
  (String.singleton (Char.ofNat n)).toUTF8.data.toList.reverse ++ taken

/-- Reads up to the closing quote; `taken` holds the bytes read so far, backwards. -/
def readString (taken : List UInt8) (offset : Nat) : List UInt8 → Except Flaw (String × Cursor)
  | [] => .error ⟨.endInString, offset⟩
  | 0x22 :: rest =>
    match String.fromUTF8? taken.reverse.toByteArray with
    | some s => .ok (s, ⟨rest, offset + 1⟩)
    | none => .error ⟨.invalidCodePoint, offset⟩
  | 0x5c :: 0x75 :: a :: b :: c :: d :: rest =>
    match hexOf? a b c d with
    | none => .error ⟨.invalidEscape, offset + 6⟩
    | some n =>
      if 0xdc00 ≤ n ∧ n ≤ 0xdfff then .error ⟨.loneSurrogate, offset + 6⟩
      else if n < 0xd800 ∨ 0xdbff < n then readString (pushChar n taken) (offset + 6) rest
      else
        match rest with
        | [] => .error ⟨.endInString, offset + 6⟩
        | 0x5c :: [] => .error ⟨.endInString, offset + 7⟩
        | 0x5c :: 0x75 :: a :: b :: c :: d :: rest =>
          match hexOf? a b c d with
          | none => .error ⟨.invalidEscape, offset + 12⟩
          | some m =>
            if m < 0xdc00 ∨ 0xdfff < m then .error ⟨.loneSurrogate, offset + 12⟩
            else
              readString (pushChar (0x10000 + (n - 0xd800) * 0x400 + (m - 0xdc00)) taken)
                (offset + 12) rest
        | 0x5c :: 0x75 :: rest => .error ⟨.endInString, offset + 8 + rest.length⟩
        | 0x5c :: _ :: _ => .error ⟨.endOfHexEscape, offset + 8⟩
        | _ :: _ => .error ⟨.endOfHexEscape, offset + 7⟩
  | 0x5c :: 0x75 :: rest => .error ⟨.endInString, offset + 2 + rest.length⟩
  | 0x5c :: [] => .error ⟨.endInString, offset + 1⟩
  | 0x5c :: b :: rest =>
    match unescaped? b with
    | some b => readString (b :: taken) (offset + 2) rest
    | none => .error ⟨.invalidEscape, offset + 2⟩
  | b :: rest =>
    if b < 0x20 then .error ⟨.controlCharacter, offset + 1⟩
    else readString (b :: taken) (offset + 1) rest

/-- Passes over a string up to the closing quote. -/
def skipString (offset : Nat) : List UInt8 → Except Flaw Cursor
  | [] => .error ⟨.endInString, offset⟩
  | 0x22 :: rest => .ok ⟨rest, offset + 1⟩
  | 0x5c :: 0x75 :: a :: b :: c :: d :: rest =>
    match hexOf? a b c d with
    | none => .error ⟨.invalidEscape, offset + 6⟩
    | some _ => skipString (offset + 6) rest
  | 0x5c :: 0x75 :: rest => .error ⟨.endInString, offset + 2 + rest.length⟩
  | 0x5c :: [] => .error ⟨.endInString, offset + 1⟩
  | 0x5c :: b :: rest =>
    match unescaped? b with
    | some _ => skipString (offset + 2) rest
    | none => .error ⟨.invalidEscape, offset + 2⟩
  | b :: rest =>
    if b < 0x20 then .error ⟨.controlCharacter, offset⟩ else skipString (offset + 1) rest

/-! ## Passing over values -/

/-- Passes over a word, a number or a string; `none` stands for an opening bracket. -/
def skipScalar (b : UInt8) (c : Cursor) : Option (Except Flaw Cursor) :=
  let behind : Cursor := ⟨c.rest.drop 1, c.offset + 1⟩
  if b == 0x6e then some (readWord [0x75, 0x6c, 0x6c] behind)
  else if b == 0x74 then some (readWord [0x72, 0x75, 0x65] behind)
  else if b == 0x66 then some (readWord [0x61, 0x6c, 0x73, 0x65] behind)
  else if b == 0x2d then some (skipNumber behind)
  else if isDigit b then some (skipNumber c)
  else if b == 0x22 then some (skipString behind.offset behind.rest)
  else if b == 0x5b || b == 0x7b then none
  else some (.error (c.ahead .expectedValue))

mutual

/-- Passes over a value inside brackets; `true` in `open` is a brace. -/
def skipValue (fuel : Nat) (stack : List Bool) (c : Cursor) : Except Flaw Cursor :=
  match fuel with
  | 0 => .error (c.ahead .endInValue)
  | fuel + 1 =>
    let c := c.blanks
    match c.rest with
    | [] => .error (c.ahead .endInValue)
    | b :: rest =>
      match skipScalar b c with
      | some (.error flaw) => .error flaw
      | some (.ok c) =>
        match stack with
        | [] => .ok c
        | brace :: outer => skipAfter fuel brace outer true c
      | none => skipAfter fuel (b == 0x7b) stack false ⟨rest, c.offset + 1⟩

/-- Goes on inside the innermost bracket; a comma or the closing bracket comes next, or the first
item. -/
def skipAfter (fuel : Nat) (brace : Bool) (outer : List Bool) (comma : Bool) (c : Cursor) :
    Except Flaw Cursor :=
  match fuel with
  | 0 => .error (c.ahead .endInValue)
  | fuel + 1 =>
    let c := c.blanks
    match c.rest with
    | [] => .error (c.ahead (if brace then .endInObject else .endInArray))
    | b :: rest =>
      if b == 0x2c && comma then skipItem fuel brace outer ⟨rest, c.offset + 1⟩
      else if b == (if brace then 0x7d else 0x5d) then
        match outer with
        | [] => .ok ⟨rest, c.offset + 1⟩
        | brace :: outer => skipAfter fuel brace outer true ⟨rest, c.offset + 1⟩
      else if comma then
        .error (c.ahead (if brace then .expectedObjectEnd else .expectedArrayEnd))
      else skipItem fuel brace outer c

/-- Passes over an item, and over its key first inside a brace. -/
def skipItem (fuel : Nat) (brace : Bool) (outer : List Bool) (c : Cursor) : Except Flaw Cursor :=
  match fuel with
  | 0 => .error (c.ahead .endInValue)
  | fuel + 1 =>
    if brace then
      let c := c.blanks
      match c.rest with
      | 0x22 :: rest =>
        match skipString (c.offset + 1) rest with
        | .error flaw => .error flaw
        | .ok c =>
          let c := c.blanks
          match c.rest with
          | 0x3a :: rest => skipValue fuel (brace :: outer) ⟨rest, c.offset + 1⟩
          | [] => .error (c.ahead .endInObject)
          | _ => .error (c.ahead .expectedColon)
      | [] => .error (c.ahead .endInObject)
      | _ => .error (c.ahead .keyNotString)
    else skipValue fuel (brace :: outer) c

end

/-- Passes over the value that comes next. -/
def skip (c : Cursor) : Except Flaw Cursor := skipValue (3 * c.rest.length + 3) [] c

/-! ## Reading values -/

/-- A document, and where the text goes on behind it if the document could be read or passed over.
-/
structure Part (α : Type) where
  content : α
  after : Option Cursor

/-- A scalar that was read, or the flaw in its place. -/
def scalarPart {α : Type} (start : Cursor) (doc : α → Nat → Doc) :
    Except Flaw (α × Cursor) → Part Doc
  | .ok (v, c) => ⟨doc v c.offset, some c⟩
  | .error flaw => ⟨.flawed flaw, (skip start).toOption⟩

/-- Reads a word, a number or a string; `none` stands for an opening bracket. -/
def readScalar (b : UInt8) (c : Cursor) : Option (Part Doc) :=
  let behind : Cursor := ⟨c.rest.drop 1, c.offset + 1⟩
  let word (word : List UInt8) (doc : Nat → Doc) : Part Doc :=
    scalarPart c (fun () stop => doc stop) ((readWord word behind).map fun c => ((), c))
  if b == 0x6e then some (word [0x75, 0x6c, 0x6c] .null)
  else if b == 0x74 then some (word [0x72, 0x75, 0x65] (.bool true))
  else if b == 0x66 then some (word [0x61, 0x6c, 0x73, 0x65] (.bool false))
  else if b == 0x2d then some (scalarPart c .number (readNumber true behind))
  else if isDigit b then some (scalarPart c .number (readNumber false c))
  else if b == 0x22 then some (scalarPart c .string (readString [] behind.offset behind.rest))
  else if b == 0x5b || b == 0x7b then none
  else some ⟨.flawed (c.ahead .expectedValue), none⟩

/-- The offset behind an item: behind the closing bracket, or behind a comma and its blanks. -/
def settledItem (c : Cursor) : Nat :=
  let c := c.blanks
  match c.rest with
  | 0x5d :: _ => c.offset + 1
  | 0x2c :: rest => (Cursor.mk rest (c.offset + 1)).blanks.offset
  | _ => c.offset

/-- The offset behind a member: behind the closing brace, or behind the blanks. -/
def settledMember (c : Cursor) : Nat :=
  let c := c.blanks
  match c.rest with
  | 0x7d :: _ => c.offset + 1
  | _ => c.offset

mutual

/-- Reads the value that comes next; `depth` brackets may still be opened. -/
def readValue (fuel depth : Nat) (c : Cursor) : Part Doc :=
  match fuel with
  | 0 => ⟨.flawed (c.ahead .endInValue), none⟩
  | fuel + 1 =>
    match c.rest with
    | [] => ⟨.flawed (c.ahead .endInValue), none⟩
    | b :: rest =>
      match readScalar b c with
      | some part => part
      | none =>
        match depth with
        | 0 => ⟨.flawed (c.ahead .recursionLimit), (skip c).toOption⟩
        | depth + 1 =>
          let inside : Cursor := ⟨rest, c.offset + 1⟩
          if b == 0x5b then
            let part := readItems fuel depth true inside
            ⟨.array c.offset part.content, part.after⟩
          else
            let part := readMembers fuel depth true inside
            ⟨.map c.offset part.content, part.after⟩

/-- Reads what follows an opening bracket or an item. -/
def readItems (fuel depth : Nat) (first : Bool) (c : Cursor) : Part Items :=
  match fuel with
  | 0 => ⟨.flawed (c.ahead .endInArray), none⟩
  | fuel + 1 =>
    let c := c.blanks
    match c.rest with
    | [] => ⟨.flawed (c.ahead .endInArray), none⟩
    | 0x5d :: rest => ⟨.closed (c.offset + 1), some ⟨rest, c.offset + 1⟩⟩
    | b :: rest =>
      if first then readItem fuel depth c
      else if b == 0x2c then
        let c := (Cursor.mk rest (c.offset + 1)).blanks
        match c.rest with
        | [] => ⟨.flawed (c.ahead .endInValue), none⟩
        | 0x5d :: _ => ⟨.flawed (c.ahead .trailingComma), none⟩
        | _ => readItem fuel depth c
      else ⟨.flawed (c.ahead .expectedArrayEnd), none⟩

/-- Reads an item and those behind it. -/
def readItem (fuel depth : Nat) (c : Cursor) : Part Items :=
  match fuel with
  | 0 => ⟨.flawed (c.ahead .endInArray), none⟩
  | fuel + 1 =>
    let part := readValue fuel depth c
    match part.after with
    | none => ⟨.item c.offset part.content c.offset (.flawed (c.ahead .endInArray)), none⟩
    | some after =>
      let rest := readItems fuel depth false after
      ⟨.item c.offset part.content (settledItem after) rest.content, rest.after⟩

/-- Reads what follows an opening brace or a member. -/
def readMembers (fuel depth : Nat) (first : Bool) (c : Cursor) : Part Members :=
  match fuel with
  | 0 => ⟨.flawed (c.ahead .endInObject), none⟩
  | fuel + 1 =>
    let c := c.blanks
    match c.rest with
    | [] => ⟨.flawed (c.ahead .endInObject), none⟩
    | 0x7d :: rest => ⟨.closed (c.offset + 1), some ⟨rest, c.offset + 1⟩⟩
    | b :: rest =>
      if first then
        if b == 0x22 then readMember fuel depth c else ⟨.flawed (c.ahead .keyNotString), none⟩
      else if b == 0x2c then
        let c := (Cursor.mk rest (c.offset + 1)).blanks
        match c.rest with
        | [] => ⟨.flawed (c.ahead .endInValue), none⟩
        | 0x22 :: _ => readMember fuel depth c
        | 0x7d :: _ => ⟨.flawed (c.ahead .trailingComma), none⟩
        | _ => ⟨.flawed (c.ahead .keyNotString), none⟩
      else ⟨.flawed (c.ahead .expectedObjectEnd), none⟩

/-- Reads a member, at the quote of its key, and those behind it. -/
def readMember (fuel depth : Nat) (c : Cursor) : Part Members :=
  match fuel with
  | 0 => ⟨.flawed (c.ahead .endInObject), none⟩
  | fuel + 1 =>
    match readString [] (c.offset + 1) (c.rest.drop 1) with
    | .error flaw => ⟨.flawed flaw, none⟩
    | .ok (key, c) =>
      let keySettled := settledMember c
      let c := c.blanks
      match c.rest with
      | [] => ⟨.cut (.text key) keySettled (c.ahead .endInObject), none⟩
      | 0x3a :: rest =>
        let c := (Cursor.mk rest (c.offset + 1)).blanks
        let part := readValue fuel depth c
        match part.after with
        | none =>
          let skim := match skip c with
            | .ok _ => none
            | .error flaw => some flaw
          ⟨.member (.text key) keySettled part.content c.offset skim
            (.flawed (c.ahead .endInObject)), none⟩
        | some after =>
          let rest := readMembers fuel depth false after
          ⟨.member (.text key) keySettled part.content (settledMember after) none rest.content,
            rest.after⟩
      | _ => ⟨.cut (.text key) keySettled (c.ahead .expectedColon), none⟩

end

/-- How many brackets may be open at once. -/
def maxDepth : Nat := 127

/-- A text read as a document, and what is wrong behind it. -/
structure Text where
  root : Doc
  trailing : Option Flaw

/-- Reads a text. -/
def Text.ofBytes (bytes : List UInt8) : Text :=
  let part := readValue (3 * bytes.length + 3) maxDepth (Cursor.mk bytes 0).blanks
  match part.after with
  | none => ⟨part.content, none⟩
  | some c =>
    let c := c.blanks
    ⟨part.content, if c.rest.isEmpty then none else some (c.ahead .trailingCharacters)⟩

/-- The line of the place behind some bytes, and the number of bytes before it on that line. -/
def position (bytes : List UInt8) (offset : Nat) : Nat × Nat :=
  let before := bytes.take offset
  (before.count 0x0a + 1, (before.reverse.takeWhile (· != 0x0a)).length)

end Verdict.Json
