import Verdict.Calendar.Instant
import Verdict.Text.Blank

/-!
# Reading dates and times

Four forms are read: a strict date-time with an offset from universal time, a date-time without
offset with `T` or with blanks between date and time, and a date. In the last three numbers may be
shorter than usual and may follow blanks, and a year may have a sign and then any number of digits.
-/

namespace Verdict.Calendar

/-- What was read, and the rest of the text. -/
abbrev Scan (α : Type) := List Char → Option (α × List Char)

def isDigit (c : Char) : Bool := '0' ≤ c && c ≤ '9'

def digitValue (c : Char) : Nat := c.toNat - 48

/-- Takes at most `most` digits onto `value`. -/
def takeDigits : (most value : Nat) → List Char → Nat × List Char
  | 0, value, cs => (value, cs)
  | _ + 1, value, [] => (value, [])
  | most + 1, value, c :: cs =>
    if isDigit c then takeDigits most (value * 10 + digitValue c) cs else (value, c :: cs)

/-- A number of at least one and at most `most` digits. -/
def number (most : Nat) : Scan Nat
  | [] => none
  | c :: cs => if isDigit c then some (takeDigits most 0 (c :: cs)) else none

def literal (expected : Char) : Scan Unit
  | [] => none
  | c :: cs => if c = expected then some ((), cs) else none

/-- A point and digits, of which nine count; no point is no fraction. -/
def fraction : Scan Nat
  | '.' :: cs =>
    match number 9 cs with
    | none => none
    | some (value, rest) =>
      some (value * 10 ^ (9 - (cs.length - rest.length)), rest.dropWhile isDigit)
  | cs => some (0, cs)

/-! ## The strict form -/

/-- A number of exactly `count` digits. -/
def exactly (count : Nat) : Scan Nat := fun cs =>
  if (cs.take count).length = count ∧ (cs.take count).all isDigit then
    some (takeDigits count 0 cs)
  else none

/-- Seconds ahead of universal time: `Z`, or a sign, hours, a colon and minutes. -/
def offset : Scan Int
  | [] => none
  | c :: cs =>
    if c = 'Z' ∨ c = 'z' then some (0, cs)
    else if c = '+' ∨ c = '-' ∨ c = '\u2212' then do
      let (hours, cs) ← exactly 2 cs
      let ((), cs) ← literal ':' cs
      let (minutes, cs) ← exactly 2 cs
      if hours ≤ 23 ∧ minutes ≤ 59 then
        let seconds : Int := (hours * 3600 + minutes * 60 : Nat)
        some (if c = '+' then seconds else -seconds, cs)
      else none
    else none

def separator : Scan Unit
  | [] => none
  | c :: cs => if c = 'T' ∨ c = 't' ∨ c = ' ' then some ((), cs) else none

/-- The instant of a date and a time that exist. -/
def instant? (year : Int) (month day : Nat) (time : TimeOfDay) (offset : Int) : Option Instant := do
  let date ← Date.ofFields? year month day
  if time.isValid then some (.ofCivil date time offset) else none

/-- A date-time in fixed widths with an offset. -/
def strict (cs : List Char) : Option Instant := do
  let (year, cs) ← exactly 4 cs
  let ((), cs) ← literal '-' cs
  let (month, cs) ← exactly 2 cs
  let ((), cs) ← literal '-' cs
  let (day, cs) ← exactly 2 cs
  let ((), cs) ← separator cs
  let (hour, cs) ← exactly 2 cs
  let ((), cs) ← literal ':' cs
  let (minute, cs) ← exactly 2 cs
  let ((), cs) ← literal ':' cs
  let (second, cs) ← exactly 2 cs
  let (nanos, cs) ← fraction cs
  let (offset, cs) ← offset cs
  if cs.isEmpty then instant? year month day ⟨hour, minute, second, nanos⟩ offset else none

/-! ## The other forms -/

/-- A number of one or two digits behind blanks. -/
def short : Scan Nat := fun cs => number 2 (cs.dropWhile Text.isBlank)

/-- A year behind blanks: up to four digits, or a sign and any number of digits. -/
def year : Scan Int := fun cs =>
  match cs.dropWhile Text.isBlank with
  | '-' :: cs => (number cs.length cs).map fun (n, rest) => (-(n : Int), rest)
  | '+' :: cs => (number cs.length cs).map fun (n, rest) => ((n : Int), rest)
  | cs => (number 4 cs).map fun (n, rest) => ((n : Int), rest)

def date : Scan (Int × Nat × Nat) := fun cs => do
  let (year, cs) ← year cs
  let ((), cs) ← literal '-' cs
  let (month, cs) ← short cs
  let ((), cs) ← literal '-' cs
  let (day, cs) ← short cs
  some ((year, month, day), cs)

def time : Scan TimeOfDay := fun cs => do
  let (hour, cs) ← short cs
  let ((), cs) ← literal ':' cs
  let (minute, cs) ← short cs
  let ((), cs) ← literal ':' cs
  let (second, cs) ← short cs
  let (nanos, cs) ← fraction cs
  some (⟨hour, minute, second, nanos⟩, cs)

/-- A date and a time with `between` between them. -/
def dateTime (between : Scan Unit) (cs : List Char) : Option Instant := do
  let ((year, month, day), cs) ← date cs
  let ((), cs) ← between cs
  let (time, cs) ← time cs
  if cs.isEmpty then instant? year month day time 0 else none

def blanks : Scan Unit := fun cs => some ((), cs.dropWhile Text.isBlank)

/-- A date alone is the beginning of its day. -/
def dateOnly (cs : List Char) : Option Instant := do
  let ((year, month, day), cs) ← date cs
  if cs.isEmpty then instant? year month day .midnight 0 else none

/-- The four forms in the order in which they are tried. -/
def forms : List (List Char → Option Instant) :=
  [strict, dateTime (literal 'T'), dateTime blanks, dateOnly]

end Verdict.Calendar

namespace Verdict

/-- The instant that a text names, blanks at its ends aside. -/
def Instant.read? (text : String) : Option Instant :=
  Calendar.forms.findSome? (· (Text.trimList text.toList))

end Verdict
