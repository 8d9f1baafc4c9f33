import Verdict.Document.Basic
import Verdict.Text.Parts
import Verdict.Yaml.Token

/-!
# The meaning of scalars

A plain scalar means null, a truth value, an integer or a float if it is written like one, and its
own text otherwise. A quoted scalar means its text. A tag of the core schema asks for one type,
which the text may lack.
-/

namespace Verdict.Yaml

inductive Atom
  | null
  | bool (b : Bool)
  | number (n : Number)
  | nonFinite (x : NonFinite)
  | string (s : String)
deriving DecidableEq, Repr, Inhabited

namespace Atom

def doc (start : Nat) : Atom → Doc
  | null => .null start
  | bool b => .bool b start
  | number n => .number n start
  | nonFinite x => .nonFinite x start
  | string s => .string s start

/-! ## Words -/

def isNull (text : String) : Bool := ["~", "null", "Null", "NULL"].contains text

def truth? (text : String) : Option Bool :=
  if ["true", "True", "TRUE"].contains text then some true
  else if ["false", "False", "FALSE"].contains text then some false
  else none

/-! ## Integers -/

def unsigned : List Char → List Char
  | '+' :: rest | '-' :: rest => rest
  | text => text

/-- Digits behind a leading zero, which are no number. -/
def isPadded (text : List Char) : Bool :=
  match unsigned text with
  | '0' :: c :: rest => (c :: rest).all Char.isDigit
  | _ => false

/-- A number without a sign: hexadecimal, octal, binary or decimal. -/
def magnitude? : List Char → Option Nat
  | '0' :: 'x' :: digits => Text.numberOf? 16 digits
  | '0' :: 'o' :: digits => Text.numberOf? 8 digits
  | '0' :: 'b' :: digits => Text.numberOf? 2 digits
  | text => if isPadded text then none else Text.numberOf? 10 text

def integer? : List Char → Option Int
  | '-' :: rest => (magnitude? rest).map fun n => -(n : Int)
  | '+' :: rest => (magnitude? rest).map fun n => (n : Int)
  | rest => (magnitude? rest).map fun n => (n : Int)

/-- Whether an integer can be kept. -/
def isKept (n : Int) : Bool := -2 ^ 63 ≤ n && n < 2 ^ 64

/-- Whether an integer is read as one although it may be too large to be kept. -/
def isRead (n : Int) : Bool := -2 ^ 127 ≤ n && n < 2 ^ 128

/-! ## Floats -/

/-- The exponent that ends a float. -/
def exponent? : List Char → Option Int
  | [] => some 0
  | e :: '-' :: digits =>
    if e == 'e' || e == 'E' then (Text.numberOf? 10 digits).map fun n => -(n : Int) else none
  | e :: '+' :: digits =>
    if e == 'e' || e == 'E' then (Text.numberOf? 10 digits).map fun n => (n : Int) else none
  | e :: digits =>
    if e == 'e' || e == 'E' then (Text.numberOf? 10 digits).map fun n => (n : Int) else none

/-- The number `± digits · 10^exponent`. A number of more than 400 places is out of range on its
side of the point. -/
def scaled? (negative : Bool) (digits : List Char) (exponent : Int) : Option Binary64 :=
  let n := (Text.numberOf? 10 digits).getD 0
  if n = 0 ∨ exponent + digits.length < -400 then some (.zero negative)
  else if digits.length + 400 < exponent then none
  else Binary64.ofDecimal? negative n exponent

/-- Digits with a point among them or none, and an exponent or none. -/
def decimal? (negative : Bool) (text : List Char) : Option Binary64 :=
  let (whole, rest) := text.span Char.isDigit
  let (fraction, rest) := match rest with
    | '.' :: rest => rest.span Char.isDigit
    | rest => ([], rest)
  if whole.isEmpty ∧ fraction.isEmpty then none
  else (exponent? rest).bind fun e => scaled? negative (whole ++ fraction) (e - fraction.length)

def isInfinity (text : String) : Bool := [".inf", ".Inf", ".INF"].contains text

def float? (text : String) : Option Atom :=
  if [".nan", ".NaN", ".NAN"].contains text then some (.nonFinite .notANumber)
  else
    match text.toList with
    | '-' :: rest =>
      if isInfinity (String.ofList rest) then some (.nonFinite (.infinity true))
      else (decimal? true rest).map fun x => .number (.real x)
    | '+' :: rest =>
      if isInfinity (String.ofList rest) then some (.nonFinite (.infinity false))
      else (decimal? false rest).map fun x => .number (.real x)
    | rest =>
      if isInfinity text then some (.nonFinite (.infinity false))
      else (decimal? false rest).map fun x => .number (.real x)

/-! ## Scalars -/

/-- Why a scalar has no meaning: it is an integer that is too large to be kept, or its text is not
of the type that its tag asks for. -/
inductive Misfit
  | wide (n : Int)
  | mistyped (text : String) (expected : String)
deriving DecidableEq, Repr, Inhabited

/-- The integer that a scalar means. -/
def ofInteger (n : Int) : Except Misfit Atom :=
  if isKept n then .ok (.number (.integer n)) else .error (.wide n)

/-- A float or, failing that, the text. -/
def floatOrText (text : String) : Atom :=
  if isPadded text.toList then .string text else (float? text).getD (.string text)

/-- The meaning of a plain scalar. -/
def ofPlain (text : String) : Except Misfit Atom :=
  if text = "" ∨ isNull text then .ok .null
  else
    match truth? text, (integer? text.toList).filter isRead with
    | some b, _ => .ok (.bool b)
    | none, some n => ofInteger n
    | none, none => .ok (floatOrText text)

def core (name : String) : String := "tag:yaml.org,2002:" ++ name

/-- The meaning of a scalar. -/
def ofScalar (text : String) (style : Style) (tag : Option String) : Except Misfit Atom :=
  match tag with
  | none => if style = .plain then ofPlain text else .ok (.string text)
  | some tag =>
    if tag = core "bool" then
      match truth? text with
      | some b => .ok (.bool b)
      | none => .error (.mistyped text "a boolean")
    else if tag = core "int" then
      match (integer? text.toList).filter isRead with
      | some n => ofInteger n
      | none => .error (.mistyped text "an integer")
    else if tag = core "float" then
      match float? text with
      | some x => .ok x
      | none => .error (.mistyped text "a float")
    else if tag = core "null" then
      if isNull text then .ok .null else .error (.mistyped text "null")
    else if tag.toList.head? = some '!' ∧ style = .plain then ofPlain text
    else .ok (.string text)

namespace Misfit

def doc (start : Nat) : Misfit → Doc
  | wide n =>
    .refused (.wrongType (.wide n) "any valid JSON value") (.wrongType (.wide n) "any value") start
  | mistyped text expected =>
    .refused (.wrongValue (.string text) expected) (.wrongValue (.string text) expected) start

end Misfit

end Atom

end Verdict.Yaml
