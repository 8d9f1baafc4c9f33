import Verdict.Text.Parts

/-!
# Media types

A media type is a type, a subtype and perhaps a suffix behind a plus sign, all without regard to
case. Parameters are checked and dropped.
-/

namespace Verdict

structure MediaType where
  type : String
  subtype : String
  suffix : Option String
deriving DecidableEq, Repr, Inhabited

namespace MediaType

def isTokenChar (c : Char) : Bool :=
  c.isAlphanum
    || ['!', '#', '$', '%', '&', '\'', '*', '+', '-', '.', '^', '_', '\x60', '|', '~'].contains c

/-- Whether a character may stand in a quoted value. -/
def isQuotable (c : Char) : Bool := 0x20 ≤ c.toNat && c.toNat < 0x7f

/-- What stands behind the quote that ends a value. -/
def behindQuote? : List Char → Option (List Char)
  | [] => none
  | '"' :: rest => some rest
  | c :: rest => if isQuotable c then behindQuote? rest else none

/-- What stands behind the value of a parameter: nothing, or the semicolon and what follows it. -/
def behindValue? : List Char → Option (List Char)
  | '"' :: first :: rest =>
    if isQuotable first then (behindQuote? rest).map (·.dropWhile (· = ' ')) else none
  | text => some (text.dropWhile isTokenChar)

/-- Whether a text is a list of parameters, which may be empty; no parameter is longer than the
text. -/
def areParameters : Nat → List Char → Bool
  | 0, _ => false
  | fuel + 1, text =>
    let text := text.dropWhile (· = ' ')
    let named := text.dropWhile isTokenChar
    match named with
    | [] => text.isEmpty
    | '=' :: value =>
      match behindValue? value with
      | some [] => true
      | some (';' :: rest) => areParameters fuel rest
      | _ => false
    | _ => false

/-- Splits off the suffix behind the last plus sign that does not stand first. -/
def splitSuffix (name : List Char) : List Char × Option (List Char) :=
  let suffix := (name.reverse.takeWhile (· ≠ '+')).reverse
  if name.length ≤ suffix.length + 1 then (name, none)
  else (name.take (name.length - suffix.length - 1), some suffix)

def read? (text : String) : Option MediaType := do
  let lower (name : List Char) : String := String.ofList (name.map Char.toLower)
  let (type, rest) ← Text.cutAt? '/' text.toList
  let name := rest.takeWhile isTokenChar
  let accepted := match rest.dropWhile isTokenChar with
    | [] => true
    | ';' :: parameters => !name.isEmpty && areParameters (parameters.length + 1) parameters
    | _ => false
  if type.isEmpty || !type.all isTokenChar || !accepted then none
  else
    let (subtype, suffix) := splitSuffix name
    return ⟨lower type, lower subtype, suffix.map lower⟩

/-- Whether bodies of this type are JSON. -/
def isJson (media : MediaType) : Bool :=
  media.type == "application" && (media.subtype == "json" || media.suffix == some "json")

end MediaType

end Verdict
