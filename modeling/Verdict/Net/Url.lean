import Verdict.Net.Address
import Verdict.Net.Domain
import Verdict.Text.Percent

/-!
# URLs

A URL is read into its parts in a normal form: the scheme and the host in lower case, the default
port left out, the path without dot segments, and all else percent-encoded where it has to be. Hosts
outside ASCII are read within the limits of `Domain.toAscii?`.
-/

namespace Verdict

inductive UrlDefect
  | relative
  | emptyHost
  | port
  | ipv6
  | ipv4
  | domain
  | hostCharacter
deriving DecidableEq, Repr, Inhabited

namespace UrlDefect

def message : UrlDefect → String
  | relative => "relative URL without a base"
  | emptyHost => "empty host"
  | port => "invalid port number"
  | ipv6 => "invalid IPv6 address"
  | ipv4 => "invalid IPv4 address"
  | domain => "invalid international domain name"
  | hostCharacter => "invalid domain character"

end UrlDefect

inductive Host
  | name (text : String)
  | address (address : Address)
deriving DecidableEq, Repr, Inhabited

namespace Host

def toText : Host → String
  | name text => text
  | address (.v4 ip) => ip.toText
  | address (.v6 ip) => "[" ++ ip.toText ++ "]"

end Host

structure Authority where
  username : String := ""
  password : String := ""
  /-- Absent in `scheme:///path`. -/
  host : Option Host
  port : Option UInt16 := none
deriving DecidableEq, Repr, Inhabited

structure Url where
  scheme : String
  authority : Option Authority
  path : String
  query : Option String
  fragment : Option String
deriving DecidableEq, Repr, Inhabited

namespace Authority

def toText (authority : Authority) : String :=
  let password := if authority.password.isEmpty then "" else ":" ++ authority.password
  let user := authority.username ++ password
  let host := (authority.host.map Host.toText).getD ""
  let port := (authority.port.map fun port => ":" ++ toString port.toNat).getD ""
  (if user.isEmpty then "" else user ++ "@") ++ host ++ port

end Authority

namespace Url

/-- A path that starts like an authority is kept apart from the scheme. -/
def toText (url : Url) : String :=
  let start := match url.authority with
    | some authority => "//" ++ authority.toText
    | none => if url.path.startsWith "//" then "/." else ""
  url.scheme ++ ":" ++ start ++ url.path
    ++ (url.query.map ("?" ++ ·)).getD "" ++ (url.fragment.map ("#" ++ ·)).getD ""

/-- Schemes whose URLs always have a host and a path are special; those of files lack a port. -/
inductive SchemeKind
  | web (defaultPort : UInt16)
  | file
  | plain
deriving DecidableEq, Repr, Inhabited

namespace SchemeKind

def ofScheme (scheme : String) : SchemeKind :=
  if scheme = "http" ∨ scheme = "ws" then web 80
  else if scheme = "https" ∨ scheme = "wss" then web 443
  else if scheme = "ftp" then web 21
  else if scheme = "file" then file
  else plain

def isSpecial (kind : SchemeKind) : Bool := kind != plain

/-- Whether a character separates the segments of a path. -/
def isSlash (kind : SchemeKind) (c : Char) : Bool := c == '/' || (kind.isSpecial && c == '\\')

/-- Whether a character ends an authority. -/
def endsAuthority (kind : SchemeKind) (c : Char) : Bool := kind.isSlash c || c == '?' || c == '#'

end SchemeKind

/-! ## Characters that are encoded -/

def reservedInFragment : List Char := [' ', '"', '<', '>', '`']

def reservedInPath : List Char := reservedInFragment ++ ['#', '?', '\x7b', '\x7d']

def reservedInUser : List Char :=
  reservedInPath ++ ['/', ':', ';', '=', '@', '[', '\\', ']', '^', '|']

def reservedInQuery (kind : SchemeKind) : List Char :=
  [' ', '"', '#', '<', '>'] ++ if kind.isSpecial then ['\''] else []

def encoded (reserved text : List Char) : String :=
  String.ofList (Text.percentEncode reserved text)

/-! ## Schemes -/

def isSchemeChar (c : Char) : Bool :=
  c.isAlphanum || c == '+' || c == '-' || c == '.'

/-- The scheme in lower case and what stands behind its colon. -/
def readScheme? (text : List Char) : Option (String × List Char) := do
  let first ← text.head?
  let (scheme, rest) ← Text.cutAt? ':' text
  if first.isAlpha && scheme.all isSchemeChar then
    return (String.ofList (scheme.map Char.toLower), rest)
  else none

/-! ## Hosts -/

/-- A number in decimal, octal behind `0` or hexadecimal behind `0x`. -/
def readNumber? (digits : List Char) : Option Nat :=
  match digits with
  | [] => none
  | ['0'] => some 0
  | '0' :: c :: rest =>
    if c = 'x' ∨ c = 'X' then if rest.isEmpty then some 0 else Text.numberOf? 16 rest
    else Text.numberOf? 8 (c :: rest)
  | digits => Text.numberOf? 10 digits

/-- The parts of a name between its dots, without the empty one behind a last dot. -/
def nameParts (name : List Char) : List (List Char) :=
  let parts := Text.splitAt '.' name
  if parts.getLast? = some [] then parts.dropLast else parts

/-- Whether a name can only be meant as an address of version 4. -/
def endsInNumber (name : List Char) : Bool :=
  match (nameParts name).getLast? with
  | none => false
  | some part => (!part.isEmpty && part.all Char.isDigit) || (readNumber? part).isSome

/-- The address of up to four numbers, the last of which fills the bytes that are left. -/
def readIpv4? (name : List Char) : Option Ipv4 := do
  let numbers ← (nameParts name).mapM readNumber?
  let last ← numbers.getLast?
  let front := numbers.dropLast
  if 4 < numbers.length ∨ front.any (255 < ·) ∨ 256 ^ (4 - front.length) ≤ last then none
  else
    let high := front.foldl (· * 256 + ·) 0
    let value := high * 256 ^ (4 - front.length) + last
    let byte (place : Nat) : UInt8 := UInt8.ofNat (value / 256 ^ place)
    return ⟨#v[byte 3, byte 2, byte 1, byte 0]⟩

/-- Reads an address of version 6 in brackets. -/
def readBracketed (text : List Char) : Except UrlDefect Host :=
  let inside := (text.drop 1).dropLast
  if text.getLast? = some ']' then
    match Ipv6.read? inside with
    | some address => .ok (.address (.v6 address))
    | none => .error .ipv6
  else .error .ipv6

/-- Reads the host of a special URL. -/
def readHost (text : List Char) : Except UrlDefect Host :=
  if text.head? = some '[' then readBracketed text
  else
    let bytes := Text.percentDecode text
    match (String.fromUTF8? bytes.toByteArray).bind fun name => Domain.toAscii? name.toList with
    | none => .error .domain
    | some [] => .error .emptyHost
    | some name =>
      if endsInNumber name then
        match readIpv4? name with
        | some address => .ok (.address (.v4 address))
        | none => .error .ipv4
      else .ok (.name (String.ofList name))

def isHostChar (c : Char) : Bool :=
  ['\x00', '\t', '\n', '\x0d', ' ', '#', '/', ':', '<', '>', '?', '@', '[', '\\', ']', '^', '|'].all
    (· != c)

/-- Reads the host of a URL that is not special. -/
def readPlainHost (text : List Char) : Except UrlDefect Host :=
  if text.head? = some '[' then readBracketed text
  else if text.all isHostChar then .ok (.name (encoded [] text))
  else .error .hostCharacter

/-! ## Authorities -/

/-- What stands before and behind the last at sign. -/
def splitUser (text : List Char) : Option (List Char) × List Char :=
  let host := (text.reverse.takeWhile (· ≠ '@')).reverse
  if host.length = text.length then (none, text)
  else (some (text.take (text.length - host.length - 1)), host)

/-- What stands before and behind the colon of a port; colons in brackets do not count. -/
def splitPort (inside : Bool) : List Char → List Char × Option (List Char)
  | [] => ([], none)
  | c :: rest =>
    if c = ':' ∧ inside = false then ([], some rest)
    else
      let inside := if c = '[' then true else if c = ']' then false else inside
      let (host, port) := splitPort inside rest
      (c :: host, port)

/-- Reads a port; the default one is left out. -/
def readPort (kind : SchemeKind) (digits : List Char) : Except UrlDefect (Option UInt16) :=
  if digits.isEmpty then .ok none
  else
    match Text.numberOf? 10 digits with
    | none => .error .port
    | some n =>
      if 65535 < n then .error .port
      else if kind = .web (UInt16.ofNat n) then .ok none
      else .ok (some (UInt16.ofNat n))

/-- Reads an authority; only a URL that is not special may lack a host. -/
def readAuthority (kind : SchemeKind) (text : List Char) : Except UrlDefect Authority := do
  let (user?, rest) := splitUser text
  let user := user?.getD []
  let (username, password) := (Text.cutAt? ':' user).getD (user, [])
  let (hostText, port?) := splitPort false rest
  let anonymous := username.isEmpty && password.isEmpty
  if hostText.isEmpty then
    if kind.isSpecial ∨ port?.isSome ∨ anonymous = false then throw .emptyHost
    return { host := none }
  let host ← if kind.isSpecial then readHost hostText else readPlainHost hostText
  let port ← readPort kind (port?.getD [])
  return {
    username := encoded reservedInUser username
    password := encoded reservedInUser password
    host := some host
    port := port }

/-! ## Paths -/

def isSingleDot (segment : String) : Bool :=
  let s := segment.toLower
  s == "." || s == "%2e"

def isDoubleDot (segment : String) : Bool :=
  let s := segment.toLower
  s == ".." || s == "%2e." || s == ".%2e" || s == "%2e%2e"

/-- Splits at the separators of segments. -/
def splitSegments (kind : SchemeKind) (text : List Char) : List (List Char) :=
  Text.splitAt '/' (text.map fun c => if kind.isSlash c then '/' else c)

/-- A letter and a colon at the start of a file's path stand for a drive, which is never left. -/
def isDrive (segment : String) : Bool :=
  match segment.toList with
  | [letter, mark] => letter.isAlpha && mark == ':'
  | _ => false

/-- The segments without the last one. -/
def leave (kind : SchemeKind) (segments : List String) : List String :=
  if kind = .file ∧ segments.length = 1 ∧ segments.any isDrive then segments else segments.dropLast

/-- Follows raw segments from a place; dot segments are steps and no places. -/
def follow (kind : SchemeKind) (place : List String) : List (List Char) → List String
  | [] => place
  | raw :: rest =>
    let segment := encoded reservedInPath raw
    if isDoubleDot segment then
      let place := leave kind place
      if rest.isEmpty then place ++ [""] else follow kind place rest
    else if isSingleDot segment then
      if rest.isEmpty then place ++ [""] else follow kind place rest
    else follow kind (place ++ [segment]) rest

/-- The path that a text behind its first slash stands for. -/
def pathOf (kind : SchemeKind) (text : List Char) : String :=
  let segments := follow kind [] (splitSegments kind text)
  let segments := if kind = .file then segments.dropWhile (·.isEmpty) else segments
  "/" ++ Text.joinWith "/" segments

/-! ## Whole URLs -/

/-- What stands before, between and behind the marks of a query and of a fragment. -/
def splitTail (text : List Char) : List Char × Option (List Char) × Option (List Char) :=
  let (rest, fragment) := match Text.cutAt? '#' text with
    | some (rest, fragment) => (rest, some fragment)
    | none => (text, none)
  match Text.cutAt? '?' rest with
  | some (path, query) => (path, some query, fragment)
  | none => (rest, none, fragment)

/-- The path behind an authority. -/
def pathBehindAuthority (kind : SchemeKind) (text : List Char) : String :=
  match text with
  | [] => if kind.isSpecial then "/" else ""
  | c :: rest => if kind.isSlash c then pathOf kind rest else pathOf kind text

def readBehindSlashes (kind : SchemeKind) (text : List Char) :
    Except UrlDefect (Option Authority × String) := do
  let authority ← readAuthority kind (text.takeWhile fun c => !kind.endsAuthority c)
  return (some authority, pathBehindAuthority kind (text.dropWhile fun c => !kind.endsAuthority c))

/-- Reads what stands behind `file:`; the own host is no host. -/
def readFile (text : List Char) : Except UrlDefect (Option Authority × String) :=
  let slashes := text.takeWhile (SchemeKind.isSlash .file)
  let nowhere : Option Authority := some { host := none }
  if 2 ≤ slashes.length then do
    let rest := text.drop 2
    let host := rest.takeWhile fun c => !SchemeKind.endsAuthority .file c
    let path := rest.drop host.length
    if host.isEmpty ∨ isDrive (String.ofList host) then return (nowhere, pathOf .file rest)
    match ← readHost host with
    | .name "localhost" => return (nowhere, pathBehindAuthority .file path)
    | host => return (some { host := some host }, pathBehindAuthority .file path)
  else .ok (nowhere, pathOf .file (text.drop slashes.length))

/-- Reads what stands between the scheme and the query. -/
def readHierarchy (kind : SchemeKind) (text : List Char) :
    Except UrlDefect (Option Authority × String) :=
  match kind with
  | .web _ => readBehindSlashes kind (text.dropWhile kind.isSlash)
  | .file => readFile text
  | .plain =>
    match text with
    | '/' :: '/' :: rest => readBehindSlashes kind rest
    | '/' :: rest => .ok (none, pathOf kind rest)
    | text => .ok (none, encoded [] text)

/-- The characters of a text that count: controls and blanks at its ends and line breaks do not. -/
def significant (text : List Char) : List Char :=
  let isEdge (c : Char) : Bool := c.toNat ≤ 0x20
  ((text.dropWhile isEdge).reverse.dropWhile isEdge).reverse.filter fun c =>
    c != '\t' && c != '\n' && c != '\x0d'

/-- Reads a URL that stands alone; there is no base for relative ones. -/
def read (text : String) : Except UrlDefect Url :=
  match readScheme? (significant text.toList) with
  | none => .error .relative
  | some (scheme, rest) => do
    let kind := SchemeKind.ofScheme scheme
    let (hierarchy, query, fragment) := splitTail rest
    let (authority, path) ← readHierarchy kind hierarchy
    return {
      scheme
      authority
      path
      query := query.map (encoded (reservedInQuery kind))
      fragment := fragment.map (encoded reservedInFragment) }

end Url

end Verdict
