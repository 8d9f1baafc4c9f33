import Verdict.Text.Parts

/-!
# Internet addresses

Addresses of both versions and their texts. Numbers in dotted addresses have no leading zeros, and a
gap stands for at least one group of zeros.
-/

namespace Verdict

structure Ipv4 where
  bytes : Vector UInt8 4
deriving DecidableEq, Repr, Inhabited

structure Ipv6 where
  groups : Vector UInt16 8
deriving DecidableEq, Repr, Inhabited

inductive Address
  | v4 (address : Ipv4)
  | v6 (address : Ipv6)
deriving DecidableEq, Repr, Inhabited

namespace Ipv4

/-- A number up to 255 without leading zeros. -/
def readByte? (digits : List Char) : Option UInt8 :=
  if digits.length ≤ 3 ∧ (digits.length ≤ 1 ∨ digits.head? ≠ some '0') then
    (Text.numberOf? 10 digits).bind fun n => if n < 256 then some (UInt8.ofNat n) else none
  else none

def read? (text : List Char) : Option Ipv4 :=
  match (Text.splitAt '.' text).mapM readByte? with
  | some [a, b, c, d] => some ⟨#v[a, b, c, d]⟩
  | _ => none

def toText (address : Ipv4) : String :=
  Text.joinWith "." (address.bytes.toList.map fun b => toString b.toNat)

end Ipv4

namespace Ipv6

/-- One to four hexadecimal digits. -/
def readGroup? (digits : List Char) : Option UInt16 :=
  if digits.length ≤ 4 then (Text.numberOf? 16 digits).map UInt16.ofNat else none

/-- The two groups of a dotted address. -/
def ofDotted (address : Ipv4) : List UInt16 :=
  match address.bytes.toList with
  | [a, b, c, d] =>
    [UInt16.ofNat (a.toNat * 256 + b.toNat), UInt16.ofNat (c.toNat * 256 + d.toNat)]
  | _ => []

/-- Reads groups; the last may be a dotted address if that is allowed. -/
def readGroups? (dotted : Bool) : List (List Char) → Option (List UInt16)
  | [] => some []
  | [part] =>
    match readGroup? part with
    | some group => some [group]
    | none => if dotted then (Ipv4.read? part).map ofDotted else none
  | part :: rest => do
    let group ← readGroup? part
    let groups ← readGroups? dotted rest
    return group :: groups

/-- Reads the groups on one side of a gap, where there may be none. -/
def readSide? (dotted : Bool) (text : List Char) : Option (List UInt16) :=
  if text.isEmpty then some [] else readGroups? dotted (Text.splitAt ':' text)

/-- What stands before and behind the first gap. -/
def splitGap? : List Char → Option (List Char × List Char)
  | ':' :: ':' :: rest => some ([], rest)
  | [] => none
  | c :: rest => (splitGap? rest).map fun (before, behind) => (c :: before, behind)

def ofGroups? (groups : List UInt16) : Option Ipv6 :=
  if h : groups.length = 8 then some ⟨⟨groups.toArray, by simpa using h⟩⟩ else none

def read? (text : List Char) : Option Ipv6 :=
  match splitGap? text with
  | none => (readSide? true text).bind ofGroups?
  | some (before, behind) => do
    let front ← readSide? false before
    let back ← readSide? true behind
    let given := front.length + back.length
    if given ≤ 7 then ofGroups? (front ++ List.replicate (8 - given) 0 ++ back) else none

/-- Where the first of the longest runs of zeros starts, and its length. -/
def longestGap (groups : List UInt16) : Nat × Nat :=
  (List.range groups.length).foldl
    (fun best start =>
      let length := ((groups.drop start).takeWhile (· == 0)).length
      if best.2 < length then (start, length) else best)
    (0, 0)

def groupsText (groups : List UInt16) : String :=
  Text.joinWith ":" (groups.map fun group => String.ofList (Nat.toDigits 16 group.toNat))

/-- The text in groups; the longest run of two or more zeros is left out. -/
def toText (address : Ipv6) : String :=
  let groups := address.groups.toList
  let (start, length) := longestGap groups
  if length < 2 then groupsText groups
  else groupsText (groups.take start) ++ "::" ++ groupsText (groups.drop (start + length))

/-- The address of version 4 that is mapped into version 6. -/
def mapped? (address : Ipv6) : Option Ipv4 :=
  match address.groups.toList with
  | [0, 0, 0, 0, 0, 0xffff, a, b] =>
    some ⟨#v[UInt8.ofNat (a.toNat / 256), UInt8.ofNat a.toNat,
      UInt8.ofNat (b.toNat / 256), UInt8.ofNat b.toNat]⟩
  | _ => none

end Ipv6

namespace Address

def read? (text : String) : Option Address :=
  match Ipv4.read? text.toList with
  | some address => some (.v4 address)
  | none => (Ipv6.read? text.toList).map .v6

/-- The text of an address; a mapped address keeps its dots. -/
def toText : Address → String
  | v4 address => address.toText
  | v6 address =>
    match address.mapped? with
    | some inner => "::ffff:" ++ inner.toText
    | none => address.toText

def loopback : Address := .v4 ⟨#v[127, 0, 0, 1]⟩

end Address

end Verdict
