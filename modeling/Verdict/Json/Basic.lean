import Verdict.Number.Binary64

/-!
# JSON values

Numbers are integers in `-2^63 … 2^64 - 1` or finite double precision numbers. An object keeps its
members in the order they are given; a *record* is a list of members in ascending order of keys.
-/

namespace Verdict

inductive Number
  | integer (n : Int)
  | real (x : Binary64)
deriving DecidableEq, Repr, Inhabited

namespace Number

/-- The double precision number nearest to a JSON number. -/
def toBinary64 : Number → Binary64
  | integer n => (Binary64.ofInt? n).getD (.zero false)
  | real x => x

end Number

inductive Json
  | null
  | bool (b : Bool)
  | number (n : Number)
  | string (s : String)
  | array (items : List Json)
  | object (members : List (String × Json))
deriving BEq, Repr, Inhabited

/-- Members in strictly ascending order of keys. -/
abbrev Record := List (String × Json)

namespace Record

/-- Puts a member in its place, replacing one of the same key. -/
def insert (key : String) (value : Json) : Record → Record
  | [] => [(key, value)]
  | (k, v) :: rest =>
    if key < k then (key, value) :: (k, v) :: rest
    else if key = k then (key, value) :: rest
    else (k, v) :: insert key value rest

def get? (key : String) : Record → Option Json
  | [] => none
  | (k, v) :: rest => if k = key then some v else get? key rest

/-- Of members with one key the last counts. -/
def ofList (members : List (String × Json)) : Record :=
  members.foldl (fun record member => insert member.1 member.2 record) []

end Record

namespace Json

def isNumber : Json → Bool
  | number _ => true
  | _ => false

def isString : Json → Bool
  | string _ => true
  | _ => false

def asString? : Json → Option String
  | string s => some s
  | _ => none

def asBinary64? : Json → Option Binary64
  | number n => some n.toBinary64
  | _ => none

def ofNat (n : Nat) : Json := number (.integer n)

end Json

end Verdict
