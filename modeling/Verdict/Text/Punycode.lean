/-!
# Punycode

Characters outside ASCII are written as the differences between their sorted code points and places,
in digits of varying weight.
-/

namespace Verdict.Text.Punycode

/-- How much a digit may be at its place before another digit follows. -/
def threshold (place bias : Nat) : Nat :=
  if place ≤ bias then 1 else if bias + 26 ≤ place then 26 else place - bias

theorem threshold_pos (place bias : Nat) : 1 ≤ threshold place bias := by
  unfold threshold
  split
  · omega
  · split <;> omega

def dampen (delta places : Nat) : Nat :=
  if 455 < delta then dampen (delta / 35) (places + 36) else places + 36 * delta / (delta + 38)
termination_by delta
decreasing_by omega

/-- The bias after a difference; `count` characters have been placed. -/
def adapt (delta count : Nat) (first : Bool) : Nat :=
  let delta := if first then delta / 700 else delta / 2
  dampen (delta + delta / count) 0

def digitChar (n : Nat) : Char :=
  if n < 26 then Char.ofNat (97 + n) else Char.ofNat (22 + n)

def digitValue? (c : Char) : Option Nat :=
  let n := c.toNat
  if 97 ≤ n ∧ n ≤ 122 then some (n - 97)
  else if 65 ≤ n ∧ n ≤ 90 then some (n - 65)
  else if 48 ≤ n ∧ n ≤ 57 then some (n - 22)
  else none

/-- The digits of a difference. -/
def encodeDelta (bias place delta : Nat) : List Char :=
  let t := threshold place bias
  if delta < t then [digitChar delta]
  else
    digitChar (t + (delta - t) % (36 - t)) ::
      encodeDelta bias (place + 36) ((delta - t) / (36 - t))
termination_by delta
decreasing_by
  have := threshold_pos place bias
  have := Nat.div_le_self (delta - threshold place bias) (36 - threshold place bias)
  omega

structure Progress where
  written : List Char
  delta : Nat
  bias : Nat
  count : Nat

/-- Passes over a character while the characters of code point `point` are placed. -/
def encodeChar (basic point : Nat) (progress : Progress) (c : Char) : Progress :=
  if c.toNat < point then { progress with delta := progress.delta + 1 }
  else if c.toNat = point then
    { written := progress.written ++ encodeDelta progress.bias 36 progress.delta
      delta := 0
      bias := adapt progress.delta (progress.count + 1) (progress.count == basic)
      count := progress.count + 1 }
  else progress

/-- Places the characters of each code point; `last` is the first one not yet placed. -/
def encodePoints (text : List Char) (basic : Nat) : List Nat → Nat → Progress → Progress
  | [], _, progress => progress
  | point :: rest, last, progress =>
    let start := { progress with delta := progress.delta + (point - last) * (progress.count + 1) }
    let placed := text.foldl (encodeChar basic point) start
    encodePoints text basic rest (point + 1) { placed with delta := placed.delta + 1 }

/-- Code points in strictly ascending order. -/
def insertPoint (point : Nat) : List Nat → List Nat
  | [] => [point]
  | other :: rest =>
    if point < other then point :: other :: rest
    else if point = other then other :: rest
    else other :: insertPoint point rest

def encode (text : List Char) : List Char :=
  let basic := text.filter (·.toNat < 0x80)
  let points := (text.filter (0x80 ≤ ·.toNat)).foldl (fun points c => insertPoint c.toNat points) []
  let progress := encodePoints text basic.length points 0x80 ⟨[], 0, 72, basic.length⟩
  basic ++ (if basic.isEmpty then [] else ['-']) ++ progress.written

/-- Reads a difference, whose digits weigh `weight` from here on, and what stands behind it. -/
def decodeDelta? (bias : Nat) : List Char → Nat → Nat → Nat → Option (Nat × List Char)
  | [], _, _, _ => none
  | c :: rest, place, weight, value => do
    let digit ← digitValue? c
    let value := value + digit * weight
    let t := threshold place bias
    if digit < t then return (value, rest)
    decodeDelta? bias rest (place + 36) (weight * (36 - t)) value

/-- Places the characters that the digits stand for; there are at most as many as digits. -/
def decodeChars? (basic : Nat) : Nat → List Char → Nat → Nat → Nat → List Char → Option (List Char)
  | _, text, _, _, _, [] => some text
  | 0, _, _, _, _, _ => none
  | fuel + 1, text, point, index, bias, digits => do
    let (value, rest) ← decodeDelta? bias digits 36 1 0
    let count := text.length + 1
    let total := index + value
    let point := point + total / count
    if point ≤ 0x10ffff ∧ (point < 0xd800 ∨ 0xe000 ≤ point) then
      let bias := adapt value count (text.length == basic)
      let place := total % count
      decodeChars? basic fuel (text.take place ++ Char.ofNat point :: text.drop place) point
        (place + 1) bias rest
    else none

/-- What stands before and behind the last hyphen; a hyphen at the start does not count. -/
def splitBasic (text : List Char) : List Char × List Char :=
  let digits := (text.reverse.takeWhile (· ≠ '-')).reverse
  if text.length ≤ digits.length + 1 then ([], text)
  else (text.take (text.length - digits.length - 1), digits)

def decode? (text : List Char) : Option (List Char) :=
  let (basic, digits) := splitBasic text
  if basic.all (·.toNat < 0x80) then
    decodeChars? basic.length digits.length basic 0x80 0 72 digits
  else none

end Verdict.Text.Punycode
