import Verdict.Text.Folding
import Verdict.Text.Punycode
import Verdict.Text.Parts

/-!
# Domain names

A domain name is folded, its labels are checked, and a label with characters outside ASCII is
written in Punycode behind `xn--`.

This is the part of the Unicode rules for such names that the scripts of `Text.fold` need. Names are
taken to be composed already, so nothing is brought into the normal form NFC. Joiners are refused
wherever they stand, the rule on the direction of letters is not checked, and of the characters that
are not assigned only whole blocks are refused.
-/

namespace Verdict.Domain

/-- ASCII characters that no name may hold. -/
def isForbidden (c : Char) : Bool :=
  c.toNat ≤ 0x20 || c.toNat == 0x7f
    || ['%', '#', '/', ':', '<', '>', '?', '@', '[', '\\', ']', '^', '|'].contains c

/-- Whether a character outside ASCII may stand in a name: it is no control, no mark of direction,
not for private use and no character at all. -/
def isAllowed (c : Char) : Bool :=
  let n := c.toNat
  !(n < 0xa0 || n == 0x61c || (0x200c ≤ n && n ≤ 0x200f) || (0x2028 ≤ n && n ≤ 0x202e)
    || (0x2061 ≤ n && n ≤ 0x206f) || (0x2ff0 ≤ n && n ≤ 0x2ffb) || (0xe000 ≤ n && n ≤ 0xf8ff)
    || (0xfdd0 ≤ n && n ≤ 0xfdef) || (0xfff0 ≤ n && n ≤ 0xffff) || 0xe0000 ≤ n)

def isAscii (c : Char) : Bool := c.toNat < 0x80

/-- Whether a character only adds to the one before it. -/
def isMark (c : Char) : Bool :=
  let n := c.toNat
  (0x300 ≤ n && n ≤ 0x36f) || (0x483 ≤ n && n ≤ 0x489) || (0x591 ≤ n && n ≤ 0x5bd)
    || (0x64b ≤ n && n ≤ 0x65f) || (0x900 ≤ n && n ≤ 0x903) || (0x1ab0 ≤ n && n ≤ 0x1aff)
    || (0x1dc0 ≤ n && n ≤ 0x1dff) || (0x20d0 ≤ n && n ≤ 0x20ff) || (0x3099 ≤ n && n ≤ 0x309a)
    || (0xfe20 ≤ n && n ≤ 0xfe2f)

/-- Whether a label with characters outside ASCII may stand in a name. -/
def isLabel (label : List Char) : Bool :=
  label.all (fun c => isAscii c || isAllowed c) && !label.head?.any isMark

/-- The ASCII form of a folded label. -/
def labelToAscii? (label : List Char) : Option (List Char) :=
  match Text.behind? ['x', 'n', '-', '-'] label with
  | some digits => do
    let decoded ← Text.Punycode.decode? digits
    let settled := decoded.flatMap Text.fold == decoded && !decoded.any isForbidden
    if settled && decoded.any (fun c => !isAscii c) && isLabel decoded then
      some (['x', 'n', '-', '-'] ++ Text.Punycode.encode decoded)
    else none
  | none =>
    if label.all isAscii then some label
    else if isLabel label then some (['x', 'n', '-', '-'] ++ Text.Punycode.encode label)
    else none

/-- The ASCII form of a name. -/
def toAscii? (name : List Char) : Option (List Char) :=
  let folded := name.flatMap Text.fold
  if folded.any isForbidden then none
  else do
    let labels ← (Text.splitAt '.' folded).mapM labelToAscii?
    return (labels.intersperse ['.']).flatten

end Verdict.Domain
