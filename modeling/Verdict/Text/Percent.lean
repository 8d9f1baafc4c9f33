import Verdict.Text.Parts

/-!
# Percent encoding

A byte is written as a percent sign and two hexadecimal digits. Characters outside printable ASCII
are always written so; which others are depends on where they stand.
-/

namespace Verdict.Text

private def hexUpper (n : Nat) : Char :=
  if n < 10 then Char.ofNat (48 + n) else Char.ofNat (55 + n)

def percentByte (b : UInt8) : List Char :=
  ['%', hexUpper (b.toNat / 16), hexUpper (b.toNat % 16)]

/-- Encodes the characters outside printable ASCII and those of `reserved`. -/
def percentEncode (reserved : List Char) (text : List Char) : List Char :=
  text.flatMap fun c =>
    if c.toNat < 0x20 || 0x7f ≤ c.toNat || reserved.contains c then
      (String.singleton c).toUTF8.data.toList.flatMap percentByte
    else [c]

/-- The bytes of a text; a percent sign without two digits stands for itself. -/
def percentDecode : List Char → List UInt8
  | [] => []
  | '%' :: a :: b :: rest =>
    match digitOf? 16 a, digitOf? 16 b with
    | some high, some low => UInt8.ofNat (high * 16 + low) :: percentDecode rest
    | _, _ => 0x25 :: percentDecode (a :: b :: rest)
  | c :: rest => (String.singleton c).toUTF8.data.toList ++ percentDecode rest

end Verdict.Text
