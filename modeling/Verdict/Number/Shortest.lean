import Verdict.Number.Binary64

/-!
# The shortest decimal that reads back

Of the decimals that round to a number, the one on the coarsest grid of powers of ten is written,
and of two on that grid the nearer.
-/

namespace Verdict

/-- `digits · 10^exponent`. -/
structure Decimal where
  digits : Nat
  exponent : Int
deriving DecidableEq, Repr

namespace Decimal

/-- Moves trailing zeros of the digits into the exponent; `fuel` bounds their number. -/
def stripped : Nat → Decimal → Decimal
  | 0, d => d
  | fuel + 1, d =>
    if d.digits % 10 = 0 ∧ d.digits ≠ 0 then
      stripped fuel ⟨d.digits / 10, d.exponent + 1⟩
    else d

/-- The exponent of the leading digit. -/
def leading (d : Decimal) : Int := d.exponent + (Nat.repr d.digits).length - 1

/-- Positional text, with at least one digit after the point. -/
def positional (d : Decimal) : String :=
  let text := (Nat.repr d.digits).toList
  match d.exponent with
  | .ofNat e => String.ofList (text ++ List.replicate e '0' ++ ['.', '0'])
  | .negSucc e =>
    let places := e + 1
    let padded := List.replicate (places + 1 - text.length) '0' ++ text
    let whole := padded.length - places
    String.ofList (padded.take whole ++ ['.'] ++ padded.drop whole)

/-- One digit, the others after a point, and the exponent with its sign. -/
def scientific (d : Decimal) : String :=
  let text := (Nat.repr d.digits).toList
  let digits := match text with
    | [] => []
    | [c] => [c]
    | c :: rest => c :: '.' :: rest
  let sign := if 0 ≤ d.leading then "+" else "-"
  String.ofList digits ++ "e" ++ sign ++ Nat.repr d.leading.natAbs

end Decimal

namespace Binary64

/-- A decimal of step `10^exponent` among the two nearest to `x` that reads back as `x`. Lengths are
counted in units of `2^-1076`, so that the ends of the interval that rounds to `x` are integers. -/
def onGrid? (x : Binary64) (exponent : Int) : Option Decimal :=
  let unit := 2 ^ x.scale
  let centre := 4 * x.magnitude
  let below := if x.fraction.val = 0 ∧ 1 < x.biased.val then unit else 2 * unit
  let low := centre - below
  let high := centre + 2 * unit
  let up := 10 ^ (-exponent).toNat
  let step := 10 ^ exponent.toNat * 2 ^ 1076
  let holds (d : Nat) : Bool :=
    if x.fraction.val % 2 = 0 then
      decide (low * up ≤ d * step) && decide (d * step ≤ high * up)
    else decide (low * up < d * step) && decide (d * step < high * up)
  let floor := centre * up / step
  let floorGap := centre * up - floor * step
  let ceilGap := (floor + 1) * step - centre * up
  match holds floor, holds (floor + 1) with
  | true, true => some ⟨if floorGap ≤ ceilGap then floor else floor + 1, exponent⟩
  | true, false => some ⟨floor, exponent⟩
  | false, true => some ⟨floor + 1, exponent⟩
  | false, false => none

/-- Tries the grids `10^(steps - 331)` downwards. -/
def shortestBelow (x : Binary64) : Nat → Decimal
  | 0 => ⟨0, 0⟩
  | steps + 1 =>
    match x.onGrid? ((steps : Int) - 330) with
    | some d => d
    | none => shortestBelow x steps

/-- The shortest decimal that reads back as the magnitude of `x`. -/
def shortest (x : Binary64) : Decimal :=
  if x.isZero then ⟨0, 0⟩ else (x.shortestBelow 641).stripped 400

/-- The text of a magnitude behind the sign of a number. -/
def signed (x : Binary64) (text : String) : String :=
  if x.negative then "-" ++ text else text

/-- Positional from `1e-5` up to below `1e16`, scientific outside. -/
def toText (x : Binary64) : String :=
  let d := x.shortest
  x.signed (if -5 ≤ d.leading ∧ d.leading < 16 then d.positional else d.scientific)

/-- Positional whatever the magnitude. -/
def toPositional (x : Binary64) : String := x.signed x.shortest.positional

end Binary64

end Verdict
