/-!
# Finite double precision numbers, held exactly

A number is kept by its three fields, so equal numbers of one sign are equal values and every
operation is integer arithmetic in units of `2^-1074`, the smallest positive number.
-/

-- Powers are the built-in ones, also in what imports Mathlib, where those of monoids come first.
attribute [instance (high + 1), default_instance (high + 1)] instPowNat

namespace Verdict

/-- The quotient rounded to the nearest integer, a half going to the even neighbour. -/
def roundDiv (num den : Nat) : Nat :=
  let quotient := num / den
  let twice := 2 * (num % den)
  if twice < den then quotient
  else if den < twice then quotient + 1
  else quotient + quotient % 2

/-- A finite number of 53 significant bits; `biased` is zero for the subnormal numbers. -/
structure Binary64 where
  negative : Bool
  biased : Fin 2047
  fraction : Fin (2 ^ 52)
deriving DecidableEq, Repr, Inhabited

namespace Binary64

def zero (negative : Bool) : Binary64 := ⟨negative, 0, 0⟩

/-- The integer that is scaled by a power of two. -/
def significand (x : Binary64) : Nat :=
  if x.biased.val = 0 then x.fraction.val else 2 ^ 52 + x.fraction.val

/-- The power of two that scales the significand, counted from `2^-1074`. -/
def scale (x : Binary64) : Nat := x.biased.val - 1

/-- The magnitude in units of `2^-1074`. -/
def magnitude (x : Binary64) : Nat := x.significand * 2 ^ x.scale

/-- The number in units of `2^-1074`; both zeros are `0`. -/
def units (x : Binary64) : Int :=
  if x.negative then -(x.magnitude : Int) else x.magnitude

def isZero (x : Binary64) : Bool := x.biased.val == 0 && x.fraction.val == 0

/-- The number with this significand of at most 53 bits, or `2^53`, scaled by `2^scale` units;
`none` past the largest finite number. -/
def ofParts? (negative : Bool) (significand scale : Nat) : Option Binary64 :=
  if h : significand < 2 ^ 52 then
    some ⟨negative, 0, ⟨significand, h⟩⟩
  else
    let carry := if significand < 2 ^ 53 then 0 else 1
    let fraction := if significand < 2 ^ 53 then significand - 2 ^ 52 else 0
    if h : scale + 1 + carry < 2047 ∧ fraction < 2 ^ 52 then
      some ⟨negative, ⟨scale + 1 + carry, h.1⟩, ⟨fraction, h.2⟩⟩
    else none

/-- The number nearest to `num / den`, a half going to the even significand; `none` on overflow. -/
def ofRatio? (negative : Bool) (num den : Nat) : Option Binary64 :=
  let scaled := num * 2 ^ 1074
  let scale := Nat.log2 (scaled / den) - 52
  ofParts? negative (roundDiv scaled (den * 2 ^ scale)) scale

/-- The number nearest to an integer. -/
def ofInt? (n : Int) : Option Binary64 := ofRatio? (decide (n < 0)) n.natAbs 1

/-- The number nearest to `± digits · 10^exponent`. -/
def ofDecimal? (negative : Bool) (digits : Nat) (exponent : Int) : Option Binary64 :=
  match exponent with
  | .ofNat e => ofRatio? negative (digits * 10 ^ e) 1
  | .negSucc e => ofRatio? negative digits (10 ^ (e + 1))

/-- The rounded product of two magnitudes, with the sign of the first. -/
def mul? (x y : Binary64) : Option Binary64 :=
  ofRatio? x.negative (x.magnitude * y.magnitude) (2 ^ 2148)

/-- The rounded quotient of two magnitudes, with the sign of the first. -/
def div? (x y : Binary64) : Option Binary64 :=
  ofRatio? x.negative x.magnitude y.magnitude

end Binary64

end Verdict
