import Verdict.Number.Shortest
import Verdict.Proofs.Rounding

/-!
# The shortest decimal reads back

The numbers that round to `x` make up an interval around it, half a last place wide on either side
and less below a power of two (`Binary64.Covers`). A decimal is only taken from a grid if it lies
in there, and the last of the grids is so fine that it has one. So what is written for `x` rounds
to `x` (`Binary64.ofDecimal?_shortest`).
-/

namespace Verdict

section
variable {a d q : Nat}

theorem roundDiv_mul_left {k : Nat} (hk : 0 < k) (a d : Nat) :
    roundDiv (k * a) (k * d) = roundDiv a d := by
  have htwice : 2 * (k * (a % d)) = k * (2 * (a % d)) := Nat.mul_left_comm ..
  simp only [roundDiv, Nat.mul_div_mul_left _ _ hk, Nat.mul_mod_mul_left, htwice,
    Nat.mul_lt_mul_left hk]

/-- What is half a step away from `q` at most is rounded to it, at the ends only if it is even. -/
theorem roundDiv_eq (hd : 0 < d) (hlow : 2 * (q * d) ≤ 2 * a + d) (hhigh : 2 * a ≤ 2 * (q * d) + d)
    (hstrict : q % 2 = 1 → 2 * (q * d) < 2 * a + d ∧ 2 * a < 2 * (q * d) + d) :
    roundDiv a d = q := by
  have hdiv := Nat.div_add_mod a d
  have hrest := Nat.mod_lt a hd
  have hquotient : d * (a / d) = q * d ∧ a / d = q ∨
      d * (a / d) + d = q * d ∧ a / d + 1 = q := by
    rcases Nat.lt_or_ge a (q * d) with hless | hmore
    · obtain ⟨p, rfl⟩ : ∃ p, q = p + 1 :=
        Nat.exists_eq_succ_of_ne_zero fun h => by simp [h] at hless
      have hsucc : (p + 1) * d = p * d + d := Nat.succ_mul p d
      have hbelow : a / d = p :=
        Nat.div_eq_of_lt_le (show p * d ≤ a by omega) (show a < (p + 1) * d by omega)
      exact .inr ⟨by rw [hbelow, hsucc, Nat.mul_comm], by rw [hbelow]⟩
    · have hsame : a / d = q := Nat.div_eq_of_lt_le hmore (by rw [Nat.succ_mul]; omega)
      exact .inl ⟨by rw [hsame, Nat.mul_comm], hsame⟩
  simp only [roundDiv]
  split
  · omega
  split
  · omega
  -- halfway between two numbers the even one is taken
  · rcases Nat.mod_two_eq_zero_or_one q with heven | hodd
    · omega
    · have := hstrict hodd
      omega

end

namespace Binary64

variable {x : Binary64}

theorem significand_lt (x : Binary64) : x.significand < 2 ^ 53 := by
  have := x.fraction.isLt
  unfold significand
  split <;> omega

/-- A scaled number has all of its bits. -/
theorem le_significand_of_scale (h : 0 < x.scale) : 2 ^ 52 ≤ x.significand := by
  have hbiased : x.biased.val ≠ 0 := by unfold scale at h; omega
  rw [significand, if_neg hbiased]
  exact Nat.le_add_right _ _

theorem le_magnitude (hpos : 0 < x.magnitude) : 2 ^ x.scale ≤ x.magnitude :=
  Nat.le_mul_of_pos_left _ (Nat.pos_of_mul_pos_right hpos)

theorem significand_mod_two (x : Binary64) : x.significand % 2 = x.fraction.val % 2 := by
  unfold significand
  split <;> omega

theorem ofParts?_significand (x : Binary64) :
    ofParts? x.negative x.significand x.scale = some x := by
  obtain ⟨negative, ⟨biased, hbiased⟩, ⟨fraction, hfraction⟩⟩ := x
  rcases Nat.eq_zero_or_pos biased with rfl | hpos
  · exact dif_pos hfraction
  · have hsignificand : significand ⟨negative, ⟨biased, hbiased⟩, ⟨fraction, hfraction⟩⟩ =
        2 ^ 52 + fraction := if_neg (Nat.ne_of_gt hpos)
    have hcarry : 2 ^ 52 + fraction < 2 ^ 53 := by omega
    have hrest : 2 ^ 52 + fraction - 2 ^ 52 = fraction := by omega
    have hscale : biased - 1 + 1 + 0 = biased := by omega
    rw [hsignificand, ofParts?, dif_neg (by omega)]
    simp only [if_pos hcarry, hrest, scale, hscale]
    exact dif_pos ⟨hbiased, hfraction⟩

/-- A significand that is rounded up to `2^53` is the least one of the next scale. -/
theorem ofParts?_carry (negative : Bool) (scale : Nat) :
    ofParts? negative (2 ^ 53) scale = ofParts? negative (2 ^ 52) (scale + 1) := by
  simp [ofParts?]

/-! ## The interval that rounds to a number -/

/-- The way down to the numbers that are not rounded to `x`, in quarters of the unit. Below a power
of two they are half as far. -/
def gapBelow (x : Binary64) : Nat :=
  if x.fraction.val = 0 ∧ 1 < x.biased.val then 2 ^ x.scale else 2 * 2 ^ x.scale

theorem gapBelow_le (x : Binary64) : x.gapBelow ≤ 2 * 2 ^ x.scale := by
  unfold gapBelow
  split <;> omega

theorem gapBelow_le_magnitude (hpos : 0 < x.magnitude) : x.gapBelow ≤ 4 * x.magnitude := by
  have := le_magnitude hpos
  have := x.gapBelow_le
  omega

theorem le_gapBelow (x : Binary64) : 2 ^ x.scale ≤ x.gapBelow := by
  unfold gapBelow
  split <;> omega

/-- The quotient of units is not farther from `x` than the numbers are that round to it. -/
structure Covers (x : Binary64) (num den : Nat) : Prop where
  below : 4 * x.magnitude * den ≤ 4 * num + x.gapBelow * den
  above : 4 * num ≤ (4 * x.magnitude + 2 * 2 ^ x.scale) * den
  strict : x.fraction.val % 2 = 1 →
    4 * x.magnitude * den < 4 * num + x.gapBelow * den ∧
      4 * num < (4 * x.magnitude + 2 * 2 ^ x.scale) * den

namespace Covers

variable {num den : Nat}

/-- Counted in last places, the quotient is half of one away from the significand at most. -/
theorem near (h : x.Covers num den) :
    2 * (x.significand * (den * 2 ^ x.scale)) ≤ 2 * num + den * 2 ^ x.scale ∧
      2 * num ≤ 2 * (x.significand * (den * 2 ^ x.scale)) + den * 2 ^ x.scale ∧
      (x.significand % 2 = 1 →
        2 * (x.significand * (den * 2 ^ x.scale)) < 2 * num + den * 2 ^ x.scale ∧
          2 * num < 2 * (x.significand * (den * 2 ^ x.scale)) + den * 2 ^ x.scale) := by
  obtain ⟨hbelow, habove, hstrict⟩ := h
  have hgap := Nat.mul_le_mul_right den x.gapBelow_le
  have hcentre : 4 * x.magnitude * den = 4 * (x.significand * (den * 2 ^ x.scale)) := by
    rw [magnitude]
    ac_rfl
  have hwidth : 2 * 2 ^ x.scale * den = 2 * (den * 2 ^ x.scale) := by ac_rfl
  rw [hwidth] at hgap
  rw [Nat.add_mul, hcentre, hwidth] at habove
  rw [hcentre] at hbelow
  rw [Nat.add_mul, hcentre, hwidth] at hstrict
  rw [significand_mod_two]
  refine ⟨by omega, by omega, fun hodd => ?_⟩
  have := hstrict hodd
  omega

/-- A power of two has only half of that below it. -/
theorem near_power (h : x.Covers num den) (hpower : x.significand = 2 ^ 52) (hscale : 0 < x.scale) :
    4 * (2 ^ 52 * (den * 2 ^ x.scale)) ≤ 4 * num + den * 2 ^ x.scale := by
  have hbiased : x.biased.val ≠ 0 ∧ 1 < x.biased.val := by unfold scale at hscale; omega
  have hfraction : x.fraction.val = 0 := by
    rw [significand, if_neg hbiased.1] at hpower
    omega
  have hbelow := h.below
  rw [gapBelow, if_pos ⟨hfraction, hbiased.2⟩, magnitude, hpower] at hbelow
  calc 4 * (2 ^ 52 * (den * 2 ^ x.scale)) = 4 * (2 ^ 52 * 2 ^ x.scale) * den := by ac_rfl
    _ ≤ 4 * num + 2 ^ x.scale * den := hbelow
    _ = 4 * num + den * 2 ^ x.scale := by rw [Nat.mul_comm den]

/-- The last place of what rounds to `x` is that of `x`, or the one below if it is rounded up to a
power of two. -/
theorem lastPlace_eq (h : x.Covers num den) (hden : 0 < den) :
    lastPlace num den = x.scale ∨
      lastPlace num den + 1 = x.scale ∧ x.significand = 2 ^ 52 := by
  obtain ⟨hlow, hhigh, -⟩ := h.near
  rcases Nat.lt_trichotomy (lastPlace num den) x.scale with hless | heq | hmore
  · -- the place below is taken by what is rounded up to a power of two, and no other one is
    have hfull := le_significand_of_scale (Nat.zero_lt_of_lt hless)
    have hbound := lt_mul_of_lastPlace hden num
    obtain ⟨j, hj⟩ := Nat.exists_eq_add_of_lt hless
    have hstep : den * 2 ^ x.scale = 2 * (den * 2 ^ lastPlace num den * 2 ^ j) := by
      rw [hj, Nat.pow_succ, Nat.pow_add]
      ac_rfl
    have hunit : 0 < den * 2 ^ lastPlace num den := Nat.mul_pos hden (Nat.two_pow_pos _)
    rw [hstep] at hlow
    generalize den * 2 ^ lastPlace num den = unit at hlow hbound hunit
    cases j with
    | zero =>
      rw [Nat.pow_zero, Nat.mul_one] at hlow
      refine .inr ⟨hj.symm, Nat.le_antisymm (Nat.le_of_not_lt fun hlarge => ?_) hfull⟩
      have := Nat.mul_le_mul_right (2 * unit) (Nat.succ_le_of_lt hlarge)
      omega
    | succ j =>
      exfalso
      have hwide : 2 * unit ≤ unit * 2 ^ (j + 1) := by
        rw [Nat.mul_comm 2]
        exact Nat.mul_le_mul_left unit (Nat.le_self_pow (Nat.succ_ne_zero j) 2)
      generalize unit * 2 ^ (j + 1) = wide at hlow hwide
      have := Nat.mul_le_mul_right (2 * wide) hfull
      omega
  · exact .inl heq
  · exfalso
    have hbound := mul_le_of_lastPlace hden (Nat.zero_lt_of_lt hmore)
    have hfull := x.significand_lt
    have hunit : 0 < den * 2 ^ x.scale := Nat.mul_pos hden (Nat.two_pow_pos _)
    obtain ⟨j, hj⟩ := Nat.exists_eq_add_of_lt hmore
    have hwide : 2 * (den * 2 ^ x.scale) ≤ den * 2 ^ lastPlace num den := by
      have hstep : den * 2 ^ lastPlace num den = 2 * (den * 2 ^ x.scale) * 2 ^ j := by
        rw [hj, Nat.pow_succ, Nat.pow_add]
        ac_rfl
      rw [hstep]
      exact Nat.le_mul_of_pos_right _ (Nat.two_pow_pos j)
    generalize den * 2 ^ lastPlace num den = wide at hbound hwide
    generalize den * 2 ^ x.scale = unit at hhigh hwide hunit
    have := Nat.mul_le_mul_right unit (Nat.le_sub_one_of_lt hfull)
    omega

end Covers

/-- What an interval covers is rounded to its number. -/
theorem ofParts?_of_covers {num den : Nat} (hden : 0 < den) (h : x.Covers num den) :
    ofParts? x.negative (roundDiv num (den * 2 ^ lastPlace num den)) (lastPlace num den) =
      some x := by
  obtain ⟨hlow, hhigh, hstrict⟩ := h.near
  rcases h.lastPlace_eq hden with heq | ⟨hbelow, hpower⟩
  · rw [heq, roundDiv_eq (Nat.mul_pos hden (Nat.two_pow_pos _)) hlow hhigh hstrict]
    exact x.ofParts?_significand
  · have hgap := h.near_power hpower (by omega)
    have hbound := lt_mul_of_lastPlace hden num
    have hunit : den * 2 ^ x.scale = 2 * (den * 2 ^ lastPlace num den) := by
      rw [← hbelow, Nat.pow_succ]
      ac_rfl
    have hcarry : roundDiv num (den * 2 ^ lastPlace num den) = 2 ^ 53 := by
      rw [hunit] at hgap
      refine roundDiv_eq (Nat.mul_pos hden (Nat.two_pow_pos _)) ?_ ?_ fun h => absurd h (by decide)
      all_goals omega
    rw [hcarry, ofParts?_carry, hbelow, ← hpower]
    exact x.ofParts?_significand

theorem ofRatio?_of_covers {num den : Nat} (hden : 0 < den)
    (h : x.Covers (num * unitsOfOne) den) : ofRatio? x.negative num den = some x := by
  rw [ofRatio?, unitsOfOne_eq]
  exact ofParts?_of_covers hden h

/-! ## Decimals -/

theorem ofRatio?_mul_left (negative : Bool) {k : Nat} (hk : 0 < k) (num den : Nat) :
    ofRatio? negative (k * num) (k * den) = ofRatio? negative num den := by
  simp only [ofRatio?, Nat.mul_assoc k, Nat.mul_div_mul_left _ _ hk, roundDiv_mul_left hk]

theorem ofDecimal?_eq (negative : Bool) (digits : Nat) (exponent : Int) :
    ofDecimal? negative digits exponent =
      ofRatio? negative (digits * 10 ^ exponent.toNat) (10 ^ (-exponent).toNat) := by
  cases exponent with
  | ofNat e => simp [ofDecimal?]
  | negSucc e => simp [ofDecimal?]

/-- A zero at the end of the digits is worth a step of the exponent. -/
theorem ofDecimal?_mul_ten (negative : Bool) (digits : Nat) (exponent : Int) :
    ofDecimal? negative (digits * 10) exponent = ofDecimal? negative digits (exponent + 1) := by
  rw [ofDecimal?_eq, ofDecimal?_eq]
  by_cases hneg : exponent < 0
  · have hfine : (-exponent).toNat = (-(exponent + 1)).toNat + 1 := by omega
    have hcoarse : exponent.toNat = 0 ∧ (exponent + 1).toNat = 0 := by omega
    rw [hcoarse.1, hcoarse.2, hfine, Nat.pow_succ, Nat.pow_zero, Nat.mul_one, Nat.mul_one,
      Nat.mul_comm digits, Nat.mul_comm _ 10]
    exact ofRatio?_mul_left negative (by decide) _ _
  · have hfine : (-exponent).toNat = 0 ∧ (-(exponent + 1)).toNat = 0 := by omega
    have hcoarse : (exponent + 1).toNat = exponent.toNat + 1 := by omega
    rw [hfine.1, hfine.2, hcoarse, Nat.pow_succ, Nat.mul_assoc, Nat.mul_comm 10]

theorem ofDecimal?_mul_pow (negative : Bool) (digits zeros : Nat) (exponent : Int) :
    ofDecimal? negative (digits * 10 ^ zeros) exponent =
      ofDecimal? negative digits (exponent + zeros) := by
  induction zeros generalizing exponent with
  | zero => simp
  | succ zeros ih =>
    rw [Nat.pow_succ, ← Nat.mul_assoc, ofDecimal?_mul_ten, ih, Int.add_assoc, Int.add_comm 1]
    rfl

/-- Moving zeros into the exponent does not change the number. -/
theorem ofDecimal?_stripped (negative : Bool) (fuel : Nat) (d : Decimal) :
    ofDecimal? negative (d.stripped fuel).digits (d.stripped fuel).exponent =
      ofDecimal? negative d.digits d.exponent := by
  induction fuel generalizing d with
  | zero => rfl
  | succ fuel ih =>
    rw [Decimal.stripped]
    split
    next h =>
      rw [ih, ← ofDecimal?_mul_ten, Nat.div_mul_cancel (Nat.dvd_of_mod_eq_zero h.1)]
    next => rfl

/-! ## Grids -/

/-- One is a quarter of the smallest positive number scaled by this power of two. -/
def scaleOfQuarters : Nat := 1076

/-- One in quarters of the smallest positive number. -/
def quartersOfOne : Nat := 2 ^ scaleOfQuarters

theorem quartersOfOne_eq : 2 ^ 1076 = quartersOfOne := by
  simp only [quartersOfOne, scaleOfQuarters]

theorem quartersOfOne_eq_mul : quartersOfOne = 4 * unitsOfOne := by
  have hscale : scaleOfQuarters = scaleOfOne + 2 := rfl
  rw [quartersOfOne, hscale, Nat.pow_add, unitsOfOne, Nat.mul_comm]

/-- Whether `digits * step / up` quarters of the unit are covered. -/
def holds (x : Binary64) (up step digits : Nat) : Bool :=
  let low := 4 * x.magnitude - x.gapBelow
  let high := 4 * x.magnitude + 2 * 2 ^ x.scale
  if x.fraction.val % 2 = 0 then
    decide (low * up ≤ digits * step) && decide (digits * step ≤ high * up)
  else decide (low * up < digits * step) && decide (digits * step < high * up)

theorem holds_of_onGrid? {exponent : Int} {d : Decimal} (h : x.onGrid? exponent = some d) :
    d.exponent = exponent ∧
      x.holds (10 ^ (-exponent).toNat) (10 ^ exponent.toNat * quartersOfOne) d.digits = true := by
  simp only [onGrid?, quartersOfOne_eq] at h
  generalize 10 ^ exponent.toNat * quartersOfOne = step at h ⊢
  generalize 10 ^ (-exponent).toNat = up at h ⊢
  split at h
  next hfloor hceil =>
    obtain rfl := Option.some.inj h
    refine ⟨rfl, ?_⟩
    dsimp only
    split
    · exact hfloor
    · exact hceil
  next hfloor _ =>
    obtain rfl := Option.some.inj h
    exact ⟨rfl, hfloor⟩
  next _ hceil =>
    obtain rfl := Option.some.inj h
    exact ⟨rfl, hceil⟩
  next => exact absurd h (Option.some_ne_none d).symm

theorem exists_onGrid?_of_holds {exponent : Int}
    (h : x.holds (10 ^ (-exponent).toNat) (10 ^ exponent.toNat * quartersOfOne)
      (4 * x.magnitude * 10 ^ (-exponent).toNat / (10 ^ exponent.toNat * quartersOfOne)) = true) :
    ∃ d, x.onGrid? exponent = some d := by
  simp only [onGrid?, quartersOfOne_eq]
  generalize 10 ^ exponent.toNat * quartersOfOne = step at h ⊢
  generalize 10 ^ (-exponent).toNat = up at h ⊢
  split
  next => exact ⟨_, rfl⟩
  next => exact ⟨_, rfl⟩
  next hfloor _ => cases h.symm.trans hfloor
  next hfloor _ => cases h.symm.trans hfloor

section
variable {up step units digits : Nat}

theorem covers_of_holds (hpos : 0 < x.magnitude) (hstep : digits * step = 4 * units)
    (h : x.holds up step digits = true) : x.Covers units up := by
  have hlow := Nat.mul_le_mul_right up (gapBelow_le_magnitude hpos)
  simp only [holds, hstep, Nat.sub_mul] at h
  split at h
  next heven =>
    simp only [Bool.and_eq_true, decide_eq_true_eq] at h
    exact ⟨by omega, h.2, fun hodd => by omega⟩
  next hodd =>
    simp only [Bool.and_eq_true, decide_eq_true_eq] at h
    exact ⟨by omega, Nat.le_of_lt h.2, fun _ => ⟨by omega, h.2⟩⟩

/-- A grid with a step below the unit has a decimal for every number. -/
theorem holds_of_fine (hpos : 0 < x.magnitude) (hstep : 0 < step) (hfine : step ≤ up) :
    x.holds up step (4 * x.magnitude * up / step) = true := by
  have hfloor := Nat.div_mul_le_self (4 * x.magnitude * up) step
  have hrest := Nat.lt_div_mul_add (a := 4 * x.magnitude * up) hstep
  have hunit : 0 < 2 ^ x.scale := Nat.two_pow_pos _
  have hgap : x.gapBelow ≤ 4 * x.magnitude := gapBelow_le_magnitude hpos
  have hlarge := Nat.mul_le_mul_right up hgap
  have hbelow : up ≤ x.gapBelow * up :=
    Nat.le_mul_of_pos_left up (Nat.lt_of_lt_of_le hunit x.le_gapBelow)
  have hlow : (4 * x.magnitude - x.gapBelow) * up < 4 * x.magnitude * up / step * step := by
    rw [Nat.sub_mul]
    omega
  have hhigh : 4 * x.magnitude * up / step * step < (4 * x.magnitude + 2 * 2 ^ x.scale) * up := by
    have hwidth : 0 < 2 * 2 ^ x.scale * up :=
      Nat.mul_pos (by omega) (Nat.lt_of_lt_of_le hstep hfine)
    rw [Nat.add_mul]
    omega
  simp only [holds]
  split
  · simp [Nat.le_of_lt hlow, Nat.le_of_lt hhigh]
  · simp [hlow, hhigh]

end

theorem quartersOfOne_le : quartersOfOne ≤ 10 ^ 330 := by
  decide +kernel

/-- Some grid has a decimal for every number. -/
theorem exists_shortestBelow (hpos : 0 < x.magnitude) (steps : Nat) :
    ∃ exponent d, x.onGrid? exponent = some d ∧ x.shortestBelow (steps + 1) = d := by
  induction steps with
  | zero =>
    obtain ⟨d, hd⟩ : ∃ d, x.onGrid? ((0 : Nat) - 330) = some d := by
      have hstep : ((0 : Nat) - 330 : Int).toNat = 0 := rfl
      have hup : (-((0 : Nat) - 330) : Int).toNat = 330 := rfl
      refine exists_onGrid?_of_holds ?_
      rw [hstep, hup, Nat.pow_zero, Nat.one_mul]
      exact holds_of_fine hpos (Nat.two_pow_pos _) quartersOfOne_le
    exact ⟨_, d, hd, by rw [shortestBelow, hd]⟩
  | succ steps ih =>
    cases hgrid : x.onGrid? ((steps + 1 : Nat) - 330) with
    | some d => exact ⟨_, d, hgrid, by rw [shortestBelow, hgrid]⟩
    | none =>
      obtain ⟨exponent, d, hd, hshortest⟩ := ih
      exact ⟨exponent, d, hd, by rw [shortestBelow, hgrid, hshortest]⟩

theorem magnitude_pos (h : x.isZero = false) : 0 < x.magnitude := by
  refine Nat.mul_pos ?_ (Nat.two_pow_pos _)
  simp only [isZero, Bool.and_eq_false_iff, beq_eq_false_iff_ne] at h
  unfold significand
  split <;> omega

theorem eq_zero_of_isZero (h : x.isZero = true) : x = zero x.negative := by
  simp only [isZero, Bool.and_eq_true, beq_iff_eq] at h
  obtain ⟨negative, biased, fraction⟩ := x
  simp only [zero, mk.injEq, true_and]
  exact ⟨Fin.ext h.1, Fin.ext h.2⟩

theorem ofDecimal?_zero (negative : Bool) (exponent : Int) :
    ofDecimal? negative 0 exponent = some (zero negative) := by
  have hround : ∀ d, roundDiv 0 d = 0 := fun d => by
    simp only [roundDiv, Nat.zero_div, Nat.zero_mod]
    split
    · rfl
    split
    · omega
    · rfl
  rw [ofDecimal?_eq, ofRatio?, unitsOfOne_eq, Nat.zero_mul, Nat.zero_mul, hround, Nat.zero_div]
  rfl

/-- The decimal that is written for a number is rounded to it. -/
theorem ofDecimal?_shortest (x : Binary64) :
    ofDecimal? x.negative x.shortest.digits x.shortest.exponent = some x := by
  cases hzero : x.isZero with
  | true =>
    rw [shortest, hzero, if_pos rfl, ofDecimal?_zero, ← eq_zero_of_isZero hzero]
  | false =>
    have hpos := magnitude_pos hzero
    obtain ⟨exponent, d, hgrid, hd⟩ := exists_shortestBelow hpos 640
    obtain ⟨rfl, hholds⟩ := holds_of_onGrid? hgrid
    rw [shortest, hzero, if_neg (by decide), ofDecimal?_stripped, hd, ofDecimal?_eq]
    refine ofRatio?_of_covers (Nat.pow_pos (by decide)) (covers_of_holds hpos ?_ hholds)
    rw [quartersOfOne_eq_mul]
    generalize 10 ^ d.exponent.toNat = coarse
    generalize unitsOfOne = units
    ac_rfl

theorem exponent_shortest_of_digits (h : x.shortest.digits = 0) : x.shortest.exponent = 0 := by
  have hx := x.ofDecimal?_shortest
  rw [h, ofDecimal?_zero] at hx
  rw [← Option.some.inj hx]
  rfl

end Binary64

end Verdict
