import Verdict.Proofs.Comparisons

/-!
# Integers as double precision numbers

A magnitude is rounded to a multiple of its last place, the power of two that leaves 53 bits before
it (`Binary64.nearest`). Within one last place rounding is monotone because division is, and from
one to a greater one because the bound `2^53` of the first is the least significand of the second
(`Binary64.nearest_mono`). What has 53 bits is left as it is (`Binary64.nearest_eq_self`), so that
every integer up to `2^53` in magnitude is kept, and one of them tells its neighbours apart from
itself (`Binary64.nearestUnits_lt`).
-/

namespace Verdict

section
variable {a b d q : Nat}

theorem roundDiv_mul (hd : 0 < d) (q : Nat) : roundDiv (q * d) d = q := by
  simp [roundDiv, Nat.mul_div_cancel q hd, hd]

theorem div_le_roundDiv (a d : Nat) : a / d ≤ roundDiv a d := by
  simp only [roundDiv]
  repeat' split
  all_goals omega

theorem roundDiv_le_div_succ (a d : Nat) : roundDiv a d ≤ a / d + 1 := by
  simp only [roundDiv]
  repeat' split
  all_goals omega

theorem roundDiv_mono (h : a ≤ b) (d : Nat) : roundDiv a d ≤ roundDiv b d := by
  have hquotient : a / d ≤ b / d := Nat.div_le_div_right h
  rcases Nat.lt_or_eq_of_le hquotient with hlt | heq
  · calc roundDiv a d ≤ a / d + 1 := roundDiv_le_div_succ a d
      _ ≤ b / d := hlt
      _ ≤ roundDiv b d := div_le_roundDiv b d
  · -- with one quotient the remainders decide
    have hrest : a % d ≤ b % d := by
      have ha := Nat.div_add_mod a d
      have hb := Nat.div_add_mod b d
      rw [heq] at ha
      omega
    simp only [roundDiv, heq]
    repeat' split
    all_goals omega

theorem le_roundDiv (hd : 0 < d) (h : q * d ≤ a) : q ≤ roundDiv a d := by
  rw [← roundDiv_mul hd q]
  exact roundDiv_mono h d

theorem roundDiv_le (hd : 0 < d) (h : a ≤ q * d) : roundDiv a d ≤ q := by
  rw [← roundDiv_mul hd q]
  exact roundDiv_mono h d

end

namespace Binary64

/-- The power of two in which a rounded quotient counts its last place. -/
def lastPlace (num den : Nat) : Nat := Nat.log2 (num / den) - 52

/-- The quotient rounded to a multiple of its last place. -/
def nearest (num den : Nat) : Nat :=
  roundDiv num (den * 2 ^ lastPlace num den) * 2 ^ lastPlace num den

section
variable {num num' den : Nat}

theorem lt_mul_of_lastPlace (hden : 0 < den) (num : Nat) :
    num ≤ 2 ^ 53 * (den * 2 ^ lastPlace num den) := by
  have hquotient : num / den < 2 ^ (53 + lastPlace num den) :=
    Nat.lt_of_lt_of_le Nat.lt_log2_self (Nat.pow_le_pow_right (by decide) (by unfold lastPlace; omega))
  have hnum : num < 2 ^ (53 + lastPlace num den) * den := (Nat.div_lt_iff_lt_mul hden).mp hquotient
  rw [Nat.mul_comm den, ← Nat.mul_assoc, ← Nat.pow_add]
  exact Nat.le_of_lt hnum

/-- A last place above the first has all 53 bits before it. -/
theorem mul_le_of_lastPlace (hden : 0 < den) (h : 0 < lastPlace num den) :
    2 ^ 52 * (den * 2 ^ lastPlace num den) ≤ num := by
  have hlog : 52 + lastPlace num den = Nat.log2 (num / den) := by unfold lastPlace at h ⊢; omega
  have hne : num / den ≠ 0 := by
    intro hzero
    rw [lastPlace, hzero] at h
    simp at h
  have hquotient : 2 ^ (52 + lastPlace num den) ≤ num / den := hlog ▸ Nat.log2_self_le hne
  have hnum := (Nat.le_div_iff_mul_le hden).mp hquotient
  rwa [Nat.mul_comm den, ← Nat.mul_assoc, ← Nat.pow_add]

theorem lastPlace_mono (h : num ≤ num') (den : Nat) : lastPlace num den ≤ lastPlace num' den := by
  have hquotient : num / den ≤ num' / den := Nat.div_le_div_right h
  have hlog : Nat.log2 (num / den) ≤ Nat.log2 (num' / den) := by
    apply Nat.le_of_not_lt
    intro hlt
    have hne : num / den ≠ 0 := by
      intro hzero
      simp [hzero] at hlt
    have hne' : num' / den ≠ 0 := Nat.ne_of_gt (Nat.lt_of_lt_of_le (Nat.pos_of_ne_zero hne) hquotient)
    have hbound : num' / den < 2 ^ Nat.log2 (num / den) := (Nat.log2_lt hne').mp hlt
    have hself : 2 ^ Nat.log2 (num / den) ≤ num / den := Nat.log2_self_le hne
    omega
  unfold lastPlace
  omega

theorem significand_le (hden : 0 < den) (num : Nat) :
    roundDiv num (den * 2 ^ lastPlace num den) ≤ 2 ^ 53 :=
  roundDiv_le (Nat.mul_pos hden (Nat.two_pow_pos _)) (lt_mul_of_lastPlace hden num)

theorem le_significand (hden : 0 < den) (h : 0 < lastPlace num den) :
    2 ^ 52 ≤ roundDiv num (den * 2 ^ lastPlace num den) :=
  le_roundDiv (Nat.mul_pos hden (Nat.two_pow_pos _)) (mul_le_of_lastPlace hden h)

/-- Rounding keeps the order of quotients by one number. -/
theorem nearest_mono (hden : 0 < den) (h : num ≤ num') : nearest num den ≤ nearest num' den := by
  rcases Nat.lt_or_eq_of_le (lastPlace_mono h den) with hlt | heq
  · calc nearest num den ≤ 2 ^ 53 * 2 ^ lastPlace num den :=
          Nat.mul_le_mul_right _ (significand_le hden num)
      _ = 2 ^ 52 * 2 ^ (lastPlace num den + 1) := by
          rw [Nat.pow_succ 2 (lastPlace num den), Nat.mul_comm (2 ^ lastPlace num den), ← Nat.mul_assoc]
      _ ≤ 2 ^ 52 * 2 ^ lastPlace num' den :=
          Nat.mul_le_mul_left _ (Nat.pow_le_pow_right (by decide) hlt)
      _ ≤ nearest num' den := Nat.mul_le_mul_right _ (le_significand hden (by omega))
  · unfold nearest
    rw [heq]
    exact Nat.mul_le_mul_right _ (roundDiv_mono h _)

/-- A number of 53 bits, scaled by any power of two, is left as it is. -/
theorem nearest_eq_self {m e : Nat} (hm : m < 2 ^ 53) (hden : 0 < den) :
    nearest (m * 2 ^ e * den) den = m * 2 ^ e := by
  have hplace : lastPlace (m * 2 ^ e * den) den ≤ e := by
    unfold lastPlace
    rw [Nat.mul_div_cancel _ hden]
    by_cases hzero : m * 2 ^ e = 0
    · simp [hzero]
    · have hbound : m * 2 ^ e < 2 ^ (53 + e) := by
        rw [Nat.pow_add]
        exact Nat.mul_lt_mul_of_pos_right hm (Nat.two_pow_pos e)
      have := (Nat.log2_lt hzero).mpr hbound
      omega
  unfold nearest
  generalize lastPlace (m * 2 ^ e * den) den = p at hplace
  obtain ⟨k, rfl⟩ := Nat.exists_eq_add_of_le hplace
  have hmultiple : m * 2 ^ (p + k) * den = m * 2 ^ k * (den * 2 ^ p) := by
    rw [Nat.pow_add]
    ac_rfl
  rw [hmultiple, roundDiv_mul (Nat.mul_pos hden (Nat.two_pow_pos p)), Nat.pow_add]
  ac_rfl

end

/-- A significand of 53 bits, or the power of two above them, is held exactly. -/
theorem exists_ofParts? (negative : Bool) {m scale : Nat} (hm : m ≤ 2 ^ 53)
    (hfull : 0 < scale → 2 ^ 52 ≤ m) (hscale : scale + 2 < 2047) :
    ∃ x, ofParts? negative m scale = some x ∧ x.negative = negative ∧
      x.magnitude = m * 2 ^ scale := by
  unfold ofParts?
  by_cases hsmall : m < 2 ^ 52
  · have hzero : scale = 0 := by omega
    subst hzero
    refine ⟨_, dif_pos hsmall, rfl, ?_⟩
    simp [magnitude, significand, Binary64.scale]
  · by_cases hcarry : m < 2 ^ 53
    · have hbounds : scale + 1 + 0 < 2047 ∧ m - 2 ^ 52 < 2 ^ 52 := by omega
      rw [dif_neg hsmall]
      simp only [if_pos hcarry]
      refine ⟨_, dif_pos hbounds, rfl, ?_⟩
      have hsum : 2 ^ 52 + (m - 2 ^ 52) = m := by omega
      simp [magnitude, significand, Binary64.scale, hsum]
    · have htop : m = 2 ^ 53 := by omega
      have hbounds : scale + 1 + 1 < 2047 ∧ 0 < 2 ^ 52 := by omega
      rw [dif_neg hsmall]
      simp only [if_neg hcarry]
      refine ⟨_, dif_pos hbounds, rfl, ?_⟩
      have hpow : 2 ^ (scale + 1) = 2 ^ scale * 2 := Nat.pow_succ 2 scale
      simp [magnitude, significand, Binary64.scale, htop, hpow]
      omega

/-- One is the smallest positive number scaled by this power of two. -/
def scaleOfOne : Nat := 1074

/-- One in units of the smallest positive number. -/
def unitsOfOne : Nat := 2 ^ scaleOfOne

theorem unitsOfOne_pos : 0 < unitsOfOne := Nat.two_pow_pos scaleOfOne

theorem unitsOfOne_eq : 2 ^ 1074 = unitsOfOne := by simp only [unitsOfOne, scaleOfOne]

theorem exists_ofRatio? (negative : Bool) (num : Nat) {den : Nat} (hden : 0 < den)
    (hplace : lastPlace (num * unitsOfOne) den + 2 < 2047) :
    ∃ x, ofRatio? negative num den = some x ∧ x.negative = negative ∧
      x.magnitude = nearest (num * unitsOfOne) den := by
  rw [ofRatio?, unitsOfOne_eq]
  exact exists_ofParts? negative (significand_le hden _) (le_significand hden) hplace

/-- An integer rounded, in units of the smallest positive number. -/
def nearestUnits (n : Int) : Int :=
  if n < 0 then -(nearest (n.natAbs * unitsOfOne) 1 : Int) else nearest (n.natAbs * unitsOfOne) 1

/-- Integers of 64 bits are far from overflow. -/
theorem units_toBinary64 {n : Int} (h : n.natAbs ≤ 2 ^ 64) :
    (Number.integer n).toBinary64.units = nearestUnits n := by
  have hlog : lastPlace (2 ^ 64 * unitsOfOne) 1 = 1086 := by
    rw [lastPlace, Nat.div_one, unitsOfOne, ← Nat.pow_add, Nat.log2_two_pow, scaleOfOne]
  have hplace : lastPlace (n.natAbs * unitsOfOne) 1 ≤ lastPlace (2 ^ 64 * unitsOfOne) 1 :=
    lastPlace_mono (Nat.mul_le_mul_right _ h) 1
  obtain ⟨x, hx, hnegative, hmagnitude⟩ :=
    exists_ofRatio? (decide (n < 0)) n.natAbs Nat.one_pos (by omega)
  have hof : ofInt? n = some x := hx
  rw [Number.toBinary64, hof, Option.getD_some, units, hnegative, hmagnitude, nearestUnits]
  simp only [decide_eq_true_eq]

theorem nearestUnits_mono {a b : Int} (h : a ≤ b) : nearestUnits a ≤ nearestUnits b := by
  have hnearest : ∀ {m n : Nat}, m ≤ n →
      nearest (m * unitsOfOne) 1 ≤ nearest (n * unitsOfOne) 1 := fun h =>
    nearest_mono Nat.one_pos (Nat.mul_le_mul_right _ h)
  unfold nearestUnits
  by_cases hb : b < 0
  · have := hnearest (m := b.natAbs) (n := a.natAbs) (by omega)
    rw [if_pos hb, if_pos (by omega)]
    omega
  · by_cases ha : a < 0
    · rw [if_neg hb, if_pos ha]
      omega
    · have := hnearest (m := a.natAbs) (n := b.natAbs) (by omega)
      rw [if_neg hb, if_neg ha]
      omega

/-- Integers of 53 bits are kept, and so is the first one above them. -/
theorem nearest_eq_of_le {n : Nat} (h : n ≤ 2 ^ 53) (e : Nat) :
    nearest (n * 2 ^ e) 1 = n * 2 ^ e := by
  rcases Nat.lt_or_eq_of_le h with hlt | heq
  · have hself := nearest_eq_self (e := e) hlt Nat.one_pos
    rwa [Nat.mul_one] at hself
  · have hsmall : 2 ^ 52 < 2 ^ 53 := by decide
    have hself := nearest_eq_self (e := e + 1) hsmall Nat.one_pos
    have hscaled : 2 ^ 52 * 2 ^ (e + 1) = n * 2 ^ e := by
      rw [heq, Nat.pow_succ 2 e]
      omega
    rwa [Nat.mul_one, hscaled] at hself

theorem nearestUnits_eq {n : Int} (h : n.natAbs ≤ 2 ^ 53) : nearestUnits n = n * unitsOfOne := by
  have hkept : nearest (n.natAbs * unitsOfOne) 1 = n.natAbs * unitsOfOne :=
    nearest_eq_of_le h scaleOfOne
  unfold nearestUnits
  rw [hkept, Int.natCast_mul]
  split
  next hneg => rw [Int.ofNat_natAbs_of_nonpos (by omega), Int.neg_mul, Int.neg_neg]
  next hneg => rw [Int.natAbs_of_nonneg (by omega)]

/-- An integer below the limit is told apart from every other one. -/
theorem nearestUnits_lt {a b : Int} (h : a < b) (hsmall : a.natAbs < 2 ^ 53 ∨ b.natAbs < 2 ^ 53) :
    nearestUnits a < nearestUnits b := by
  have hunit : (0 : Int) < unitsOfOne := Int.natCast_pos.mpr unitsOfOne_pos
  rcases hsmall with ha | hb
  · calc nearestUnits a = a * unitsOfOne := nearestUnits_eq (by omega)
      _ < (a + 1) * unitsOfOne := Int.mul_lt_mul_of_pos_right (by omega) hunit
      _ = nearestUnits (a + 1) := (nearestUnits_eq (by omega)).symm
      _ ≤ nearestUnits b := nearestUnits_mono h
  · calc nearestUnits a ≤ nearestUnits (b - 1) := nearestUnits_mono (by omega)
      _ = (b - 1) * unitsOfOne := nearestUnits_eq (by omega)
      _ < b * unitsOfOne := Int.mul_lt_mul_of_pos_right (by omega) hunit
      _ = nearestUnits b := (nearestUnits_eq (by omega)).symm

end Binary64

namespace Relation

/-- The relation between integers themselves. -/
def holdsOfIntegers (relation : Relation) (a b : Int) : Bool :=
  match relation with
  | equal => decide (a = b)
  | greater => decide (b < a)
  | less => decide (a < b)

theorem holdsOfNumbers_eq (relation : Relation) (x y : Binary64) :
    relation.holdsOfNumbers x y = relation.holdsOfIntegers x.units y.units := by
  cases relation <;> rfl

/-- Exactly one of the relations holds. -/
theorem exists_only (a b : Int) :
    ∃ only : Relation, ∀ relation : Relation,
      relation.holdsOfIntegers a b = decide (relation = only) := by
  rcases Int.lt_trichotomy a b with hlt | heq | hgt
  · refine ⟨less, fun relation => ?_⟩
    cases relation <;> simp [holdsOfIntegers] <;> omega
  · refine ⟨equal, fun relation => ?_⟩
    cases relation <;> simp [holdsOfIntegers] <;> omega
  · refine ⟨greater, fun relation => ?_⟩
    cases relation <;> simp [holdsOfIntegers] <;> omega

/-- Rounding does not change how an integer below the limit is related to any other. -/
theorem holdsOfIntegers_nearestUnits (relation : Relation) {a b : Int}
    (hsmall : a.natAbs < 2 ^ 53 ∨ b.natAbs < 2 ^ 53) :
    relation.holdsOfIntegers (Binary64.nearestUnits a) (Binary64.nearestUnits b) =
      relation.holdsOfIntegers a b := by
  rcases Int.lt_trichotomy a b with hlt | rfl | hgt
  · have hunits := Binary64.nearestUnits_lt hlt hsmall
    cases relation <;> simp [holdsOfIntegers] <;> omega
  · cases relation <;> simp [holdsOfIntegers]
  · have hunits := Binary64.nearestUnits_lt hgt hsmall.symm
    cases relation <;> simp [holdsOfIntegers] <;> omega

end Relation

namespace Condition

/-- What a condition on numbers decides on two integers. -/
def relateIntegers (field : String) (relation : Relation) (a b : Int) : Except Failure Bool :=
  relate .number field relation (.number (.integer a)) (.number (.integer b))

/-- Integers of 64 bits are compared by what they are rounded to. -/
theorem relateIntegers_eq (field : String) (relation : Relation) {a b : Int}
    (ha : a.natAbs ≤ 2 ^ 64) (hb : b.natAbs ≤ 2 ^ 64) :
    relateIntegers field relation a b =
      .ok (relation.holdsOfIntegers (Binary64.nearestUnits a) (Binary64.nearestUnits b)) := by
  rw [relateIntegers, relate_numbers, Relation.holdsOfNumbers_eq, Binary64.units_toBinary64 ha,
    Binary64.units_toBinary64 hb]

/-- Two integers of 64 bits stand in exactly one of the three relations. It never inverts their
order, and it is the relation between the integers themselves if one of them is below `2^53` in
magnitude. -/
theorem integers_compared (field : String) (a b : Int)
    (ha : -2 ^ 63 ≤ a ∧ a < 2 ^ 64) (hb : -2 ^ 63 ≤ b ∧ b < 2 ^ 64) :
    (∃ only, ∀ relation, relateIntegers field relation a b = .ok (decide (relation = only))) ∧
    (relateIntegers field .less a b = .ok true → a < b) ∧
    (relateIntegers field .greater a b = .ok true → b < a) ∧
    (a = b → relateIntegers field .equal a b = .ok true) ∧
    (a.natAbs < 2 ^ 53 ∨ b.natAbs < 2 ^ 53 →
      relateIntegers field .equal a b = .ok (decide (a = b)) ∧
        relateIntegers field .less a b = .ok (decide (a < b)) ∧
        relateIntegers field .greater a b = .ok (decide (b < a))) := by
  have hdecided := fun relation =>
    relateIntegers_eq field relation (a := a) (b := b) (by omega) (by omega)
  simp only [hdecided, Except.ok.injEq]
  refine ⟨Relation.exists_only _ _, ?less, ?greater, ?equal, ?exact⟩
  case less =>
    intro hless
    have hunits := of_decide_eq_true hless
    exact Int.lt_of_not_ge fun hle => Int.not_le.mpr hunits (Binary64.nearestUnits_mono hle)
  case greater =>
    intro hgreater
    have hunits := of_decide_eq_true hgreater
    exact Int.lt_of_not_ge fun hle => Int.not_le.mpr hunits (Binary64.nearestUnits_mono hle)
  case equal =>
    rintro rfl
    exact decide_eq_true rfl
  case exact =>
    intro hsmall
    simp only [Relation.holdsOfIntegers_nearestUnits _ hsmall]
    exact ⟨rfl, rfl, rfl⟩

/-- Below the limit neighbours are told apart; at the limit the next integer is taken for the limit.
-/
theorem limit_compared :
    ((2 ^ 53 - 1 : Int).natAbs < 2 ^ 53 ∧
      relateIntegers "n" .less (2 ^ 53 - 1) (2 ^ 53) = .ok true) ∧
    relateIntegers "n" .equal (2 ^ 53) (2 ^ 53 + 1) = .ok true := by
  have hsmall : (2 ^ 53 - 1 : Int).natAbs < 2 ^ 53 := by decide
  obtain ⟨-, -, -, -, hexact⟩ :=
    integers_compared "n" (2 ^ 53 - 1) (2 ^ 53) (by decide) (by decide)
  refine ⟨⟨hsmall, (hexact (.inl hsmall)).2.1⟩, ?_⟩
  rw [relateIntegers, relate_numbers]
  exact congrArg Except.ok (by decide +kernel)

end Condition

end Verdict
