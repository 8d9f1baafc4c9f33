import Verdict.Calendar.Reader

/-!
# Numbers in digits

Digits stand for a number (`Calendar.value`), which each of the readers finds again in front of
whatever follows (`number_append`, `exactly_append`, `short_append`). In one width digits are
ordered as texts as their numbers are (`append_lt_append_iff`), and `Date.padded` writes the digits
of a number (`digits_padded`, `value_padded`).
-/

namespace Verdict.Calendar

theorem isDigit_iff {c : Char} : isDigit c = true ↔ 48 ≤ c.toNat ∧ c.toNat ≤ 57 := by
  simp only [isDigit, Bool.and_eq_true, decide_eq_true_eq]
  exact Iff.rfl

theorem isDigit_of_char {c : Char} (h : c.isDigit = true) : isDigit c = true := by
  simp only [Char.isDigit, Bool.and_eq_true, decide_eq_true_eq] at h
  exact isDigit_iff.mpr h

/-- Blanks that may be passed over end where digits begin. -/
theorem isBlank_of_isDigit {c : Char} (h : isDigit c = true) : Text.isBlank c = false := by
  rw [isDigit_iff] at h
  simp only [Text.isBlank, Bool.or_eq_false_iff, Bool.and_eq_false_iff, decide_eq_false_iff_not,
    beq_eq_false_iff_ne]
  omega

/-- So many digits and nothing else. -/
structure Digits (width : Nat) (cs : List Char) : Prop where
  length_eq : cs.length = width
  isDigit : ∀ c ∈ cs, isDigit c = true

/-- A text that does not go on with a digit. -/
def Stops (cs : List Char) : Prop := ∀ c ∈ cs.head?, isDigit c = false

/-- The number that digits stand for. -/
def value (cs : List Char) : Nat := Nat.ofDigitChars 10 cs 0

section
variable {width most n : Nat} {c : Char} {cs rest : List Char}

theorem Digits.tail (h : Digits (width + 1) (c :: cs)) : Digits width cs :=
  ⟨Nat.succ.inj h.length_eq, fun c hc => h.isDigit c (List.mem_cons_of_mem _ hc)⟩

theorem Digits.exists_cons (h : Digits (width + 1) cs) :
    ∃ c tail, cs = c :: tail ∧ Calendar.isDigit c = true := by
  cases cs with
  | nil => cases h.length_eq
  | cons c tail => exact ⟨c, tail, rfl, h.isDigit c List.mem_cons_self⟩

theorem value_cons (c : Char) (cs : List Char) :
    value (c :: cs) = 10 ^ cs.length * digitValue c + value cs := by
  rw [value, Nat.ofDigitChars_cons, Nat.ofDigitChars_eq_ofDigitChars_zero, Nat.mul_zero, Nat.zero_add]
  rfl

theorem digitValue_lt (h : isDigit c = true) : digitValue c < 10 := by
  have := isDigit_iff.mp h
  unfold digitValue
  omega

/-- Digits in some width stand for the numbers below a power of ten. -/
theorem value_lt (h : ∀ c ∈ cs, isDigit c = true) : value cs < 10 ^ cs.length := by
  induction cs with
  | nil => decide
  | cons c cs ih =>
    obtain ⟨hc, hcs⟩ := List.forall_mem_cons.mp h
    have hfirst : 10 ^ cs.length * (digitValue c + 1) ≤ 10 ^ cs.length * 10 :=
      Nat.mul_le_mul_left _ (digitValue_lt hc)
    have hrest := ih hcs
    rw [value_cons, List.length_cons, Nat.pow_succ]
    rw [Nat.mul_add] at hfirst
    omega

theorem Digits.value_lt (h : Digits width cs) : value cs < 10 ^ width := by
  have hlt := Calendar.value_lt h.isDigit
  rwa [h.length_eq] at hlt

/-! ## Reading -/

/-- Digits are taken as long as there may be more, on top of the number that was read before them.
-/
theorem takeDigits_append (h : ∀ c ∈ cs, isDigit c = true) (hlength : cs.length ≤ most) :
    takeDigits most n (cs ++ rest) =
      takeDigits (most - cs.length) (Nat.ofDigitChars 10 cs n) rest := by
  induction cs generalizing most n with
  | nil => rfl
  | cons c cs ih =>
    obtain ⟨hc, hcs⟩ := List.forall_mem_cons.mp h
    obtain ⟨more, rfl⟩ := Nat.exists_eq_add_of_le' (Nat.lt_of_lt_of_le (Nat.succ_pos _) hlength)
    rw [List.length_cons] at hlength
    rw [List.cons_append, takeDigits, if_pos hc, ih hcs (by omega), Nat.ofDigitChars_cons,
      Nat.mul_comm 10 n, List.length_cons, Nat.add_sub_add_right]
    rfl

theorem takeDigits_of_stops (h : Stops rest) : takeDigits most n rest = (n, rest) := by
  cases most with
  | zero => rfl
  | succ most =>
    cases rest with
    | nil => rfl
    | cons c rest => rw [takeDigits, if_neg (by simp [h c rfl])]

/-- Digits are read to their end, either because no more may be read or because there are no more.
-/
theorem number_append (h : ∀ c ∈ cs, isDigit c = true) (hne : cs ≠ []) (hlength : cs.length ≤ most)
    (hstop : cs.length = most ∨ Stops rest) : number most (cs ++ rest) = some (value cs, rest) := by
  have htake : takeDigits most 0 (cs ++ rest) = (value cs, rest) := by
    rw [takeDigits_append h hlength]
    rcases hstop with rfl | hstop
    · rw [Nat.sub_self]
      rfl
    · exact takeDigits_of_stops hstop
  cases cs with
  | nil => exact absurd rfl hne
  | cons c cs =>
    rw [List.cons_append, number, if_pos (h c List.mem_cons_self), ← List.cons_append, htake]

/-- The reader of so many digits stops behind them, also where more digits follow. -/
theorem exactly_append (h : Digits width cs) : exactly width (cs ++ rest) = some (value cs, rest) := by
  obtain ⟨rfl, hdigits⟩ := h
  have hall : cs.all isDigit = true := List.all_eq_true.mpr hdigits
  rw [exactly, List.take_left, if_pos ⟨rfl, hall⟩, takeDigits_append hdigits (Nat.le_refl _),
    Nat.sub_self]
  rfl

theorem dropWhile_isBlank (h : Digits (width + 1) cs) :
    (cs ++ rest).dropWhile Text.isBlank = cs ++ rest := by
  obtain ⟨c, tail, rfl, hc⟩ := h.exists_cons
  rw [List.cons_append, List.dropWhile_cons_of_neg]
  simp [isBlank_of_isDigit hc]

/-- Two digits are read to their end, though one would do. -/
theorem short_append (h : Digits 2 cs) : short (cs ++ rest) = some (value cs, rest) := by
  have hne : cs ≠ [] := List.ne_nil_of_length_eq_add_one h.length_eq
  rw [short, dropWhile_isBlank h]
  exact number_append h.isDigit hne (Nat.le_of_eq h.length_eq) (.inl h.length_eq)

end

/-! ## Order -/

theorem lt_iff_digitValue_lt {c d : Char} (hc : isDigit c = true) (hd : isDigit d = true) :
    c < d ↔ digitValue c < digitValue d := by
  have hlt : c < d ↔ c.toNat < d.toNat := Iff.rfl
  have hc := isDigit_iff.mp hc
  have hd := isDigit_iff.mp hd
  rw [hlt, digitValue, digitValue]
  omega

theorem digitValue_inj {c d : Char} (hc : isDigit c = true) (hd : isDigit d = true) :
    digitValue c = digitValue d ↔ c = d := by
  have hc := isDigit_iff.mp hc
  have hd := isDigit_iff.mp hd
  rw [← Char.toNat_inj, digitValue, digitValue]
  omega

section
variable {width : Nat} {a b r s : List Char}

/-- Texts that begin with digits in one width are ordered by the numbers, and then by what follows.
-/
theorem append_lt_append_iff (ha : Digits width a) (hb : Digits width b) :
    a ++ r < b ++ s ↔ value a < value b ∨ (value a = value b ∧ r < s) := by
  induction width generalizing a b with
  | zero =>
    rw [List.eq_nil_of_length_eq_zero ha.length_eq, List.eq_nil_of_length_eq_zero hb.length_eq]
    simp
  | succ width ih =>
    obtain ⟨c, a, rfl, hc⟩ := ha.exists_cons
    obtain ⟨d, b, rfl, hd⟩ := hb.exists_cons
    have hvalue := ha.tail.value_lt
    have hvalue' := hb.tail.value_lt
    rw [List.cons_append, List.cons_append, List.cons_lt_cons_iff, ih ha.tail hb.tail, value_cons,
      value_cons, ha.tail.length_eq, hb.tail.length_eq, lt_iff_digitValue_lt hc hd,
      ← digitValue_inj hc hd]
    rcases Nat.lt_trichotomy (digitValue c) (digitValue d) with hlt | heq | hgt
    · have hstep := Nat.mul_le_mul_left (10 ^ width) (Nat.succ_le_of_lt hlt)
      rw [Nat.mul_succ] at hstep
      exact iff_of_true (.inl hlt) (.inl (by omega))
    · simp [heq]
    · have hstep := Nat.mul_le_mul_left (10 ^ width) (Nat.succ_le_of_lt hgt)
      rw [Nat.mul_succ] at hstep
      exact iff_of_false (by omega) (by omega)

/-- In one width there is one text of a number. -/
theorem value_inj (ha : Digits width a) (hb : Digits width b) : value a = value b ↔ a = b := by
  refine ⟨fun h => ?_, congrArg value⟩
  have hnot : ∀ {a b : List Char}, Digits width a → Digits width b → value a = value b → ¬ a < b := by
    intro a b ha hb h hlt
    have hiff := append_lt_append_iff (r := []) (s := []) ha hb
    rw [List.append_nil, List.append_nil] at hiff
    rcases hiff.mp hlt with hvalue | ⟨-, hnil⟩
    · omega
    · exact List.lt_irrefl [] hnil
  exact Std.Trichotomous.trichotomous a b (hnot ha hb h) (hnot hb ha h.symm)

end

/-! ## Writing -/

theorem toList_padded (width n : Nat) : (Date.padded width n).toList =
    List.replicate (width - (Nat.toDigits 10 n).length) '0' ++ Nat.toDigits 10 n := by
  simp [Date.padded, Nat.repr_eq_ofList_toDigits]

theorem isDigit_of_mem_padded {width n : Nat} :
    ∀ c ∈ (Date.padded width n).toList, isDigit c = true := by
  intro c hc
  rw [toList_padded] at hc
  rcases List.mem_append.mp hc with hzero | hdigit
  · rw [List.eq_of_mem_replicate hzero]
    rfl
  · exact isDigit_of_char (Nat.isDigit_of_mem_toDigits (by decide) (by decide) hdigit)

theorem value_padded (width n : Nat) : value (Date.padded width n).toList = n := by
  rw [toList_padded, value, Nat.ofDigitChars_append, Nat.ofDigitChars_replicate_zero, Nat.mul_zero,
    Nat.ofDigitChars_ten_toDigits]

/-- A number that fits into the width is filled up to it with zeros. -/
theorem digits_padded {width n : Nat} (hwidth : 0 < width) (h : n < 10 ^ width) :
    Digits width (Date.padded width n).toList := by
  refine ⟨?_, isDigit_of_mem_padded⟩
  have hlength := (Nat.length_toDigits_le_iff (by decide) hwidth).mpr h
  rw [toList_padded, List.length_append, List.length_replicate]
  omega

end Verdict.Calendar
