import Verdict.Proofs.Digits

/-!
# What the forms of a date read

A date is three numbers with dashes between them, and a time of day three with colons
(`Calendar.joined`). Each of the readers takes its part from the front of a text, whatever follows
(`date_of_year`, `time_joined`, `fraction_of_digits`, `offset_zone`), and the forms differ in what
they ask for behind the date. Of the forms tried before, it is enough to know that they do not read
the text (`Instant.read?_of_isTrimmed`).
-/

namespace Verdict

namespace Text

/-- A text with nothing to trim. -/
structure IsTrimmed (cs : List Char) : Prop where
  exists_first : ∃ c rest, cs = c :: rest ∧ isBlank c = false
  exists_last : ∃ front c, cs = front ++ [c] ∧ isBlank c = false

/-- A text without blanks. -/
def Solid (cs : List Char) : Prop := ∀ c ∈ cs, isBlank c = false

variable {a b cs before after : List Char}

theorem solid_append : Solid (a ++ b) ↔ Solid a ∧ Solid b := List.forall_mem_append

theorem solid_cons {c : Char} : Solid (c :: cs) ↔ isBlank c = false ∧ Solid cs := List.forall_mem_cons

theorem Solid.isTrimmed (h : Solid cs) (hne : cs ≠ []) : IsTrimmed cs where
  exists_first := by
    obtain ⟨c, rest, rfl⟩ := List.exists_cons_of_ne_nil hne
    exact ⟨c, rest, rfl, h c List.mem_cons_self⟩
  exists_last :=
    ⟨cs.dropLast, cs.getLast hne, (List.dropLast_concat_getLast hne).symm,
      h _ (List.getLast_mem hne)⟩

/-- Blanks inside a text are no matter. -/
theorem IsTrimmed.append (ha : IsTrimmed a) (hb : IsTrimmed b) (between : List Char) :
    IsTrimmed (a ++ (between ++ b)) where
  exists_first := by
    obtain ⟨c, rest, rfl, hc⟩ := ha.exists_first
    exact ⟨c, rest ++ (between ++ b), rfl, hc⟩
  exists_last := by
    obtain ⟨front, c, rfl, hc⟩ := hb.exists_last
    exact ⟨a ++ (between ++ front), c, by simp only [List.append_assoc], hc⟩

theorem trimList_append (h : IsTrimmed cs) (hbefore : ∀ c ∈ before, isBlank c = true)
    (hafter : ∀ c ∈ after, isBlank c = true) : trimList (before ++ (cs ++ after)) = cs := by
  have hfirst : (cs ++ after).dropWhile isBlank = cs ++ after := by
    obtain ⟨c, rest, rfl, hc⟩ := h.exists_first
    rw [List.cons_append, List.dropWhile_cons_of_neg (by simp [hc])]
  have hlast : cs.reverse.dropWhile isBlank = cs.reverse := by
    obtain ⟨front, c, rfl, hc⟩ := h.exists_last
    rw [List.reverse_append, List.reverse_singleton, List.singleton_append,
      List.dropWhile_cons_of_neg (by simp [hc])]
  have hafter : ∀ c ∈ after.reverse, isBlank c = true := fun c hc =>
    hafter c (List.mem_reverse.mp hc)
  rw [trimList, List.dropWhile_append_of_pos hbefore, hfirst, List.reverse_append,
    List.dropWhile_append_of_pos hafter, hlast, List.reverse_reverse]

theorem solid_of_isDigit (h : ∀ c ∈ cs, Calendar.isDigit c = true) : Solid cs :=
  fun c hc => Calendar.isBlank_of_isDigit (h c hc)

end Text

namespace Calendar

/-- Three numbers with the same character between them. -/
def joined (between : Char) (a b c : List Char) : List Char := a ++ between :: (b ++ between :: c)

section
variable {a b c cs rest : List Char} {nanos : Nat}

theorem solid_padded (width n : Nat) : Text.Solid (Date.padded width n).toList :=
  Text.solid_of_isDigit isDigit_of_mem_padded

theorem joined_ne_nil (between : Char) : joined between a b c ≠ [] :=
  List.append_ne_nil_of_right_ne_nil _ (List.cons_ne_nil _ _)

theorem solid_joined {between : Char} (h : Text.isBlank between = false) (ha : Text.Solid a)
    (hb : Text.Solid b) (hc : Text.Solid c) : Text.Solid (joined between a b c) := by
  simp only [joined, Text.solid_append, Text.solid_cons]
  exact ⟨ha, h, hb, h, hc⟩

theorem literal_cons (c : Char) (cs : List Char) : literal c (c :: cs) = some ((), cs) :=
  if_pos rfl

/-! ## Dates -/

theorem year_append (h : Digits 4 a) : year (a ++ rest) = some ((value a : Int), rest) := by
  have hnumber : number 4 (a ++ rest) = some (value a, rest) :=
    number_append h.isDigit (List.ne_nil_of_length_eq_add_one h.length_eq) (Nat.le_of_eq h.length_eq)
      (.inl h.length_eq)
  rw [year, dropWhile_isBlank h]
  obtain ⟨c, tail, rfl, hc⟩ := h.exists_cons
  rw [List.cons_append] at hnumber ⊢
  split
  next heq =>
    cases heq
    cases hc
  next heq =>
    cases heq
    cases hc
  next => rw [hnumber, Option.map_some]

theorem year_minus (cs : List Char) :
    year ('-' :: cs) = (number cs.length cs).map fun (n, rest) => (-(n : Int), rest) := rfl

theorem year_plus (cs : List Char) :
    year ('+' :: cs) = (number cs.length cs).map fun (n, rest) => ((n : Int), rest) := rfl

/-- Behind the year, whatever its form, the date is read alike. -/
theorem date_of_year {n : Int} (hyear : year cs = some (n, '-' :: (b ++ '-' :: (c ++ rest))))
    (hb : Digits 2 b) (hc : Digits 2 c) : date cs = some ((n, value b, value c), rest) := by
  simp only [date, hyear, literal_cons, short_append hb, short_append hc, Option.bind_eq_bind,
    Option.bind_some]

theorem dateTime_of_date {y : Int} {m d : Nat} (between : Scan Unit)
    (h : date cs = some ((y, m, d), rest)) :
    dateTime between cs = (between rest).bind fun split => (time split.2).bind fun read =>
      if read.2.isEmpty then instant? y m d read.1 0 else none := by
  simp only [dateTime, h, Option.bind_eq_bind, Option.bind_some]

theorem dateOnly_of_date {y : Int} {m d : Nat} (h : date cs = some ((y, m, d), [])) :
    dateOnly cs = instant? y m d .midnight 0 := by
  simp only [dateOnly, h, Option.bind_eq_bind, Option.bind_some, List.isEmpty_nil, if_true]

/-! ## Times -/

theorem time_joined (ha : Digits 2 a) (hb : Digits 2 b) (hc : Digits 2 c)
    (hfraction : fraction cs = some (nanos, rest)) :
    time (joined ':' a b c ++ cs) = some (⟨value a, value b, value c, nanos⟩, rest) := by
  simp only [time, joined, List.append_assoc, List.cons_append, literal_cons, short_append ha,
    short_append hb, short_append hc, hfraction, Option.bind_eq_bind, Option.bind_some]

theorem fraction_of_digits {width : Nat} (h : Digits (width + 1) a) (hwidth : width < 9)
    (hstop : Stops rest) :
    fraction ('.' :: (a ++ rest)) = some (value a * 10 ^ (9 - (width + 1)), rest) := by
  have hnumber : number 9 (a ++ rest) = some (value a, rest) :=
    number_append h.isDigit (List.ne_nil_of_length_eq_add_one h.length_eq)
      (by rw [h.length_eq]; exact hwidth) (.inr hstop)
  have hdrop : rest.dropWhile isDigit = rest := by
    cases rest with
    | nil => rfl
    | cons c rest => rw [List.dropWhile_cons_of_neg (by simp [hstop c rfl])]
  simp only [fraction, hnumber, hdrop, List.length_append, Nat.add_sub_cancel, h.length_eq]

theorem fraction_of_no_point (h : rest.head? ≠ some '.') : fraction rest = some (0, rest) := by
  unfold fraction
  split
  next => exact absurd rfl h
  next => rfl

theorem offset_zone {sign : Char} (hsign : sign = '+' ∨ sign = '-') (ha : Digits 2 a)
    (hb : Digits 2 b) (hvalue : value a ≤ 23 ∧ value b ≤ 59) :
    offset (sign :: (a ++ ':' :: b)) =
      some (if sign = '+' then ((value a * 3600 + value b * 60 : Nat) : Int)
        else -((value a * 3600 + value b * 60 : Nat) : Int), []) := by
  have hutc : ¬ (sign = 'Z' ∨ sign = 'z') := by
    rcases hsign with rfl | rfl <;> decide
  have hsigned : sign = '+' ∨ sign = '-' ∨ sign = '\u2212' := hsign.imp_right Or.inl
  have hminutes : exactly 2 (b ++ []) = some (value b, []) := exactly_append hb
  rw [List.append_nil] at hminutes
  simp only [offset, if_neg hutc, if_pos hsigned, exactly_append ha, literal_cons, hminutes,
    if_pos hvalue, Option.bind_eq_bind, Option.bind_some]

/-! ## The strict form -/

theorem separator_cons {c : Char} (h : c = 'T' ∨ c = 't' ∨ c = ' ') (cs : List Char) :
    separator (c :: cs) = some ((), cs) :=
  if_pos h

variable {x y z : List Char}

/-- The strict form of a date and a time, up to the offset. -/
theorem strict_joined (ha : Digits 4 a) (hb : Digits 2 b) (hc : Digits 2 c) (hx : Digits 2 x)
    (hy : Digits 2 y) (hz : Digits 2 z) {between : Char}
    (hbetween : between = 'T' ∨ between = 't' ∨ between = ' ')
    (hfraction : fraction cs = some (nanos, rest)) :
    strict (joined '-' a b c ++ between :: (joined ':' x y z ++ cs)) =
      (offset rest).bind fun read =>
        if read.2.isEmpty then
          instant? (value a) (value b) (value c) ⟨value x, value y, value z, nanos⟩ read.1
        else none := by
  simp only [strict, joined, List.append_assoc, List.cons_append, exactly_append ha, literal_cons,
    exactly_append hb, exactly_append hc, separator_cons hbetween, Option.bind_eq_bind,
    Option.bind_some]
  simp only [exactly_append hx, literal_cons, exactly_append hy, exactly_append hz, hfraction,
    Option.bind_some]

theorem strict_of_no_separator (ha : Digits 4 a) (hb : Digits 2 b) (hc : Digits 2 c)
    (hseparator : separator rest = none) : strict (joined '-' a b c ++ rest) = none := by
  simp only [strict, joined, List.append_assoc, List.cons_append, exactly_append ha, literal_cons,
    exactly_append hb, exactly_append hc, hseparator, Option.bind_eq_bind, Option.bind_some,
    Option.bind_none]

theorem strict_of_not_digit {c : Char} (hc : isDigit c = false) : strict (c :: cs) = none := by
  have hyear : exactly 4 (c :: cs) = none := by
    refine if_neg fun h => ?_
    rw [List.take_succ_cons, List.all_cons, hc] at h
    cases h.2
  rw [strict, hyear]
  rfl

end

end Calendar

open Calendar

/-- The forms are tried one by one on what is left without the blanks around it. -/
theorem Instant.read?_of_isTrimmed {before text after : String}
    (hbefore : Text.isBlankText before = true) (hafter : Text.isBlankText after = true)
    (h : Text.IsTrimmed text.toList) :
    Instant.read? (before ++ text ++ after) =
      (strict text.toList).or ((dateTime (literal 'T') text.toList).or
        ((dateTime blanks text.toList).or (dateOnly text.toList))) := by
  have htrim : Text.trimList (before ++ text ++ after).toList = text.toList := by
    rw [String.toList_append, String.toList_append, List.append_assoc]
    exact Text.trimList_append h (List.all_eq_true.mp hbefore) (List.all_eq_true.mp hafter)
  rw [Instant.read?, htrim]
  generalize text.toList = cs
  simp only [forms, List.findSome?_cons, List.findSome?_nil]
  cases strict cs <;> cases dateTime (literal 'T') cs <;> cases dateTime blanks cs <;>
    cases dateOnly cs <;> rfl

end Verdict
