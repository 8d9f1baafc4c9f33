import Verdict.Proofs.Written
import Verdict.Document.Refusal

/-!
# Values inside longer texts

A value is read alike in a text of its own and as a part of a longer text, as long as what follows
does not carry a number on. Offsets are shifted, and the longer text may leave less room for
brackets, but neither is seen in the value that is written (`Json.ReadsOn`).
-/

namespace Verdict.Json

/-! ## Cursors in longer texts -/

/-- What follows does not carry a number on. -/
def Ends (more : List UInt8) : Prop :=
  (more.head?.all fun b => !isDigit b && b != 0x2e && b != 0x65 && b != 0x45) = true

theorem Ends.nil : Ends [] := rfl

theorem Ends.of_cons {b : UInt8} {more : List UInt8} (h : Ends (b :: more)) :
    isDigit b = false ∧ b ≠ 0x2e ∧ b ≠ 0x65 ∧ b ≠ 0x45 := by
  simpa [Ends, and_assoc] using h

namespace Cursor

/-- The same place in a text that goes on and starts earlier. -/
def extend (more : List UInt8) (k : Nat) (c : Cursor) : Cursor := ⟨c.rest ++ more, c.offset + k⟩

variable {more : List UInt8} {k offset : Nat} {b : UInt8} {rest : List UInt8} {c : Cursor}

@[simp]
theorem extend_nil : c.extend [] 0 = c := by
  rw [extend, List.append_nil]
  rfl

theorem mk_append_succ :
    Cursor.mk (rest ++ more) (offset + k + 1) = extend more k ⟨rest, offset + 1⟩ := by
  rw [Nat.add_right_comm]
  rfl

theorem skipBlanks_extend (h : (skipBlanks rest offset).rest ≠ []) :
    skipBlanks (rest ++ more) (offset + k) = (skipBlanks rest offset).extend more k := by
  induction rest generalizing offset with
  | nil => exact absurd rfl h
  | cons b rest ih =>
    rw [List.cons_append]
    unfold skipBlanks at h ⊢
    split
    next hblank =>
      rw [if_pos hblank] at h
      rw [Nat.add_right_comm, ih h]
    next => rfl

/-- Behind blanks alone the blanks of what follows are passed over too. -/
theorem skipBlanks_append (h : (skipBlanks rest offset).rest = []) :
    skipBlanks (rest ++ more) (offset + k) =
      skipBlanks more ((skipBlanks rest offset).offset + k) := by
  induction rest generalizing offset with
  | nil => rfl
  | cons b rest ih =>
    rw [skipBlanks] at h ⊢
    split at h
    next hblank =>
      rw [List.cons_append, skipBlanks, if_pos hblank, Nat.add_right_comm, ih h, if_pos hblank]
    next => cases h

theorem blanks_extend (hne : c.blanks.rest ≠ []) :
    (c.extend more k).blanks = c.blanks.extend more k := skipBlanks_extend hne

theorem blanks_extend_cons (h : c.blanks = ⟨b :: rest, offset⟩) :
    (c.extend more k).blanks = ⟨b :: (rest ++ more), offset + k⟩ := by
  have hne : c.blanks.rest ≠ [] := by simp [h]
  rw [blanks_extend hne, h]
  rfl

end Cursor

/-! ## Scalars -/

section
variable {more : List UInt8} {k offset : Nat} {rest : List UInt8} {c : Cursor}

theorem skipDigits_extend (h : Ends more) :
    skipDigits (rest ++ more) (offset + k) = (skipDigits rest offset).extend more k := by
  induction rest generalizing offset with
  | nil =>
    cases more with
    | nil => rfl
    | cons b more =>
      have hstop : skipDigits (b :: more) (offset + k) = ⟨b :: more, offset + k⟩ := by
        rw [skipDigits, h.of_cons.1]
        rfl
      exact hstop
  | cons b rest ih =>
    rw [List.cons_append]
    unfold skipDigits
    split
    · rw [Nat.add_right_comm, ih]
    · rfl

theorem takeDigits_extend (h : Ends more) {limit value n : Nat} {after : Cursor} {full : Bool}
    (htake : takeDigits limit value rest offset = (n, after, full)) :
    takeDigits limit value (rest ++ more) (offset + k) = (n, after.extend more k, full) := by
  induction rest generalizing offset value with
  | nil =>
    obtain ⟨rfl, rfl, rfl⟩ : value = n ∧ ⟨[], offset⟩ = after ∧ false = full := by
      simpa [takeDigits] using htake
    cases more with
    | nil => rfl
    | cons b more =>
      have hstop : takeDigits limit value (b :: more) (offset + k) =
          (value, ⟨b :: more, offset + k⟩, false) := by
        rw [takeDigits, h.of_cons.1]
        rfl
      exact hstop
  | cons b rest ih =>
    rw [List.cons_append]
    unfold takeDigits at htake ⊢
    dsimp only at htake ⊢
    split at htake
    next hdigit =>
      rw [if_pos hdigit]
      split at htake
      next hfull =>
        cases htake
        rw [if_pos hfull]
        rfl
      next hroom => rw [if_neg hroom, Nat.add_right_comm, ih htake]
    next hdigit =>
      cases htake
      rw [if_neg hdigit]
      rfl

theorem endsInExponent_extend (h : Ends more) :
    endsInExponent (c.extend more k) = endsInExponent c := by
  obtain ⟨rest, offset⟩ := c
  cases rest with
  | cons b rest => rfl
  | nil =>
    cases more with
    | nil => rfl
    | cons b more =>
      obtain ⟨-, -, hlower, hupper⟩ := h.of_cons
      simp [endsInExponent, Cursor.extend, hlower, hupper]

end

/-- What the function reads it reads in every longer text that does not carry a number on. -/
def Extends {α : Type} (read : Cursor → Except Flaw (α × Cursor)) : Prop :=
  ∀ c v after, read c = .ok (v, after) → ∀ more, Ends more → ∀ k,
    read (c.extend more k) = .ok (v, after.extend more k)

theorem Extends.apply {α : Type} {read : Cursor → Except Flaw (α × Cursor)} (hread : Extends read)
    {c after : Cursor} {v : α} (h : read c = .ok (v, after)) {more : List UInt8} (hmore : Ends more)
    (k : Nat) : read (c.extend more k) = .ok (v, after.extend more k) :=
  hread c v after h more hmore k

section
variable {negative : Bool} {significand : Nat} {exponent : Int}

theorem realOf_extends : Extends (realOf negative significand exponent) := by
  intro c v after h more _ k
  unfold realOf at h ⊢
  dsimp only at h ⊢
  split at h
  · cases h
    simp only [*]
  · cases h

/-- The sign of an exponent: whether it is a minus, and what stands behind it. -/
def exponentSign (rest : List UInt8) (offset : Nat) : Bool × List UInt8 × Nat :=
  match rest with
  | 0x2b :: rest => (false, rest, offset + 1)
  | 0x2d :: rest => (true, rest, offset + 1)
  | rest => (false, rest, offset)

theorem exponentSign_extend {rest : List UInt8} (h : rest ≠ []) (more : List UInt8)
    (offset k : Nat) :
    exponentSign (rest ++ more) (offset + k) =
      ((exponentSign rest offset).1, (exponentSign rest offset).2.1 ++ more,
        (exponentSign rest offset).2.2 + k) := by
  cases rest with
  | nil => exact absurd rfl h
  | cons b rest =>
    rw [List.cons_append]
    unfold exponentSign
    split
    next heq =>
      cases heq
      simp [Nat.add_right_comm]
    next heq =>
      cases heq
      simp [Nat.add_right_comm]
    next hplus hminus =>
      split
      next heq => cases heq; exact absurd rfl (hplus _)
      next heq => cases heq; exact absurd rfl (hminus _)
      next => rfl

theorem readExponent_eq (c : Cursor) :
    readExponent negative significand exponent c =
      let sign := exponentSign (c.rest.drop 1) (c.offset + 1)
      match sign.2.1 with
      | [] => .error ⟨.endInValue, sign.2.2⟩
      | b :: _ =>
        if isDigit b then
          match takeDigits (2 ^ 31 - 1) 0 sign.2.1 sign.2.2 with
          | (_, c, true) =>
            if significand ≠ 0 ∧ sign.1 = false then .error ⟨.numberOutOfRange, c.offset + 1⟩
            else .ok (.real (.zero negative), skipDigits c.rest c.offset)
          | (value, c, false) =>
            realOf negative significand (if sign.1 then exponent - value else exponent + value) c
        else .error ⟨.invalidNumber, sign.2.2 + 1⟩ := rfl

theorem readExponent_extends : Extends (readExponent negative significand exponent) := by
  intro c v after h more hmore k
  obtain ⟨rest, offset⟩ := c
  rw [readExponent_eq] at h ⊢
  cases rest with
  | nil => cases h
  | cons letter rest =>
    have hrest : rest ≠ [] := by
      rintro rfl
      cases h
    have hsign := exponentSign_extend hrest more (offset + 1) k
    simp only [Cursor.extend, List.cons_append, List.drop_succ_cons, List.drop_zero,
      Nat.add_right_comm offset k 1, hsign] at h ⊢
    cases hdigits : (exponentSign rest (offset + 1)).2.1 with
    | nil =>
      rw [hdigits] at h
      cases h
    | cons digit digits =>
      rw [hdigits] at h
      simp only [List.cons_append] at h ⊢
      split at h
      next hdigit =>
        rw [if_pos hdigit, ← List.cons_append]
        split at h
        next c heq =>
          rw [takeDigits_extend hmore heq]
          dsimp only
          split at h
          · cases h
          next hsmall =>
            cases h
            rw [if_neg hsmall, Cursor.extend, skipDigits_extend hmore]
            rfl
        next value c heq =>
          rw [takeDigits_extend hmore heq]
          exact realOf_extends.apply h hmore k
      next => cases h

theorem readScaled_extends : Extends (readScaled negative significand exponent) := by
  intro c v after h more hmore k
  rw [readScaled] at h ⊢
  rw [endsInExponent_extend hmore]
  split at h
  next hletter =>
    rw [if_pos hletter]
    exact readExponent_extends.apply h hmore k
  next hletter =>
    rw [if_neg hletter]
    exact realOf_extends.apply h hmore k

theorem readFraction_extends : Extends (readFraction negative significand exponent) := by
  intro c v after h more hmore k
  obtain ⟨rest, offset⟩ := c
  cases rest with
  | nil =>
    rw [readFraction] at h
    simp [takeDigits] at h
  | cons point rest =>
    rw [readFraction] at h ⊢
    simp only [Cursor.extend, List.cons_append, List.drop_succ_cons, List.drop_zero,
      Nat.add_right_comm offset k 1] at h ⊢
    split at h
    next value c htake =>
      rw [takeDigits_extend hmore htake]
      have hscaled := readScaled_extends.apply h hmore k
      simp only [Cursor.extend, Nat.add_sub_add_right, skipDigits_extend hmore] at hscaled ⊢
      exact hscaled
    next value c htake =>
      rw [takeDigits_extend hmore htake]
      split at h
      · cases h
      next hsome =>
        have hscaled := readScaled_extends.apply h hmore k
        simp only [Cursor.extend, Nat.add_sub_add_right, Nat.add_right_cancel_iff, if_neg hsome]
        exact hscaled

theorem head?_any_isDigit_append {rest more : List UInt8} (h : Ends more) :
    (rest ++ more).head?.any isDigit = rest.head?.any isDigit := by
  cases rest with
  | cons b rest => rfl
  | nil =>
    cases more with
    | nil => rfl
    | cons b more => exact h.of_cons.1

/-- What follows does not put a point behind a number either. -/
theorem not_point_append {rest more : List UInt8} (h : Ends more)
    (hnot : ∀ tail, rest = 0x2e :: tail → False) (tail : List UInt8) :
    rest ++ more = 0x2e :: tail → False := by
  cases rest with
  | cons b rest =>
    intro heq
    obtain ⟨rfl, -⟩ := List.cons.inj heq
    exact hnot rest rfl
  | nil =>
    rintro rfl
    exact h.of_cons.2.1 rfl

/-- Reads the digits behind a point if there is one. -/
def fractionOr (negative : Bool) (value : Nat) (exponent : Int)
    (other : Cursor → Except Flaw (Number × Cursor)) (c : Cursor) :
    Except Flaw (Number × Cursor) :=
  match c.rest with
  | 0x2e :: _ => readFraction negative value exponent c
  | _ => other c

theorem fractionOr_extends {other : Cursor → Except Flaw (Number × Cursor)}
    (hother : Extends other) : Extends (fractionOr negative significand exponent other) := by
  intro c v after h more hmore k
  obtain ⟨rest, offset⟩ := c
  unfold fractionOr at h ⊢
  split at h
  next heq =>
    subst heq
    exact readFraction_extends.apply h hmore k
  next hnot =>
    split
    next heq => exact (not_point_append hmore hnot _ heq).elim
    next => exact hother.apply h hmore k

/-- Ends a number that may be whole. -/
def readExponentOr (negative : Bool) (value : Nat) (c : Cursor) : Except Flaw (Number × Cursor) :=
  if endsInExponent c then readExponent negative value 0 c
  else .ok (wholeNumber negative value, c)

theorem readExponentOr_extends : Extends (readExponentOr negative significand) := by
  intro c v after h more hmore k
  unfold readExponentOr at h ⊢
  rw [endsInExponent_extend hmore]
  split at h
  next hletter =>
    rw [if_pos hletter]
    exact readExponent_extends.apply h hmore k
  next hletter =>
    cases h
    rw [if_neg hletter]

/-- Ends a number behind the digits that were taken, and behind those that were left. -/
def readBehindDigits (negative : Bool) : Nat × Cursor × Bool → Except Flaw (Number × Cursor)
  | (value, c, true) =>
    let after := skipDigits c.rest c.offset
    let exponent : Int := (after.offset - c.offset : Nat)
    fractionOr negative value exponent (readScaled negative value exponent) after
  | (value, c, false) => fractionOr negative value 0 (readExponentOr negative value) c

theorem readBehindDigits_extends (value : Nat) (full : Bool) :
    Extends fun c => readBehindDigits negative (value, c, full) := by
  intro c v after h more hmore k
  cases full with
  | true =>
    have hfraction := (fractionOr_extends readScaled_extends).apply h hmore k
    simp only [readBehindDigits, Cursor.extend, skipDigits_extend hmore, Nat.add_sub_add_right]
    exact hfraction
  | false => exact (fractionOr_extends readExponentOr_extends).apply h hmore k

theorem readNumber_extends : Extends (readNumber negative) := by
  intro c v after h more hmore k
  obtain ⟨rest, offset⟩ := c
  cases rest with
  | nil => cases h
  | cons b rest =>
    change (if isDigit b = false then _ else if b == 0x30 && rest.head?.any isDigit then _ else
      readBehindDigits negative (takeDigits (2 ^ 64 - 1) 0 (b :: rest) offset)) = _ at h
    change (if isDigit b = false then _ else if b == 0x30 && (rest ++ more).head?.any isDigit then _
      else readBehindDigits negative
        (takeDigits (2 ^ 64 - 1) 0 ((b :: rest) ++ more) (offset + k))) = _
    rw [head?_any_isDigit_append hmore]
    split at h
    · cases h
    next hdigit =>
      rw [if_neg hdigit]
      split at h
      · cases h
      next hzero =>
        rw [if_neg hzero, takeDigits_extend hmore rfl]
        exact (readBehindDigits_extends _ _).apply h hmore k

end

/-- A reading may start behind the next byte if it reads nothing from no text. -/
theorem Extends.behind {α : Type} {read : Cursor → Except Flaw (α × Cursor)} (h : Extends read)
    (hempty : ∀ offset, (read ⟨[], offset⟩).isOk = false) :
    Extends fun c => read ⟨c.rest.drop 1, c.offset + 1⟩ := by
  intro c v after hread more hmore k
  obtain ⟨rest, offset⟩ := c
  cases rest with
  | nil =>
    have hnot := hempty (offset + 1)
    rw [show read ⟨[], offset + 1⟩ = _ from hread] at hnot
    cases hnot
  | cons b rest =>
    have hextend := h.apply hread hmore k
    rw [Cursor.extend, Nat.add_right_comm] at hextend
    exact hextend

theorem readWord_extend {more : List UInt8} {k : Nat} {word : List UInt8} {c after : Cursor}
    (h : readWord word c = .ok after) :
    readWord word (c.extend more k) = .ok (after.extend more k) := by
  induction word generalizing c with
  | nil =>
    cases h
    rfl
  | cons w word ih =>
    obtain ⟨rest, offset⟩ := c
    cases rest with
    | nil => cases h
    | cons b rest =>
      rw [readWord] at h ⊢
      simp only [Cursor.extend, List.cons_append] at h ⊢
      split at h
      next hw =>
        rw [if_pos hw, Nat.add_right_comm]
        exact ih h
      next => cases h

/-- Nothing behind the closing quote has a part in a string. -/
theorem readString_extend {more : List UInt8} {k : Nat} {taken rest : List UInt8} {offset : Nat}
    {s : String} {after : Cursor} (h : readString taken offset rest = .ok (s, after)) :
    readString taken (offset + k) (rest ++ more) = .ok (s, after.extend more k) := by
  fun_induction readString taken offset rest with
  | case2 taken offset rest s' hs =>
    cases h
    rw [List.cons_append, readString, hs]
    simp only [Cursor.extend, Nat.add_right_comm]
  | case6 taken offset a b c d rest n hn hlow hscalar ih =>
    simp only [List.cons_append]
    rw [readString, hn]
    simp only [if_neg hlow, if_pos hscalar]
    rw [Nat.add_right_comm]
    exact ih h
  | case11 taken offset a b c d n hn hlow hscalar a' b' c' d' rest m hm hpair ih =>
    simp only [List.cons_append]
    rw [readString, hn]
    simp only [if_neg hlow, if_neg hscalar, hm, if_neg hpair]
    rw [Nat.add_right_comm offset k 12]
    exact ih h
  | case17 taken offset b rest hpair hunicode b' hb' ih =>
    rw [List.cons_append, List.cons_append, readString, hb', Nat.add_right_comm]
    · exact ih h
    · exact fun _ _ _ _ _ hb _ => hunicode hb
    · exact hunicode
  | case20 taken offset b rest hquote _ _ hlast hescape hcontrol ih =>
    have hbackslash : b ≠ 92 := by
      rintro rfl
      cases rest with
      | nil => exact hlast rfl rfl
      | cons b' rest => exact hescape b' rest rfl rfl
    rw [List.cons_append, readString, if_neg hcontrol, Nat.add_right_comm]
    · exact ih h
    all_goals simp_all
  | case1 | case3 | case4 | case5 | case7 | case8 | case9 | case10 | case12 | case13 | case14
  | case15 | case16 | case18 | case19 => cases h

/-! ## Parts -/

/-- The part writes a value, and the text goes on behind it. -/
structure Part.Gives {α β : Type} (write : α → Option β) (part : Part α) (v : β) (after : Cursor) :
    Prop where
  content : write part.content = some v
  after : part.after = some after

theorem readWord_extends (word : List UInt8) :
    Extends fun c => (readWord word c).map fun c => ((), c) := by
  intro c v after h more _ k
  obtain ⟨c', hword, heq⟩ := map_eq_ok_iff.mp h
  cases heq
  exact map_eq_ok_iff.mpr ⟨_, readWord_extend hword, rfl⟩

theorem readString_extends : Extends fun c => readString [] c.offset c.rest :=
  fun _ _ _ h _ _ _ => readString_extend h

/-- A kind of scalars: how they are read, and what they write. -/
structure ScalarKind where
  α : Type
  read : Cursor → Except Flaw (α × Cursor)
  doc : α → Nat → Doc
  value : α → Json
  continues : Extends read
  written : ∀ v stop, (doc v stop).written? = some (value v)

namespace ScalarKind

/-- A word whose first byte has been seen. -/
def word (letters : List UInt8) (doc : Nat → Doc) (value : Json)
    (hletters : letters ≠ [])
    (written : ∀ stop, (doc stop).written? = some value) : ScalarKind where
  α := Unit
  read c := (readWord letters ⟨c.rest.drop 1, c.offset + 1⟩).map fun c => ((), c)
  doc _ := doc
  value _ := value
  continues := (readWord_extends letters).behind fun _ => by
    cases letters with
    | nil => exact absurd rfl hletters
    | cons letter letters => rfl
  written _ := written

def negative : ScalarKind where
  α := Number
  read c := readNumber true ⟨c.rest.drop 1, c.offset + 1⟩
  doc := .number
  value := .number
  continues := readNumber_extends.behind fun _ => rfl
  written _ _ := rfl

def number : ScalarKind where
  α := Number
  read := readNumber false
  doc := .number
  value := .number
  continues := readNumber_extends
  written _ _ := rfl

def string : ScalarKind where
  α := String
  read c := readString [] (c.offset + 1) (c.rest.drop 1)
  doc := .string
  value := .string
  continues := readString_extends.behind fun _ => rfl
  written _ _ := rfl

def part (kind : ScalarKind) (c : Cursor) : Part Doc := scalarPart c kind.doc (kind.read c)

/-- A scalar without flaws is read alike in a longer text. -/
theorem exists_gives (kind : ScalarKind) {c : Cursor} (h : (kind.part c).content.sound = .ok ()) :
    ∃ (v : Json) (after : Cursor), ∀ more k, Ends more →
      (kind.part (c.extend more k)).Gives Doc.written? v (after.extend more k) := by
  unfold part at h ⊢
  cases hc : kind.read c with
  | error flaw =>
    rw [hc] at h
    cases h
  | ok result =>
    obtain ⟨v, after⟩ := result
    refine ⟨kind.value v, after, fun more k hmore => ?_⟩
    rw [kind.continues.apply hc hmore k]
    exact ⟨kind.written v _, rfl⟩

end ScalarKind

/-- What a first byte announces: a scalar, a bracket, or nothing that can be read. -/
theorem readScalar_cases (b : UInt8) :
    (∃ kind : ScalarKind, ∀ c, readScalar b c = some (kind.part c)) ∨
    (∀ c, readScalar b c = none) ∨
    ∀ c, readScalar b c = some ⟨.flawed (c.ahead .expectedValue), none⟩ := by
  unfold readScalar
  dsimp only
  split
  · exact .inl ⟨.word [0x75, 0x6c, 0x6c] .null .null (by decide) fun _ => rfl, fun _ => rfl⟩
  split
  · exact .inl ⟨.word [0x72, 0x75, 0x65] (.bool true) (.bool true) (by decide) fun _ => rfl,
      fun _ => rfl⟩
  split
  · exact .inl ⟨.word [0x61, 0x6c, 0x73, 0x65] (.bool false) (.bool false) (by decide)
      fun _ => rfl, fun _ => rfl⟩
  split
  · exact .inl ⟨.negative, fun _ => rfl⟩
  split
  · exact .inl ⟨.number, fun _ => rfl⟩
  split
  · exact .inl ⟨.string, fun _ => rfl⟩
  split
  · exact .inr (.inl fun _ => rfl)
  · exact .inr (.inr fun _ => rfl)

/-! ## What comes next inside brackets -/

/-- An item stands next: at once if it is the first one, and else behind a comma. What an item may
start with depends on the bracket. -/
inductive Next (starts : UInt8 → Prop) : Bool → Cursor → Cursor → Prop
  | first {c : Cursor} {b : UInt8} {rest : List UInt8} {offset : Nat}
    (hblanks : c.blanks = ⟨b :: rest, offset⟩) (hstarts : starts b) :
    Next starts true c ⟨b :: rest, offset⟩
  | comma {c : Cursor} {b : UInt8} {rest rest' : List UInt8} {offset offset' : Nat}
    (hblanks : c.blanks = ⟨0x2c :: rest, offset⟩)
    (hblanks' : (Cursor.mk rest (offset + 1)).blanks = ⟨b :: rest', offset'⟩)
    (hstarts : starts b) : Next starts false c ⟨b :: rest', offset'⟩

theorem Next.extend {starts : UInt8 → Prop} {first : Bool} {c next : Cursor}
    (h : Next starts first c next) {more : List UInt8} {k : Nat} :
    Next starts first (c.extend more k) (next.extend more k) := by
  cases h with
  | first hblanks hstarts => exact .first (Cursor.blanks_extend_cons hblanks) hstarts
  | comma hblanks hblanks' hstarts =>
    refine .comma (Cursor.blanks_extend_cons hblanks) ?_ hstarts
    rw [Cursor.mk_append_succ]
    exact Cursor.blanks_extend_cons hblanks'

section
variable {fuel depth : Nat} {first : Bool} {c next : Cursor} {rest : List UInt8} {offset : Nat}

theorem readItems_of_closed (h : c.blanks = ⟨0x5d :: rest, offset⟩) :
    readItems (fuel + 1) depth first c = ⟨.closed (offset + 1), some ⟨rest, offset + 1⟩⟩ := by
  simp only [readItems, h]

theorem readItems_of_next (h : Next (· ≠ 0x5d) first c next) :
    readItems (fuel + 1) depth first c = readItem fuel depth next := by
  cases h with
  | first hblanks hstarts => simp [readItems, hblanks]
  | comma hblanks hblanks' hstarts => simp [readItems, hblanks, hblanks', hstarts]

theorem readItems_cases {index : Nat}
    (h : (readItems (fuel + 1) depth first c).content.sound index = .ok ()) :
    (∃ rest offset, c.blanks = ⟨0x5d :: rest, offset⟩) ∨ ∃ next, Next (· ≠ 0x5d) first c next := by
  cases hblanks : c.blanks with | mk rest offset
  simp only [readItems, hblanks] at h
  split at h
  next => cases h
  next rest => exact .inl ⟨rest, offset, rfl⟩
  next b rest hb =>
    split at h
    next hfirst =>
      subst hfirst
      exact .inr ⟨_, .first hblanks hb⟩
    next hfirst =>
      split at h
      next hcomma =>
        cases hblanks' : (Cursor.mk rest (offset + 1)).blanks with | mk rest' offset'
        simp only [hblanks'] at h
        split at h
        next => cases h
        next => cases h
        next hnil hclose =>
          obtain rfl := Bool.eq_false_iff.mpr hfirst
          obtain rfl := eq_of_beq hcomma
          cases rest' with
          | nil => exact (hnil rfl).elim
          | cons b' rest' =>
            exact .inr ⟨_, .comma hblanks hblanks' fun heq => hclose rest' (heq ▸ rfl)⟩
      next => cases h

theorem readMembers_of_closed (h : c.blanks = ⟨0x7d :: rest, offset⟩) :
    readMembers (fuel + 1) depth first c = ⟨.closed (offset + 1), some ⟨rest, offset + 1⟩⟩ := by
  simp only [readMembers, h]

theorem readMembers_of_next (h : Next (· = 0x22) first c next) :
    readMembers (fuel + 1) depth first c = readMember fuel depth next := by
  cases h with
  | first hblanks hstarts =>
    subst hstarts
    simp [readMembers, hblanks]
  | comma hblanks hblanks' hstarts =>
    subst hstarts
    simp [readMembers, hblanks, hblanks']

theorem readMembers_cases (h : (readMembers (fuel + 1) depth first c).content.sound = .ok ()) :
    (∃ rest offset, c.blanks = ⟨0x7d :: rest, offset⟩) ∨ ∃ next, Next (· = 0x22) first c next := by
  cases hblanks : c.blanks with | mk rest offset
  simp only [readMembers, hblanks] at h
  split at h
  next => cases h
  next rest => exact .inl ⟨rest, offset, rfl⟩
  next b rest hb =>
    split at h
    next hfirst =>
      subst hfirst
      split at h
      next hquote => exact .inr ⟨_, .first hblanks (eq_of_beq hquote)⟩
      next => cases h
    next hfirst =>
      split at h
      next hcomma =>
        cases hblanks' : (Cursor.mk rest (offset + 1)).blanks with | mk rest' offset'
        simp only [hblanks'] at h
        obtain rfl := Bool.eq_false_iff.mpr hfirst
        obtain rfl := eq_of_beq hcomma
        split at h
        next => cases h
        next => exact .inr ⟨_, .comma hblanks hblanks' rfl⟩
        next => cases h
        next => cases h
      next => cases h

end

/-! ## Values -/

/-- Reading gives a value and stops at a cursor, and it does so in every longer text that does not
carry a number on, with more fuel and with more room for brackets. -/
def Settles {α β : Type} (write : α → Option β) (read : Nat → Nat → Cursor → Part α)
    (fuel depth : Nat) (c : Cursor) (v : β) (after : Cursor) : Prop :=
  ∀ fuel' depth' more k, fuel ≤ fuel' → depth ≤ depth' → Ends more →
    (read fuel' depth' (c.extend more k)).Gives write v (after.extend more k)

namespace Settles

variable {α β : Type} {write : α → Option β} {read : Nat → Nat → Cursor → Part α}
  {fuel depth : Nat} {c after : Cursor} {v : β}

theorem here (h : Settles write read fuel depth c v after) :
    (read fuel depth c).Gives write v after := by
  have hhere := h fuel depth [] 0 (Nat.le_refl _) (Nat.le_refl _) .nil
  rwa [Cursor.extend_nil, Cursor.extend_nil] at hhere

theorem succ (h : ∀ fuel' depth' more k, fuel ≤ fuel' → depth ≤ depth' → Ends more →
      (read (fuel' + 1) depth' (c.extend more k)).Gives write v (after.extend more k)) :
    Settles write read (fuel + 1) depth c v after := by
  intro fuel' depth' more k hfuel hdepth hmore
  cases fuel' with
  | zero => cases hfuel
  | succ fuel' => exact h fuel' depth' more k (Nat.le_of_succ_le_succ hfuel) hdepth hmore

end Settles

/-- With this much fuel, all that is read without flaws settles. -/
structure ReadsOn (fuel : Nat) : Prop where
  value : ∀ {depth c}, (readValue fuel depth c).content.sound = .ok () →
    ∃ v after, Settles Doc.written? readValue fuel depth c v after
  items : ∀ {depth first c index}, (readItems fuel depth first c).content.sound index = .ok () →
    ∃ vs after, Settles Items.written? (readItems · · first) fuel depth c vs after
  item : ∀ {depth c index}, (readItem fuel depth c).content.sound index = .ok () →
    ∃ vs after, Settles Items.written? readItem fuel depth c vs after
  members : ∀ {depth first c}, (readMembers fuel depth first c).content.sound = .ok () →
    ∃ ms after, Settles Members.written? (readMembers · · first) fuel depth c ms after
  member : ∀ {depth c}, (readMember fuel depth c).content.sound = .ok () →
    ∃ ms after, Settles Members.written? readMember fuel depth c ms after

namespace ReadsOn

variable {fuel depth : Nat} {first : Bool} {c : Cursor} {index : Nat}

theorem zero : ReadsOn 0 where
  value h := by rw [readValue] at h; cases h
  items h := by rw [readItems] at h; cases h
  item h := by rw [readItem] at h; cases h
  members h := by rw [readMembers] at h; cases h
  member h := by rw [readMember] at h; cases h

/-- A bracket takes one level of the depth. -/
theorem bracket_succ (ih : ReadsOn fuel) {b : UInt8} {rest : List UInt8} {offset : Nat}
    (hscalar : ∀ c, readScalar b c = none)
    (h : (readValue (fuel + 1) (depth + 1) ⟨b :: rest, offset⟩).content.sound = .ok ()) :
    ∃ v after,
      Settles Doc.written? readValue (fuel + 1) (depth + 1) ⟨b :: rest, offset⟩ v after := by
  rw [readValue] at h
  dsimp only at h
  rw [hscalar] at h
  dsimp only at h
  split at h
  next hopen =>
    rw [Doc.sound] at h
    obtain ⟨vs, after, hitems⟩ := ih.items h
    refine ⟨.array vs, after, .succ fun fuel' depth' more k hfuel hdepth hmore => ?_⟩
    obtain ⟨depth', rfl⟩ := Nat.exists_eq_add_of_lt hdepth
    have hpart := hitems fuel' (depth + depth') more k hfuel (Nat.le_add_right ..) hmore
    rw [Cursor.extend, List.cons_append, readValue]
    simp only [hscalar, if_pos hopen, Cursor.mk_append_succ]
    exact ⟨by rw [Doc.written?, hpart.content]; rfl, hpart.after⟩
  next hopen =>
    rw [Doc.sound] at h
    obtain ⟨ms, after, hmembers⟩ := ih.members h
    refine ⟨.object ms, after, .succ fun fuel' depth' more k hfuel hdepth hmore => ?_⟩
    obtain ⟨depth', rfl⟩ := Nat.exists_eq_add_of_lt hdepth
    have hpart := hmembers fuel' (depth + depth') more k hfuel (Nat.le_add_right ..) hmore
    rw [Cursor.extend, List.cons_append, readValue]
    simp only [hscalar, if_neg hopen, Cursor.mk_append_succ]
    exact ⟨by rw [Doc.written?, hpart.content]; rfl, hpart.after⟩

theorem value_succ (ih : ReadsOn fuel)
    (h : (readValue (fuel + 1) depth c).content.sound = .ok ()) :
    ∃ v after, Settles Doc.written? readValue (fuel + 1) depth c v after := by
  obtain ⟨rest, offset⟩ := c
  cases rest with
  | nil =>
    rw [readValue] at h
    cases h
  | cons b rest =>
    rcases readScalar_cases b with ⟨kind, hkind⟩ | hnone | hflawed
    · rw [readValue] at h
      dsimp only at h
      rw [hkind] at h
      obtain ⟨v, after, hgives⟩ := kind.exists_gives h
      refine ⟨v, after, .succ fun fuel' depth' more k _ _ hmore => ?_⟩
      rw [readValue]
      simp only [Cursor.extend, List.cons_append, hkind]
      exact hgives more k hmore
    · cases depth with
      | zero =>
        rw [readValue] at h
        dsimp only at h
        rw [hnone] at h
        cases h
      | succ depth => exact ih.bracket_succ hnone h
    · rw [readValue] at h
      dsimp only at h
      rw [hflawed] at h
      cases h

theorem items_succ (ih : ReadsOn fuel)
    (h : (readItems (fuel + 1) depth first c).content.sound index = .ok ()) :
    ∃ vs after, Settles Items.written? (readItems · · first) (fuel + 1) depth c vs after := by
  rcases readItems_cases h with ⟨rest, offset, hclosed⟩ | ⟨next, hnext⟩
  · refine ⟨[], ⟨rest, offset + 1⟩, .succ fun fuel' depth' more k _ _ _ => ?_⟩
    rw [readItems_of_closed (Cursor.blanks_extend_cons hclosed)]
    exact ⟨rfl, congrArg some Cursor.mk_append_succ⟩
  · rw [readItems_of_next hnext] at h
    obtain ⟨vs, after, hitem⟩ := ih.item h
    refine ⟨vs, after, .succ fun fuel' depth' more k hfuel hdepth hmore => ?_⟩
    rw [readItems_of_next hnext.extend]
    exact hitem fuel' depth' more k hfuel hdepth hmore

theorem item_succ (ih : ReadsOn fuel)
    (h : (readItem (fuel + 1) depth c).content.sound index = .ok ()) :
    ∃ vs after, Settles Items.written? readItem (fuel + 1) depth c vs after := by
  rw [readItem] at h
  dsimp only at h
  split at h
  next hafter =>
    rw [Items.sound] at h
    split at h <;> cases h
  next after hafter =>
    rw [Items.sound] at h
    split at h
    · cases h
    next hdoc =>
      obtain ⟨v, after', hvalue⟩ := ih.value hdoc
      obtain rfl : after' = after := Option.some.inj (hvalue.here.after.symm.trans hafter)
      obtain ⟨vs, final, hitems⟩ := ih.items h
      refine ⟨v :: vs, final, .succ fun fuel' depth' more k hfuel hdepth hmore => ?_⟩
      have hpart := hvalue fuel' depth' more k hfuel hdepth hmore
      have hothers := hitems fuel' depth' more k hfuel hdepth hmore
      rw [readItem]
      simp only [hpart.after]
      exact ⟨Items.written?_item hpart.content hothers.content, hothers.after⟩

theorem members_succ (ih : ReadsOn fuel)
    (h : (readMembers (fuel + 1) depth first c).content.sound = .ok ()) :
    ∃ ms after, Settles Members.written? (readMembers · · first) (fuel + 1) depth c ms after := by
  rcases readMembers_cases h with ⟨rest, offset, hclosed⟩ | ⟨next, hnext⟩
  · refine ⟨[], ⟨rest, offset + 1⟩, .succ fun fuel' depth' more k _ _ _ => ?_⟩
    rw [readMembers_of_closed (Cursor.blanks_extend_cons hclosed)]
    exact ⟨rfl, congrArg some Cursor.mk_append_succ⟩
  · rw [readMembers_of_next hnext] at h
    obtain ⟨ms, after, hmember⟩ := ih.member h
    refine ⟨ms, after, .succ fun fuel' depth' more k hfuel hdepth hmore => ?_⟩
    rw [readMembers_of_next hnext.extend]
    exact hmember fuel' depth' more k hfuel hdepth hmore

/-- A value stands where something without flaws is read. -/
theorem rest_ne_nil_of_value (h : (readValue fuel depth c).content.sound = .ok ()) :
    c.rest ≠ [] := by
  intro hnil
  cases fuel <;> simp only [readValue, hnil] at h <;> cases h

theorem member_succ (ih : ReadsOn fuel)
    (h : (readMember (fuel + 1) depth c).content.sound = .ok ()) :
    ∃ ms after, Settles Members.written? readMember (fuel + 1) depth c ms after := by
  rw [readMember] at h
  split at h
  next => cases h
  next key c' hkey =>
    cases hcolon : c'.blanks with | mk colon offset
    simp only [hcolon] at h
    split at h
    next => cases h
    next rest =>
      split at h
      next hafter =>
        rw [Members.sound] at h
        split at h <;> cases h
      next after hafter =>
        rw [Members.sound] at h
        split at h
        · cases h
        next hdoc =>
          obtain ⟨v, after', hvalue⟩ := ih.value hdoc
          obtain rfl : after' = after := Option.some.inj (hvalue.here.after.symm.trans hafter)
          obtain ⟨ms, final, hmembers⟩ := ih.members h
          refine ⟨(key, v) :: ms, final, .succ fun fuel' depth' more k hfuel hdepth hmore => ?_⟩
          have hkey' : readString [] ((c.extend more k).offset + 1)
              ((c.extend more k).rest.drop 1) = .ok (key, c'.extend more k) :=
            (readString_extends.behind fun _ => rfl).apply hkey hmore k
          have hpart := hvalue fuel' depth' more k hfuel hdepth hmore
          have hothers := hmembers fuel' depth' more k hfuel hdepth hmore
          rw [readMember]
          simp only [hkey', Cursor.blanks_extend_cons hcolon, Cursor.mk_append_succ,
            Cursor.blanks_extend (rest_ne_nil_of_value hdoc), hpart.after]
          refine ⟨?_, hothers.after⟩
          simp only [Members.written?, Key.text, hpart.content, hothers.content]
    next => cases h

end ReadsOn

theorem readsOn (fuel : Nat) : ReadsOn fuel := by
  induction fuel with
  | zero => exact .zero
  | succ fuel ih =>
    exact ⟨ih.value_succ, ih.items_succ, ih.item_succ, ih.members_succ, ih.member_succ⟩

/-! ## Whole texts -/

/-- The cursor before the value of a text. -/
def Cursor.ofText (bytes : List UInt8) : Cursor := (Cursor.mk bytes 0).blanks

/-- The text is one value with nothing but blanks behind it. -/
structure IsValue (bytes : List UInt8) (v : Json) (after : Cursor) : Prop where
  settles : Settles Doc.written? readValue (3 * bytes.length + 3) maxDepth (.ofText bytes) v after
  ends : after.blanks.rest = []

section
variable {bytes : List UInt8} {v w : Json} {after : Cursor}

theorem root_ofBytes (bytes : List UInt8) : (Text.ofBytes bytes).root =
    (readValue (3 * bytes.length + 3) maxDepth (.ofText bytes)).content := by
  unfold Text.ofBytes Cursor.ofText
  dsimp only
  split <;> rfl

theorem trailing_ofBytes
    (h : (readValue (3 * bytes.length + 3) maxDepth (.ofText bytes)).after = some after) :
    (Text.ofBytes bytes).trailing = none ↔ after.blanks.rest = [] := by
  rw [Cursor.ofText] at h
  simp [Text.ofBytes, h]

theorem decodeText_eq_ok_iff {α : Type} {reading : Reading α} {a : α} :
    decodeText reading bytes = .ok a ↔
      reading .text (Text.ofBytes bytes).root = .ok a ∧ (Text.ofBytes bytes).trailing = none := by
  unfold decodeText
  dsimp only
  split
  next hroot => simp [hroot]
  next hroot => split <;> simp [*]

theorem exists_isValue (h : decodeText .json bytes = .ok v) : ∃ w after, IsValue bytes w after := by
  obtain ⟨hroot, htrailing⟩ := decodeText_eq_ok_iff.mp h
  have hsound := Doc.sound_of_toJson _ hroot
  rw [root_ofBytes] at hsound
  obtain ⟨w, after, hsettles⟩ := (readsOn _).value hsound
  exact ⟨w, after, hsettles, (trailing_ofBytes hsettles.here.after).mp htrailing⟩

/-- What is read where the value of a text is written is read from the text. -/
theorem IsValue.decodeText_eq_ok (h : IsValue bytes w after) {α : Type} {reading : Reading α}
    (hreading : reading.Placeless) {doc : Doc} (hdoc : doc.written? = some w) {a : α}
    (ha : reading .text doc = .ok a) : decodeText reading bytes = .ok a := by
  have hroot : (Text.ofBytes bytes).root.written? = some w :=
    (root_ofBytes bytes).symm ▸ h.settles.here.content
  exact decodeText_eq_ok_iff.mpr
    ⟨hreading.eq_ok hdoc hroot ha, (trailing_ofBytes h.settles.here.after).mpr h.ends⟩

/-- What is read without flaws in the place of a text is the value of the text. -/
theorem IsValue.gives (h : IsValue bytes w after) {fuel depth k : Nat} {more : List UInt8}
    (hfuel : 3 * bytes.length + 3 ≤ fuel) (hdepth : depth ≤ maxDepth) (hmore : Ends more)
    (hsound : (readValue fuel depth ((Cursor.ofText bytes).extend more k)).content.sound = .ok ()) :
    (readValue fuel depth ((Cursor.ofText bytes).extend more k)).Gives Doc.written? w
      (after.extend more k) := by
  obtain ⟨w', after', hsettles⟩ := (readsOn fuel).value hsound
  -- both are compared where there is room for as many brackets as in a text of its own
  have hwide := hsettles fuel maxDepth [] 0 (Nat.le_refl _) hdepth .nil
  have hown := h.settles fuel maxDepth more k hfuel (Nat.le_refl _) hmore
  rw [Cursor.extend_nil, Cursor.extend_nil] at hwide
  obtain rfl : w' = w := Option.some.inj (hwide.content.symm.trans hown.content)
  obtain rfl : after' = after.extend more k := Option.some.inj (hwide.after.symm.trans hown.after)
  exact hsettles.here

end

end Verdict.Json
