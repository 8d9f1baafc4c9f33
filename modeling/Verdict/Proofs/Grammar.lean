import Verdict.Json.Printer
import Verdict.Proofs.ShortestDecimal
import Verdict.Text.Parts

/-!
# Texts that denote values

The grammar of JSON says which value a text denotes, however it is laid out (`Json.Denotes`). A
literal with a fraction or an exponent denotes the number that its decimal is rounded to. What is
printed of a value denotes the value (`Json.denotes_pretty`): the layout is white space, and the
decimal of a number is the one that is rounded to it.
-/

namespace Verdict

namespace Json

/-! ## The grammar -/

/-- White space between the parts of a text. -/
def IsGap (text : List Char) : Prop := ∀ c ∈ text, c ∈ [' ', '\t', '\n', '\r']

/-- The characters that stand behind a backslash, and what they mean. -/
def shortEscapes : List (Char × Char) :=
  [('"', '"'), ('\\', '\\'), ('/', '/'), ('b', '\x08'), ('f', '\x0c'), ('n', '\n'), ('r', '\r'),
    ('t', '\t')]

/-- Four hexadecimal digits and their value. -/
def IsCode (digits : List Char) (n : Nat) : Prop :=
  digits.length = 4 ∧ Text.numberOf? 16 digits = some n

/-- How a character may be written between quotes. -/
inductive SpellsChar : List Char → Char → Prop
  | plain {c : Char} (hquote : c ≠ '"') (hbackslash : c ≠ '\\') (hcontrol : 0x20 ≤ c.toNat) :
    SpellsChar [c] c
  | short {e c : Char} (h : (e, c) ∈ shortEscapes) : SpellsChar ['\\', e] c
  | code {digits : List Char} {n : Nat} (h : IsCode digits n) (hvalid : n.isValidChar) :
    SpellsChar ('\\' :: 'u' :: digits) (Char.ofNat n)
  | pair {first second : List Char} {high low : Nat} (hfirst : IsCode first (0xd800 + high))
    (hsecond : IsCode second (0xdc00 + low)) (hhigh : high < 0x400) (hlow : low < 0x400) :
    SpellsChar ('\\' :: 'u' :: first ++ '\\' :: 'u' :: second)
      (Char.ofNat (0x10000 + high * 0x400 + low))

inductive SpellsChars : List Char → List Char → Prop
  | nil : SpellsChars [] []
  | cons {text rest : List Char} {c : Char} {cs : List Char} (hc : SpellsChar text c)
    (hcs : SpellsChars rest cs) : SpellsChars (text ++ rest) (c :: cs)

/-- Digits, of which there is at least one. -/
structure AreDigits (digits : List Char) : Prop where
  ne_nil : digits ≠ []
  isDigit : ∀ c ∈ digits, c.isDigit = true

/-- Digits before a point: only a single zero may come first. -/
structure IsWhole (digits : List Char) : Prop extends AreDigits digits where
  leading : digits.head? = some '0' → digits = ['0']

/-- A point and the digits behind it, or nothing. -/
inductive IsFraction : List Char → List Char → Prop
  | none : IsFraction [] []
  | some {digits : List Char} (h : AreDigits digits) : IsFraction ('.' :: digits) digits

/-- An exponent, or nothing. -/
inductive IsPower : List Char → Int → Prop
  | none : IsPower [] 0
  | bare {mark : Char} {digits : List Char} (hmark : mark ∈ ['e', 'E']) (h : AreDigits digits) :
    IsPower (mark :: digits) (Nat.ofDigitChars 10 digits 0)
  | plus {mark : Char} {digits : List Char} (hmark : mark ∈ ['e', 'E']) (h : AreDigits digits) :
    IsPower (mark :: '+' :: digits) (Nat.ofDigitChars 10 digits 0)
  | minus {mark : Char} {digits : List Char} (hmark : mark ∈ ['e', 'E']) (h : AreDigits digits) :
    IsPower (mark :: '-' :: digits) (-(Nat.ofDigitChars 10 digits 0))

def signText (negative : Bool) : List Char := if negative then ['-'] else []

/-- A literal with a fraction or an exponent, and the decimal `digits · 10^exponent` that it
writes apart from its sign. -/
inductive IsDecimal : List Char → Nat → Int → Prop
  | mk {whole point fraction mark : List Char} {power : Int} (hwhole : IsWhole whole)
    (hfraction : IsFraction point fraction) (hpower : IsPower mark power)
    (hreal : point ++ mark ≠ []) :
    IsDecimal (whole ++ point ++ mark) (Nat.ofDigitChars 10 (whole ++ fraction) 0)
      (power - fraction.length)

mutual

/-- The text denotes the value. -/
inductive Denotes : List Char → Json → Prop
  | padded {before text behind : List Char} {v : Json} (hbefore : IsGap before)
    (hbehind : IsGap behind) (h : Denotes text v) : Denotes (before ++ text ++ behind) v
  | null : Denotes "null".toList .null
  | true : Denotes "true".toList (.bool true)
  | false : Denotes "false".toList (.bool false)
  | natural {digits : List Char} (h : IsWhole digits) :
    Denotes digits (.number (.integer (Nat.ofDigitChars 10 digits 0)))
  | negative {digits : List Char} (h : IsWhole digits) :
    Denotes ('-' :: digits) (.number (.integer (-(Nat.ofDigitChars 10 digits 0))))
  | real {text : List Char} {digits : Nat} {exponent : Int} {x : Binary64}
    (h : IsDecimal text digits exponent)
    (hround : Binary64.ofDecimal? x.negative digits exponent = some x) :
    Denotes (signText x.negative ++ text) (.number (.real x))
  | string {text : List Char} {s : String} (h : SpellsChars text s.toList) :
    Denotes ('"' :: text ++ ['"']) (.string s)
  | emptyArray {gap : List Char} (h : IsGap gap) : Denotes ('[' :: gap ++ [']']) (.array [])
  | array {text : List Char} {items : List Json} (h : DenotesItems text items) :
    Denotes ('[' :: text ++ [']']) (.array items)
  | emptyObject {gap : List Char} (h : IsGap gap) :
    Denotes ('\x7b' :: gap ++ ['\x7d']) (.object [])
  | object {text : List Char} {members : List (String × Json)} (h : DenotesMembers text members) :
    Denotes ('\x7b' :: text ++ ['\x7d']) (.object members)

/-- The text denotes the items with commas between them. -/
inductive DenotesItems : List Char → List Json → Prop
  | last {text : List Char} {v : Json} (h : Denotes text v) : DenotesItems text [v]
  | cons {text rest : List Char} {v : Json} {items : List Json} (h : Denotes text v)
    (hrest : DenotesItems rest items) : DenotesItems (text ++ ',' :: rest) (v :: items)

/-- The text denotes the members with commas between them, each a key, a colon and a value. -/
inductive DenotesMembers : List Char → List (String × Json) → Prop
  | last {key text : List Char} {k : String} {v : Json} (hkey : Denotes key (.string k))
    (h : Denotes text v) : DenotesMembers (key ++ ':' :: text) [(k, v)]
  | cons {key text rest : List Char} {k : String} {v : Json} {members : List (String × Json)}
    (hkey : Denotes key (.string k)) (h : Denotes text v)
    (hrest : DenotesMembers rest members) :
    DenotesMembers (key ++ ':' :: text ++ ',' :: rest) ((k, v) :: members)

end

/-! ## Strings -/

theorem isCode_escape {n : Nat} (h : n < 32) :
    IsCode ['0', '0', hexDigit (n / 16), hexDigit (n % 16)] n := by
  have hall : ∀ n < 32, Text.numberOf? 16 ['0', '0', hexDigit (n / 16), hexDigit (n % 16)] =
      some n := by
    decide
  exact ⟨rfl, hall n h⟩

/-- What is written of a character spells it. -/
theorem spellsChar_escape (c : Char) : SpellsChar (escape c) c := by
  have hshort : ∀ e d, (e, d) ∈ shortEscapes → c = d → SpellsChar ['\\', e] c :=
    fun e d h hc => hc ▸ .short h
  unfold escape
  split
  next h => exact hshort '"' '"' (by decide) h
  split
  next h => exact hshort '\\' '\\' (by decide) h
  split
  next h => exact hshort 'b' '\x08' (by decide) h
  split
  next h => exact hshort 'f' '\x0c' (by decide) h
  split
  next h => exact hshort 'n' '\n' (by decide) h
  split
  next h => exact hshort 'r' '\r' (by decide) h
  split
  next h => exact hshort 't' '\t' (by decide) h
  split
  next hcontrol =>
    have hcode := SpellsChar.code (isCode_escape hcontrol) c.valid
    rwa [Char.ofNat_toNat] at hcode
  next hquote hbackslash _ _ _ _ _ hcontrol =>
    exact .plain hquote hbackslash (Nat.le_of_not_lt hcontrol)

theorem spellsChars_flatMap_escape (cs : List Char) : SpellsChars (cs.flatMap escape) cs := by
  induction cs with
  | nil => exact .nil
  | cons c cs ih => exact .cons (spellsChar_escape c) ih

theorem denotes_quoted (s : String) : Denotes (quoted s).toList (.string s) := by
  have htext : (quoted s).toList = '"' :: s.toList.flatMap escape ++ ['"'] := by
    simp [quoted]
  rw [htext]
  exact .string (spellsChars_flatMap_escape s.toList)

/-! ## Numbers -/

theorem areDigits_toDigits (n : Nat) : AreDigits (Nat.toDigits 10 n) :=
  ⟨Nat.toDigits_ne_nil, fun _ => Nat.isDigit_of_mem_toDigits (by decide) (by decide)⟩

theorem ofDigitChars_toDigits (n : Nat) : Nat.ofDigitChars 10 (Nat.toDigits 10 n) 0 = n :=
  Nat.ofDigitChars_toDigits (by decide) (by decide)

theorem head?_toDigits_append (n : Nat) (rest : List Char) :
    (Nat.toDigits 10 n ++ rest).head? = (Nat.toDigits 10 n).head? := by
  obtain ⟨c, cs, h⟩ := List.exists_cons_of_ne_nil (areDigits_toDigits n).ne_nil
  rw [h]
  rfl

/-- No number but zero starts with the digit zero. -/
theorem eq_zero_of_head?_toDigits {n : Nat} (h : (Nat.toDigits 10 n).head? = some '0') : n = 0 := by
  induction n using Nat.strongRecOn with
  | ind n ih =>
    rw [Nat.toDigits_eq_if (by decide)] at h
    split at h
    next hsmall =>
      have hdigits : ∀ n < 10, [n.digitChar].head? = some '0' → n = 0 := by decide
      exact hdigits n hsmall h
    next hlarge =>
      rw [head?_toDigits_append] at h
      have := ih (n / 10) (by omega) h
      omega

theorem isWhole_toDigits (n : Nat) : IsWhole (Nat.toDigits 10 n) where
  toAreDigits := areDigits_toDigits n
  leading h := by
    rw [eq_zero_of_head?_toDigits h]
    rfl

theorem denotes_integer (n : Int) :
    Denotes (Number.integer n).toText.toList (.number (.integer n)) := by
  cases n with
  | ofNat n =>
    have htext : (Number.integer (.ofNat n)).toText = n.repr := rfl
    have h := Denotes.natural (isWhole_toDigits n)
    rw [ofDigitChars_toDigits] at h
    rw [htext, Nat.toList_repr]
    exact h
  | negSucc n =>
    have htext : (Number.integer (.negSucc n)).toText = "-" ++ (n + 1).repr := rfl
    have h := Denotes.negative (isWhole_toDigits (n + 1))
    rw [ofDigitChars_toDigits] at h
    rw [htext, String.toList_append, Nat.toList_repr]
    exact h

/-- What is written before the point of a decimal whose last digit is a whole one. -/
theorem isWhole_toDigits_append {n e : Nat} (h : n = 0 → e = 0) :
    IsWhole (Nat.toDigits 10 n ++ List.replicate e '0') where
  ne_nil := List.append_ne_nil_of_left_ne_nil Nat.toDigits_ne_nil _
  isDigit c hc := by
    rcases List.mem_append.mp hc with hc | hc
    · exact (areDigits_toDigits n).isDigit c hc
    · rw [List.eq_of_mem_replicate hc]
      rfl
  leading hhead := by
    rw [head?_toDigits_append] at hhead
    have hzero := eq_zero_of_head?_toDigits hhead
    rw [h hzero, hzero]
    rfl

/-- The digits of a number, with zeros before them so that there are more than `places`. -/
def paddedDigits (places n : Nat) : List Char :=
  List.replicate (places + 1 - (Nat.toDigits 10 n).length) '0' ++ Nat.toDigits 10 n

section
variable (places n : Nat)

theorem isDigit_of_mem_paddedDigits : ∀ c ∈ paddedDigits places n, c.isDigit = true := by
  intro c hc
  rcases List.mem_append.mp hc with hc | hc
  · rw [List.eq_of_mem_replicate hc]
    rfl
  · exact (areDigits_toDigits n).isDigit c hc

theorem length_paddedDigits :
    (paddedDigits places n).length = max (places + 1) (Nat.toDigits 10 n).length := by
  rw [paddedDigits, List.length_append, List.length_replicate]
  omega

theorem ofDigitChars_paddedDigits : Nat.ofDigitChars 10 (paddedDigits places n) 0 = n := by
  rw [paddedDigits, Nat.ofDigitChars_append, Nat.ofDigitChars_replicate_zero, Nat.mul_zero,
    ofDigitChars_toDigits]

/-- What is left before the point starts with a zero only if that is all. -/
theorem isWhole_take (hplaces : 0 < places) :
    IsWhole ((paddedDigits places n).take ((paddedDigits places n).length - places)) := by
  have hlength := length_paddedDigits places n
  refine ⟨⟨?_, fun c hc => isDigit_of_mem_paddedDigits places n c (List.mem_of_mem_take hc)⟩, ?_⟩
  · rw [← List.length_pos_iff, List.length_take]
    omega
  · intro hhead
    rw [List.head?_take, if_neg (by omega)] at hhead
    rcases Nat.lt_or_ge places (Nat.toDigits 10 n).length with hlong | hshort
    · have hzeros : places + 1 - (Nat.toDigits 10 n).length = 0 := by omega
      rw [paddedDigits, hzeros] at hhead
      rw [eq_zero_of_head?_toDigits hhead] at hlong
      have hone : (Nat.toDigits 10 0).length = 1 := rfl
      omega
    · have hone : (paddedDigits places n).length - places = 1 := by omega
      rw [hone]
      cases hpadded : paddedDigits places n with
      | nil => rw [hpadded] at hhead; cases hhead
      | cons c rest =>
        rw [hpadded] at hhead
        cases hhead
        rfl

theorem areDigits_drop (hplaces : 0 < places) :
    AreDigits ((paddedDigits places n).drop ((paddedDigits places n).length - places)) := by
  have hlength := length_paddedDigits places n
  refine ⟨?_, fun c hc => isDigit_of_mem_paddedDigits places n c (List.mem_of_mem_drop hc)⟩
  rw [← List.length_pos_iff, List.length_drop]
  omega

end

/-- A decimal is written positionally by its digits, a point and zeros. -/
theorem exists_isDecimal_positional {d : Decimal} (h : d.digits = 0 → d.exponent = 0) :
    ∃ digits exponent, IsDecimal d.positional.toList digits exponent ∧ ∀ negative,
      Binary64.ofDecimal? negative digits exponent =
        Binary64.ofDecimal? negative d.digits d.exponent := by
  obtain ⟨n, exponent⟩ := d
  cases exponent with
  | ofNat e =>
    have hzero : n = 0 → e = 0 := fun hn => Int.ofNat.inj (h hn)
    have htext : (Decimal.positional ⟨n, .ofNat e⟩).toList =
        Nat.toDigits 10 n ++ List.replicate e '0' ++ ['.', '0'] ++ [] := by
      simp [Decimal.positional, Nat.toList_repr]
    have hvalue : Nat.ofDigitChars 10 (Nat.toDigits 10 n ++ List.replicate e '0' ++ ['0']) 0 =
        n * 10 ^ (e + 1) := by
      have hzeros : List.replicate e '0' ++ ['0'] = List.replicate (e + 1) '0' :=
        List.replicate_succ'.symm
      rw [List.append_assoc, hzeros, Nat.ofDigitChars_append, ofDigitChars_toDigits,
        Nat.ofDigitChars_replicate_zero, Nat.mul_comm]
    have hdecimal := IsDecimal.mk (isWhole_toDigits_append hzero)
      (@IsFraction.some ['0'] ⟨List.cons_ne_nil _ _, List.forall_mem_singleton.mpr rfl⟩) .none
      (List.cons_ne_nil _ _)
    have hplace : (0 : Int) - (['0'] : List Char).length = -1 := rfl
    have hexponent : (-1 : Int) + (e + 1 : Nat) = .ofNat e := by
      rw [Int.ofNat_eq_natCast]
      omega
    rw [hvalue, hplace, ← htext] at hdecimal
    refine ⟨_, _, hdecimal, fun negative => ?_⟩
    rw [Binary64.ofDecimal?_mul_pow, hexponent]
  | negSucc e =>
    have hplaces := Nat.zero_lt_succ e
    have htext : (Decimal.positional ⟨n, .negSucc e⟩).toList =
        (paddedDigits (e + 1) n).take ((paddedDigits (e + 1) n).length - (e + 1)) ++
          '.' :: (paddedDigits (e + 1) n).drop ((paddedDigits (e + 1) n).length - (e + 1)) ++
          [] := by
      simp [Decimal.positional, paddedDigits, Nat.toList_repr]
    have hdecimal := IsDecimal.mk (isWhole_take (e + 1) n hplaces)
      (.some (areDigits_drop (e + 1) n hplaces)) .none (by simp)
    have hexponent : (0 : Int) - ((paddedDigits (e + 1) n).drop
        ((paddedDigits (e + 1) n).length - (e + 1))).length = .negSucc e := by
      have hlength := length_paddedDigits (e + 1) n
      rw [List.length_drop]
      omega
    rw [List.take_append_drop, ofDigitChars_paddedDigits, hexponent, ← htext] at hdecimal
    exact ⟨_, _, hdecimal, fun _ => rfl⟩

theorem isPower_exponent (n : Int) :
    IsPower ('e' :: (if 0 ≤ n then "+" else "-").toList ++ n.natAbs.repr.toList) n := by
  have hdigits := areDigits_toDigits n.natAbs
  have hmark : 'e' ∈ ['e', 'E'] := List.mem_cons_self
  rw [Nat.toList_repr]
  split
  next hpos =>
    have h := IsPower.plus hmark hdigits
    rwa [ofDigitChars_toDigits, Int.natAbs_of_nonneg hpos] at h
  next hneg =>
    have h := IsPower.minus hmark hdigits
    rwa [ofDigitChars_toDigits, Int.ofNat_natAbs_of_nonpos (by omega), Int.neg_neg] at h

/-- A decimal is written scientifically by one digit, the others behind a point, and the exponent
that belongs to the first. -/
theorem isDecimal_scientific (d : Decimal) :
    IsDecimal d.scientific.toList d.digits d.exponent := by
  obtain ⟨c, rest, hdigits⟩ := List.exists_cons_of_ne_nil (areDigits_toDigits d.digits).ne_nil
  have hall := (areDigits_toDigits d.digits).isDigit
  have hvalue := ofDigitChars_toDigits d.digits
  rw [hdigits] at hall hvalue
  obtain ⟨hc, hrest⟩ := List.forall_mem_cons.mp hall
  have hwhole : IsWhole [c] :=
    ⟨⟨List.cons_ne_nil _ _, List.forall_mem_singleton.mpr hc⟩, fun h => by cases h; rfl⟩
  have hleading : d.leading - rest.length = d.exponent := by
    rw [Decimal.leading, ← String.length_toList, Nat.toList_repr, hdigits, List.length_cons]
    omega
  obtain ⟨point, hpoint, htext⟩ : ∃ point, IsFraction point rest ∧ d.scientific.toList =
      [c] ++ point ++
        ('e' :: (if 0 ≤ d.leading then "+" else "-").toList ++ d.leading.natAbs.repr.toList) := by
    cases rest with
    | nil => exact ⟨[], .none, by simp [Decimal.scientific, Nat.toList_repr, hdigits]⟩
    | cons first others =>
      refine ⟨_, .some ⟨List.cons_ne_nil first others, hrest⟩, ?_⟩
      simp [Decimal.scientific, Nat.toList_repr, hdigits]
  have hdecimal := IsDecimal.mk hwhole hpoint (isPower_exponent d.leading) (by simp)
  have hwritten : [c] ++ rest = c :: rest := rfl
  rwa [hwritten, hvalue, hleading, ← htext] at hdecimal

/-- The text of a number behind its sign is the decimal that is rounded to it. -/
theorem denotes_real (x : Binary64) : Denotes x.toText.toList (.number (.real x)) := by
  have hsign : ∀ text : String, (x.signed text).toList = signText x.negative ++ text.toList := by
    intro text
    rw [Binary64.signed, signText]
    cases x.negative
    · rfl
    · exact String.toList_append
  rw [Binary64.toText, hsign]
  split
  · obtain ⟨digits, exponent, hdecimal, hvalue⟩ :=
      exists_isDecimal_positional x.exponent_shortest_of_digits
    exact .real hdecimal ((hvalue x.negative).trans x.ofDecimal?_shortest)
  · exact .real (isDecimal_scientific x.shortest) x.ofDecimal?_shortest

/-! ## Layout -/

theorem isGap_nil : IsGap [] := nofun

theorem isGap_space : IsGap [' '] := by simp [IsGap]

theorem isGap_lineBreak (level : Nat) : IsGap (lineBreak level).toList := by
  intro c hc
  simp only [lineBreak, String.toList_append, String.toList_ofList, List.mem_append] at hc
  rcases hc with hc | hc
  · simp_all
  · simp [List.eq_of_mem_replicate hc]

section
variable {text : List Char} {v : Json} {level : Nat}

theorem Denotes.behind {gap : List Char} (hgap : IsGap gap) (h : Denotes text v) :
    Denotes (gap ++ text) v := by
  have hpadded := Denotes.padded hgap isGap_nil h
  rwa [List.append_nil] at hpadded

theorem Denotes.before {gap : List Char} (hgap : IsGap gap) (h : Denotes text v) :
    Denotes (text ++ gap) v :=
  .padded isGap_nil hgap h

end

mutual

/-- A value in any number of brackets is denoted by what is printed of it. -/
theorem denotes_prettyAt (level : Nat) : ∀ v : Json, Denotes (prettyAt level v).toList v
  | .null => .null
  | .bool true => .true
  | .bool false => .false
  | .number (.integer n) => denotes_integer n
  | .number (.real x) => denotes_real x
  | .string s => denotes_quoted s
  | .array [] => by
    have htext : (prettyAt level (.array [])).toList = '[' :: [] ++ [']'] := by simp [prettyAt]
    rw [htext]
    exact .emptyArray isGap_nil
  | .array (v :: rest) => by
    have hgap := isGap_lineBreak (level + 1)
    have hitems := denotesItems_prettyItems (level + 1) rest (isGap_lineBreak level)
      ((denotes_prettyAt (level + 1) v).behind hgap)
    have htext : (prettyAt level (.array (v :: rest))).toList = '[' ::
        ((lineBreak (level + 1)).toList ++ (prettyAt (level + 1) v).toList ++
          (prettyItems (level + 1) rest).toList ++ (lineBreak level).toList) ++ [']'] := by
      simp [prettyAt]
    rw [htext]
    exact .array hitems
  | .object [] => by
    have htext : (prettyAt level (.object [])).toList = '\x7b' :: [] ++ ['\x7d'] := by
      simp [prettyAt]
    rw [htext]
    exact .emptyObject isGap_nil
  | .object ((k, v) :: rest) => by
    have hgap := isGap_lineBreak (level + 1)
    have hmembers := denotesMembers_prettyMembers (level + 1) rest (isGap_lineBreak level)
      ((denotes_quoted k).behind hgap)
      ((denotes_prettyAt (level + 1) v).behind isGap_space)
    have htext : (prettyAt level (.object ((k, v) :: rest))).toList = '\x7b' ::
        ((lineBreak (level + 1)).toList ++ (quoted k).toList ++ ':' ::
          ([' '] ++ (prettyAt (level + 1) v).toList) ++
          (prettyMembers (level + 1) rest).toList ++ (lineBreak level).toList) ++ ['\x7d'] := by
      simp [prettyAt]
    rw [htext]
    exact .object hmembers

/-- Items go on behind the text of one before them. -/
theorem denotesItems_prettyItems (level : Nat) (rest : List Json) {gap text : List Char} {v : Json}
    (hgap : IsGap gap) (h : Denotes text v) :
    DenotesItems (text ++ (prettyItems level rest).toList ++ gap) (v :: rest) :=
  match rest with
  | [] => by
    rw [show (prettyItems level []).toList = [] from rfl, List.append_nil]
    exact .last (h.before hgap)
  | w :: rest => by
    have hitems := denotesItems_prettyItems level rest hgap
      ((denotes_prettyAt level w).behind (isGap_lineBreak level))
    have htext : text ++ (prettyItems level (w :: rest)).toList ++ gap =
        text ++ ',' :: ((lineBreak level).toList ++ (prettyAt level w).toList ++
          (prettyItems level rest).toList ++ gap) := by
      simp [prettyItems]
    rw [htext]
    exact .cons h hitems

theorem denotesMembers_prettyMembers (level : Nat) (rest : List (String × Json))
    {gap key text : List Char} {k : String} {v : Json} (hgap : IsGap gap)
    (hkey : Denotes key (.string k)) (h : Denotes text v) :
    DenotesMembers (key ++ ':' :: text ++ (prettyMembers level rest).toList ++ gap)
      ((k, v) :: rest) :=
  match rest with
  | [] => by
    have htext : key ++ ':' :: text ++ (prettyMembers level []).toList ++ gap =
        key ++ ':' :: (text ++ gap) := by
      simp [prettyMembers]
    rw [htext]
    exact .last hkey (h.before hgap)
  | (l, w) :: rest => by
    have hmembers := denotesMembers_prettyMembers level rest hgap
      ((denotes_quoted l).behind (isGap_lineBreak level))
      ((denotes_prettyAt level w).behind isGap_space)
    have htext : key ++ ':' :: text ++ (prettyMembers level ((l, w) :: rest)).toList ++ gap =
        key ++ ':' :: text ++ ',' :: ((lineBreak level).toList ++ (quoted l).toList ++ ':' ::
          ([' '] ++ (prettyAt level w).toList) ++ (prettyMembers level rest).toList ++ gap) := by
      simp [prettyMembers]
    rw [htext]
    exact .cons hkey h hmembers

end

/-- What is printed of a value, with a line break behind it or without, denotes the value. -/
theorem denotes_pretty (v : Json) {gap : List Char} (hgap : IsGap gap) :
    Denotes (v.pretty.toList ++ gap) v :=
  (denotes_prettyAt 0 v).before hgap

end Json

end Verdict
