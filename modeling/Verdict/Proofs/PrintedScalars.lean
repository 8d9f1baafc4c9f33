import Verdict.Json.Printer
import Verdict.Json.Reader
import Verdict.Proofs.Bytes

/-!
# Strings and numbers in printed texts

Inside quotes each character is written by itself, escaped or as its bytes, and what is written of
it is read as its bytes (`Json.readString_escapedBytes`); a whole string follows by induction on its
characters. A number is read digit by digit, in the order in which its division by ten leaves them
(`Json.takeDigits_decimal`).
-/

namespace Verdict.Json

/-! ## Strings -/

/-- The bytes of a character inside quotes. -/
def escapedBytes (c : Char) : List UInt8 := (escape c).flatMap String.utf8EncodeChar

/-- A byte that stands for itself inside quotes. -/
def IsPlain (b : UInt8) : Prop := b ≠ 0x22 ∧ b ≠ 0x5c ∧ ¬ b < 0x20

section
variable {taken rest : List UInt8} {offset : Nat}

theorem readString_plain {b : UInt8} (h : IsPlain b) :
    readString taken offset (b :: rest) = readString (b :: taken) (offset + 1) rest := by
  obtain ⟨hquote, hbackslash, hcontrol⟩ := h
  rw [readString, if_neg hcontrol]
  all_goals simp_all

theorem readString_plains {bytes : List UInt8} (h : ∀ b ∈ bytes, IsPlain b) :
    readString taken offset (bytes ++ rest) =
      readString (bytes.reverse ++ taken) (offset + bytes.length) rest := by
  induction bytes generalizing taken offset with
  | nil => rfl
  | cons b bytes ih =>
    obtain ⟨hb, hbytes⟩ := List.forall_mem_cons.mp h
    rw [List.cons_append, readString_plain hb, ih hbytes, List.reverse_cons, List.append_assoc,
      List.singleton_append, List.length_cons, Nat.add_right_comm, Nat.add_assoc]

theorem readString_hex {a b c d : UInt8} {n : Nat} (hn : hexOf? a b c d = some n)
    (hlow : n < 0xd800) :
    readString taken offset (0x5c :: 0x75 :: a :: b :: c :: d :: rest) =
      readString (pushChar n taken) (offset + 6) rest := by
  rw [readString, hn]
  have hsurrogate : ¬ (0xdc00 ≤ n ∧ n ≤ 0xdfff) := by omega
  simp only [if_neg hsurrogate, if_pos (Or.inl hlow)]

end

theorem pushChar_toNat (c : Char) (taken : List UInt8) :
    pushChar c.toNat taken = (String.utf8EncodeChar c).reverse ++ taken := by
  have hbytes : textBytes (String.singleton c) = String.utf8EncodeChar c := by
    rw [textBytes_eq_flatMap, String.toList_singleton, List.flatMap_singleton]
  rw [pushChar, Char.ofNat_toNat]
  exact congrArg (·.reverse ++ taken) hbytes

theorem utf8EncodeChar_hexDigit :
    ∀ n < 16, String.utf8EncodeChar (hexDigit n) = [(hexDigit n).toUInt8] ∧
      hexValue? (hexDigit n).toUInt8 = some n := by
  decide

/-- A character that need not be escaped has plain bytes, however many they are. -/
theorem isPlain_of_mem_utf8EncodeChar {c : Char} (hquote : c ≠ '"') (hbackslash : c ≠ '\\')
    (hcontrol : ¬ c.toNat < 32) : ∀ b ∈ String.utf8EncodeChar c, IsPlain b := by
  have hmax : c.val.toNat < 0x110000 := by
    rcases c.valid with hc | ⟨-, hc⟩
    · exact Nat.lt_trans hc (by decide)
    · exact hc
  have hquote : c.val.toNat ≠ 34 := fun h => hquote (Char.toNat_inj.mp h)
  have hbackslash : c.val.toNat ≠ 92 := fun h => hbackslash (Char.toNat_inj.mp h)
  have hcontrol : ¬ c.val.toNat < 32 := hcontrol
  -- a code of several bytes has none that could be taken for a single one
  simp only [String.utf8EncodeChar]
  repeat' split
  all_goals
    simp only [List.forall_mem_cons, IsPlain, UInt8.lt_iff_toNat_lt, ne_eq, ← UInt8.toNat_inj,
      UInt8.toNat_ofNat', UInt8.reduceToNat, List.not_mem_nil, false_imp_iff, implies_true, and_true]
    simp (disch := omega) only [Nat.mod_eq_of_lt]
    omega

section
variable {taken rest : List UInt8} {offset : Nat}

/-- What is written of a character is read as its bytes. -/
theorem readString_escapedBytes (c : Char) :
    readString taken offset (escapedBytes c ++ rest) =
      readString ((String.utf8EncodeChar c).reverse ++ taken) (offset + (escapedBytes c).length)
        rest := by
  unfold escapedBytes escape
  split
  · subst c; rfl
  split
  · subst c; rfl
  split
  · subst c; rfl
  split
  · subst c; rfl
  split
  · subst c; rfl
  split
  · subst c; rfl
  split
  · subst c; rfl
  split
  next hcontrol =>
    obtain ⟨hhigh, hhighValue⟩ := utf8EncodeChar_hexDigit (c.toNat / 16) (by omega)
    obtain ⟨hlow, hlowValue⟩ := utf8EncodeChar_hexDigit (c.toNat % 16) (by omega)
    have hvalue : hexOf? 0x30 0x30 (hexDigit (c.toNat / 16)).toUInt8
        (hexDigit (c.toNat % 16)).toUInt8 = some c.toNat := by
      have hzero : hexValue? 0x30 = some 0 := rfl
      simp [hexOf?, hzero, hhighValue, hlowValue, Nat.div_add_mod']
    have hbytes : ['\\', 'u', '0', '0', hexDigit (c.toNat / 16), hexDigit (c.toNat % 16)].flatMap
        String.utf8EncodeChar = [0x5c, 0x75, 0x30, 0x30, (hexDigit (c.toNat / 16)).toUInt8,
          (hexDigit (c.toNat % 16)).toUInt8] := by
      simp only [List.flatMap_cons, hhigh, hlow]
      rfl
    rw [hbytes, ← pushChar_toNat]
    exact readString_hex hvalue (by omega)
  next hquote hbackslash _ _ _ _ _ hcontrol =>
    rw [List.flatMap_singleton]
    exact readString_plains (isPlain_of_mem_utf8EncodeChar hquote hbackslash hcontrol)

theorem readString_flatMap_escapedBytes (cs : List Char) :
    readString taken offset (cs.flatMap escapedBytes ++ rest) =
      readString ((cs.flatMap String.utf8EncodeChar).reverse ++ taken)
        (offset + (cs.flatMap escapedBytes).length) rest := by
  induction cs generalizing taken offset with
  | nil => rfl
  | cons c cs ih =>
    rw [List.flatMap_cons, List.append_assoc, readString_escapedBytes, ih, List.flatMap_cons,
      List.reverse_append, List.append_assoc, List.length_append, Nat.add_assoc]

end

theorem textBytes_quoted (s : String) :
    textBytes (quoted s) = 0x22 :: (s.toList.flatMap escapedBytes ++ [0x22]) := by
  have hquote : textBytes "\"" = [0x22] := by decide +kernel
  rw [quoted, textBytes_append, textBytes_append, hquote, textBytes_eq_flatMap, String.toList_ofList,
    List.flatMap_assoc]
  rfl

/-- A quoted text is read back behind its first quote. -/
theorem readString_quoted (s : String) (more : List UInt8) (offset : Nat) :
    readString [] (offset + 1) ((textBytes (quoted s) ++ more).drop 1) =
      .ok (s, ⟨more, offset + (textBytes (quoted s)).length⟩) := by
  have hlength : offset + (textBytes (quoted s)).length =
      offset + 1 + (s.toList.flatMap escapedBytes).length + 1 := by
    rw [textBytes_quoted, List.length_cons, List.length_append, List.length_singleton]
    omega
  rw [hlength, textBytes_quoted, List.cons_append, List.drop_one, List.tail_cons,
    List.append_assoc, readString_flatMap_escapedBytes, List.append_nil, List.singleton_append,
    readString, List.reverse_reverse, ← textBytes_eq_flatMap, fromUTF8?_textBytes]

/-! ## Numbers -/

/-- The digits of a natural number. -/
def decimal (n : Nat) : List UInt8 := textBytes n.repr

theorem utf8EncodeChar_digitChar :
    ∀ n < 10, String.utf8EncodeChar n.digitChar = [UInt8.ofNat (48 + n)] ∧
      isDigit (UInt8.ofNat (48 + n)) = true ∧ digitValue (UInt8.ofNat (48 + n)) = n := by
  decide

theorem decimal_eq (n : Nat) :
    decimal n = (if n < 10 then [] else decimal (n / 10)) ++ [UInt8.ofNat (48 + n % 10)] := by
  have hlast := (utf8EncodeChar_digitChar (n % 10) (Nat.mod_lt n (by decide))).1
  have hdigits : ∀ n, decimal n = (Nat.toDigits 10 n).flatMap String.utf8EncodeChar := by
    intro n
    rw [decimal, textBytes_eq_flatMap, Nat.repr, String.toList_ofList]
  rw [hdigits, hdigits, Nat.toDigits_eq_if (by decide)]
  split
  next hsmall =>
    rw [List.flatMap_singleton, ← Nat.mod_eq_of_lt hsmall, hlast, Nat.mod_mod]
    rfl
  next => rw [List.flatMap_append, List.flatMap_singleton, hlast]

theorem decimal_of_lt {n : Nat} (h : n < 10) : decimal n = [UInt8.ofNat (48 + n % 10)] := by
  rw [decimal_eq, if_pos h, List.nil_append]

theorem decimal_of_le {n : Nat} (h : 10 ≤ n) :
    decimal n = decimal (n / 10) ++ [UInt8.ofNat (48 + n % 10)] := by
  rw [decimal_eq, if_neg (Nat.not_lt.mpr h)]

theorem takeDigits_decimal {limit : Nat} (n : Nat) {offset : Nat} {rest : List UInt8}
    (h : n ≤ limit) :
    takeDigits limit 0 (decimal n ++ rest) offset =
      takeDigits limit n rest (offset + (decimal n).length) := by
  induction n using Nat.strongRecOn generalizing offset rest with
  | ind n ih =>
    obtain ⟨-, hdigit, hvalue⟩ := utf8EncodeChar_digitChar (n % 10) (Nat.mod_lt n (by decide))
    have hlast : ∀ offset, takeDigits limit (n / 10) (UInt8.ofNat (48 + n % 10) :: rest) offset =
        takeDigits limit n rest (offset + 1) := by
      intro offset
      rw [takeDigits, if_pos hdigit, hvalue, Nat.div_add_mod']
      exact if_neg (Nat.not_lt.mpr h)
    rcases Nat.lt_or_ge n 10 with hsmall | hlarge
    · rw [Nat.div_eq_of_lt hsmall] at hlast
      rw [decimal_of_lt hsmall]
      exact hlast offset
    · rw [decimal_of_le hlarge, List.append_assoc, List.singleton_append,
        ih (n / 10) (by omega) (by omega), hlast, List.length_append]
      rfl

/-- No number but zero starts with the digit zero. -/
theorem exists_decimal_eq_cons (n : Nat) :
    ∃ b rest, decimal n = b :: rest ∧ isDigit b = true ∧ (b = 0x30 → rest = []) := by
  have hfirst : ∀ n, 0 < n → ∃ b rest, decimal n = b :: rest ∧ isDigit b = true ∧ b ≠ 0x30 := by
    intro n
    induction n using Nat.strongRecOn with
    | ind n ih =>
      intro hpos
      rcases Nat.lt_or_ge n 10 with hsmall | hlarge
      · have hdigits : ∀ n < 10, 0 < n → isDigit (UInt8.ofNat (48 + n % 10)) = true ∧
            UInt8.ofNat (48 + n % 10) ≠ 0x30 := by decide
        exact ⟨_, _, decimal_of_lt hsmall, hdigits n hsmall hpos⟩
      · obtain ⟨b, rest, heq, hb⟩ := ih (n / 10) (by omega) (by omega)
        exact ⟨b, _, by rw [decimal_of_le hlarge, heq, List.cons_append], hb⟩
  rcases Nat.eq_zero_or_pos n with rfl | hpos
  · exact ⟨0x30, [], by decide +kernel, by decide, fun _ => rfl⟩
  · obtain ⟨b, rest, heq, hdigit, hb⟩ := hfirst n hpos
    exact ⟨b, rest, heq, hdigit, fun h => absurd h hb⟩

theorem readNumber_decimal {negative : Bool} {n offset : Nat} (h : n < 2 ^ 64) :
    readNumber negative ⟨decimal n, offset⟩ =
      .ok (wholeNumber negative n, ⟨[], offset + (decimal n).length⟩) := by
  obtain ⟨b, rest, heq, hdigit, hzero⟩ := exists_decimal_eq_cons n
  have htake := @takeDigits_decimal (2 ^ 64 - 1) n offset [] (by omega)
  rw [List.append_nil] at htake
  have hleading : ¬ (b == 0x30 && rest.head?.any isDigit) = true := by
    rw [Bool.and_eq_true]
    rintro ⟨hb, hnext⟩
    rw [hzero (eq_of_beq hb)] at hnext
    cases hnext
  rw [heq] at htake ⊢
  have hdigit : ¬ isDigit b = false := by rw [hdigit]; decide
  rw [readNumber]
  simp only [if_neg hdigit, if_neg hleading, htake]
  rfl

end Verdict.Json
