import Verdict.Proofs.Continued
import Verdict.Proofs.PrintedScalars

/-!
# Reading what is printed

A pretty text is put together from the texts of its parts, and each part is read as what it prints
wherever it stands (`Json.Prints`): behind any bytes, and before all that do not carry a number on.
So a value whose numbers are integers is read from its pretty text, in as many brackets as it opens
at once (`Json.prints_prettyAt`).
-/

namespace Verdict.Json

/-! ## Parts of a printed text -/

/-- The bytes are read as the value wherever they stand, if what follows does not carry a number on.
Three units of fuel a byte are enough. -/
def Prints {α β : Type} (write : α → Option β) (read : Nat → Nat → Cursor → Part α) (depth : Nat)
    (bytes : List UInt8) (v : β) : Prop :=
  Settles write read (3 * bytes.length) depth ⟨bytes, 0⟩ v ⟨[], bytes.length⟩

theorem Cursor.extend_mk {bytes more : List UInt8} {offset k : Nat} :
    extend more k ⟨bytes, offset⟩ = ⟨bytes ++ more, offset + k⟩ := rfl

section
variable {α β : Type} {write : α → Option β} {read : Nat → Nat → Cursor → Part α}
  {depth : Nat} {bytes : List UInt8} {v : β}

/-- It is enough to read the bytes where they stand. -/
theorem Prints.of_gives (h : ∀ fuel depth' more k, 3 * bytes.length ≤ fuel → depth ≤ depth' →
      Ends more → (read fuel depth' ⟨bytes ++ more, k⟩).Gives write v ⟨more, k + bytes.length⟩) :
    Prints write read depth bytes v := by
  intro fuel depth' more k hfuel hdepth hmore
  rw [Cursor.extend_mk, Cursor.extend_mk, Nat.zero_add, Nat.add_comm]
  exact h fuel depth' more k hfuel hdepth hmore

theorem Prints.mono (h : Prints write read depth bytes v) {depth' : Nat} (hle : depth ≤ depth') :
    Prints write read depth' bytes v :=
  fun fuel _ more k hfuel hdepth => h fuel _ more k hfuel (Nat.le_trans hle hdepth)

theorem Prints.gives (h : Prints write read depth bytes v) (fuel : Nat) {depth' : Nat}
    (more : List UInt8) (k : Nat) (hfuel : 3 * bytes.length ≤ fuel) (hdepth : depth ≤ depth')
    (hmore : Ends more) :
    (read fuel depth' ⟨bytes ++ more, k⟩).Gives write v ⟨more, k + bytes.length⟩ := by
  have hgives := h fuel depth' more k hfuel hdepth hmore
  rwa [Cursor.extend_mk, Cursor.extend_mk, Nat.zero_add, Nat.add_comm] at hgives

end

/-! ### Blanks -/

/-- A byte that is passed over between values. -/
def IsBlank (b : UInt8) : Prop := (b == 0x20 || b == 0x0a || b == 0x09 || b == 0x0d) = true

instance : DecidablePred IsBlank := fun _ => inferInstanceAs (Decidable (_ = true))

/-- A blank does not carry a number on. -/
theorem IsBlank.ends {b : UInt8} (h : IsBlank b) (rest : List UInt8) : Ends (b :: rest) := by
  simp only [IsBlank, Bool.or_eq_true, beq_iff_eq] at h
  rcases h with ((rfl | rfl) | rfl) | rfl <;> rfl

/-- The bytes of a line break and of the blanks behind it. -/
def breakBytes (level : Nat) : List UInt8 := 0x0a :: List.replicate (2 * level) 0x20

theorem textBytes_lineBreak (level : Nat) : textBytes (lineBreak level) = breakBytes level := by
  have hblank : String.utf8EncodeChar ' ' = [0x20] := rfl
  have hblanks : textBytes (String.ofList (List.replicate (2 * level) ' ')) =
      List.replicate (2 * level) 0x20 := by
    rw [textBytes_eq_flatMap, String.toList_ofList, List.flatMap_replicate, hblank,
      List.flatten_replicate_singleton]
  rw [lineBreak, textBytes_append, hblanks]
  rfl

theorem isBlank_of_mem_breakBytes {level : Nat} : ∀ b ∈ breakBytes level, IsBlank b := by
  intro b hb
  rcases List.mem_cons.mp hb with rfl | hb
  · rfl
  · rw [List.eq_of_mem_replicate hb]
    rfl

theorem skipBlanks_of_not_blank {b : UInt8} {rest : List UInt8} {offset : Nat} (h : ¬ IsBlank b) :
    Cursor.skipBlanks (b :: rest) offset = ⟨b :: rest, offset⟩ := by
  rw [Cursor.skipBlanks]
  exact if_neg h

theorem skipBlanks_blanks {blanks rest : List UInt8} {offset : Nat}
    (h : ∀ b ∈ blanks, IsBlank b) :
    Cursor.skipBlanks (blanks ++ rest) offset =
      Cursor.skipBlanks rest (offset + blanks.length) := by
  induction blanks generalizing offset with
  | nil => rfl
  | cons b blanks ih =>
    obtain ⟨hb, hblanks⟩ := List.forall_mem_cons.mp h
    rw [List.cons_append, Cursor.skipBlanks]
    refine (if_pos hb).trans ?_
    rw [ih hblanks, List.length_cons, Nat.add_right_comm, Nat.add_assoc]

/-- The bytes start with one of some bytes, and with no blank. -/
def Starts (starts : UInt8 → Prop) (bytes : List UInt8) : Prop :=
  ∃ b rest, bytes = b :: rest ∧ ¬ IsBlank b ∧ starts b

/-- The bytes start with something that does not carry a number on. -/
def Stops (bytes : List UInt8) : Prop := bytes ≠ [] ∧ Ends bytes

theorem Stops.append {bytes : List UInt8} (h : Stops bytes) (more : List UInt8) :
    Ends (bytes ++ more) := by
  obtain ⟨hne, hends⟩ := h
  obtain ⟨b, rest, rfl⟩ := List.exists_cons_of_ne_nil hne
  exact hends

/-! ### Items and members -/

/-- What stands before an item: a line break, behind a comma if it is not the first item. -/
def Separates (first : Bool) (bytes : List UInt8) : Prop :=
  ∃ level, bytes = if first then breakBytes level else 0x2c :: breakBytes level

namespace Separates

variable {first : Bool} {separator : List UInt8}

theorem next (h : Separates first separator) {starts : UInt8 → Prop} {bytes more : List UInt8}
    (hbytes : Starts starts bytes) {k : Nat} :
    Next starts first ⟨separator ++ (bytes ++ more), k⟩ ⟨bytes ++ more, k + separator.length⟩ := by
  obtain ⟨level, rfl⟩ := h
  obtain ⟨b, rest, rfl, hblank, hstarts⟩ := hbytes
  have hskip : ∀ k, Cursor.blanks ⟨breakBytes level ++ (b :: rest ++ more), k⟩ =
      ⟨b :: rest ++ more, k + (breakBytes level).length⟩ := by
    intro k
    rw [Cursor.blanks, skipBlanks_blanks isBlank_of_mem_breakBytes]
    exact skipBlanks_of_not_blank hblank
  cases first with
  | true => exact .first (hskip k) hstarts
  | false =>
    have hcomma : ¬ IsBlank 0x2c := by decide
    have hnext := hskip (k + 1)
    rw [Nat.add_right_comm] at hnext
    exact .comma (skipBlanks_of_not_blank hcomma) hnext hstarts

theorem stops (h : Separates first separator) (rest : List UInt8) : Stops (separator ++ rest) := by
  obtain ⟨level, rfl⟩ := h
  cases first with
  | true => exact ⟨List.cons_ne_nil _ _, rfl⟩
  | false => exact ⟨List.cons_ne_nil _ _, rfl⟩

theorem length_pos (h : Separates first separator) : 0 < separator.length := by
  obtain ⟨level, rfl⟩ := h
  cases first <;> exact Nat.succ_pos _

end Separates

section
variable {depth : Nat} {first : Bool} {separator bytes rest blanks : List UInt8} {v : Json}

theorem blanks_append_cons (hblanks : ∀ b ∈ blanks, IsBlank b) {b : UInt8} (hb : ¬ IsBlank b)
    (more : List UInt8) (k : Nat) :
    Cursor.blanks ⟨blanks ++ b :: more, k⟩ = ⟨b :: more, k + blanks.length⟩ := by
  rw [Cursor.blanks, skipBlanks_blanks hblanks, skipBlanks_of_not_blank hb]

/-- Nothing but blanks stands before the closing bracket of an empty list. -/
theorem prints_closed {α β : Type} {write : α → Option (List β)}
    {read : Nat → Nat → Cursor → Part α} {closed : Nat → α} {bracket : UInt8}
    (hbracket : ¬ IsBlank bracket) (hwrite : ∀ stop, write (closed stop) = some [])
    (hread : ∀ fuel depth c rest offset, Cursor.blanks c = ⟨bracket :: rest, offset⟩ →
      read (fuel + 1) depth c = ⟨closed (offset + 1), some ⟨rest, offset + 1⟩⟩)
    (hblanks : ∀ b ∈ blanks, IsBlank b) :
    Prints write read depth (blanks ++ [bracket]) [] := by
  refine .of_gives fun fuel depth' more k hfuel _ _ => ?_
  rw [List.length_append, List.length_singleton] at hfuel ⊢
  obtain ⟨fuel, rfl⟩ := Nat.exists_eq_add_of_le' (show 1 ≤ fuel by omega)
  rw [List.append_assoc, List.singleton_append,
    hread fuel depth' _ more _ (blanks_append_cons hblanks hbracket more k)]
  exact ⟨hwrite _, rfl⟩

theorem prints_items_closed (hblanks : ∀ b ∈ blanks, IsBlank b) :
    Prints Items.written? (readItems · · first) depth (blanks ++ [0x5d]) [] :=
  prints_closed (by decide) (fun _ => rfl) (fun _ _ _ _ _ => readItems_of_closed) hblanks

theorem prints_items_cons {vs : List Json} (hseparator : Separates first separator)
    (hv : Prints Doc.written? readValue depth bytes v) (hstarts : Starts (· ≠ 0x5d) bytes)
    (hrest : Prints Items.written? (readItems · · false) depth rest vs) (hstops : Stops rest) :
    Prints Items.written? (readItems · · first) depth (separator ++ (bytes ++ rest)) (v :: vs) := by
  refine .of_gives fun fuel depth' more k hfuel hdepth hmore => ?_
  have hpos := hseparator.length_pos
  simp only [List.length_append] at hfuel ⊢
  obtain ⟨fuel, rfl⟩ := Nat.exists_eq_add_of_le' (show 2 ≤ fuel by omega)
  have hvalue := hv.gives fuel (rest ++ more) (k + separator.length) (by omega) hdepth
    (hstops.append more)
  have hothers := hrest.gives fuel more (k + separator.length + bytes.length) (by omega) hdepth
    hmore
  rw [List.append_assoc, List.append_assoc, readItems_of_next (hseparator.next hstarts), readItem]
  simp only [hvalue.after, ← Nat.add_assoc]
  exact ⟨Items.written?_item hvalue.content hothers.content, hothers.after⟩

theorem prints_members_closed (hblanks : ∀ b ∈ blanks, IsBlank b) :
    Prints Members.written? (readMembers · · first) depth (blanks ++ [0x7d]) [] :=
  prints_closed (by decide) (fun _ => rfl) (fun _ _ _ _ _ => readMembers_of_closed) hblanks

theorem starts_quoted (s : String) : Starts (· = 0x22) (textBytes (quoted s)) :=
  ⟨_, _, textBytes_quoted s, by decide, rfl⟩

/-- The bytes of a member: its key, a colon with a blank, and its value. -/
def memberBytes (key : String) (bytes : List UInt8) : List UInt8 :=
  textBytes (quoted key) ++ (0x3a :: 0x20 :: bytes)

theorem length_memberBytes (key : String) (bytes : List UInt8) :
    (memberBytes key bytes).length = (textBytes (quoted key)).length + 2 + bytes.length := by
  rw [memberBytes, List.length_append, List.length_cons, List.length_cons]
  omega

theorem starts_memberBytes (key : String) (bytes : List UInt8) :
    Starts (· = 0x22) (memberBytes key bytes) := by
  obtain ⟨b, tail, heq, hblank, hquote⟩ := starts_quoted key
  exact ⟨b, _, by rw [memberBytes, heq, List.cons_append], hblank, hquote⟩

/-- Where the value of a member is read, so is the member, and then what follows. -/
theorem exists_readMember_memberBytes {fuel depth k : Nat} {key : String} {more : List UInt8}
    {after : Cursor} (hstarts : Starts (· ≠ 0x5d) bytes)
    (hv : (readValue fuel depth ⟨bytes ++ more, k + ((textBytes (quoted key)).length + 2)⟩).Gives
      Doc.written? v after) :
    ∃ keySettled doc settled, doc.written? = some v ∧
      readMember (fuel + 1) depth ⟨memberBytes key bytes ++ more, k⟩ =
        let rest := readMembers fuel depth false after
        ⟨.member (.text key) keySettled doc settled none rest.content, rest.after⟩ := by
  have hkey := readString_quoted key (0x3a :: 0x20 :: (bytes ++ more)) k
  have hcolon : ∀ tail k, Cursor.blanks ⟨0x3a :: tail, k⟩ = ⟨0x3a :: tail, k⟩ :=
    fun _ _ => skipBlanks_of_not_blank (by decide)
  have hbehind : ∀ k, Cursor.blanks ⟨0x20 :: (bytes ++ more), k⟩ = ⟨bytes ++ more, k + 1⟩ := by
    intro k
    obtain ⟨b, tail, rfl, hblank, -⟩ := hstarts
    exact @blanks_append_cons [0x20] (List.forall_mem_singleton.mpr rfl) b hblank _ k
  rw [readMember]
  simp only [memberBytes, List.append_assoc, List.cons_append, hkey, hcolon, hbehind]
  simp only [Nat.add_assoc, Nat.reduceAdd, hv.after]
  exact ⟨_, _, _, hv.content, rfl⟩

theorem prints_members_cons {key : String} {ms : List (String × Json)}
    (hseparator : Separates first separator) (hv : Prints Doc.written? readValue depth bytes v)
    (hstarts : Starts (· ≠ 0x5d) bytes)
    (hrest : Prints Members.written? (readMembers · · false) depth rest ms) (hstops : Stops rest) :
    Prints Members.written? (readMembers · · first) depth
      (separator ++ (memberBytes key bytes ++ rest)) ((key, v) :: ms) := by
  refine .of_gives fun fuel depth' more k hfuel hdepth hmore => ?_
  have hpos := hseparator.length_pos
  simp only [List.length_append, length_memberBytes] at hfuel ⊢
  obtain ⟨fuel, rfl⟩ := Nat.exists_eq_add_of_le' (show 2 ≤ fuel by omega)
  have hvalue := hv.gives fuel (rest ++ more)
    (k + separator.length + ((textBytes (quoted key)).length + 2)) (by omega) hdepth
    (hstops.append more)
  have hothers := hrest.gives fuel more
    (k + separator.length + ((textBytes (quoted key)).length + 2) + bytes.length) (by omega)
    hdepth hmore
  obtain ⟨keySettled, doc, settled, hdoc, hmember⟩ := exists_readMember_memberBytes hstarts hvalue
  rw [List.append_assoc, List.append_assoc,
    readMembers_of_next (hseparator.next (starts_memberBytes key bytes)), hmember]
  simp only [← Nat.add_assoc] at hothers ⊢
  refine ⟨?_, hothers.after⟩
  simp only [Members.written?, Key.text, hdoc, hothers.content]

/-! ### Values -/

/-- What stands behind a bracket is read with one bracket less, and then put into the brackets. -/
theorem prints_bracket {α β : Type} {write : α → Option β} {read : Nat → Nat → Cursor → Part α}
    {doc : Nat → α → Doc} {json : β → Json} {bracket : UInt8} {w : β}
    (hread : ∀ fuel depth rest k, readValue (fuel + 1) (depth + 1) ⟨bracket :: rest, k⟩ =
      let part := read fuel depth ⟨rest, k + 1⟩
      ⟨doc k part.content, part.after⟩)
    (hwrite : ∀ k content, write content = some w → (doc k content).written? = some (json w))
    (h : Prints write read depth bytes w) :
    Prints Doc.written? readValue (depth + 1) (bracket :: bytes) (json w) := by
  refine .of_gives fun fuel depth' more k hfuel hdepth hmore => ?_
  rw [List.length_cons] at hfuel
  obtain ⟨fuel, rfl⟩ := Nat.exists_eq_add_of_le' (show 1 ≤ fuel by omega)
  obtain ⟨depth', rfl⟩ := Nat.exists_eq_add_of_le' hdepth
  have hcontent := h.gives fuel more (k + 1) (by omega) (Nat.le_add_left depth depth') hmore
  rw [Nat.add_assoc, Nat.add_comm 1] at hcontent
  rw [List.cons_append, ← Nat.add_assoc, hread]
  exact ⟨hwrite k _ hcontent.content, hcontent.after⟩

theorem prints_array {vs : List Json}
    (h : Prints Items.written? (readItems · · true) depth bytes vs) :
    Prints Doc.written? readValue (depth + 1) (0x5b :: bytes) (.array vs) := by
  refine @prints_bracket depth bytes _ _ _ _ .array .array _ _ (fun fuel depth rest k => ?_)
    (fun k items hitems => ?_) h
  · rw [readValue]
    rfl
  · rw [Doc.written?, hitems]
    rfl

theorem prints_object {ms : List (String × Json)}
    (h : Prints Members.written? (readMembers · · true) depth bytes ms) :
    Prints Doc.written? readValue (depth + 1) (0x7b :: bytes) (.object ms) := by
  refine @prints_bracket depth bytes _ _ _ _ .map .object _ _ (fun fuel depth rest k => ?_)
    (fun k members hmembers => ?_) h
  · rw [readValue]
    rfl
  · rw [Doc.written?, hmembers]
    rfl

/-- What the first byte announces is read without more fuel than one unit. -/
theorem prints_scalar {b : UInt8} {part : Cursor → Part Doc}
    (hscalar : ∀ c, readScalar b c = some (part c))
    (h : ∀ more k, Ends more →
      (part ⟨b :: bytes ++ more, k⟩).Gives Doc.written? v ⟨more, k + (b :: bytes).length⟩) :
    Prints Doc.written? readValue depth (b :: bytes) v := by
  refine .of_gives fun fuel depth' more k hfuel _ hmore => ?_
  rw [List.length_cons] at hfuel
  obtain ⟨fuel, rfl⟩ := Nat.exists_eq_add_of_le' (show 1 ≤ fuel by omega)
  rw [List.cons_append, readValue]
  simp only [hscalar]
  exact h more k hmore

theorem prints_null : Prints Doc.written? readValue depth (textBytes "null") .null := by
  have hbytes : textBytes "null" = [0x6e, 0x75, 0x6c, 0x6c] := by decide +kernel
  rw [hbytes]
  exact prints_scalar (fun _ => rfl) fun _ _ _ => ⟨rfl, rfl⟩

theorem prints_true : Prints Doc.written? readValue depth (textBytes "true") (.bool true) := by
  have hbytes : textBytes "true" = [0x74, 0x72, 0x75, 0x65] := by decide +kernel
  rw [hbytes]
  exact prints_scalar (fun _ => rfl) fun _ _ _ => ⟨rfl, rfl⟩

theorem prints_false : Prints Doc.written? readValue depth (textBytes "false") (.bool false) := by
  have hbytes : textBytes "false" = [0x66, 0x61, 0x6c, 0x73, 0x65] := by decide +kernel
  rw [hbytes]
  exact prints_scalar (fun _ => rfl) fun _ _ _ => ⟨rfl, rfl⟩

theorem prints_string (s : String) :
    Prints Doc.written? readValue depth (textBytes (quoted s)) (.string s) := by
  have hbytes := textBytes_quoted s
  rw [hbytes]
  refine prints_scalar (fun _ => rfl) fun more k _ => ?_
  rw [← hbytes]
  simp only [readString_quoted]
  exact ⟨rfl, rfl⟩

theorem readScalar_digit {b : UInt8} (h : isDigit b = true) (c : Cursor) :
    readScalar b c = some (scalarPart c .number (readNumber false c)) := by
  have hne : ∀ letter, isDigit letter = false → (b == letter) = false := by
    intro letter hletter
    rw [beq_eq_false_iff_ne]
    rintro rfl
    rw [h] at hletter
    cases hletter
  rw [readScalar, hne 0x6e rfl, hne 0x74 rfl, hne 0x66 rfl, hne 0x2d rfl, h]
  rfl

theorem readNumber_decimal_append {negative : Bool} {n : Nat} (h : n < 2 ^ 64)
    {more : List UInt8} (hmore : Ends more) (k : Nat) :
    readNumber negative ⟨decimal n ++ more, k⟩ =
      .ok (wholeNumber negative n, ⟨more, k + (decimal n).length⟩) := by
  have hread := readNumber_extends.apply (@readNumber_decimal negative n 0 h) hmore k
  rwa [Cursor.extend_mk, Cursor.extend_mk, Nat.zero_add, Nat.zero_add, Nat.add_comm] at hread

theorem prints_natural {n : Nat} (h : n < 2 ^ 64) :
    Prints Doc.written? readValue depth (decimal n) (.number (.integer n)) := by
  obtain ⟨b, rest, heq, hdigit, -⟩ := exists_decimal_eq_cons n
  rw [heq]
  refine prints_scalar (readScalar_digit hdigit) fun more k hmore => ?_
  rw [← heq, readNumber_decimal_append h hmore]
  exact ⟨rfl, rfl⟩

theorem prints_negative {n : Nat} (hpos : n ≠ 0) (h : n ≤ 2 ^ 63) :
    Prints Doc.written? readValue depth (0x2d :: decimal n) (.number (.integer (-n))) := by
  have hwhole : wholeNumber true n = .integer (-n) := by
    rw [wholeNumber, if_pos rfl, if_neg (by omega)]
  refine prints_scalar (fun _ => rfl) fun more k hmore => ?_
  have hread : readNumber true ⟨decimal n ++ more, k + 1⟩ =
      .ok (.integer (-n), ⟨more, k + (decimal n).length + 1⟩) := by
    rw [readNumber_decimal_append (by omega) hmore, hwhole, Nat.add_right_comm]
  simp only [List.cons_append, List.drop_succ_cons, List.drop_zero, hread]
  exact ⟨rfl, rfl⟩

theorem textBytes_toText (n : Int) : textBytes (Number.integer n).toText =
    if n < 0 then 0x2d :: decimal n.natAbs else decimal n.natAbs := by
  cases n with
  | ofNat n => exact (if_neg (Int.not_lt.mpr (Int.natCast_nonneg n))).symm
  | negSucc n =>
    have htext : (Number.integer (.negSucc n)).toText = "-" ++ (n + 1).repr := rfl
    have hminus : textBytes "-" = [0x2d] := by decide +kernel
    rw [htext, textBytes_append, hminus]
    exact (if_pos (Int.negSucc_lt_zero n)).symm

theorem prints_integer {n : Int} (hlow : -2 ^ 63 ≤ n) (hhigh : n < 2 ^ 64) :
    Prints Doc.written? readValue depth (textBytes (Number.integer n).toText)
      (.number (.integer n)) := by
  rw [textBytes_toText]
  split
  · have hneg : n = -(n.natAbs : Int) := by omega
    have hprints := @prints_negative depth n.natAbs (by omega) (by omega)
    rwa [← hneg] at hprints
  · have hpos : n = (n.natAbs : Int) := by omega
    have hprints := @prints_natural depth n.natAbs (by omega)
    rwa [← hpos] at hprints

theorem starts_textBytes_toText (n : Int) :
    Starts (· ≠ 0x5d) (textBytes (Number.integer n).toText) := by
  rw [textBytes_toText]
  split
  · exact ⟨0x2d, _, rfl, by decide, by decide⟩
  · obtain ⟨b, rest, heq, hdigit, -⟩ := exists_decimal_eq_cons n.natAbs
    refine ⟨b, rest, heq, ?_, ?_⟩
    · intro hblank
      simp only [IsBlank, Bool.or_eq_true, beq_iff_eq] at hblank
      rcases hblank with ((rfl | rfl) | rfl) | rfl <;> cases hdigit
    · rintro rfl
      cases hdigit

end

/-! ## Values without fractions -/

mutual

/-- Whether all numbers in the value are integers of 64 bits. -/
def integral : Json → Bool
  | .number (.integer n) => decide (-2 ^ 63 ≤ n ∧ n < 2 ^ 64)
  | .number (.real _) => false
  | .array items => integralItems items
  | .object members => integralMembers members
  | _ => true

def integralItems : List Json → Bool
  | [] => true
  | v :: rest => v.integral && integralItems rest

def integralMembers : List (String × Json) → Bool
  | [] => true
  | (_, v) :: rest => v.integral && integralMembers rest

end

mutual

/-- How many brackets are open at once in a value. -/
def depth : Json → Nat
  | .array items => depthItems items + 1
  | .object members => depthMembers members + 1
  | _ => 0

def depthItems : List Json → Nat
  | [] => 0
  | v :: rest => max v.depth (depthItems rest)

def depthMembers : List (String × Json) → Nat
  | [] => 0
  | (_, v) :: rest => max v.depth (depthMembers rest)

end

/-- The text of an array, with the items behind the first one and what closes it. -/
theorem textBytes_prettyAt_array (level : Nat) (v : Json) (rest : List Json) :
    textBytes (prettyAt level (.array (v :: rest))) =
      0x5b :: (breakBytes (level + 1) ++ (textBytes (prettyAt (level + 1) v) ++
        (textBytes (prettyItems (level + 1) rest) ++ (breakBytes level ++ [0x5d])))) := by
  have hopen : textBytes "[" = [0x5b] := by decide +kernel
  have hclose : textBytes "]" = [0x5d] := by decide +kernel
  simp only [prettyAt, textBytes_append, textBytes_lineBreak, hopen, hclose, List.append_assoc,
    List.cons_append, List.nil_append]

theorem textBytes_prettyItems_cons (level : Nat) (v : Json) (rest : List Json) :
    textBytes (prettyItems level (v :: rest)) =
      (0x2c :: breakBytes level) ++ (textBytes (prettyAt level v) ++
        textBytes (prettyItems level rest)) := by
  have hcomma : textBytes "," = [0x2c] := by decide +kernel
  simp only [prettyItems, textBytes_append, textBytes_lineBreak, hcomma, List.append_assoc,
    List.cons_append, List.nil_append]

theorem textBytes_prettyAt_object (level : Nat) (key : String) (v : Json)
    (rest : List (String × Json)) :
    textBytes (prettyAt level (.object ((key, v) :: rest))) =
      0x7b :: (breakBytes (level + 1) ++ (memberBytes key (textBytes (prettyAt (level + 1) v)) ++
        (textBytes (prettyMembers (level + 1) rest) ++ (breakBytes level ++ [0x7d])))) := by
  have hopen : textBytes "\x7b" = [0x7b] := by decide +kernel
  have hclose : textBytes "\x7d" = [0x7d] := by decide +kernel
  have hcolon : textBytes ": " = [0x3a, 0x20] := by decide +kernel
  simp only [prettyAt, memberBytes, textBytes_append, textBytes_lineBreak, hopen, hclose, hcolon,
    List.append_assoc, List.cons_append, List.nil_append]

theorem textBytes_prettyMembers_cons (level : Nat) (key : String) (v : Json)
    (rest : List (String × Json)) :
    textBytes (prettyMembers level ((key, v) :: rest)) =
      (0x2c :: breakBytes level) ++ (memberBytes key (textBytes (prettyAt level v)) ++
        textBytes (prettyMembers level rest)) := by
  have hcomma : textBytes "," = [0x2c] := by decide +kernel
  have hcolon : textBytes ": " = [0x3a, 0x20] := by decide +kernel
  simp only [prettyMembers, memberBytes, textBytes_append, textBytes_lineBreak, hcomma, hcolon,
    List.append_assoc, List.cons_append, List.nil_append]

theorem starts_textBytes_prettyAt {v : Json} (h : v.integral = true) (level : Nat) :
    Starts (· ≠ 0x5d) (textBytes (prettyAt level v)) := by
  cases v with
  | null => exact ⟨0x6e, _, by rfl, by decide, by decide⟩
  | bool b => cases b <;> exact ⟨_, _, by rfl, by decide, by decide⟩
  | number n =>
    cases n with
    | integer n => exact starts_textBytes_toText n
    | real x => cases h
  | string s =>
    obtain ⟨b, rest, heq, hblank, rfl⟩ := starts_quoted s
    exact ⟨_, _, heq, hblank, by decide⟩
  | array items =>
    cases items with
    | nil => exact ⟨0x5b, _, by rfl, by decide, by decide⟩
    | cons v rest =>
      rw [textBytes_prettyAt_array]
      exact ⟨0x5b, _, rfl, by decide, by decide⟩
  | object members =>
    cases members with
    | nil => exact ⟨0x7b, _, by rfl, by decide, by decide⟩
    | cons member rest =>
      obtain ⟨key, v⟩ := member
      rw [textBytes_prettyAt_object]
      exact ⟨0x7b, _, rfl, by decide, by decide⟩

mutual

/-- A value without fractions is read from its text, in as many brackets as it has. -/
theorem prints_prettyAt : (v : Json) → v.integral = true → (level : Nat) →
    Prints Doc.written? readValue v.depth (textBytes (prettyAt level v)) v
  | .null, _, _ => prints_null
  | .bool true, _, _ => prints_true
  | .bool false, _, _ => prints_false
  | .number (.integer n), h, _ => by
    obtain ⟨hlow, hhigh⟩ := of_decide_eq_true h
    exact prints_integer hlow hhigh
  | .number (.real _), h, _ => by cases h
  | .string s, _, _ => prints_string s
  | .array [], _, _ => by
    have hbytes : textBytes "[]" = [0x5b, 0x5d] := by decide +kernel
    rw [prettyAt, hbytes]
    exact prints_array (@prints_items_closed 0 true [] nofun)
  | .array (v :: rest), h, level => by
    rw [integral, integralItems, Bool.and_eq_true] at h
    obtain ⟨hitems, hstops⟩ := prints_prettyItems rest h.2 (level + 1) level
    have hvalue := (prints_prettyAt v h.1 (level + 1)).mono (Nat.le_max_left _ (depthItems rest))
    rw [textBytes_prettyAt_array]
    exact prints_array (prints_items_cons ⟨level + 1, rfl⟩ hvalue (starts_textBytes_prettyAt h.1 _)
      (hitems.mono (Nat.le_max_right ..)) hstops)
  | .object [], _, _ => by
    have hbytes : textBytes "\x7b\x7d" = [0x7b, 0x7d] := by decide +kernel
    rw [prettyAt, hbytes]
    exact prints_object (@prints_members_closed 0 true [] nofun)
  | .object ((key, v) :: rest), h, level => by
    rw [integral, integralMembers, Bool.and_eq_true] at h
    obtain ⟨hmembers, hstops⟩ := prints_prettyMembers rest h.2 (level + 1) level
    have hvalue := (prints_prettyAt v h.1 (level + 1)).mono
      (Nat.le_max_left _ (depthMembers rest))
    rw [textBytes_prettyAt_object]
    exact prints_object (prints_members_cons ⟨level + 1, rfl⟩ hvalue
      (starts_textBytes_prettyAt h.1 _) (hmembers.mono (Nat.le_max_right ..)) hstops)

theorem prints_prettyItems : (items : List Json) → integralItems items = true →
    (level outer : Nat) →
    Prints Items.written? (readItems · · false) (depthItems items)
        (textBytes (prettyItems level items) ++ (breakBytes outer ++ [0x5d])) items ∧
      Stops (textBytes (prettyItems level items) ++ (breakBytes outer ++ [0x5d]))
  | [], _, _, outer =>
    ⟨prints_items_closed isBlank_of_mem_breakBytes, List.cons_ne_nil _ _, rfl⟩
  | v :: rest, h, level, outer => by
    rw [integralItems, Bool.and_eq_true] at h
    obtain ⟨hitems, hstops⟩ := prints_prettyItems rest h.2 level outer
    have hvalue := (prints_prettyAt v h.1 level).mono (Nat.le_max_left _ (depthItems rest))
    have hseparator : Separates false (0x2c :: breakBytes level) := ⟨level, rfl⟩
    rw [textBytes_prettyItems_cons, List.append_assoc, List.append_assoc]
    exact ⟨prints_items_cons hseparator hvalue (starts_textBytes_prettyAt h.1 _)
      (hitems.mono (Nat.le_max_right ..)) hstops, hseparator.stops _⟩

theorem prints_prettyMembers : (members : List (String × Json)) →
    integralMembers members = true → (level outer : Nat) →
    Prints Members.written? (readMembers · · false) (depthMembers members)
        (textBytes (prettyMembers level members) ++ (breakBytes outer ++ [0x7d])) members ∧
      Stops (textBytes (prettyMembers level members) ++ (breakBytes outer ++ [0x7d]))
  | [], _, _, outer =>
    ⟨prints_members_closed isBlank_of_mem_breakBytes, List.cons_ne_nil _ _, rfl⟩
  | (key, v) :: rest, h, level, outer => by
    rw [integralMembers, Bool.and_eq_true] at h
    obtain ⟨hmembers, hstops⟩ := prints_prettyMembers rest h.2 level outer
    have hvalue := (prints_prettyAt v h.1 level).mono (Nat.le_max_left _ (depthMembers rest))
    have hseparator : Separates false (0x2c :: breakBytes level) := ⟨level, rfl⟩
    rw [textBytes_prettyMembers_cons, List.append_assoc, List.append_assoc]
    exact ⟨prints_members_cons hseparator hvalue (starts_textBytes_prettyAt h.1 _)
      (hmembers.mono (Nat.le_max_right ..)) hstops, hseparator.stops _⟩

end

/-! ## Printed texts -/

/-- The pretty text is the text of the value, also with blanks behind it. -/
theorem isValue_pretty {v : Json} (h : v.integral = true) (hdepth : v.depth ≤ maxDepth)
    {blanks : List UInt8} (hblanks : ∀ b ∈ blanks, IsBlank b) :
    IsValue (textBytes v.pretty ++ blanks) v ⟨blanks, (textBytes v.pretty).length⟩ where
  settles := by
    obtain ⟨b, rest, heq, hblank, -⟩ := starts_textBytes_prettyAt h 0
    have hplace : Cursor.ofText (textBytes v.pretty ++ blanks) =
        ⟨textBytes v.pretty ++ blanks, 0⟩ := by
      rw [pretty, heq]
      exact skipBlanks_of_not_blank hblank
    rw [hplace]
    intro fuel depth more k hfuel hdepth' hmore
    have hends : Ends (blanks ++ more) := by
      cases blanks with
      | nil => exact hmore
      | cons b blanks => exact (List.forall_mem_cons.mp hblanks).1.ends (blanks ++ more)
    have hprints : Prints Doc.written? readValue v.depth (textBytes v.pretty) v :=
      prints_prettyAt v h 0
    rw [List.length_append] at hfuel
    have hgives := hprints fuel depth (blanks ++ more) k (by omega)
      (Nat.le_trans hdepth hdepth') hends
    simpa only [Cursor.extend_mk, List.append_assoc, List.nil_append] using hgives
  ends := by
    rw [Cursor.blanks, ← List.append_nil blanks, skipBlanks_blanks hblanks]
    rfl

end Verdict.Json
