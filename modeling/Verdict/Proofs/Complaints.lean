import Verdict.Error

/-!
# What the texts of complaints tell

The text of a complaint opens with words that no other check uses, so it tells which check has
failed whatever names stand in it, and it shows the names that it is about (`Complaint.Tells`). The
text on a side that cannot be read names that side and no other (`Failure.Names.eq`).
-/

namespace Verdict

namespace Text

theorem toList_prefix_append (s t : String) : s.toList <+: (s ++ t).toList := by
  rw [String.toList_append]
  exact List.prefix_append _ _

theorem toList_suffix_append (s t : String) : t.toList <:+ (s ++ t).toList := by
  rw [String.toList_append]
  exact List.suffix_append _ _

theorem toList_infix_append (before s behind : String) :
    s.toList <:+: (before ++ s ++ behind).toList := by
  rw [String.toList_append, String.toList_append]
  exact List.infix_append _ _ _

end Text

/-! ## Complaints about trees -/

/-- The checks of a tree, in the order in which they are made. -/
inductive Check
  | treeName
  | fieldName
  | comparison
  | fieldType
  | compareTo
  | repeatCount
  | known
  | available
  | unexecuted
deriving DecidableEq

namespace Check

def all : List Check :=
  [treeName, fieldName, comparison, fieldType, compareTo, repeatCount, known, available, unexecuted]

theorem mem_all (check : Check) : check ∈ all := by
  cases check <;> decide

/-- How a complaint about the check begins. -/
def opening : Check → String
  | treeName => "decision tree name"
  | fieldName => "condition fieldName"
  | comparison => "unknown comparisonKind '"
  | fieldType => "unknown fieldType '"
  | compareTo => "compareTo "
  | repeatCount => "repeatCount "
  | known => "unknown action kind '"
  | available => "action kind '"
  | unexecuted => "action '"

/-- No opening begins with another one. -/
theorem eq_of_opening_begins {a b : Check} (h : a.opening.toList <+: b.opening.toList) : a = b := by
  have hall : ∀ a ∈ all, ∀ b ∈ all, a.opening.toList <+: b.opening.toList → a = b := by
    decide +kernel
  exact hall a a.mem_all b b.mem_all h

/-- A text has one opening at most. -/
theorem eq_of_begins {a b : Check} {text : List Char} (ha : a.opening.toList <+: text)
    (hb : b.opening.toList <+: text) : a = b := by
  rcases List.prefix_or_prefix_of_prefix ha hb with h | h
  · exact eq_of_opening_begins h
  · exact (eq_of_opening_begins h).symm

end Check

namespace Complaint

/-- The check of a tree that a complaint comes from. -/
def check? : Complaint → Option Check
  | emptyTreeName => some .treeName
  | emptyFieldName => some .fieldName
  | unknownComparison _ => some .comparison
  | unknownFieldType _ => some .fieldType
  | mismatchedCompareTo .. => some .compareTo
  | excessiveRepeat .. => some .repeatCount
  | unknownAction _ => some .known
  | unavailableAction _ => some .available
  | alreadyExecuted _ => some .unexecuted
  | _ => none

/-- What a complaint is about, as far as it is not always the same. -/
def mentions : Complaint → List String
  | unknownComparison name | unknownFieldType name | unknownAction name | unavailableAction name
  | alreadyExecuted name => [name]
  | mismatchedCompareTo value fieldType => [showValue value, fieldType]
  | excessiveRepeat count maximum => [toString count, toString maximum]
  | _ => []

variable {complaint : Complaint} {check : Check}

/-- The text of a complaint begins as its check says. -/
theorem message_begins (h : complaint.check? = some check) :
    check.opening.toList <+: complaint.message.toList := by
  have hfirst := Text.toList_prefix_append
  cases complaint <;> cases h
  case emptyTreeName | emptyFieldName => decide +kernel
  case mismatchedCompareTo =>
    exact (((hfirst _ _).trans (hfirst _ _)).trans (hfirst _ _)).trans (hfirst _ _)
  case excessiveRepeat => exact ((hfirst _ _).trans (hfirst _ _)).trans (hfirst _ _)
  all_goals exact (hfirst _ _).trans (hfirst _ _)

/-- What a complaint is about stands in its text. -/
theorem infix_message_of_mem_mentions {name : String} (h : name ∈ complaint.mentions) :
    name.toList <:+: complaint.message.toList := by
  have hbetween := Text.toList_infix_append
  cases complaint <;> simp only [mentions, List.mem_cons, List.not_mem_nil, or_false] at h
  case mismatchedCompareTo =>
    rcases h with rfl | rfl
    · exact (hbetween _ _ _).trans ((Text.toList_prefix_append _ _).trans
        (Text.toList_prefix_append _ _)).isInfix
    · exact hbetween _ _ _
  case excessiveRepeat =>
    rcases h with rfl | rfl
    · exact (hbetween _ _ _).trans (Text.toList_prefix_append _ _).isInfix
    · exact (Text.toList_suffix_append _ _).isInfix
  all_goals
    subst h
    exact hbetween _ _ _

/-- The text of a complaint tells from which check it comes, whatever names stand in it, and what
it is about. -/
structure Tells (complaint : Complaint) (check : Check) : Prop where
  text : (Failure.malformed complaint).message = "Malformed input: " ++ complaint.message
  opening : check.opening.toList <+: complaint.message.toList
  mentions : ∀ name ∈ complaint.mentions, name.toList <:+: complaint.message.toList
  apart : ∀ (other : Complaint) (check' : Check), other.check? = some check' →
    other.message = complaint.message → check' = check

theorem tells_of_check? (h : complaint.check? = some check) : complaint.Tells check where
  text := rfl
  opening := message_begins h
  mentions _ := infix_message_of_mem_mentions
  apart _ _ hother hmessage :=
    Check.eq_of_begins (hmessage ▸ message_begins hother) (message_begins h)

end Complaint

/-! ## Sides that cannot be read -/

namespace Failure

/-- The text of a failure says of what is called so that it cannot be read. -/
def Names (failure : Failure) (name : String) : Prop :=
  ∃ told, failure.message = "Malformed input: '" ++ name ++ "' is not a " ++ told

theorem message_unreadable (side : Side) (type : String) (value : Json) :
    (malformed (.unreadable side type value)).message =
      "Malformed input: '" ++ side.name ++ "' is not a " ++ type ++ ": " ++ value.compact := by
  have hquote : "Malformed input: '" = "Malformed input: " ++ "'" := by decide +kernel
  have htext : (malformed (.unreadable side type value)).message = "Malformed input: " ++
      ("'" ++ side.name ++ "' is not a " ++ type ++ ": " ++ value.compact) := rfl
  rw [htext, hquote]
  simp only [String.append_assoc]

/-- What a quote ends is told by the text, if there is none before. -/
theorem takeWhile_append_quote {name : List Char} (h : '\'' ∉ name) (rest : List Char) :
    (name ++ '\'' :: rest).takeWhile (· != '\'') = name := by
  have hname : ∀ c ∈ name, (c != '\'') = true := fun c hc =>
    bne_iff_ne.mpr fun heq => h (heq ▸ hc)
  rw [List.takeWhile_append_of_pos hname, List.takeWhile_cons_of_neg (by decide), List.append_nil]

/-- Of names without quotes a text names one at most. -/
theorem Names.eq {failure : Failure} {a b : String} (ha : failure.Names a) (hb : failure.Names b)
    (hquote : '\'' ∉ a.toList) (hquote' : '\'' ∉ b.toList) : a = b := by
  obtain ⟨told, ha⟩ := ha
  obtain ⟨told', hb⟩ := hb
  have hlist := congrArg String.toList (ha.symm.trans hb)
  simp only [String.toList_append, List.append_assoc, List.append_cancel_left_eq] at hlist
  have htext : "' is not a ".toList = '\'' :: " is not a ".toList := by decide +kernel
  rw [htext, List.cons_append, List.cons_append] at hlist
  have hname := congrArg (List.takeWhile (· != '\'')) hlist
  rw [takeWhile_append_quote hquote, takeWhile_append_quote hquote'] at hname
  exact String.toList_inj.mp hname

end Failure

end Verdict
