import Mathlib.Data.List.Perm.Basic
import Verdict.Proofs.Evaluation
import Verdict.Proofs.Validation

/-!
# What validation reports

A tree that is not accepted has a first fault, in the order of its name, its condition, the number
of repeats and its actions (`Validator.Fault`); a condition has a first flaw in the order of its own
checks (`Condition.Flaw`). The first fault is what is reported, and there is one exactly if the tree
is not admitted (`Validator.admits_or_exists_fault`). Whether a tree is accepted depends on the
kinds of its actions and on whether they carry results, and not on where they stand or what their
parameters are (`Validator.reports_first_fault`).
-/

namespace Verdict

/-! ## Names -/

namespace Text

theorem trimList_eq_nil_iff {cs : List Char} :
    trimList cs = [] ↔ ∀ c ∈ cs, isBlank c = true := by
  rw [trimList, List.reverse_eq_nil_iff, List.dropWhile_eq_nil_iff]
  simp only [List.mem_reverse]
  constructor
  · intro h c hc
    rw [← List.takeWhile_append_dropWhile (p := isBlank) (l := cs)] at hc
    rcases List.mem_append.mp hc with hc | hc
    · exact List.mem_takeWhile_imp hc
    · exact h c hc
  · intro h c hc
    exact h c ((List.dropWhile_sublist _).subset hc)

theorem trim_eq_empty_iff {s : String} : trim s = "" ↔ isBlankText s = true := by
  rw [trim, isBlankText, List.all_eq_true, ← trimList_eq_nil_iff]
  exact String.ofList_eq_empty_iff

end Text

/-! ## Conditions -/

namespace Condition

variable {condition : Condition} {complaint : Complaint}

/-- What is wrong with a condition. Each flaw is met only where none before it is. -/
inductive Flaw (condition : Condition) : Complaint → Prop
  | fieldName (hname : Text.isBlankText condition.fieldName = true) : Flaw condition .emptyFieldName
  | comparison {name : String} (hname : Text.isBlankText condition.fieldName = false)
    (hcomparison : condition.comparison = .unrecognized name) :
    Flaw condition (.unknownComparison name)
  | fieldType {name : String} (hname : Text.isBlankText condition.fieldName = false)
    (hcomparison : ∀ name, condition.comparison ≠ .unrecognized name)
    (htype : condition.fieldType = .unrecognized name) : Flaw condition (.unknownFieldType name)
  | compareTo (hname : Text.isBlankText condition.fieldName = false)
    (hcomparison : ∀ name, condition.comparison ≠ .unrecognized name)
    (htype : ∀ name, condition.fieldType ≠ .unrecognized name)
    (hcompareTo : ¬ condition.fieldType.Reads condition.compareTo) :
    Flaw condition (.mismatchedCompareTo condition.compareTo condition.fieldType.name)

theorem matchesType?_eq_none_iff :
    condition.matchesType? = none ↔ ∃ name, condition.fieldType = .unrecognized name := by
  cases h : condition.fieldType <;> simp [matchesType?, h]

theorem Flaw.validate (h : condition.Flaw complaint) :
    condition.validate = .error (.malformed complaint) := by
  cases h with
  | fieldName hname => rw [Condition.validate, hname, if_pos rfl]
  | comparison hname hcomparison =>
    rw [Condition.validate, hname, if_neg (by decide), hcomparison]
  | fieldType hname hcomparison htype =>
    have hmatch : condition.matchesType? = none := matchesType?_eq_none_iff.mpr ⟨_, htype⟩
    rw [Condition.validate, hname, if_neg (by decide), hmatch]
    split
    next name h => exact absurd h (hcomparison name)
    next => rw [htype]; rfl
  | compareTo hname hcomparison htype hcompareTo =>
    have hsome : condition.matchesType? ≠ none := fun h =>
      (matchesType?_eq_none_iff.mp h).elim htype
    have hfalse : condition.matchesType? = some false := by
      cases h : condition.matchesType? with
      | none => exact absurd h hsome
      | some matching =>
        cases matching with
        | false => rfl
        | true => exact absurd ((matchesType?_eq_some_true_iff condition).mp h) hcompareTo
    rw [Condition.validate, hname, if_neg (by decide), hfalse]
    split
    next name h => exact absurd h (hcomparison name)
    next => rfl

/-- There is no third way. -/
theorem wellFormed_or_exists_flaw (condition : Condition) :
    condition.WellFormed ∨ ∃ complaint, condition.Flaw complaint := by
  cases hname : Text.isBlankText condition.fieldName with
  | true => exact .inr ⟨_, .fieldName hname⟩
  | false =>
    by_cases hcomparison : ∃ name, condition.comparison = .unrecognized name
    · obtain ⟨name, hcomparison⟩ := hcomparison
      exact .inr ⟨_, .comparison hname hcomparison⟩
    have hcomparison := not_exists.mp hcomparison
    by_cases htype : ∃ name, condition.fieldType = .unrecognized name
    · obtain ⟨name, htype⟩ := htype
      exact .inr ⟨_, .fieldType hname hcomparison htype⟩
    by_cases hcompareTo : condition.fieldType.Reads condition.compareTo
    · exact .inl ⟨hname, hcomparison, hcompareTo⟩
    · exact .inr ⟨_, .compareTo hname hcomparison (not_exists.mp htype) hcompareTo⟩

end Condition

/-! ## Trees -/

namespace Validator

variable {validator : Validator} {action : Action} {tree : Tree} {complaint : Complaint}

/-- A kind that is available, as far as that is limited. -/
def Allows (validator : Validator) (kind : ActionKind) : Prop :=
  ∀ kinds, validator.knownKinds = some kinds → kind ∈ kinds

/-- What is wrong with an action. Each fault is met only where none before it is. -/
inductive ActionFault (validator : Validator) (action : Action) : Complaint → Prop
  | unknown {name : String} (hkind : action.kind = .custom name) :
    ActionFault validator action (.unknownAction name)
  | unavailable (hknown : ∀ name, action.kind ≠ .custom name)
    (havailable : ¬ validator.Allows action.kind) :
    ActionFault validator action (.unavailableAction action.kind.name)
  | executed (hknown : ∀ name, action.kind ≠ .custom name)
    (havailable : validator.Allows action.kind) (hexecuted : action.isExecuted = true) :
    ActionFault validator action (.alreadyExecuted action.kind.name)

theorem ActionFault.validateAction (h : validator.ActionFault action complaint) :
    validator.validateAction action = .error (.malformed complaint) := by
  cases h with
  | unknown hkind => rw [Validator.validateAction, hkind]
  | unavailable hknown havailable =>
    have hkinds := Bool.not_eq_false _ |>.mp (mt any_not_contains_eq_false_iff.mp havailable)
    unfold Validator.validateAction
    split
    next name h => exact absurd h (hknown name)
    next => rw [if_pos hkinds]
  | executed hknown havailable hexecuted =>
    unfold Validator.validateAction
    split
    next name h => exact absurd h (hknown name)
    next =>
      rw [any_not_contains_eq_false_iff.mpr havailable, if_neg (by decide), if_pos hexecuted]

theorem admitsAction_or_exists_fault (validator : Validator) (action : Action) :
    validator.AdmitsAction action ∨ ∃ complaint, validator.ActionFault action complaint := by
  by_cases hkind : ∃ name, action.kind = .custom name
  · obtain ⟨name, hkind⟩ := hkind
    exact .inr ⟨_, .unknown hkind⟩
  have hknown := not_exists.mp hkind
  by_cases havailable : validator.Allows action.kind
  · cases hresult : action.result with
    | none => exact .inl ⟨hknown, havailable, hresult⟩
    | some result =>
      exact .inr ⟨_, .executed hknown havailable (by rw [Action.isExecuted, hresult]; rfl)⟩
  · exact .inr ⟨_, .unavailable hknown havailable⟩

/-- The first action with a fault, and its first fault. -/
def FirstAmong (validator : Validator) (actions : List Action) (complaint : Complaint) : Prop :=
  ∃ before action after, actions = before ++ action :: after ∧
    (∀ other ∈ before, validator.AdmitsAction other) ∧ validator.ActionFault action complaint

theorem FirstAmong.validateActions {actions : List Action}
    (h : validator.FirstAmong actions complaint) :
    validator.validateActions actions = .error (.malformed complaint) := by
  obtain ⟨before, action, after, rfl, hbefore, hfault⟩ := h
  rw [validateActions_append hbefore, Validator.validateActions, hfault.validateAction]
  rfl

theorem admitsActions_or_exists_first (validator : Validator) (actions : List Action) :
    (∀ action ∈ actions, validator.AdmitsAction action) ∨
      ∃ complaint, validator.FirstAmong actions complaint := by
  induction actions with
  | nil => exact .inl nofun
  | cons action rest ih =>
    rcases validator.admitsAction_or_exists_fault action with hadmits | ⟨complaint, hfault⟩
    · rcases ih with hrest | ⟨complaint, before, other, after, rfl, hbefore, hfault⟩
      · exact .inl (List.forall_mem_cons.mpr ⟨hadmits, hrest⟩)
      · exact .inr ⟨complaint, action :: before, other, after, rfl,
          List.forall_mem_cons.mpr ⟨hadmits, hbefore⟩, hfault⟩
    · exact .inr ⟨complaint, [], action, rest, rfl, nofun, hfault⟩

/-- What is wrong with a tree. Each fault is met only where none before it is. -/
inductive Fault (validator : Validator) (tree : Tree) : Complaint → Prop
  | name (hname : Text.isBlankText tree.name = true) : Fault validator tree .emptyTreeName
  | condition {complaint : Complaint} (hname : Text.isBlankText tree.name = false)
    (hflaw : tree.root.condition.Flaw complaint) : Fault validator tree complaint
  | repeatCount {count : UInt32} (hname : Text.isBlankText tree.name = false)
    (hcondition : tree.root.condition.WellFormed) (hcount : tree.root.repeatCount = some count)
    (hexcess : validator.maxRepeatCount < count) :
    Fault validator tree (.excessiveRepeat count.toNat validator.maxRepeatCount.toNat)
  | action {complaint : Complaint} (hname : Text.isBlankText tree.name = false)
    (hcondition : tree.root.condition.WellFormed)
    (hrepeat : ∀ count, tree.root.repeatCount = some count → count ≤ validator.maxRepeatCount)
    (hfirst : validator.FirstAmong tree.root.actions complaint) : Fault validator tree complaint

theorem Fault.validate (h : validator.Fault tree complaint) :
    validator.validate tree = .error (.malformed complaint) := by
  cases h with
  | name hname => rw [Validator.validate, hname, if_pos rfl]
  | condition hname hflaw =>
    rw [Validator.validate, hname, if_neg (by decide), hflaw.validate]
    rfl
  | repeatCount hname hcondition hcount hexcess =>
    rw [Validator.validate, hname, if_neg (by decide), Condition.validate_eq_ok_iff.mpr hcondition,
      hcount, validateRepeat, if_pos hexcess]
    rfl
  | action hname hcondition hrepeat hfirst =>
    rw [Validator.validate, hname, if_neg (by decide), Condition.validate_eq_ok_iff.mpr hcondition,
      validateRepeat_eq_ok_iff.mpr hrepeat, hfirst.validateActions]
    rfl

theorem admits_or_exists_fault (validator : Validator) (tree : Tree) :
    validator.Admits tree ∨ ∃ complaint, validator.Fault tree complaint := by
  cases hname : Text.isBlankText tree.name with
  | true => exact .inr ⟨_, .name hname⟩
  | false =>
    rcases tree.root.condition.wellFormed_or_exists_flaw with hcondition | ⟨complaint, hflaw⟩
    · by_cases hrepeat : ∃ count, tree.root.repeatCount = some count ∧
          validator.maxRepeatCount < count
      · obtain ⟨count, hcount, hexcess⟩ := hrepeat
        exact .inr ⟨_, .repeatCount hname hcondition hcount hexcess⟩
      have hrepeat : ∀ count, tree.root.repeatCount = some count →
          count ≤ validator.maxRepeatCount :=
        fun count hcount => UInt32.not_lt.mp fun hexcess => hrepeat ⟨count, hcount, hexcess⟩
      rcases validator.admitsActions_or_exists_first tree.root.actions with
        hactions | ⟨complaint, hfirst⟩
      · exact .inl ⟨hname, hcondition, hrepeat, hactions⟩
      · exact .inr ⟨complaint, .action hname hcondition hrepeat hfirst⟩
    · exact .inr ⟨complaint, .condition hname hflaw⟩

theorem validate_eq_error_iff {failure : Failure} : validator.validate tree = .error failure ↔
    ∃ complaint, failure = .malformed complaint ∧ validator.Fault tree complaint := by
  constructor
  · intro herror
    rcases validator.admits_or_exists_fault tree with hadmits | ⟨complaint, hfault⟩
    · cases herror.symm.trans (validate_eq_ok_iff.mpr hadmits)
    · exact ⟨complaint, Except.error.inj (herror.symm.trans hfault.validate), hfault⟩
  · rintro ⟨complaint, rfl, hfault⟩
    exact hfault.validate

/-- The text of what is reported tells which check has failed. -/
theorem Fault.exists_tells (h : validator.Fault tree complaint) :
    ∃ check, complaint.check? = some check ∧ complaint.Tells check := by
  have hcheck : ∃ check, complaint.check? = some check := by
    cases h with
    | name | repeatCount => exact ⟨_, rfl⟩
    | condition _ hflaw => cases hflaw <;> exact ⟨_, rfl⟩
    | action _ _ _ hfirst =>
      obtain ⟨_, _, _, _, _, hfault⟩ := hfirst
      cases hfault <;> exact ⟨_, rfl⟩
  obtain ⟨check, hcheck⟩ := hcheck
  exact ⟨check, hcheck, Complaint.tells_of_check? hcheck⟩

/-! ## What acceptance depends on -/

/-- Whatever the one allows, the other one allows. -/
structure Within (validator wider : Validator) : Prop where
  repeatCount : validator.maxRepeatCount ≤ wider.maxRepeatCount
  kinds : ∀ kind, validator.Allows kind → wider.Allows kind

theorem Admits.mono {wider : Validator} (h : validator.Admits tree)
    (hwithin : validator.Within wider) : wider.Admits tree where
  name := h.name
  condition := h.condition
  repeatCount count hcount := UInt32.le_trans (h.repeatCount count hcount) hwithin.repeatCount
  actions action haction :=
    have hadmits := h.actions action haction
    { known := hadmits.known
      available := hwithin.kinds action.kind hadmits.available
      unexecuted := hadmits.unexecuted }

end Validator

/-- The kind of an action, and whether it has run. -/
def Action.standing (action : Action) : ActionKind × Bool := (action.kind, action.isExecuted)

/-- The other tree has the same actions, up to their parameters, their order and the lists that they
are in; it has the same name, condition and number of repeats. -/
structure Tree.Rearranges (tree other : Tree) : Prop where
  name : other.name = tree.name
  condition : other.root.condition = tree.root.condition
  repeatCount : other.root.repeatCount = tree.root.repeatCount
  actions : (other.root.actions.map Action.standing).Perm (tree.root.actions.map Action.standing)

theorem Tree.Rearranges.symm {tree other : Tree} (h : tree.Rearranges other) :
    other.Rearranges tree where
  name := h.name.symm
  condition := h.condition.symm
  repeatCount := h.repeatCount.symm
  actions := h.actions.symm

namespace Validator

variable {validator : Validator} {tree : Tree}

theorem AdmitsAction.of_standing_eq {action other : Action} (h : validator.AdmitsAction action)
    (hstanding : other.standing = action.standing) : validator.AdmitsAction other := by
  obtain ⟨hkind, hexecuted⟩ := Prod.mk.inj hstanding
  refine ⟨hkind ▸ h.known, hkind ▸ h.available, ?_⟩
  rw [Action.isExecuted, Action.isExecuted, h.unexecuted] at hexecuted
  exact Option.not_isSome_iff_eq_none.mp (Bool.eq_false_iff.mp hexecuted)

theorem Admits.rearrange {other : Tree} (h : validator.Admits tree)
    (hother : tree.Rearranges other) : validator.Admits other where
  name := hother.name ▸ h.name
  condition := hother.condition ▸ h.condition
  repeatCount := hother.repeatCount ▸ h.repeatCount
  actions action haction := by
    have hmem := hother.actions.mem_iff.mp (List.mem_map_of_mem haction)
    obtain ⟨original, horiginal, hstanding⟩ := List.mem_map.mp hmem
    exact (h.actions original horiginal).of_standing_eq hstanding.symm

/-- The accepted trees are those with a name, an accepted condition, a number of repeats within the
bound, and actions that are known, available and not yet executed. Of every other tree the first
fault is reported, and the text tells of which check and of what. It makes no difference to
acceptance in which order and in which lists the actions stand and what their parameters are, and a
wider validator accepts no less. -/
theorem reports_first_fault (validator : Validator) (tree : Tree) :
    (validator.validate tree = .ok () ↔
      Text.trim tree.name ≠ "" ∧ tree.root.condition.validate = .ok () ∧
      (∀ count, tree.root.repeatCount = some count → count ≤ validator.maxRepeatCount) ∧
      ∀ action ∈ tree.root.trueActions ++ tree.root.falseActions.getD [] ++ tree.root.subActions,
        validator.AdmitsAction action) ∧
    (∀ failure, validator.validate tree = .error failure ↔
      ∃ complaint, failure = .malformed complaint ∧ validator.Fault tree complaint) ∧
    (∀ complaint, validator.Fault tree complaint →
      ∃ check, complaint.check? = some check ∧ complaint.Tells check) ∧
    (∀ other, tree.Rearranges other →
      (validator.validate other = .ok () ↔ validator.validate tree = .ok ())) ∧
    ∀ wider, validator.Within wider → validator.validate tree = .ok () →
      wider.validate tree = .ok () := by
  refine ⟨?_, fun _ => validate_eq_error_iff, fun _ hfault => hfault.exists_tells,
    fun other hother => ?_, fun wider hwithin => ?_⟩
  · rw [validate_eq_ok_iff, Ne, Text.trim_eq_empty_iff, Bool.not_eq_true,
      Condition.validate_eq_ok_iff]
    exact ⟨fun h => ⟨h.name, h.condition, h.repeatCount, h.actions⟩,
      fun ⟨hname, hcondition, hrepeat, hactions⟩ => ⟨hname, hcondition, hrepeat, hactions⟩⟩
  · rw [validate_eq_ok_iff, validate_eq_ok_iff]
    exact ⟨fun h => h.rearrange hother.symm, fun h => h.rearrange hother⟩
  · rw [validate_eq_ok_iff, validate_eq_ok_iff]
    exact fun h => h.mono hwithin

/-! ## A tree in two arrangements -/

/-- The reminder with its actions in other places, one of them with other parameters. -/
def rearranged : Node where
  condition := Node.reminder.condition
  trueActions := [⟨.sendMessage, [("to", .string "all")], none⟩, ⟨.sendEmail, [], none⟩]
  repeatCount := some 2
  subActions := [⟨.sendMessage, [], none⟩, ⟨.sendEmail, [], none⟩]

/-- Without messages, the one in the false branch is met before the one that is repeated. -/
theorem reminder_reported :
    let mails : Validator := { maxRepeatCount := 2, knownKinds := some [.sendEmail] }
    let notices : Validator :=
      { maxRepeatCount := 2, knownKinds := some [.sendMessage, .sendEmail] }
    notices.validate ⟨"week", .reminder⟩ = .ok () ∧ notices.validate ⟨"week", rearranged⟩ = .ok () ∧
      ({} : Validator).validate ⟨"week", .reminder⟩ = .ok () ∧
      mails.validate ⟨"week", .reminder⟩ =
        .error (.malformed (.unavailableAction "send-message")) := by
  intro mails notices
  obtain ⟨-, -, -, hrearranged, hwider⟩ := reports_first_fault notices ⟨"week", .reminder⟩
  have hvalid : notices.validate ⟨"week", .reminder⟩ = .ok () := by
    rfl
  have hother : Tree.Rearranges ⟨"week", .reminder⟩ ⟨"week", rearranged⟩ :=
    ⟨rfl, rfl, rfl, by decide⟩
  have hwithin : notices.Within {} := ⟨by decide, fun _ _ => nofun⟩
  refine ⟨hvalid, (hrearranged _ hother).mpr hvalid, hwider _ hwithin hvalid, ?_⟩
  obtain ⟨-, hreported, -, -⟩ := reports_first_fault mails ⟨"week", .reminder⟩
  have hmail : mails.AdmitsAction ⟨.sendEmail, [], none⟩ :=
    ⟨nofun, fun kinds hkinds => Option.some.inj hkinds ▸ List.mem_singleton_self _, rfl⟩
  refine (hreported _).mpr ⟨_, rfl, .action (by decide) ?_ (by rintro _ ⟨⟩; decide) ?_⟩
  · exact ⟨by decide, nofun, "friday", rfl⟩
  · refine ⟨[⟨.sendEmail, [], none⟩], ⟨.sendMessage, [], none⟩, Node.reminder.subActions, rfl,
      List.forall_mem_singleton.mpr hmail, .unavailable nofun fun h => ?_⟩
    exact absurd (h _ rfl) (by decide)

end Validator

end Verdict
