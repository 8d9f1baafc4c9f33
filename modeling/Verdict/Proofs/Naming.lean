import Verdict.Document.Refusal
import Verdict.Proofs.Evaluation
import Verdict.Proofs.Spelling

/-!
# Names of fields

The older spellings of a document mean the same as the newer ones, and only one of them may be used
at each place (`Tree.decode_spellings`): whatever spells a tree is decoded to this tree, and an
object in which some field of the tree, of its condition or of one of its actions goes by both of
its names at once (`Tree.NamedTwice`) is refused.
-/

namespace Verdict

theorem Json.decode_eq_ok_iff {α : Type} {reading : Reading α} {v : Json} {a : α} :
    Json.decode reading v = .ok a ↔ reading.Takes .value a v := by
  rw [Json.decode, Reading.Takes]
  split <;> simp [*]

namespace Reading

variable {α : Type} {reading : Reading α} {origin : Origin}

theorem exists_takes_of_optional {v : Json} {value : Option α}
    (h : reading.optional.Takes origin value v) (hv : v ≠ .null) :
    ∃ a, reading.Takes origin a v := by
  cases v with
  | null => exact absurd rfl hv
  | _ =>
    obtain ⟨a, ha, _⟩ := map_eq_ok_iff.mp h
    exact ⟨a, ha⟩

theorem exists_takes_of_list {values : List α} {items : List Json}
    (h : reading.list.Takes origin values (.array items)) {item : Json} (hitem : item ∈ items) :
    ∃ a, reading.Takes origin a item := by
  have hitems := list_takes_array_iff.mp h
  clear h
  induction hitems with
  | nil => cases hitem
  | cons hfirst _ ih =>
    rcases List.mem_cons.mp hitem with rfl | hitem
    · exact ⟨_, hfirst⟩
    · exact ih hitem

theorem takes_of_oneOrMany_takes {type : String} {values : List α} {v : Json}
    (h : (reading.oneOrMany type).Takes origin values v) :
    (∃ a, values = [a] ∧ reading.Takes .buffer a v) ∨ reading.list.Takes .buffer values v := by
  rw [Takes, oneOrMany, Doc.sound_ofJson] at h
  split at h
  · cases h
  · split at h
    next a ha =>
      cases h
      exact .inl ⟨a, rfl, ha⟩
    next =>
      split at h
      next vs hvs =>
        cases h
        exact .inr hvs
      next => cases h

end Reading

/-! ## Fields with two names -/

/-- Some field is given under both of its names. -/
def Json.GivesTwice (fields : List (String × String)) (members : List (String × Json)) : Prop :=
  ∃ field ∈ fields, field.1 ∈ members.map (·.1) ∧ field.2 ∈ members.map (·.1)

/-- The newer and the older names of the fields of a condition. -/
def Condition.renamed : List (String × String) :=
  [("comparisonKind", "comparisonType"), ("fieldType", "targetPropertyType"),
    ("fieldName", "targetPropertyName")]

def Action.renamed : List (String × String) := [("kind", "type")]

def Node.renamed : List (String × String) :=
  [("trueActions", "action"), ("falseActions", "elseAction"), ("repeatCount", "x"),
    ("subActions", "subtree")]

/-- An object that stands for an action of a tree with the given members. A list that starts with an
object is a list of actions. -/
inductive Tree.ActionAmong (members : List (String × Json)) : List (String × Json) → Prop
  | bare {key : String} {inner : List (String × Json)}
    (hkey : key ∈ ["trueActions", "action", "falseActions", "elseAction"])
    (hgiven : (key, .object inner) ∈ members) : ActionAmong members inner
  | listed {key : String} {first inner : List (String × Json)} {rest : List Json}
    (hkey : key ∈ ["trueActions", "action", "falseActions", "elseAction"])
    (hgiven : (key, .array (.object first :: rest)) ∈ members)
    (hmem : .object inner ∈ .object first :: rest) : ActionAmong members inner
  | sub {key : String} {inner : List (String × Json)} {items : List Json}
    (hkey : key ∈ ["subActions", "subtree"]) (hgiven : (key, .array items) ∈ members)
    (hmem : .object inner ∈ items) : ActionAmong members inner
  | output {inner : List (String × Json)} {items lists : List Json}
    (hgiven : ("subtreeOutputs", .array lists) ∈ members) (hlist : .array items ∈ lists)
    (hmem : .object inner ∈ items) : ActionAmong members inner

/-- A field of a tree, its condition or one of its actions is given under both of its names. -/
inductive Tree.NamedTwice (members : List (String × Json)) : Prop
  | root (h : Json.GivesTwice Node.renamed members)
  | condition {inner : List (String × Json)} (hgiven : ("condition", .object inner) ∈ members)
    (h : Json.GivesTwice Condition.renamed inner)
  | action {inner : List (String × Json)} (hgiven : ActionAmong members inner)
    (h : Json.GivesTwice Action.renamed inner)

variable {origin : Origin} {members : List (String × Json)}

theorem Layout.Lawful.not_takes_of_givesTwice {δ α : Type} {layout : Layout δ α}
    (hl : layout.Lawful) {fields : List (String × String)}
    (hfields : ∀ field ∈ fields, field.1 ≠ field.2 ∧
      ∃ slot ∈ layout.slots, slot.names = [field.1, field.2])
    (h : Json.GivesTwice fields members) (v : α) :
    ¬layout.read.Takes origin v (.object members) := by
  obtain ⟨field, hfield, hfirst, hsecond⟩ := h
  obtain ⟨hne, slot, hslot, hnames⟩ := hfields field hfield
  exact hl.not_takes_of_two_names hslot hnames hne hfirst hsecond

theorem Condition.not_takes_of_givesTwice (h : Json.GivesTwice renamed members)
    (condition : Condition) : ¬layout.read.Takes origin condition (.object members) :=
  layout_lawful.not_takes_of_givesTwice
    (by simp [renamed, layout, Slot.names, Slot.reading]) h condition

theorem Action.not_takes_of_givesTwice (h : Json.GivesTwice renamed members) (action : Action) :
    ¬layout.read.Takes origin action (.object members) :=
  layout_lawful.not_takes_of_givesTwice
    (by simp [renamed, layout, Slot.names, Slot.reading]) h action

theorem Node.not_takes_of_givesTwice (h : Json.GivesTwice renamed members) (node : Node) :
    ¬layout.read.Takes origin node (.object members) :=
  layout_lawful.not_takes_of_givesTwice
    (by simp [renamed, layout, Slot.names, Slot.reading]) h node

/-- Of a list that starts with an object, or of an object, each object is read as an action. -/
theorem Action.exists_takes_of_oneOrMany {actions : List Action} {v : Json}
    {inner : List (String × Json)} (h : readOneOrMany.Takes origin actions v)
    (hv : v = .object inner ∨ ∃ first rest,
      v = .array (.object first :: rest) ∧ .object inner ∈ .object first :: rest) :
    ∃ action, layout.read.Takes .buffer action (.object inner) := by
  rcases hv with rfl | ⟨first, rest, rfl, hmem⟩
  · rcases Reading.takes_of_oneOrMany_takes h with ⟨action, -, hsingle⟩ | hlist
    · exact ⟨action, hsingle⟩
    · exact nomatch hlist
  · rcases Reading.takes_of_oneOrMany_takes h with ⟨action, -, hsingle⟩ | hlist
    · refine absurd hsingle (not_takes_array (fun item hitem => ?_) action)
      cases hitem
      exact ⟨first, rfl⟩
    · exact Reading.exists_takes_of_list hlist hmem

/-- Each object that stands for an action is read as one. -/
theorem Node.exists_takes_of_actionAmong {node : Node} {inner : List (String × Json)}
    (h : layout.read.Takes origin node (.object members))
    (hinner : Tree.ActionAmong members inner) :
    ∃ place action, Action.layout.read.Takes place action (.object inner) := by
  have hbranch : ∀ {key v}, key ∈ ["trueActions", "action", "falseActions", "elseAction"] →
      (key, v) ∈ members → v ≠ .null → ∃ actions, Action.readOneOrMany.Takes origin actions v := by
    intro key v hkey hmem hv
    have hkeys : key ∈ ["trueActions", "action"] ∨ key ∈ ["falseActions", "elseAction"] :=
      List.mem_append.mp hkey
    rcases hkeys with hkey | hkey
    · exact layout_lawful.exists_takes_of_mem (.tail _ (.head _)) hkey hmem h
    · obtain ⟨_, hread⟩ :=
        layout_lawful.exists_takes_of_mem (.tail _ (.tail _ (.head _))) hkey hmem h
      exact Reading.exists_takes_of_optional hread hv
  cases hinner with
  | bare hkey hgiven =>
    obtain ⟨actions, hread⟩ := hbranch hkey hgiven nofun
    exact ⟨_, Action.exists_takes_of_oneOrMany hread (.inl rfl)⟩
  | listed hkey hgiven hmem =>
    obtain ⟨actions, hread⟩ := hbranch hkey hgiven nofun
    exact ⟨_, Action.exists_takes_of_oneOrMany hread (.inr ⟨_, _, rfl, hmem⟩)⟩
  | sub hkey hgiven hmem =>
    obtain ⟨actions, hread⟩ := layout_lawful.exists_takes_of_mem
      (.tail _ (.tail _ (.tail _ (.tail _ (.tail _ (.head _)))))) hkey hgiven h
    exact ⟨_, Reading.exists_takes_of_list hread hmem⟩
  | output hgiven hlist hmem =>
    obtain ⟨outputs, hread⟩ := layout_lawful.exists_takes_of_mem
      (.tail _ (.tail _ (.tail _ (.tail _ (.tail _ (.tail _ (.head _)))))))
      (List.mem_singleton.mpr rfl) hgiven h
    obtain ⟨lists, hlists⟩ := Reading.exists_takes_of_optional hread nofun
    obtain ⟨actions, hactions⟩ := Reading.exists_takes_of_list hlists hlist
    exact ⟨_, Reading.exists_takes_of_list hactions hmem⟩

namespace Tree

theorem not_takes_of_namedTwice (h : NamedTwice members) (tree : Tree) :
    ¬read.Takes origin tree (.object members) := by
  intro htakes
  have hroot := (takes_object_iff.mp htakes).2
  cases h with
  | root htwice => exact Node.not_takes_of_givesTwice htwice tree.root hroot
  | condition hgiven htwice =>
    obtain ⟨condition, hcondition⟩ := Node.layout_lawful.exists_takes_of_mem (.head _)
      (List.mem_singleton.mpr rfl) hgiven hroot
    exact Condition.not_takes_of_givesTwice htwice condition hcondition
  | action hgiven htwice =>
    obtain ⟨_, action, haction⟩ := Node.exists_takes_of_actionAmong hroot hgiven
    exact Action.not_takes_of_givesTwice htwice action haction

/-- The encoding of a tree spells it, whatever spells it is decoded to it, and an object in which a
field has both of its names is refused. -/
theorem decode_spellings (tree : Tree) (htree : tree.root.Canonical) :
    Json.ObjectOf tree.SpelledIn tree.encode ∧
      (∀ members, tree.SpelledIn members → Json.decode read (.object members) = .ok tree) ∧
      ∀ members, NamedTwice members →
        ∃ refusal, Json.decode read (.object members) = .error refusal := by
  refine ⟨tree.spelledIn_encode, fun members hmembers => ?_, fun members htwice => ?_⟩
  · exact Json.decode_eq_ok_iff.mpr (takes_of_spelledIn htree hmembers)
  · cases hdecode : Json.decode read (.object members) with
    | error refusal => exact ⟨refusal, rfl⟩
    | ok decoded =>
      exact absurd (Json.decode_eq_ok_iff.mp hdecode) (not_takes_of_namedTwice htwice decoded)

/-- A tree that waits for one day. -/
def weekly : Tree :=
  ⟨"week", { Node.reminder with condition := ⟨.equals, .string, "due", .string "friday"⟩ }⟩

/-- The tree `weekly` in older spellings, with notes; its first action is given by `action`. -/
def olderWeekly (action : List (String × Json)) : List (String × Json) := [
  ("x", .ofNat 2),
  ("action", .object action),
  ("elseAction", .array [.object [
    ("note", .bool true), ("parameters", .object []), ("type", .string "SMSAction")]]),
  ("note", .null),
  ("subtree", .array [
    .object [("kind", .string "EmailAction"), ("parameters", .object [("to", .string "ops")])],
    .object [("type", .string "send-message"), ("parameters", .object [])]]),
  ("name", .string "week"),
  ("condition", .object [
    ("targetPropertyName", .string "due"), ("targetPropertyType", .string "string"),
    ("comparisonType", .string "directComparison"), ("compareTo", .string "friday")])]

theorem canonical_weekly : weekly.root.Canonical := by
  have hmail : ActionKind.sendEmail.Named := ⟨"send-email", rfl⟩
  have hmessage : ActionKind.sendMessage.Named := ⟨"send-message", rfl⟩
  have hrecord : Record.Canonical [("to", .string "ops")] :=
    ⟨List.pairwise_singleton .., List.forall_mem_singleton.mpr rfl⟩
  constructor
  case condition => exact ⟨⟨"equals", rfl⟩, ⟨"string", rfl⟩, rfl⟩
  case trueActions => exact List.forall_mem_singleton.mpr ⟨hmail, .nil, nofun⟩
  case falseActions =>
    rintro _ ⟨⟩
    exact List.forall_mem_singleton.mpr ⟨hmessage, .nil, nofun⟩
  case subActions =>
    exact List.forall_mem_cons.mpr
      ⟨⟨hmail, hrecord, nofun⟩, List.forall_mem_singleton.mpr ⟨hmessage, .nil, nofun⟩⟩
  case subtreeOutputs => exact nofun

theorem spelledIn_olderWeekly :
    weekly.SpelledIn
      (olderWeekly [("type", .string "EmailAction"), ("parameters", .object [])]) where
  name := ⟨_, rfl, rfl⟩
  root := {
    condition := ⟨_, rfl, _, rfl, ⟨_, rfl, _, .tail _ (.head _), rfl⟩, ⟨_, rfl, rfl⟩,
      ⟨_, rfl, rfl⟩, ⟨_, rfl, rfl⟩⟩
    trueActions := ⟨_, rfl, .inr ⟨_, rfl, _, rfl, ⟨_, rfl, _, .tail _ (.head _), rfl⟩,
      ⟨_, rfl, rfl⟩, rfl⟩⟩
    falseActions := ⟨_, rfl, .inl ⟨_, rfl, .cons ⟨_, rfl, ⟨_, rfl, _, .tail _ (.head _), rfl⟩,
      ⟨_, rfl, rfl⟩, rfl⟩ .nil⟩⟩
    conditionResult := rfl
    repeatCount := ⟨_, rfl, rfl⟩
    subActions := ⟨_, rfl, _, rfl,
      .cons ⟨_, rfl, ⟨_, rfl, _, .tail _ (.head _), rfl⟩, ⟨_, rfl, rfl⟩, rfl⟩
      (.cons ⟨_, rfl, ⟨_, rfl, _, .head _, rfl⟩, ⟨_, rfl, rfl⟩, rfl⟩ .nil)⟩
    subtreeOutputs := rfl }

/-- The first action of the second object has its kind under both names. -/
theorem weekly_spellings :
    weekly.SpelledIn (olderWeekly [("type", .string "EmailAction"), ("parameters", .object [])]) ∧
      Json.decode read (.object (olderWeekly
        [("type", .string "EmailAction"), ("parameters", .object [])])) = .ok weekly ∧
      ∃ refusal, Json.decode read (.object (olderWeekly [("type", .string "EmailAction"),
        ("kind", .string "send-email"), ("parameters", .object [])])) = .error refusal := by
  have htwice : NamedTwice (olderWeekly [("type", .string "EmailAction"),
      ("kind", .string "send-email"), ("parameters", .object [])]) :=
    .action (.bare (.tail _ (.head _)) (.tail _ (.head _)))
      ⟨("kind", "type"), .head _, .tail _ (.head _), .head _⟩
  obtain ⟨-, hdecode, hrefuse⟩ := decode_spellings weekly canonical_weekly
  exact ⟨spelledIn_olderWeekly, hdecode _ spelledIn_olderWeekly, hrefuse _ htwice⟩

end Tree

end Verdict
