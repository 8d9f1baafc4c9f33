import Verdict.Proofs.Naming
import Verdict.Proofs.Written

/-!
# One action or a list of actions

A list of actions may stand without its brackets if it has one action, and an action may be written
as a list of its fields. Yet no document is both: the first field of an action is a name, the first
item of a list of actions is an action, and no action is written as a name
(`Action.read_apartFromLists`). So it does not matter that one action is tried before a list
(`Action.readOneOrMany_takes_iff`), and the members of a node or a tree that tell the actions of its
branches are read item by item (`Action.one_or_many_told_apart`).
-/

namespace Verdict

/-! ## Readings apart from their lists -/

/-- No document is read as one value and, from the same place or another, as a list of values. -/
def Reading.ApartFromLists {α : Type} (reading : Reading α) : Prop :=
  ∀ origin origin' doc v vs, reading origin doc = .ok v → reading.list origin' doc ≠ .ok vs

/-- A structure is apart from its lists if it cannot be empty and nothing fills its first field that
is read as such a structure. -/
theorem Layout.read_apartFromLists {δ α : Type} {layout : Layout δ α} {first : Slot δ}
    {slots : List (Slot δ)} (hslots : layout.slots = first :: slots)
    (hblank : ∃ missing, layout.finish layout.blank = .error missing)
    (hfirst : ∀ origin origin' doc draft draft' v, first.fill origin doc draft = .ok draft' →
      layout.read origin' doc ≠ .ok v) : layout.read.ApartFromLists := by
  intro origin origin' doc v vs hone hmany
  cases doc with
  | array start items =>
    rw [read, hslots] at hone
    cases items with
    | closed stop =>
      obtain ⟨missing, hblank⟩ := hblank
      rw [readItems, hblank] at hone
      cases hone
    | flawed flaw => cases hone
    | item start doc settled rest =>
      rw [readItems] at hone
      rw [Reading.list, Reading.items] at hmany
      split at hone
      · cases hone
      next draft hfill =>
        split at hmany
        · cases hmany
        next item hitem => exact hfirst _ _ _ _ _ _ hfill hitem
  | _ => cases hmany

theorem Action.read_apartFromLists : Action.layout.read.ApartFromLists := by
  refine Layout.read_apartFromLists rfl ⟨"kind", rfl⟩ ?_
  intro origin origin' doc draft draft' action hfill hread
  obtain ⟨_, hkind, -⟩ := Slot.fill_reading_eq_ok_iff.mp hfill
  obtain ⟨_, htext, -⟩ := map_eq_ok_iff.mp hkind
  cases doc with
  | string s stop => cases hread
  | _ => cases htext

/-! ## What is read where one value or a list may stand -/

namespace Reading

variable {α : Type} {reading : Reading α} {origin origin' : Origin} {v : Json}

theorem Placeless.takes_iff (h : reading.Placeless) {a : α} :
    reading.Takes origin a v ↔ reading.Takes origin' a v :=
  (h.between (Doc.written?_ofJson v)).eq_ok_iff

theorem list_takes_iff {values : List α} :
    reading.list.Takes origin values v ↔ Json.ArrayOf (reading.Takes origin) values v := by
  constructor
  · intro h
    cases v with
    | array items => exact ⟨items, rfl, list_takes_array_iff.mp h⟩
    | _ => cases h
  · rintro ⟨items, rfl, hitems⟩
    exact list_takes_array_iff.mpr hitems

/-- Trying one value first takes nothing from the lists. -/
theorem oneOrMany_takes_iff {type : String} (hplaceless : reading.Placeless)
    (hapart : reading.ApartFromLists) {values : List α} :
    (reading.oneOrMany type).Takes origin values v ↔
      (∃ a, values = [a] ∧ reading.Takes origin' a v) ∨
        Json.ArrayOf (reading.Takes origin') values v := by
  rw [← list_takes_iff]
  constructor
  · intro h
    rcases takes_of_oneOrMany_takes h with ⟨a, rfl, ha⟩ | hmany
    · exact .inl ⟨a, rfl, hplaceless.takes_iff.mp ha⟩
    · exact .inr (hplaceless.list.takes_iff.mp hmany)
  · rintro (⟨a, rfl, ha⟩ | hmany)
    · exact oneOrMany_takes_of_single (hplaceless.takes_iff.mp ha)
    · exact oneOrMany_takes_of_list (fun a ha => hapart _ _ _ _ _ ha hmany)
        (hplaceless.list.takes_iff.mp hmany)

theorem optional_takes_iff (hnull : ∀ a, ¬reading.Takes origin a .null) {value : Option α} :
    reading.optional.Takes origin value v ↔
      (value = none ∧ v = .null) ∨ ∃ a, value = some a ∧ reading.Takes origin a v := by
  cases v with
  | null =>
    constructor
    · rintro ⟨⟩
      exact .inl ⟨rfl, rfl⟩
    · rintro (⟨rfl, -⟩ | ⟨a, -, ha⟩)
      · rfl
      · exact absurd ha (hnull a)
  | _ =>
    constructor
    · intro h
      obtain ⟨a, ha, rfl⟩ := map_eq_ok_iff.mp h
      exact .inr ⟨a, rfl, ha⟩
    · rintro (⟨-, hv⟩ | ⟨a, rfl, ha⟩)
      · cases hv
      · exact map_eq_ok_iff.mpr ⟨a, ha, rfl⟩

end Reading

/-! ## A further member of an object -/

section

variable {names : List String} {key : String} {v : Json} {before after : List (String × Json)}

theorem Json.given_insert_of_not_mem (h : key ∉ names) :
    given names (before ++ (key, v) :: after) = given names (before ++ after) := by
  rw [given_append, given_cons_of_not_mem h, given_append]

theorem Json.given_insert_of_mem (h : key ∈ names) (hnone : given names (before ++ after) = []) :
    given names (before ++ (key, v) :: after) = [v] := by
  rw [given_append, List.append_eq_nil_iff] at hnone
  rw [given_append, given_cons_of_mem h, hnone.1, hnone.2, List.nil_append]

variable {δ α β : Type} {origin : Origin}

/-- A slot that was not filled may be filled last. -/
theorem Slot.fillFrom_insert {front back : List (Slot δ)} {slot : Slot δ} {draft final : δ}
    (hkey : key ∈ slot.names) (hnone : Json.given slot.names (before ++ after) = [])
    (hothers : ∀ other ∈ front ++ back, key ∉ other.names)
    (hback : ∀ other ∈ back, other.Independent slot)
    (h : fillFrom origin (before ++ after) draft (front ++ slot :: back) = .ok final) :
    fillFrom origin (before ++ (key, v) :: after) draft (front ++ slot :: back) =
      slot.fill origin (Doc.ofJson v) final := by
  have hgiven : ∀ other ∈ front ++ back,
      Json.given other.names (before ++ (key, v) :: after) =
        Json.given other.names (before ++ after) :=
    fun other hother => Json.given_insert_of_not_mem (hothers other hother)
  obtain ⟨hfront, hrest⟩ := List.forall_mem_append.mp hgiven
  rw [fillFrom_append] at h
  obtain ⟨between, hbetween, h⟩ := bind_eq_ok_iff.mp h
  rw [fillFrom, hnone] at h
  have hfinal : fillFrom origin (before ++ after) between back = .ok final := h
  calc fillFrom origin (before ++ (key, v) :: after) draft (front ++ slot :: back)
      = fillFrom origin (before ++ (key, v) :: after) between (slot :: back) := by
        rw [fillFrom_append, fillFrom_congr hfront, hbetween]
        rfl
    _ = slot.fill origin (Doc.ofJson v) between >>=
          (fillFrom origin (before ++ (key, v) :: after) · back) := by
        rw [fillFrom, Json.given_insert_of_mem hkey hnone, fillAll, bind_assoc]
        rfl
    _ = slot.fill origin (Doc.ofJson v) between >>= (fillFrom origin (before ++ after) · back) := by
        simp only [fillFrom_congr hrest]
    _ = slot.fill origin (Doc.ofJson v) final := (fill_of_fillFrom hback hfinal origin _).symm

namespace Layout.Lawful

variable {layout : Layout δ α}

/-- With a further member for a field that was not given, an object is read as before except for
this field. -/
theorem takes_insert_iff (hl : layout.Lawful) (front : List (Slot δ)) {back : List (Slot δ)}
    {name : String} {aliases : List String} {get : δ → Option β} {put : β → δ → δ}
    {reading : Reading β} {set : β → α → α}
    (hslots : layout.slots = front ++ .reading name aliases get put reading :: back)
    (hset : ∀ b draft plain, layout.finish draft = .ok plain →
      layout.finish (put b draft) = .ok (set b plain))
    (hkey : key ∈ name :: aliases) (hnone : Json.given (name :: aliases) (before ++ after) = [])
    {plain a : α} (hplain : layout.read.Takes origin plain (.object (before ++ after))) :
    layout.read.Takes origin a (.object (before ++ (key, v) :: after)) ↔
      ∃ b, reading.Takes origin b v ∧ a = set b plain := by
  obtain ⟨hone, draft, hfill, hfinish⟩ := hl.takes_object_iff.mp hplain
  have hothers := hl.independent_of_append hslots
  have hnames : ∀ other ∈ front ++ back, key ∉ other.names :=
    fun other hother => (hothers other hother).1.names key hkey
  have hlength : ∀ other ∈ layout.slots,
      (Json.given other.names (before ++ (key, v) :: after)).length ≤ 1 := by
    intro other hother
    rcases eq_or_mem_of_mem_slots hslots hother with rfl | hmem
    · have hgiven : Json.given (name :: aliases) (before ++ (key, v) :: after) = [v] :=
        Json.given_insert_of_mem hkey hnone
      exact Nat.le_of_eq (congrArg List.length hgiven)
    · rw [Json.given_insert_of_not_mem (hnames other hmem)]
      exact hone other hother
  have hinsert : Slot.fillFrom origin (before ++ (key, v) :: after) layout.blank layout.slots =
      (Slot.reading name aliases get put reading).fill origin (Doc.ofJson v) draft := by
    rw [hslots] at hfill ⊢
    exact Slot.fillFrom_insert hkey hnone hnames
      (fun other hother => (hothers other (List.mem_append_right _ hother)).2) hfill
  rw [hl.takes_object_iff, hinsert]
  constructor
  · rintro ⟨-, final, hfinal, ha⟩
    obtain ⟨b, hb, rfl⟩ := Slot.fill_reading_eq_ok_iff.mp hfinal
    exact ⟨b, hb, Except.ok.inj (ha.symm.trans (hset b draft plain hfinish))⟩
  · rintro ⟨b, hb, rfl⟩
    exact ⟨hlength, _, Slot.fill_reading_eq_ok_iff.mpr ⟨b, hb, rfl⟩, hset b draft plain hfinish⟩

end Layout.Lawful

end

/-! ## The actions of a branch -/

variable {origin : Origin} {v : Json} {before after : List (String × Json)} {key : String}

namespace Action

/-- An action by itself, or a list in which each item is an action by itself. -/
def OneOrMany (actions : List Action) (v : Json) : Prop :=
  (∃ action, actions = [action] ∧ Json.decode layout.read v = .ok action) ∨
    Json.ArrayOf (fun action item => Json.decode layout.read item = .ok action) actions v

theorem readOneOrMany_takes_iff {actions : List Action} :
    readOneOrMany.Takes origin actions v ↔ OneOrMany actions v := by
  simp only [OneOrMany, Json.decode_eq_ok_iff]
  exact Reading.oneOrMany_takes_iff read_placeless read_apartFromLists

theorem optional_readOneOrMany_takes_iff {given : Option (List Action)} :
    readOneOrMany.optional.Takes origin given v ↔
      (given = none ∧ v = .null) ∨ ∃ actions, given = some actions ∧ OneOrMany actions v := by
  have hnull : ∀ actions, ¬readOneOrMany.Takes origin actions .null := by
    intro actions h
    rcases readOneOrMany_takes_iff.mp h with ⟨_, _, hone⟩ | ⟨_, hmany, _⟩
    · cases hone
    · cases hmany
  simp only [Reading.optional_takes_iff hnull, readOneOrMany_takes_iff]

end Action

/-- What a member for the actions of a branch adds to what an object is read as without it. -/
structure TakesBranches {α : Type} (origin : Origin) (reading : Reading α)
    (withTrue : α → List Action → α) (withFalse : α → Option (List Action) → α) : Prop where
  trueActions : ∀ {plain : α} {before after : List (String × Json)},
    reading.Takes origin plain (.object (before ++ after)) →
    ∀ key ∈ ["trueActions", "action"], Json.given ["trueActions", "action"] (before ++ after) = [] →
    ∀ a v, reading.Takes origin a (.object (before ++ (key, v) :: after)) ↔
      ∃ actions, Action.OneOrMany actions v ∧ a = withTrue plain actions
  falseActions : ∀ {plain : α} {before after : List (String × Json)},
    reading.Takes origin plain (.object (before ++ after)) →
    ∀ key ∈ ["falseActions", "elseAction"],
    Json.given ["falseActions", "elseAction"] (before ++ after) = [] →
    ∀ a v, reading.Takes origin a (.object (before ++ (key, v) :: after)) ↔
      (v = .null ∧ a = withFalse plain none) ∨
        ∃ actions, Action.OneOrMany actions v ∧ a = withFalse plain (some actions)

namespace Node

def withTrue (node : Node) (actions : List Action) : Node := { node with trueActions := actions }

def withFalse (node : Node) (actions : Option (List Action)) : Node :=
  { node with falseActions := actions }

theorem takesBranches : TakesBranches origin layout.read withTrue withFalse where
  trueActions hplain key hkey hnone node v := by
    have hset : ∀ actions draft plain, layout.finish draft = .ok plain →
        layout.finish { draft with trueActions := some actions } = .ok (plain.withTrue actions) := by
      rintro actions ⟨_ | condition, _⟩ plain ⟨⟩
      rfl
    rw [layout_lawful.takes_insert_iff [_] rfl hset hkey hnone hplain]
    simp only [Action.readOneOrMany_takes_iff]
  falseActions {plain _ _} hplain key hkey hnone node v := by
    have hset : ∀ given draft plain, layout.finish draft = .ok plain →
        layout.finish { draft with falseActions := some given } = .ok (plain.withFalse given) := by
      rintro given ⟨_ | condition, _⟩ plain ⟨⟩
      rfl
    rw [layout_lawful.takes_insert_iff [_, _] rfl hset hkey hnone hplain]
    constructor
    · rintro ⟨given, hgiven, rfl⟩
      rcases Action.optional_readOneOrMany_takes_iff.mp hgiven with ⟨rfl, hv⟩ | ⟨actions, rfl, h⟩
      · exact .inl ⟨hv, rfl⟩
      · exact .inr ⟨actions, h, rfl⟩
    · rintro (⟨hv, rfl⟩ | ⟨actions, h, rfl⟩)
      · exact ⟨none, Action.optional_readOneOrMany_takes_iff.mpr (.inl ⟨rfl, hv⟩), rfl⟩
      · exact ⟨some actions,
          Action.optional_readOneOrMany_takes_iff.mpr (.inr ⟨actions, rfl, h⟩), rfl⟩

end Node

namespace Tree

def withTrue (tree : Tree) (actions : List Action) : Tree :=
  { tree with root := tree.root.withTrue actions }

def withFalse (tree : Tree) (actions : Option (List Action)) : Tree :=
  { tree with root := tree.root.withFalse actions }

theorem eq_mk_iff {tree : Tree} {name : String} {root : Node} :
    tree = ⟨name, root⟩ ↔ tree.name = name ∧ tree.root = root := by
  obtain ⟨_, _⟩ := tree
  rw [Tree.mk.injEq]

/-- A further member is one of the root unless it is a name. -/
theorem takes_insert_iff {plain tree : Tree}
    (hplain : read.Takes origin plain (.object (before ++ after))) (hkey : key ≠ "name") :
    read.Takes origin tree (.object (before ++ (key, v) :: after)) ↔ tree.name = plain.name ∧
      Node.layout.read.Takes .buffer tree.root (.object (before ++ (key, v) :: after)) := by
  have hname : Json.given ["name"] (before ++ (key, v) :: after) = [.string plain.name] :=
    (Json.given_insert_of_not_mem (by simpa using hkey)).trans (takes_object_iff.mp hplain).1
  rw [takes_object_iff, hname, List.singleton_inj, Json.string.injEq, eq_comm]

theorem takesBranches : TakesBranches origin read withTrue withFalse where
  trueActions hplain key hkey hnone tree v := by
    have hroot := Node.takesBranches.trueActions (takes_object_iff.mp hplain).2 key hkey hnone
    have hname : key ≠ "name" := ne_of_mem_of_not_mem hkey (by decide)
    rw [takes_insert_iff hplain hname, hroot]
    simp only [withTrue, eq_mk_iff, and_left_comm, exists_and_left]
  falseActions hplain key hkey hnone tree v := by
    have hroot := Node.takesBranches.falseActions (takes_object_iff.mp hplain).2 key hkey hnone
    have hname : key ≠ "name" := ne_of_mem_of_not_mem hkey (by decide)
    rw [takes_insert_iff hplain hname, hroot]
    simp only [withFalse, eq_mk_iff, and_or_left, and_left_comm, exists_and_left]

end Tree

/-- No document is one action as well as a list of actions. Where either may stand, one action is
read as the list of it, and a list item by item; so it is for the actions of both branches of a node
or of a tree, under either of their names. -/
theorem Action.one_or_many_told_apart (origin : Origin) :
    layout.read.ApartFromLists ∧
    (∀ actions v, readOneOrMany.Takes origin actions v ↔ OneOrMany actions v) ∧
    TakesBranches origin Node.layout.read Node.withTrue Node.withFalse ∧
    TakesBranches origin Tree.read Tree.withTrue Tree.withFalse :=
  ⟨read_apartFromLists, fun _ _ => readOneOrMany_takes_iff, Node.takesBranches, Tree.takesBranches⟩

namespace Tree

/-- A tree without actions. -/
def quiet : Tree := ⟨"week", { condition := Node.reminder.condition, trueActions := [] }⟩

def quietMembers : List (String × Json) :=
  [("name", .string "week"), ("condition", quiet.root.condition.encode)]

/-- The fields of an action are one action, and a list with these fields in it is a list of actions.
-/
theorem fax_told_apart :
    let fields : Json := .array [.string "fax", .object []]
    let fax : Action := ⟨.custom "fax", [], none⟩
    read.Takes .value quiet (.object (quietMembers ++ [])) ∧
    Json.given ["trueActions", "action"] (quietMembers ++ []) = [] ∧
    Json.given ["falseActions", "elseAction"] (quietMembers ++ []) = [] ∧
    read.Takes .value (quiet.withTrue [fax]) (.object (quietMembers ++ [("action", fields)])) ∧
    read.Takes .value (quiet.withFalse (some [fax, ⟨.sendMessage, [], none⟩]))
      (.object (quietMembers ++
        [("elseAction", .array [fields, .object [("type", .string "SMSAction")]])])) := by
  intro fields fax
  obtain ⟨-, -, -, hbranches⟩ := Action.one_or_many_told_apart .value
  have hplain : read.Takes .value quiet (.object (quietMembers ++ [])) := rfl
  have hone : Action.OneOrMany [fax] fields := .inl ⟨fax, rfl, rfl⟩
  have hmany : Action.OneOrMany [fax, ⟨.sendMessage, [], none⟩]
      (.array [fields, .object [("type", .string "SMSAction")]]) :=
    .inr ⟨_, rfl, .cons rfl (.cons rfl .nil)⟩
  exact ⟨hplain, rfl, rfl,
    (hbranches.trueActions hplain "action" (by simp) rfl _ _).mpr ⟨_, hone, rfl⟩,
    (hbranches.falseActions hplain "elseAction" (by simp) rfl _ _).mpr (.inr ⟨_, hmany, rfl⟩)⟩

end Tree

end Verdict
