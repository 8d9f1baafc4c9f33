import Mathlib.Data.List.Basic
import Verdict.Document.Reading

/-!
# Reading structures from objects

The slots of a layout are independent: none answers to a name of another, and what one is filled
with is nothing to the others (`Layout.Lawful`). Therefore neither the order of the members of an
object nor a member that no slot answers to matters: an object that gives each slot at most one
value is read as if the slots were filled one after the other (`Lawful.readMembers_ofJson`).
Conversely an object that can be read gives no slot two values, and each value it gives could be
filled in (`Lawful.given_of_readMembers`, `Lawful.takes_object_iff`). What every slot keeps of a
draft holds of whatever is read, from an object or from a list (`yields_read`).
-/

namespace Verdict

section Failing

variable {ε α β : Type} {x : Except ε α} {b : β}

theorem bind_eq_ok_iff {f : α → Except ε β} : x >>= f = .ok b ↔ ∃ a, x = .ok a ∧ f a = .ok b := by
  cases x with
  | error e => exact ⟨nofun, fun ⟨_, h, _⟩ => nomatch h⟩
  | ok a => exact ⟨fun h => ⟨a, rfl, h⟩, fun ⟨_, ha, h⟩ => by cases ha; exact h⟩

theorem map_eq_ok_iff {f : α → β} : x.map f = .ok b ↔ ∃ a, x = .ok a ∧ f a = b := by
  cases x <;> simp [Except.map]

theorem mapError_eq_ok_iff {ε' : Type} {f : ε → ε'} {y : Except ε α} {a : α} :
    y.mapError f = .ok a ↔ y = .ok a := by
  cases y <;> simp [Except.mapError]

end Failing

/-! ## What members give -/

namespace Json

/-- The values of the members under some names. -/
def given (names : List String) (members : List (String × Json)) : List Json :=
  (members.filter fun member => names.contains member.1).map (·.2)

variable {names : List String} {key : String} {v : Json} {members rest : List (String × Json)}

@[simp]
theorem given_nil : given names [] = [] := rfl

theorem given_cons : given names ((key, v) :: members) =
    if key ∈ names then v :: given names members else given names members := by
  split <;> simp [given, *]

theorem given_cons_of_mem (h : key ∈ names) :
    given names ((key, v) :: members) = v :: given names members := by
  rw [given_cons, if_pos h]

theorem given_cons_of_not_mem (h : key ∉ names) :
    given names ((key, v) :: members) = given names members := by
  rw [given_cons, if_neg h]

theorem given_append : given names (members ++ rest) = given names members ++ given names rest := by
  simp [given]

theorem mem_given (hkey : key ∈ names) (hmem : (key, v) ∈ members) : v ∈ given names members :=
  List.mem_map.mpr ⟨(key, v), List.mem_filter.mpr ⟨hmem, by simpa using hkey⟩, rfl⟩

theorem two_le_length_given {first second : String} (hne : first ≠ second)
    (hfirst : first ∈ members.map (·.1)) (hsecond : second ∈ members.map (·.1)) :
    2 ≤ (given [first, second] members).length := by
  obtain ⟨member, hmem, rfl⟩ := List.mem_map.mp hfirst
  obtain ⟨member', hmem', rfl⟩ := List.mem_map.mp hsecond
  have hmember : member ∈ members.filter fun m => [member.1, member'.1].contains m.1 :=
    List.mem_filter.mpr ⟨hmem, by simp⟩
  have hmember' : member' ∈ members.filter fun m => [member.1, member'.1].contains m.1 :=
    List.mem_filter.mpr ⟨hmem', by simp⟩
  rw [given, List.length_map]
  match hkept : members.filter fun m => [member.1, member'.1].contains m.1 with
  | [] =>
    rw [hkept] at hmember
    cases hmember
  | [kept] =>
    rw [hkept, List.mem_singleton] at hmember hmember'
    exact absurd (congrArg (·.1) (hmember.trans hmember'.symm)) hne
  | _ :: _ :: rest =>
    rw [hkept]
    exact Nat.le_add_left 2 rest.length

/-- The members give a value under some names once, or not at all if there is none. -/
def Gives {α : Type} (members : List (String × Json)) (names : List String) (P : α → Json → Prop) :
    Option α → Prop
  | none => given names members = []
  | some a => ∃ v, given names members = [v] ∧ P a v

namespace Gives

variable {α : Type} {P Q : α → Json → Prop} {value : Option α}

theorem length_le (h : Gives members names P value) : (given names members).length ≤ 1 := by
  cases value with
  | none => simp [show given names members = [] from h]
  | some a =>
    obtain ⟨v, hv, _⟩ := h
    simp [hv]

theorem imp (h : Gives members names P value) (himp : ∀ a ∈ value, ∀ v, P a v → Q a v) :
    Gives members names Q value := by
  cases value with
  | none => exact h
  | some a =>
    obtain ⟨v, hv, hp⟩ := h
    exact ⟨v, hv, himp a rfl v hp⟩

/-- A member that none of the names is for may be added. -/
theorem cons (h : Gives members names P value) (hkey : key ∉ names) :
    Gives ((key, v) :: members) names P value := by
  cases value with
  | none => exact (given_cons_of_not_mem hkey).trans h
  | some a =>
    obtain ⟨w, hw, hp⟩ := h
    exact ⟨w, (given_cons_of_not_mem hkey).trans hw, hp⟩

theorem of_given_eq {encode : α → Json} (h : given names members = (value.map encode).toList)
    (hp : ∀ a ∈ value, P a (encode a)) : Gives members names P value := by
  cases value with
  | none => exact h
  | some a => exact ⟨encode a, h, hp a rfl⟩

end Gives

end Json

/-- A value is read as `a`. -/
def Reading.Takes {α : Type} (reading : Reading α) (origin : Origin) (a : α) (v : Json) : Prop :=
  reading origin (Doc.ofJson v) = .ok a

/-! ## Slots -/

namespace Slot

variable {δ : Type}

/-- All names of a slot. -/
def names (slot : Slot δ) : List String := slot.name :: slot.aliases

theorem answersTo_iff {slot : Slot δ} {key : String} :
    slot.answersTo key = true ↔ key ∈ slot.names := by
  rw [answersTo, names, Bool.or_eq_true, beq_iff_eq, List.contains_iff_mem, List.mem_cons,
    @eq_comm _ slot.name]

/-- Fills a slot with one value after the other. -/
def fillAll (slot : Slot δ) (origin : Origin) (draft : δ) : List Json → Except Fault δ
  | [] => .ok draft
  | v :: rest => slot.fill origin (Doc.ofJson v) draft >>= (slot.fillAll origin · rest)

/-- Fills slots one after the other, each with what the members give it. -/
def fillFrom (origin : Origin) (members : List (String × Json)) (draft : δ) :
    List (Slot δ) → Except Fault δ
  | [] => .ok draft
  | slot :: rest =>
    slot.fillAll origin draft (Json.given slot.names members) >>= (fillFrom origin members · rest)

theorem fillFrom_nil {origin : Origin} {draft : δ} {slots : List (Slot δ)} :
    fillFrom origin [] draft slots = .ok draft := by
  induction slots with
  | nil => rfl
  | cons slot slots ih => exact ih

theorem fillFrom_append {origin : Origin} {members : List (String × Json)} {draft : δ}
    {before after : List (Slot δ)} :
    fillFrom origin members draft (before ++ after) =
      fillFrom origin members draft before >>= (fillFrom origin members · after) := by
  induction before generalizing draft with
  | nil => rfl
  | cons slot before ih => simp only [List.cons_append, fillFrom, ih, bind_assoc]

theorem fillFrom_congr {origin : Origin} {members members' : List (String × Json)} {draft : δ}
    {slots : List (Slot δ)}
    (h : ∀ slot ∈ slots, Json.given slot.names members = Json.given slot.names members') :
    fillFrom origin members draft slots = fillFrom origin members' draft slots := by
  induction slots generalizing draft with
  | nil => rfl
  | cons slot slots ih =>
    obtain ⟨hslot, hslots⟩ := List.forall_mem_cons.mp h
    simp only [fillFrom, hslot, ih hslots]

/-- Filling the first slot is nothing to the second one, which may as well be filled before it. -/
structure Independent (first second : Slot δ) : Prop where
  names : ∀ key ∈ first.names, key ∉ second.names
  filled : ∀ {origin doc draft draft'}, first.fill origin doc draft = .ok draft' →
    second.filled draft' = second.filled draft
  fill : ∀ {origin doc draft draft'}, first.fill origin doc draft = .ok draft' →
    ∀ origin' doc', second.fill origin' doc' draft' =
      second.fill origin' doc' draft >>= first.fill origin doc

/-- A slot may be filled before those that it is independent of. -/
theorem Independent.fillAll {first second : Slot δ} (hind : first.Independent second)
    {origin : Origin} {draft draft' : δ} {vs : List Json}
    (h : first.fillAll origin draft vs = .ok draft') (origin' : Origin) (doc : Doc) :
    second.fill origin' doc draft' =
      second.fill origin' doc draft >>= (first.fillAll origin · vs) := by
  induction vs generalizing draft with
  | nil =>
    cases h
    exact (bind_pure _).symm
  | cons v vs ih =>
    obtain ⟨between, hfirst, hrest⟩ := bind_eq_ok_iff.mp h
    rw [ih hrest, hind.fill hfirst, bind_assoc]
    rfl

theorem fill_of_fillFrom {before : List (Slot δ)} {slot : Slot δ}
    (hind : ∀ other ∈ before, other.Independent slot) {origin : Origin}
    {members : List (String × Json)} {draft draft' : δ}
    (h : fillFrom origin members draft before = .ok draft') (origin' : Origin) (doc : Doc) :
    slot.fill origin' doc draft' =
      slot.fill origin' doc draft >>= (fillFrom origin members · before) := by
  induction before generalizing draft with
  | nil =>
    cases h
    exact (bind_pure _).symm
  | cons other before ih =>
    obtain ⟨hother, hbefore⟩ := List.forall_mem_cons.mp hind
    obtain ⟨between, hfirst, hrest⟩ := bind_eq_ok_iff.mp h
    rw [ih hbefore hrest, hother.fillAll hfirst, bind_assoc]
    rfl

/-- The slot of the first member is filled before those that stand in front of it. -/
theorem exists_fill_of_fillFrom {before after : List (Slot δ)} {slot : Slot δ} {origin : Origin}
    {key : String} {v : Json} {rest : List (String × Json)} {draft final : δ}
    (hkey : key ∈ slot.names) (hrest : Json.given slot.names rest = [])
    (hbefore : ∀ other ∈ before, other.Independent slot)
    (hothers : ∀ other ∈ before ++ after, key ∉ other.names)
    (h : fillFrom origin ((key, v) :: rest) draft (before ++ slot :: after) = .ok final) :
    ∃ draft', slot.fill origin (Doc.ofJson v) draft = .ok draft' ∧
      fillFrom origin rest draft' (before ++ slot :: after) = .ok final := by
  have hgiven : ∀ other ∈ before ++ after,
      Json.given other.names ((key, v) :: rest) = Json.given other.names rest :=
    fun other hother => Json.given_cons_of_not_mem (hothers other hother)
  obtain ⟨hfront, hback⟩ := List.forall_mem_append.mp hgiven
  rw [fillFrom_append, fillFrom_congr hfront] at h
  obtain ⟨between, hfront, h⟩ := bind_eq_ok_iff.mp h
  rw [fillFrom, Json.given_cons_of_mem hkey, hrest, fillAll] at h
  obtain ⟨filled, hslot, h⟩ := bind_eq_ok_iff.mp h
  obtain ⟨_, hslot, hnil⟩ := bind_eq_ok_iff.mp hslot
  cases hnil
  rw [fill_of_fillFrom hbefore hfront] at hslot
  obtain ⟨draft', hvalue, hfront⟩ := bind_eq_ok_iff.mp hslot
  refine ⟨draft', hvalue, ?_⟩
  rw [fillFrom_append]
  refine bind_eq_ok_iff.mpr ⟨filled, hfront, ?_⟩
  rw [fillFrom_congr hback] at h
  rw [fillFrom, hrest]
  exact h

/-- What follows the filling of a slot may as well come before it if it is nothing to that. -/
theorem Independent.exists_fillAll {first second : Slot δ} (hind : first.Independent second)
    {origin origin' : Origin} {doc : Doc} {draft draft' final : δ} {vs : List Json}
    (hfill : first.fill origin' doc draft = .ok draft')
    (h : second.fillAll origin draft' vs = .ok final) :
    ∃ between, second.fillAll origin draft vs = .ok between ∧
      first.fill origin' doc between = .ok final := by
  induction vs generalizing draft draft' with
  | nil =>
    cases h
    exact ⟨draft, rfl, hfill⟩
  | cons v vs ih =>
    obtain ⟨filled, hsecond, hrest⟩ := bind_eq_ok_iff.mp h
    rw [hind.fill hfill] at hsecond
    obtain ⟨before, hsecond, hfirst⟩ := bind_eq_ok_iff.mp hsecond
    obtain ⟨between, hbetween, hlast⟩ := ih hfirst hrest
    exact ⟨between, bind_eq_ok_iff.mpr ⟨before, hsecond, hbetween⟩, hlast⟩

theorem exists_fillFrom_of_fill {before : List (Slot δ)} {slot : Slot δ}
    (hind : ∀ other ∈ before, slot.Independent other) {origin origin' : Origin} {doc : Doc}
    {members : List (String × Json)} {draft draft' final : δ}
    (hfill : slot.fill origin' doc draft = .ok draft')
    (h : fillFrom origin members draft' before = .ok final) :
    ∃ between, fillFrom origin members draft before = .ok between ∧
      slot.fill origin' doc between = .ok final := by
  induction before generalizing draft draft' with
  | nil =>
    cases h
    exact ⟨draft, rfl, hfill⟩
  | cons other before ih =>
    obtain ⟨hother, hbefore⟩ := List.forall_mem_cons.mp hind
    obtain ⟨filled, hfirst, hrest⟩ := bind_eq_ok_iff.mp h
    obtain ⟨middle, hmiddle, hslot⟩ := hother.exists_fillAll hfill hfirst
    obtain ⟨between, hbetween, hlast⟩ := ih hbefore hslot hrest
    exact ⟨between, bind_eq_ok_iff.mpr ⟨middle, hmiddle, hbetween⟩, hlast⟩

/-- The slot of the first member may be filled after those that stand in front of it. -/
theorem fillFrom_of_fill {before after : List (Slot δ)} {slot : Slot δ} {origin : Origin}
    {key : String} {v : Json} {rest : List (String × Json)} {draft draft' final : δ}
    (hkey : key ∈ slot.names) (hrest : Json.given slot.names rest = [])
    (hothers : ∀ other ∈ before ++ after, slot.Independent other)
    (hfill : slot.fill origin (Doc.ofJson v) draft = .ok draft')
    (h : fillFrom origin rest draft' (before ++ slot :: after) = .ok final) :
    fillFrom origin ((key, v) :: rest) draft (before ++ slot :: after) = .ok final := by
  have hgiven : ∀ other ∈ before ++ after,
      Json.given other.names ((key, v) :: rest) = Json.given other.names rest :=
    fun other hother => Json.given_cons_of_not_mem ((hothers other hother).names key hkey)
  obtain ⟨hfront, hback⟩ := List.forall_mem_append.mp hgiven
  rw [fillFrom_append] at h
  obtain ⟨filled, hbefore, h⟩ := bind_eq_ok_iff.mp h
  rw [fillFrom, hrest] at h
  obtain ⟨between, hbetween, hslot⟩ :=
    exists_fillFrom_of_fill (List.forall_mem_append.mp hothers).1 hfill hbefore
  rw [fillFrom_append, fillFrom_congr hfront]
  refine bind_eq_ok_iff.mpr ⟨between, hbetween, ?_⟩
  rw [fillFrom, Json.given_cons_of_mem hkey, hrest]
  refine bind_eq_ok_iff.mpr ⟨filled, bind_eq_ok_iff.mpr ⟨filled, hslot, rfl⟩, ?_⟩
  rw [fillFrom_congr hback]
  exact h

/-! Slots that keep what a reading accepts. -/

section Readings

variable {α β : Type} {name name' : String} {aliases aliases' : List String} {get : δ → Option α}
  {get' : δ → Option β} {put : α → δ → δ} {put' : β → δ → δ} {reading : Reading α}
  {reading' : Reading β} {origin : Origin} {doc : Doc} {draft draft' : δ}

theorem fill_reading_eq_ok_iff :
    (Slot.reading name aliases get put reading).fill origin doc draft = .ok draft' ↔
      ∃ v, reading origin doc = .ok v ∧ put v draft = draft' :=
  map_eq_ok_iff

theorem filled_of_fill_reading (hget : ∀ v draft, (get (put v draft)).isSome = true)
    (origin : Origin) (doc : Doc) (draft draft' : δ)
    (h : (Slot.reading name aliases get put reading).fill origin doc draft = .ok draft') :
    (Slot.reading name aliases get put reading).filled draft' = true := by
  obtain ⟨v, _, rfl⟩ := fill_reading_eq_ok_iff.mp h
  exact hget v draft

theorem independent_reading (hnames : ∀ key ∈ name :: aliases, key ∉ name' :: aliases')
    (hget : ∀ v draft, get' (put v draft) = get' draft)
    (hput : ∀ v v' draft, put' v' (put v draft) = put v (put' v' draft)) :
    Independent (.reading name aliases get put reading)
      (.reading name' aliases' get' put' reading') where
  names := hnames
  filled h := by
    obtain ⟨v, _, rfl⟩ := fill_reading_eq_ok_iff.mp h
    exact congrArg Option.isSome (hget v _)
  fill h origin' doc' := by
    obtain ⟨v, hv, rfl⟩ := fill_reading_eq_ok_iff.mp h
    simp only [Slot.reading, hv, hput]
    cases reading' origin' doc' <;> rfl

/-- A slot that is given a value is filled with what is read from it. -/
theorem fillFrom_cons_reading {value : Option α} {members : List (String × Json)}
    {rest : List (Slot δ)}
    (h : Json.Gives members (name :: aliases) (reading.Takes origin) value) :
    fillFrom origin members draft (.reading name aliases get put reading :: rest) =
      fillFrom origin members (value.elim draft (put · draft)) rest := by
  have hall : (Slot.reading name aliases get put reading).fillAll origin draft
      (Json.given (name :: aliases) members) = .ok (value.elim draft (put · draft)) := by
    cases value with
    | none =>
      rw [show Json.given (name :: aliases) members = [] from h]
      rfl
    | some a =>
      obtain ⟨v, hv, ha⟩ := h
      rw [hv, fillAll, fill_reading_eq_ok_iff.mpr ⟨a, ha, rfl⟩]
      rfl
  change (Slot.reading name aliases get put reading).fillAll origin draft
    (Json.given (name :: aliases) members) >>= (fillFrom origin members · rest) = _
  rw [hall]
  rfl

/-- A slot that is filled is given what it is filled with. -/
theorem exists_gives_of_fillFrom {members : List (String × Json)} {rest : List (Slot δ)}
    {final : δ} (hone : (Json.given (name :: aliases) members).length ≤ 1)
    (h : fillFrom origin members draft (.reading name aliases get put reading :: rest) =
      .ok final) :
    ∃ value, Json.Gives members (name :: aliases) (reading.Takes origin) value ∧
      fillFrom origin members (value.elim draft (put · draft)) rest = .ok final := by
  have hgives : ∃ value, Json.Gives members (name :: aliases) (reading.Takes origin) value := by
    match hgiven : Json.given (name :: aliases) members with
    | [] => exact ⟨none, hgiven⟩
    | [v] =>
      obtain ⟨_, hfirst, -⟩ := bind_eq_ok_iff.mp h
      change (Slot.reading name aliases get put reading).fillAll origin draft
        (Json.given (name :: aliases) members) = _ at hfirst
      rw [hgiven] at hfirst
      obtain ⟨_, hfill, -⟩ := bind_eq_ok_iff.mp hfirst
      obtain ⟨a, ha, -⟩ := fill_reading_eq_ok_iff.mp hfill
      exact ⟨some a, v, hgiven, ha⟩
    | _ :: _ :: _ =>
      rw [hgiven, List.length_cons, List.length_cons] at hone
      omega
  obtain ⟨value, hgives⟩ := hgives
  rw [fillFrom_cons_reading hgives] at h
  exact ⟨value, hgives, h⟩

end Readings

end Slot

/-! ## Layouts -/

namespace Layout

variable {δ α : Type} {layout : Layout δ α}

/-- The slots are independent of each other, and empty until they are filled. -/
structure Lawful (layout : Layout δ α) : Prop where
  independent : layout.slots.Pairwise fun first second =>
    first.Independent second ∧ second.Independent first
  filled : layout.slots.Forall fun slot => ∀ origin doc draft draft',
    slot.fill origin doc draft = .ok draft' → slot.filled draft' = true
  blank : layout.slots.Forall fun slot => slot.filled layout.blank = false

variable {key : String}

theorem eq_or_mem_of_mem_slots {before after : List (Slot δ)} {slot other : Slot δ}
    (hslots : layout.slots = before ++ slot :: after) (h : other ∈ layout.slots) :
    other = slot ∨ other ∈ before ++ after := by
  rw [hslots] at h
  simpa [or_left_comm] using h

theorem slotOf?_of_forall_not_mem (h : ∀ slot ∈ layout.slots, key ∉ slot.names) :
    layout.slotOf? (.text key) = .ok none := by
  rw [slotOf?, Key.text]
  refine congrArg Except.ok (List.find?_eq_none.mpr fun slot hslot hanswers => ?_)
  exact h slot hslot (Slot.answersTo_iff.mp hanswers)

theorem slotOf?_of_append {before after : List (Slot δ)} {slot : Slot δ}
    (hslots : layout.slots = before ++ slot :: after)
    (hbefore : ∀ other ∈ before, key ∉ other.names) (hmem : key ∈ slot.names) :
    layout.slotOf? (.text key) = .ok (some slot) := by
  rw [slotOf?, Key.text, hslots]
  refine congrArg Except.ok (List.find?_eq_some_iff_append.mpr
    ⟨Slot.answersTo_iff.mpr hmem, before, after, rfl, fun other hother => ?_⟩)
  rw [Bool.not_eq_true', Bool.eq_false_iff, ne_eq, Slot.answersTo_iff]
  exact hbefore other hother

theorem read_ofJson_object {origin : Origin} {members : List (String × Json)} :
    layout.read origin (Doc.ofJson (.object members)) =
      layout.readMembers origin layout.blank (Members.ofJson members) := by
  rw [Doc.ofJson, read]

/-- Members that no slot answers to may be left out. -/
theorem readMembers_filter {p : String × Json → Bool} {origin : Origin} {draft : δ}
    {members : List (String × Json)}
    (h : ∀ member ∈ members, p member = false → ∀ slot ∈ layout.slots, member.1 ∉ slot.names) :
    layout.readMembers origin draft (Members.ofJson (members.filter p)) =
      layout.readMembers origin draft (Members.ofJson members) := by
  induction members generalizing draft with
  | nil => rfl
  | cons member rest ih =>
    obtain ⟨hmember, hrest⟩ := List.forall_mem_cons.mp h
    obtain ⟨key, v⟩ := member
    cases hp : p (key, v) with
    | false =>
      rw [List.filter_cons_of_neg (by simp [hp]), Members.ofJson, readMembers,
        slotOf?_of_forall_not_mem (hmember hp)]
      exact ih hrest
    | true =>
      rw [List.filter_cons_of_pos hp, Members.ofJson, Members.ofJson]
      simp only [readMembers, ih hrest]

namespace Lawful

theorem independent_of_append (hl : layout.Lawful) {before after : List (Slot δ)} {slot : Slot δ}
    (hslots : layout.slots = before ++ slot :: after) :
    ∀ other ∈ before ++ after, slot.Independent other ∧ other.Independent slot := by
  have hpairs := hl.independent
  rw [hslots, List.pairwise_append, List.pairwise_cons] at hpairs
  obtain ⟨-, ⟨hafter, -⟩, hbefore⟩ := hpairs
  exact List.forall_mem_append.mpr
    ⟨fun other hother => (hbefore other hother slot List.mem_cons_self).symm, hafter⟩

/-- A key names no slot, or one that stands between slots that do not answer to it. -/
theorem slotOf?_cases (hl : layout.Lawful) (key : String) :
    (layout.slotOf? (.text key) = .ok none ∧ ∀ slot ∈ layout.slots, key ∉ slot.names) ∨
      ∃ (before : List (Slot δ)) (slot : Slot δ) (after : List (Slot δ)),
        layout.slots = before ++ slot :: after ∧ layout.slotOf? (.text key) = .ok (some slot) ∧
        key ∈ slot.names ∧ (∀ other ∈ before, other.Independent slot) ∧
        ∀ other ∈ before ++ after, slot.Independent other := by
  by_cases hkey : ∃ slot ∈ layout.slots, key ∈ slot.names
  · obtain ⟨slot, hslot, hmem⟩ := hkey
    obtain ⟨before, after, hslots⟩ := List.append_of_mem hslot
    have hothers := hl.independent_of_append hslots
    have hbefore := (List.forall_mem_append.mp hothers).1
    have hnames : ∀ other ∈ before, key ∉ other.names :=
      fun other hother => (hbefore other hother).1.names key hmem
    exact .inr ⟨before, slot, after, hslots, slotOf?_of_append hslots hnames hmem, hmem,
      fun other hother => (hbefore other hother).2, fun other hother => (hothers other hother).1⟩
  · have hnone : ∀ slot ∈ layout.slots, key ∉ slot.names :=
      fun slot hslot hmem => hkey ⟨slot, hslot, hmem⟩
    exact .inl ⟨slotOf?_of_forall_not_mem hnone, hnone⟩

/-- An object that gives each slot at most one value, and none to a filled one, is read as if the
slots were filled one after the other. -/
theorem readMembers_ofJson (hl : layout.Lawful) {origin : Origin}
    {members : List (String × Json)} {draft final : δ} {v : α}
    (hone : ∀ slot ∈ layout.slots, (Json.given slot.names members).length ≤ 1)
    (hempty : ∀ slot ∈ layout.slots, Json.given slot.names members ≠ [] → slot.filled draft = false)
    (hfill : Slot.fillFrom origin members draft layout.slots = .ok final)
    (hfinish : layout.finish final = .ok v) :
    layout.readMembers origin draft (Members.ofJson members) = .ok v := by
  -- the draft holds what the members before gave, so a slot it has filled must get nothing more
  induction members generalizing draft with
  | nil =>
    rw [Slot.fillFrom_nil] at hfill
    cases hfill
    rw [Members.ofJson, readMembers, hfinish]
  | cons member rest ih =>
    obtain ⟨key, value⟩ := member
    rw [Members.ofJson, readMembers]
    rcases hl.slotOf?_cases key with
      ⟨hslotOf, hnone⟩ | ⟨before, slot, after, hslots, hslotOf, hmem, hbefore, hothers⟩
    · have hgiven : ∀ slot ∈ layout.slots,
          Json.given slot.names ((key, value) :: rest) = Json.given slot.names rest :=
        fun slot hslot => Json.given_cons_of_not_mem (hnone slot hslot)
      rw [hslotOf]
      refine ih (fun slot hslot => hgiven slot hslot ▸ hone slot hslot)
        (fun slot hslot => hgiven slot hslot ▸ hempty slot hslot) ?_
      rw [← Slot.fillFrom_congr hgiven]
      exact hfill
    · have hslot : slot ∈ layout.slots := hslots ▸ List.mem_append_right _ List.mem_cons_self
      have hnames : ∀ other ∈ before ++ after, key ∉ other.names :=
        fun other hother => (hothers other hother).names key hmem
      have hfirst : Json.given slot.names ((key, value) :: rest) =
          value :: Json.given slot.names rest := Json.given_cons_of_mem hmem
      have hrest : Json.given slot.names rest = [] := by
        have hlength := hone slot hslot
        rw [hfirst, List.length_cons] at hlength
        exact List.length_eq_zero_iff.mp (by omega)
      have hunfilled : slot.filled draft = false :=
        hempty slot hslot (hfirst ▸ List.cons_ne_nil _ _)
      rw [hslots] at hfill
      obtain ⟨draft', hvalue, hfill⟩ :=
        Slot.exists_fill_of_fillFrom hmem hrest hbefore hnames hfill
      simp only [hslotOf, hunfilled, hvalue]
      -- what the rest gives: nothing more to this slot, and to the others what was given to them
      refine ih (fun other hother => ?_) (fun other hother hne => ?_) (hslots ▸ hfill)
      · rcases eq_or_mem_of_mem_slots hslots hother with rfl | hmem
        · simp [hrest]
        · have hlength := hone other hother
          rwa [Json.given_cons_of_not_mem (hnames other hmem)] at hlength
      · rcases eq_or_mem_of_mem_slots hslots hother with rfl | hmem
        · exact absurd hrest hne
        · rw [(hothers other hmem).filled hvalue]
          refine hempty other hother ?_
          rwa [Json.given_cons_of_not_mem (hnames other hmem)]

theorem read_of_fillFrom (hl : layout.Lawful) {origin : Origin}
    {members : List (String × Json)} {final : δ} {v : α}
    (hone : layout.slots.Forall fun slot => (Json.given slot.names members).length ≤ 1)
    (hfill : Slot.fillFrom origin members layout.blank layout.slots = .ok final)
    (hfinish : layout.finish final = .ok v) : layout.read.Takes origin v (.object members) := by
  have hblank := List.forall_iff_forall_mem.mp hl.blank
  rw [Reading.Takes, read_ofJson_object]
  exact hl.readMembers_ofJson (List.forall_iff_forall_mem.mp hone)
    (fun slot hslot _ => hblank slot hslot) hfill hfinish

/-- An object that can be read gives each slot at most one value, and none to a filled one; each
value could be filled in. -/
theorem given_of_readMembers (hl : layout.Lawful) {origin : Origin}
    {members : List (String × Json)} {draft : δ} {v : α}
    (h : layout.readMembers origin draft (Members.ofJson members) = .ok v) {slot : Slot δ}
    (hslot : slot ∈ layout.slots) :
    (Json.given slot.names members).length ≤ 1 ∧
      (slot.filled draft = true → Json.given slot.names members = []) ∧
      ∀ w ∈ Json.given slot.names members, ∃ before after,
        slot.fill origin (Doc.ofJson w) before = .ok after := by
  induction members generalizing draft with
  | nil => simp
  | cons member rest ih =>
    obtain ⟨key, value⟩ := member
    rw [Members.ofJson, readMembers] at h
    rcases hl.slotOf?_cases key with
      ⟨hslotOf, hnone⟩ | ⟨before, named, after, hslots, hslotOf, hmem, -, hothers⟩
    · rw [hslotOf] at h
      rw [Json.given_cons_of_not_mem (hnone slot hslot)]
      exact ih h
    · simp only [hslotOf] at h
      split at h
      · cases h
      next hunfilled =>
        split at h
        · cases h
        next draft' hfill =>
          obtain ⟨hlength, hfilled, hfills⟩ := ih h
          rcases eq_or_mem_of_mem_slots hslots hslot with rfl | hother
          · have hmarked := List.forall_iff_forall_mem.mp hl.filled slot hslot _ _ _ _ hfill
            have hrest : Json.given slot.names rest = [] := hfilled hmarked
            rw [Json.given_cons_of_mem hmem, hrest]
            refine ⟨Nat.le_refl 1, fun hnot => absurd hnot hunfilled, fun w hw => ?_⟩
            rw [List.mem_singleton.mp hw]
            exact ⟨draft, draft', hfill⟩
          · have hother := hothers slot hother
            rw [Json.given_cons_of_not_mem (hother.names key hmem)]
            exact ⟨hlength, hother.filled hfill ▸ hfilled, hfills⟩

/-- An object that is read fills the slots one after the other. -/
theorem exists_fillFrom_of_readMembers (hl : layout.Lawful) {origin : Origin}
    {members : List (String × Json)} {draft : δ} {v : α}
    (h : layout.readMembers origin draft (Members.ofJson members) = .ok v) :
    ∃ final, Slot.fillFrom origin members draft layout.slots = .ok final ∧
      layout.finish final = .ok v := by
  induction members generalizing draft with
  | nil =>
    rw [Members.ofJson, readMembers] at h
    refine ⟨draft, Slot.fillFrom_nil, ?_⟩
    split at h <;> cases h
    assumption
  | cons member rest ih =>
    obtain ⟨key, value⟩ := member
    rw [Members.ofJson, readMembers] at h
    rcases hl.slotOf?_cases key with
      ⟨hslotOf, hnone⟩ | ⟨before, slot, after, hslots, hslotOf, hmem, -, hothers⟩
    · rw [hslotOf] at h
      obtain ⟨final, hfill, hfinish⟩ := ih h
      refine ⟨final, ?_, hfinish⟩
      rw [← hfill]
      exact Slot.fillFrom_congr fun other hother => Json.given_cons_of_not_mem (hnone other hother)
    · simp only [hslotOf] at h
      split at h
      · cases h
      split at h
      · cases h
      next draft' hfill =>
        have hslot : slot ∈ layout.slots := hslots ▸ List.mem_append_right _ List.mem_cons_self
        have hmarked := List.forall_iff_forall_mem.mp hl.filled slot hslot _ _ _ _ hfill
        have hrest : Json.given slot.names rest = [] :=
          (hl.given_of_readMembers h hslot).2.1 hmarked
        obtain ⟨final, hfinal, hfinish⟩ := ih h
        rw [hslots] at hfinal ⊢
        exact ⟨final, Slot.fillFrom_of_fill hmem hrest hothers hfill hfinal, hfinish⟩

/-- The objects that are read are those that give each slot at most one value, and whose values fill
a draft from which a structure can be made. -/
theorem takes_object_iff (hl : layout.Lawful) {origin : Origin} {members : List (String × Json)}
    {v : α} : layout.read.Takes origin v (.object members) ↔
      (∀ slot ∈ layout.slots, (Json.given slot.names members).length ≤ 1) ∧
      ∃ final, Slot.fillFrom origin members layout.blank layout.slots = .ok final ∧
        layout.finish final = .ok v := by
  constructor
  · intro h
    rw [Reading.Takes, read_ofJson_object] at h
    exact ⟨fun slot hslot => (hl.given_of_readMembers h hslot).1,
      hl.exists_fillFrom_of_readMembers h⟩
  · rintro ⟨hone, final, hfill, hfinish⟩
    exact hl.read_of_fillFrom (List.forall_iff_forall_mem.mpr hone) hfill hfinish

/-- An object that gives a slot under two names at once is not read. -/
theorem not_takes_of_two_names (hl : layout.Lawful) {slot : Slot δ} (hslot : slot ∈ layout.slots)
    {first second : String} (hnames : slot.names = [first, second]) (hne : first ≠ second)
    {members : List (String × Json)} (hfirst : first ∈ members.map (·.1))
    (hsecond : second ∈ members.map (·.1)) {origin : Origin} {v : α} :
    ¬layout.read.Takes origin v (.object members) := by
  intro h
  rw [Reading.Takes, read_ofJson_object] at h
  have hone := (hl.given_of_readMembers h hslot).1
  have htwo := Json.two_le_length_given hne hfirst hsecond
  rw [hnames] at hone
  omega

/-- In an object that is read each field is read. -/
theorem exists_takes_of_mem (hl : layout.Lawful) {β : Type} {name key : String}
    {aliases : List String} {get : δ → Option β} {put : β → δ → δ} {reading : Reading β}
    (hslot : .reading name aliases get put reading ∈ layout.slots) (hkey : key ∈ name :: aliases)
    {members : List (String × Json)} {w : Json} (hmem : (key, w) ∈ members) {origin : Origin}
    {v : α} (h : layout.read.Takes origin v (.object members)) : ∃ b, reading.Takes origin b w := by
  rw [Reading.Takes, read_ofJson_object] at h
  obtain ⟨_, _, hfill⟩ := (hl.given_of_readMembers h hslot).2.2 w (Json.mem_given hkey hmem)
  obtain ⟨b, hb, _⟩ := Slot.fill_reading_eq_ok_iff.mp hfill
  exact ⟨b, hb⟩

end Lawful

end Layout

/-! ## What readings yield -/

namespace Reading

variable {α β : Type} {reading : Reading α} {P : α → Prop}

/-- Every value that a reading accepts has a property. -/
def Yields (reading : Reading α) (P : α → Prop) : Prop :=
  ∀ origin doc v, reading origin doc = .ok v → P v

theorem yields_map {f : α → β} {P : β → Prop} (h : ∀ v, P (f v)) : (reading.map f).Yields P := by
  intro origin doc w hw
  obtain ⟨v, _, rfl⟩ := map_eq_ok_iff.mp hw
  exact h v

/-- Nothing is asked of what is read. -/
theorem yields_true : reading.Yields fun _ => True := fun _ _ _ _ => trivial

theorem Yields.optional (h : reading.Yields P) :
    reading.optional.Yields fun value => ∀ v ∈ value, P v := by
  intro origin doc value hvalue v hv
  unfold Reading.optional at hvalue
  split at hvalue
  · cases hvalue
    cases hv
  · obtain ⟨w, hw, rfl⟩ := map_eq_ok_iff.mp hvalue
    cases hv
    exact h _ _ _ hw

theorem Yields.items (h : reading.Yields P) {origin : Origin} {index : Nat} {parts : Items}
    {vs : List α} (hvs : Reading.items reading origin index parts = .ok vs) : ∀ v ∈ vs, P v := by
  fun_induction Reading.items reading origin index parts generalizing vs with
  | case1 =>
    cases hvs
    exact nofun
  | case2 | case3 | case4 => cases hvs
  | case5 _ _ doc _ rest v hv vs' hvs' ih =>
    cases hvs
    exact List.forall_mem_cons.mpr ⟨h _ _ v hv, ih hvs'⟩

theorem Yields.list (h : reading.Yields P) : reading.list.Yields fun vs => ∀ v ∈ vs, P v := by
  intro origin doc vs hvs
  unfold Reading.list at hvs
  split at hvs
  · exact h.items hvs
  · cases hvs

theorem Yields.oneOrMany {type : String} (h : reading.Yields P) :
    (reading.oneOrMany type).Yields fun vs => ∀ v ∈ vs, P v := by
  intro origin doc vs hvs
  unfold Reading.oneOrMany at hvs
  split at hvs
  · cases hvs
  · split at hvs
    next v hv =>
      cases hvs
      exact List.forall_mem_singleton.mpr (h _ _ v hv)
    · split at hvs
      next vs' hvs' =>
        cases hvs
        exact h.list _ _ _ hvs'
      · cases hvs

end Reading

/-- Filling the slot keeps a property of drafts. -/
def Slot.Keeps {δ : Type} (slot : Slot δ) (P : δ → Prop) : Prop :=
  ∀ {origin doc draft draft'}, slot.fill origin doc draft = .ok draft' → P draft → P draft'

theorem Slot.keeps_reading {δ α : Type} {name : String} {aliases : List String} {get : δ → Option α}
    {put : α → δ → δ} {reading : Reading α} {P : α → Prop} {Q : δ → Prop} (h : reading.Yields P)
    (hput : ∀ v draft, P v → Q draft → Q (put v draft)) :
    (Slot.reading name aliases get put reading).Keeps Q := by
  intro origin doc draft draft' hfill hdraft
  obtain ⟨v, hv, rfl⟩ := Slot.fill_reading_eq_ok_iff.mp hfill
  exact hput v draft (h _ _ v hv) hdraft

namespace Layout

variable {δ α : Type} {layout : Layout δ α} {P : δ → Prop} {Q : α → Prop}

theorem slotOf?_mem {key : Key} {slot : Slot δ} (h : layout.slotOf? key = .ok (some slot)) :
    slot ∈ layout.slots := by
  unfold slotOf? at h
  split at h
  · exact List.mem_of_find?_eq_some (Except.ok.inj h)
  · exact List.mem_of_getElem? (Except.ok.inj h)
  · cases h

theorem eq_of_readEnd {origin : Origin} {v w : α} {parts : Items}
    (h : layout.readEnd origin v parts = .ok w) : v = w := by
  unfold readEnd at h
  split at h
  · exact Except.ok.inj h
  · cases h
  · split at h <;> cases h

section Yields

variable (hslots : ∀ slot ∈ layout.slots, slot.Keeps P)
  (hfinish : ∀ draft v, P draft → layout.finish draft = .ok v → Q v)

include hslots hfinish

/-- What holds of the empty draft and is kept by every slot holds when a structure is finished. -/
theorem yields_readMembers {origin : Origin} {draft : δ} {members : Members} {v : α}
    (hdraft : P draft) (h : layout.readMembers origin draft members = .ok v) : Q v := by
  fun_induction layout.readMembers origin draft members with
  | case1 draft _ w hw =>
    cases h
    exact hfinish draft _ hdraft hw
  | case11 _ _ _ _ _ _ _ ih => exact ih hdraft h
  | case14 _ _ _ _ _ _ _ slot hslot _ _ hfill ih =>
    exact ih (hslots slot (slotOf?_mem hslot) hfill hdraft) h
  | case2 | case3 | case4 | case5 | case6 | case7 | case8 | case9 | case10 | case12 | case13 =>
    cases h

theorem yields_readItems {origin : Origin} {index : Nat} {draft : δ} {slots : List (Slot δ)}
    {parts : Items} {v : α} (hsub : ∀ slot ∈ slots, slot ∈ layout.slots)
    (hdraft : P draft) (h : layout.readItems origin index draft slots parts = .ok v) : Q v := by
  fun_induction layout.readItems origin index draft slots parts with
  | case1 _ draft _ w hw =>
    rw [← eq_of_readEnd h]
    exact hfinish draft w hdraft hw
  | case3 _ draft _ _ _ w hw =>
    cases h
    exact hfinish draft _ hdraft hw
  | case7 _ _ slot _ _ _ _ _ _ hfill ih =>
    obtain ⟨hslot, hrest⟩ := List.forall_mem_cons.mp hsub
    exact ih hrest (hslots slot hslot hfill hdraft) h
  | case2 | case4 | case5 | case6 => cases h

theorem yields_read (hblank : P layout.blank) : layout.read.Yields Q := by
  intro origin doc v h
  unfold read at h
  split at h
  · exact yields_readMembers hslots hfinish hblank h
  · exact yields_readItems hslots hfinish (fun _ => id) hblank h
  · cases h

end Yields

end Layout

end Verdict
