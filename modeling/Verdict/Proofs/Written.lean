import Mathlib.Data.List.Forall2
import Verdict.Proofs.Spelling

/-!
# What a document writes

A document without flaws writes a value (`Doc.written?`). Where its parts stand and where it comes
from is told in faults and nowhere else, so such a document is read like the value that it writes
(`Reading.Placeless`). This holds of every reading of trees and records, and with it a part of a
text is read like a text of its own.
-/

namespace Verdict

/-! ## Results that are alike -/

/-- Both have one value, or both fail. -/
inductive Alike {ε ε' α : Type} : Except ε α → Except ε' α → Prop
  | ok (a : α) : Alike (.ok a) (.ok a)
  | error (e : ε) (e' : ε') : Alike (.error e) (.error e')

namespace Alike

variable {ε ε' α β : Type} {x : Except ε α} {y : Except ε' α} {a : α}

theorem of_eq (hx : x = .ok a) (hy : y = .ok a) : Alike x y := by
  rw [hx, hy]
  exact .ok a

/-- Two failures are alike whatever they are. -/
theorem of_eq_ok_iff (h : ∀ a, x = .ok a ↔ y = .ok a) : Alike x y := by
  cases x with
  | ok a => exact .of_eq rfl ((h a).mp rfl)
  | error e =>
    cases y with
    | ok a => cases (h a).mpr rfl
    | error e' => exact .error e e'

theorem eq_ok_or (h : Alike x y) :
    (∃ a, x = .ok a ∧ y = .ok a) ∨ ∃ e e', x = .error e ∧ y = .error e' := by
  cases h with
  | ok a => exact .inl ⟨a, rfl, rfl⟩
  | error e e' => exact .inr ⟨e, e', rfl, rfl⟩

theorem eq_ok_iff (h : Alike x y) : x = .ok a ↔ y = .ok a := by
  cases h with
  | ok b => simp
  | error e e' => simp

theorem symm (h : Alike x y) : Alike y x := by
  cases h with
  | ok a => exact .ok a
  | error e e' => exact .error e' e

theorem trans {ε'' : Type} {z : Except ε'' α} (h : Alike x y) (h' : Alike y z) : Alike x z := by
  cases h with
  | ok a => exact .of_eq rfl (h'.eq_ok_iff.mp rfl)
  | error e e' =>
    cases h' with
    | error _ e'' => exact .error e e''

theorem map (h : Alike x y) (f : α → β) : Alike (x.map f) (y.map f) := by
  cases h with
  | ok a => exact .ok (f a)
  | error e e' => exact .error e e'

end Alike

/-! ## The value that is written -/

mutual

/-- The value that a document writes, with all members in their order. A flaw writes nothing, and
neither does anything that is not JSON. -/
def Doc.written? : Doc → Option Json
  | .null _ => some .null
  | .bool b _ => some (.bool b)
  | .number n _ => some (.number n)
  | .string s _ => some (.string s)
  | .array _ items => items.written?.map .array
  | .map _ members => members.written?.map .object
  | .nonFinite .. | .refused .. | .flawed _ => none

def Items.written? : Items → Option (List Json)
  | .closed _ => some []
  | .flawed _ => none
  | .item _ doc _ rest =>
    match doc.written?, rest.written? with
    | some v, some vs => some (v :: vs)
    | _, _ => none

def Members.written? : Members → Option (List (String × Json))
  | .closed _ => some []
  | .member key _ doc _ none rest =>
    match key.content, doc.written?, rest.written? with
    | .string k, some v, some members => some ((k, v) :: members)
    | _, _, _ => none
  | _ => none

end

theorem Items.written?_item {start settled : Nat} {doc : Doc} {rest : Items} {v : Json}
    {vs : List Json} (hdoc : doc.written? = some v) (hrest : rest.written? = some vs) :
    (Items.item start doc settled rest).written? = some (v :: vs) := by
  rw [Items.written?, hdoc, hrest]

/-- What writes no items ends at once. -/
theorem Items.eq_closed_of_written {items : Items} (h : items.written? = some []) :
    ∃ stop, items = .closed stop := by
  cases items with
  | closed stop => exact ⟨stop, rfl⟩
  | flawed flaw => cases h
  | item start doc settled rest =>
    rw [written?] at h
    split at h <;> cases h

/-- What writes some items begins with a document that writes the first of them. -/
theorem Items.eq_item_of_written {items : Items} {v : Json} {vs : List Json}
    (h : items.written? = some (v :: vs)) :
    ∃ start doc settled rest, items = .item start doc settled rest ∧
      doc.written? = some v ∧ rest.written? = some vs := by
  cases items with
  | closed stop => cases h
  | flawed flaw => cases h
  | item start doc settled rest =>
    rw [written?] at h
    split at h
    next v' vs' hdoc hrest =>
      cases h
      exact ⟨start, doc, settled, rest, rfl, hdoc, hrest⟩
    next => cases h

theorem Members.eq_closed_of_written {members : Members} (h : members.written? = some []) :
    ∃ stop, members = .closed stop := by
  cases members with
  | closed stop => exact ⟨stop, rfl⟩
  | flawed | refused | cut => cases h
  | member key keySettled doc settled skim rest =>
    cases skim with
    | some flaw => cases h
    | none =>
      rw [written?] at h
      split at h <;> cases h

/-- What writes some members begins with the key of the first and a document that writes its value;
nothing is skimmed over. -/
theorem Members.eq_member_of_written {members : Members} {key : String} {v : Json}
    {ms : List (String × Json)} (h : members.written? = some ((key, v) :: ms)) :
    ∃ step keySettled doc settled rest,
      members = .member ⟨.string key, step⟩ keySettled doc settled none rest ∧
      doc.written? = some v ∧ rest.written? = some ms := by
  cases members with
  | closed | flawed | refused | cut => cases h
  | member key keySettled doc settled skim rest =>
    cases skim with
    | some flaw => cases h
    | none =>
      rw [written?] at h
      split at h
      next k v' ms' hkey hdoc hrest =>
        cases h
        obtain ⟨content, step⟩ := key
        cases hkey
        exact ⟨step, keySettled, doc, settled, rest, rfl, hdoc, hrest⟩
      next => cases h

/-- The kinds of documents that write a value. -/
inductive Doc.Writes : Doc → Json → Prop
  | null (stop : Nat) : Writes (.null stop) .null
  | bool (b : Bool) (stop : Nat) : Writes (.bool b stop) (.bool b)
  | number (n : Number) (stop : Nat) : Writes (.number n stop) (.number n)
  | string (s : String) (stop : Nat) : Writes (.string s stop) (.string s)
  | array (start : Nat) {items : Items} {vs : List Json} (hitems : items.written? = some vs) :
    Writes (.array start items) (.array vs)
  | map (start : Nat) {members : Members} {ms : List (String × Json)}
    (hmembers : members.written? = some ms) : Writes (.map start members) (.object ms)

theorem Doc.writes_of_written {doc : Doc} {v : Json} (h : doc.written? = some v) :
    doc.Writes v := by
  cases doc with
  | null stop => cases h; exact .null stop
  | bool b stop => cases h; exact .bool b stop
  | number n stop => cases h; exact .number n stop
  | string s stop => cases h; exact .string s stop
  | array start items =>
    obtain ⟨vs, hitems, rfl⟩ := Option.map_eq_some_iff.mp h
    exact .array start hitems
  | map start members =>
    obtain ⟨ms, hmembers, rfl⟩ := Option.map_eq_some_iff.mp h
    exact .map start hmembers
  | nonFinite | refused | flawed => cases h

/-! ## Whole values -/

mutual

/-- A value as a document writes itself. -/
theorem Doc.written?_ofJson : (v : Json) → (Doc.ofJson v).written? = some v
  | .null | .bool _ | .number _ | .string _ => by simp only [Doc.ofJson, Doc.written?]
  | .array items => by rw [Doc.ofJson, Doc.written?, Items.written?_ofJson items]; rfl
  | .object members => by rw [Doc.ofJson, Doc.written?, Members.written?_ofJson members]; rfl

theorem Items.written?_ofJson : (items : List Json) → (Items.ofJson items).written? = some items
  | [] => by rw [Items.ofJson, Items.written?]
  | v :: rest => by
    rw [Items.ofJson, Items.written?, Doc.written?_ofJson v, Items.written?_ofJson rest]

theorem Members.written?_ofJson :
    (members : List (String × Json)) → (Members.ofJson members).written? = some members
  | [] => by rw [Members.ofJson, Members.written?]
  | (k, v) :: rest => by
    rw [Members.ofJson, Members.written?, Doc.written?_ofJson v, Members.written?_ofJson rest]
    rfl

end

mutual

/-- Of a document the canonical form of what it writes is kept. -/
theorem Doc.toJson_of_written (origin : Origin) :
    (doc : Doc) → {v : Json} → doc.written? = some v → doc.toJson origin = .ok v.canonical
  | .null _, _, h | .bool .., _, h | .number .., _, h | .string .., _, h => by
    cases h
    rw [Doc.toJson]
    rfl
  | .array _ items, _, h => by
    obtain ⟨vs, hitems, rfl⟩ := Option.map_eq_some_iff.mp h
    rw [Doc.toJson, Items.toJson_of_written origin 0 items hitems]
    rfl
  | .map _ members, _, h => by
    obtain ⟨ms, hmembers, rfl⟩ := Option.map_eq_some_iff.mp h
    rw [Doc.toJson, Members.toRecord_of_written origin _ [] members hmembers]
    rfl
  | .nonFinite .., _, h | .refused .., _, h | .flawed _, _, h => by cases h

theorem Items.toJson_of_written (origin : Origin) (index : Nat) :
    (items : Items) → {vs : List Json} → items.written? = some vs →
      items.toJson origin index = .ok (Json.canonicalItems vs)
  | .closed _, _, h => by
    cases h
    rw [Items.toJson]
    rfl
  | .flawed _, _, h => by cases h
  | .item _ doc _ rest, [], h => by
    obtain ⟨stop, hnot⟩ := Items.eq_closed_of_written h
    cases hnot
  | .item _ doc _ rest, v :: vs, h => by
    obtain ⟨_, _, _, _, heq, hdoc, hrest⟩ := Items.eq_item_of_written h
    cases heq
    rw [Items.toJson, Doc.toJson_of_written origin doc hdoc,
      Items.toJson_of_written origin (index + 1) rest hrest]
    rfl

theorem Members.toRecord_of_written (origin : Origin) (expected : String) (record : Record) :
    (members : Members) → {ms : List (String × Json)} → members.written? = some ms →
      members.toRecord origin expected record = .ok (Json.canonicalMembers record ms)
  | .closed _, _, h => by
    cases h
    rw [Members.toRecord]
    rfl
  | .flawed _, _, h | .refused _, _, h | .cut .., _, h => by cases h
  | .member _ _ doc _ _ rest, [], h => by
    obtain ⟨stop, hnot⟩ := Members.eq_closed_of_written h
    cases hnot
  | .member _ _ doc _ _ rest, (key, v) :: ms, h => by
    obtain ⟨_, _, _, _, _, heq, hdoc, hrest⟩ := Members.eq_member_of_written h
    cases heq
    rw [Members.toRecord, Doc.toJson_of_written origin doc hdoc, Json.canonicalMembers]
    exact Members.toRecord_of_written origin _ _ rest hrest

end

mutual

/-- What writes a value can be set aside. -/
theorem Doc.sound_of_written : (doc : Doc) → {v : Json} → doc.written? = some v → doc.sound = .ok ()
  | .null _, _, _ | .bool .., _, _ | .number .., _, _ | .string .., _, _ => by
    simp only [Doc.sound]
  | .array _ items, _, h => by
    obtain ⟨vs, hitems, rfl⟩ := Option.map_eq_some_iff.mp h
    rw [Doc.sound, Items.sound_of_written 0 items hitems]
  | .map _ members, _, h => by
    obtain ⟨ms, hmembers, rfl⟩ := Option.map_eq_some_iff.mp h
    rw [Doc.sound, Members.sound_of_written members hmembers]
  | .nonFinite .., _, h | .refused .., _, h | .flawed _, _, h => by cases h

theorem Items.sound_of_written (index : Nat) :
    (items : Items) → {vs : List Json} → items.written? = some vs → items.sound index = .ok ()
  | .closed _, _, _ => by rw [Items.sound]
  | .flawed _, _, h => by cases h
  | .item _ doc _ rest, [], h => by
    obtain ⟨stop, hnot⟩ := Items.eq_closed_of_written h
    cases hnot
  | .item _ doc _ rest, v :: vs, h => by
    obtain ⟨_, _, _, _, heq, hdoc, hrest⟩ := Items.eq_item_of_written h
    cases heq
    rw [Items.sound, Doc.sound_of_written doc hdoc]
    exact Items.sound_of_written (index + 1) rest hrest

theorem Members.sound_of_written :
    (members : Members) → {ms : List (String × Json)} → members.written? = some ms →
      members.sound = .ok ()
  | .closed _, _, _ => by rw [Members.sound]
  | .flawed _, _, h | .refused _, _, h | .cut .., _, h => by cases h
  | .member _ _ doc _ _ rest, [], h => by
    obtain ⟨stop, hnot⟩ := Members.eq_closed_of_written h
    cases hnot
  | .member _ _ doc _ _ rest, (key, v) :: ms, h => by
    obtain ⟨_, _, _, _, _, heq, hdoc, hrest⟩ := Members.eq_member_of_written h
    cases heq
    rw [Members.sound, Doc.sound_of_written doc hdoc]
    exact Members.sound_of_written rest hrest

end

/-! ## Readings that do not look at places -/

/-- The reading takes a document to what it takes the value that is written there. -/
def Reading.Placeless {α : Type} (reading : Reading α) : Prop :=
  ∀ origin doc v, doc.written? = some v →
    Alike (reading origin doc) (reading .value (Doc.ofJson v))

namespace Reading

variable {α β : Type} {reading : Reading α}

/-- What is read in one place is read wherever the same value is written. -/
theorem Placeless.eq_ok (h : reading.Placeless) {origin origin' : Origin} {doc doc' : Doc}
    {v : Json} (hdoc : doc.written? = some v) (hdoc' : doc'.written? = some v) {a : α}
    (ha : reading origin doc = .ok a) : reading origin' doc' = .ok a :=
  (h origin' doc' v hdoc').eq_ok_iff.mpr ((h origin doc v hdoc).eq_ok_iff.mp ha)

/-- Two readings of one value may come from anywhere. -/
theorem Placeless.between (h : reading.Placeless) {origin origin' : Origin} {doc : Doc} {v : Json}
    (hdoc : doc.written? = some v) :
    Alike (reading origin doc) (reading origin' (Doc.ofJson v)) :=
  (h origin doc v hdoc).trans (h origin' _ v (Doc.written?_ofJson v)).symm

theorem json_placeless : json.Placeless := fun origin doc v h =>
  .of_eq (doc.toJson_of_written origin h) (Doc.toJson_ofJson .value v)

theorem record_placeless : record.Placeless := by
  intro origin doc v h
  cases doc.writes_of_written h with
  | map start hmembers =>
    rw [Doc.ofJson]
    exact .of_eq (Members.toRecord_of_written origin _ [] _ hmembers)
      (Members.toRecord_ofJson .value _ [] _)
  | _ => exact .error ..

theorem text_placeless : text.Placeless := by
  intro origin doc v h
  cases doc.writes_of_written h with
  | string s stop => exact .ok s
  | _ => exact .error ..

theorem flag_placeless : flag.Placeless := by
  intro origin doc v h
  cases doc.writes_of_written h with
  | bool b stop => exact .ok b
  | _ => exact .error ..

/-- A number is no count if it is negative, too large or has a fraction, which its value tells. -/
theorem count_placeless : count.Placeless := by
  intro origin doc v h
  cases doc.writes_of_written h with
  | number n stop =>
    rw [Doc.ofJson]
    cases n with
    | integer n =>
      simp only [count]
      split
      · exact .ok _
      · exact .error ..
    | real x => exact .error ..
  | _ => exact .error ..

theorem Placeless.map (h : reading.Placeless) (f : α → β) : (reading.map f).Placeless :=
  fun origin doc v hdoc => (h origin doc v hdoc).map f

/-- What is absent is written as null, wherever it stands. -/
theorem Placeless.optional (h : reading.Placeless) : reading.optional.Placeless := by
  intro origin doc v hdoc
  have hmap := (h origin doc v hdoc).map some
  cases doc.writes_of_written hdoc with
  | null stop => exact .ok none
  | _ => exact hmap

/-- Items are read up to the first that cannot be read, and it is the same one in both places. -/
theorem Placeless.items (h : reading.Placeless) {origin : Origin} {index : Nat} {parts : Items}
    {vs : List Json} (hparts : parts.written? = some vs) :
    Alike (items reading origin index parts) (items reading .value index (Items.ofJson vs)) := by
  induction vs generalizing parts index with
  | nil =>
    obtain ⟨stop, rfl⟩ := parts.eq_closed_of_written hparts
    exact .ok []
  | cons v vs ih =>
    obtain ⟨_, doc, _, rest, rfl, hdoc, hrest⟩ := parts.eq_item_of_written hparts
    have hfirst := h origin doc v hdoc
    have hothers := @ih (index + 1) rest hrest
    rw [Items.ofJson, Reading.items, Reading.items]
    rcases hfirst.eq_ok_or with ⟨a, hx, hy⟩ | ⟨e, e', hx, hy⟩
    · rcases hothers.eq_ok_or with ⟨as, hxs, hys⟩ | ⟨e, e', hxs, hys⟩
      · simp only [hx, hy, hxs, hys]
        exact .ok (a :: as)
      · simp only [hx, hy, hxs, hys]
        exact .error ..
    · simp only [hx, hy]
      exact .error ..

theorem Placeless.list (h : reading.Placeless) : reading.list.Placeless := by
  intro origin doc v hdoc
  cases doc.writes_of_written hdoc with
  | array start hitems => exact h.items hitems
  | _ => exact .error ..

/-- A document without flaws can be set aside, and is then tried as one item and as a list. -/
theorem Placeless.oneOrMany (h : reading.Placeless) (type : String) :
    (reading.oneOrMany type).Placeless := by
  intro origin doc v hdoc
  have hone : Alike (reading .buffer doc) (reading .buffer (Doc.ofJson v)) := h.between hdoc
  have hmany : Alike (reading.list .buffer doc) (reading.list .buffer (Doc.ofJson v)) :=
    h.list.between hdoc
  simp only [Reading.oneOrMany, doc.sound_of_written hdoc, Doc.sound_ofJson]
  rcases hone.eq_ok_or with ⟨a, hx, hy⟩ | ⟨e, e', hx, hy⟩
  · simp only [hx, hy]
    exact .ok [a]
  · rcases hmany.eq_ok_or with ⟨as, hxs, hys⟩ | ⟨e, e', hxs, hys⟩
    · simp only [hx, hy, hxs, hys]
      exact .ok as
    · simp only [hx, hy, hxs, hys]
      exact .error ..

end Reading

/-- Whether a slot can be filled, and with what, does not depend on places. -/
def Slot.Placeless {δ : Type} (slot : Slot δ) : Prop :=
  ∀ origin doc v draft, doc.written? = some v →
    Alike (slot.fill origin doc draft) (slot.fill .value (Doc.ofJson v) draft)

/-- A slot puts what it reads into its part of the draft, wherever it was read. -/
theorem Slot.placeless_reading {δ α : Type} {name : String} {aliases : List String}
    {get : δ → Option α} {put : α → δ → δ} {reading : Reading α} (h : reading.Placeless) :
    (Slot.reading name aliases get put reading).Placeless :=
  fun origin doc v draft hdoc => (h origin doc v hdoc).map (put · draft)

namespace Layout

variable {δ α : Type} {layout : Layout δ α} {origin : Origin} {draft : δ}

/-- Members of one name fill one slot wherever they stand, up to the first that cannot. -/
theorem readMembers_alike (hslots : ∀ slot ∈ layout.slots, slot.Placeless) {members : Members}
    {ms : List (String × Json)} (hmembers : members.written? = some ms) :
    Alike (layout.readMembers origin draft members)
      (layout.readMembers .value draft (Members.ofJson ms)) := by
  induction ms generalizing members draft with
  | nil =>
    obtain ⟨stop, rfl⟩ := members.eq_closed_of_written hmembers
    rw [Members.ofJson, readMembers, readMembers]
    cases layout.finish draft <;> constructor
  | cons member ms ih =>
    obtain ⟨key, v⟩ := member
    obtain ⟨step, _, doc, _, rest, rfl, hdoc, hrest⟩ := members.eq_member_of_written hmembers
    have hslotOf : layout.slotOf? ⟨.string key, step⟩ = layout.slotOf? (.text key) := rfl
    rw [Members.ofJson, readMembers, readMembers, hslotOf]
    cases hslot : layout.slotOf? (.text key) with
    | error fault => exact .error ..
    | ok slot? =>
      cases slot? with
      | none => exact ih hrest
      | some slot =>
        have hfill := hslots slot (slotOf?_mem hslot) origin doc v draft hdoc
        simp only
        split
        · exact .error ..
        · rcases hfill.eq_ok_or with ⟨draft', hx, hy⟩ | ⟨e, e', hx, hy⟩
          · simp only [hx, hy]
            exact ih hrest
          · simp only [hx, hy]
            exact .error ..

/-- Items that are left over are refused, whether they are told of or not. -/
theorem readEnd_alike {a : α} {parts : Items} {vs : List Json} (hparts : parts.written? = some vs) :
    Alike (layout.readEnd origin a parts) (layout.readEnd .value a (Items.ofJson vs)) := by
  cases vs with
  | nil =>
    obtain ⟨stop, rfl⟩ := parts.eq_closed_of_written hparts
    exact .ok a
  | cons v vs =>
    obtain ⟨_, doc, _, rest, rfl, -, -⟩ := parts.eq_item_of_written hparts
    rw [Items.ofJson]
    cases origin <;> exact .error ..

theorem readItems_alike {slots : List (Slot δ)} (hslots : ∀ slot ∈ slots, slot.Placeless)
    {index : Nat} {parts : Items} {vs : List Json} (hparts : parts.written? = some vs) :
    Alike (layout.readItems origin index draft slots parts)
      (layout.readItems .value index draft slots (Items.ofJson vs)) := by
  induction slots generalizing index draft parts vs with
  | nil =>
    rw [readItems, readItems]
    cases layout.finish draft with
    | error name => exact .error ..
    | ok a => exact readEnd_alike hparts
  | cons slot slots ih =>
    obtain ⟨hslot, hothers⟩ := List.forall_mem_cons.mp hslots
    cases vs with
    | nil =>
      obtain ⟨stop, rfl⟩ := parts.eq_closed_of_written hparts
      rw [Items.ofJson, readItems, readItems]
      cases layout.finish draft <;> constructor
    | cons v vs =>
      obtain ⟨_, doc, _, rest, rfl, hdoc, hrest⟩ := parts.eq_item_of_written hparts
      rw [Items.ofJson, readItems, readItems]
      rcases (hslot origin doc v draft hdoc).eq_ok_or with ⟨draft', hx, hy⟩ | ⟨e, e', hx, hy⟩
      · simp only [hx, hy]
        exact ih hothers hrest
      · simp only [hx, hy]
        exact .error ..

/-- A structure does not look at places if its slots do not, be it written as an object or as an
array. -/
theorem read_placeless (hslots : layout.slots.Forall Slot.Placeless) : layout.read.Placeless := by
  have hslots := List.forall_iff_forall_mem.mp hslots
  intro origin doc v hdoc
  cases doc.writes_of_written hdoc with
  | array start hitems =>
    rw [Doc.ofJson]
    exact readItems_alike hslots hitems
  | map start hmembers =>
    rw [Doc.ofJson]
    exact readMembers_alike hslots hmembers
  | _ => exact .error ..

end Layout

/-! ## The readings of trees -/

open Reading Slot

theorem Condition.read_placeless : Condition.layout.read.Placeless :=
  Layout.read_placeless ⟨placeless_reading (text_placeless.map _),
    placeless_reading (text_placeless.map _), placeless_reading text_placeless,
    placeless_reading json_placeless⟩

theorem ActionResult.read_placeless : ActionResult.layout.read.Placeless :=
  Layout.read_placeless ⟨placeless_reading flag_placeless, placeless_reading text_placeless,
    placeless_reading record_placeless⟩

theorem Action.read_placeless : Action.layout.read.Placeless :=
  Layout.read_placeless ⟨placeless_reading (text_placeless.map _),
    placeless_reading record_placeless, placeless_reading ActionResult.read_placeless.optional⟩

theorem Node.slots_placeless : Node.layout.slots.Forall Slot.Placeless :=
  ⟨placeless_reading Condition.read_placeless,
    placeless_reading (Action.read_placeless.oneOrMany _),
    placeless_reading (Action.read_placeless.oneOrMany _).optional,
    placeless_reading flag_placeless.optional, placeless_reading count_placeless.optional,
    placeless_reading Action.read_placeless.list,
    placeless_reading Action.read_placeless.list.list.optional⟩

namespace Tree

/-- Both members were set aside for one member that is written. -/
def SameAside (first second : Key × Doc) : Prop :=
  ∃ k v, first.1.content = .string k ∧ second.1.content = .string k ∧
    first.2.written? = some v ∧ second.2.written? = some v

theorem exists_written_of_sameAside {aside aside' : List (Key × Doc)}
    (h : List.Forall₂ SameAside aside aside') :
    ∃ ms, (Parts.members aside).written? = some ms ∧ (Parts.members aside').written? = some ms := by
  induction h with
  | nil => exact ⟨[], rfl, rfl⟩
  | cons hfirst _ ih =>
    obtain ⟨k, v, hkey, hkey', hdoc, hdoc'⟩ := hfirst
    obtain ⟨ms, hrest, hrest'⟩ := ih
    refine ⟨(k, v) :: ms, ?_, ?_⟩
    · simp only [Parts.members, Members.written?, hkey, hdoc, hrest]
    · simp only [Parts.members, Members.written?, hkey', hdoc', hrest']

/-- What is found of a tree in one place is found wherever the same members are written. -/
theorem exists_readParts {origin origin' : Origin} {members members' : Members}
    {ms : List (String × Json)} (h : members.written? = some ms) (h' : members'.written? = some ms)
    {name : Option String} {aside aside' : List (Key × Doc)}
    (haside : List.Forall₂ SameAside aside aside') {parts : Parts}
    (hparts : readParts origin name aside members = .ok parts) :
    ∃ parts', readParts origin' name aside' members' = .ok parts' ∧ parts'.name = parts.name ∧
      List.Forall₂ SameAside parts.aside parts'.aside := by
  induction ms generalizing members members' name aside aside' with
  | nil =>
    obtain ⟨stop, rfl⟩ := members.eq_closed_of_written h
    obtain ⟨stop', rfl⟩ := members'.eq_closed_of_written h'
    cases hparts
    exact ⟨_, rfl, rfl, List.forall₂_reverse_iff.mpr haside⟩
  | cons member ms ih =>
    obtain ⟨key, v⟩ := member
    obtain ⟨step, _, doc, _, rest, rfl, hdoc, hrest⟩ := members.eq_member_of_written h
    obtain ⟨step', _, doc', _, rest', rfl, hdoc', hrest'⟩ := members'.eq_member_of_written h'
    by_cases hkey : key = "name"
    · subst hkey
      simp only [readParts] at hparts ⊢
      split at hparts
      · cases hparts
      next hunnamed =>
        split at hparts
        · cases hparts
        next text htext =>
          rw [if_neg hunnamed, text_placeless.eq_ok hdoc hdoc' htext]
          exact ih hrest hrest' haside hparts
    · rw [readParts] at hparts ⊢
      simp only [doc.sound_of_written hdoc, doc'.sound_of_written hdoc'] at hparts ⊢
      exact ih hrest hrest' (.cons ⟨key, v, rfl, rfl, hdoc, hdoc'⟩ haside) hparts

/-- The root is read from the members set aside, so it is the same if they write the same. -/
theorem ofParts_of_sameAside {parts parts' : Parts} (hname : parts'.name = parts.name)
    (haside : List.Forall₂ SameAside parts.aside parts'.aside) {tree : Tree}
    (h : ofParts parts = .ok tree) : ofParts parts' = .ok tree := by
  have hslots := List.forall_iff_forall_mem.mp Node.slots_placeless
  obtain ⟨ms, hms, hms'⟩ := exists_written_of_sameAside haside
  obtain ⟨hfound, hroot⟩ := ofParts_eq_ok_iff.mp h
  have hvalue := (Layout.readMembers_alike hslots hms).eq_ok_iff.mp hroot
  exact ofParts_eq_ok_iff.mpr ⟨hname.trans hfound,
    (Layout.readMembers_alike hslots hms').eq_ok_iff.mpr hvalue⟩

/-- A tree that is read in one place is read wherever the same value is written. -/
theorem read_of_written {origin origin' : Origin} {doc doc' : Doc} {v : Json}
    (h : doc.written? = some v) (h' : doc'.written? = some v) {tree : Tree}
    (htree : read origin doc = .ok tree) : read origin' doc' = .ok tree := by
  cases doc.writes_of_written h with
  | map _ hmembers =>
    cases doc'.writes_of_written h' with
    | map _ hmembers' =>
      rw [read] at htree ⊢
      split at htree
      · cases htree
      next parts hparts =>
        obtain ⟨parts', hparts', hname, haside⟩ := exists_readParts hmembers hmembers' .nil hparts
        rw [mapError_eq_ok_iff] at htree
        rw [hparts']
        exact mapError_eq_ok_iff.mpr (ofParts_of_sameAside hname haside htree)
  | _ => cases htree

theorem read_placeless : read.Placeless := fun _ _ v h =>
  have hv := Doc.written?_ofJson v
  .of_eq_ok_iff fun _ => ⟨read_of_written h hv, read_of_written hv h⟩

end Tree

/-! ## What is read is without flaws -/

mutual

/-- What a value is kept of can be set aside. -/
theorem Doc.sound_of_toJson {origin : Origin} :
    (doc : Doc) → {v : Json} → doc.toJson origin = .ok v → doc.sound = .ok ()
  | .null _, _, _ | .bool .., _, _ | .number .., _, _ | .nonFinite .., _, _ | .string .., _, _ => by
    simp only [Doc.sound]
  | .array _ items, _, h => by
    rw [Doc.toJson] at h
    obtain ⟨_, hitems, -⟩ := map_eq_ok_iff.mp h
    rw [Doc.sound, Items.sound_of_toJson items hitems]
  | .map _ members, _, h => by
    rw [Doc.toJson] at h
    obtain ⟨_, hmembers, -⟩ := map_eq_ok_iff.mp h
    rw [Doc.sound, Members.sound_of_toRecord members hmembers]
  | .refused .., _, h | .flawed _, _, h => by
    rw [Doc.toJson] at h
    cases h

theorem Items.sound_of_toJson {origin : Origin} {index : Nat} :
    (items : Items) → {vs : List Json} → items.toJson origin index = .ok vs →
      items.sound index = .ok ()
  | .closed _, _, _ => by rw [Items.sound]
  | .flawed _, _, h => by
    rw [Items.toJson] at h
    cases h
  | .item _ doc _ rest, _, h => by
    rw [Items.toJson] at h
    split at h
    · cases h
    next v hv =>
      split at h
      · cases h
      next vs hvs =>
        rw [Items.sound, Doc.sound_of_toJson doc hv]
        exact Items.sound_of_toJson rest hvs

theorem Members.sound_of_toRecord {origin : Origin} {expected : String} :
    (members : Members) → {record result : Record} →
      members.toRecord origin expected record = .ok result → members.sound = .ok ()
  | .closed _, _, _, _ => by rw [Members.sound]
  | .flawed _, _, _, h | .refused _, _, _, h | .cut .., _, _, h => by
    rw [Members.toRecord] at h
    cases h
  | .member ⟨content, step⟩ _ doc _ _ rest, _, _, h => by
    cases content with
    | string key =>
      rw [Members.toRecord] at h
      split at h
      · cases h
      next v hv =>
        rw [Members.sound, Doc.sound_of_toJson doc hv]
        exact Members.sound_of_toRecord rest h
    | _ =>
      simp only [Members.toRecord] at h
      cases h

end

theorem Reading.sound_of_record {origin : Origin} {doc : Doc} {r : Record}
    (h : Reading.record origin doc = .ok r) : doc.sound = .ok () := by
  cases doc with
  | map start members => rw [Doc.sound, Members.sound_of_toRecord members h]
  | _ => cases h

theorem Tree.sound_of_readParts {origin : Origin} :
    (members : Members) → {name : Option String} → {aside : List (Key × Doc)} → {parts : Parts} →
      readParts origin name aside members = .ok parts → members.sound = .ok ()
  | .closed _, _, _, _, _ => by rw [Members.sound]
  | .flawed _, _, _, _, h | .refused _, _, _, _, h => by
    rw [readParts] at h
    cases h
  | .cut .., _, _, _, h => by
    rw [readParts] at h
    split at h <;> cases h
  | .member key _ doc _ _ rest, _, _, _, h => by
    rw [readParts] at h
    split at h
    · split at h
      · cases h
      · split at h
        · cases h
        next name hname =>
          have hdoc : doc.sound = .ok () := by
            cases doc with
            | string s stop => simp only [Doc.sound]
            | _ => cases hname
          rw [Members.sound, hdoc]
          exact Tree.sound_of_readParts rest h
    · split at h
      · cases h
      next hdoc =>
        rw [Members.sound, hdoc]
        exact Tree.sound_of_readParts rest h
    · cases h

/-- A tree is read from documents without flaws only: the name is a text, and all other members were
set aside. -/
theorem Tree.sound_of_read {origin : Origin} {doc : Doc} {tree : Tree}
    (h : Tree.read origin doc = .ok tree) : doc.sound = .ok () := by
  cases doc with
  | map start members =>
    rw [read] at h
    split at h
    · cases h
    next parts hparts => rw [Doc.sound, Tree.sound_of_readParts members hparts]
  | _ => cases h

end Verdict
