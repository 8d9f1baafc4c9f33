import Verdict.Document.Basic

/-!
# Reading documents

A reading takes a part of a document to a value or to the first fault in the order of the text.
Where the part comes from decides how a fault is placed: a text gives offsets, a value that was
never text and a part that was set aside for a later reading give none.
-/

namespace Verdict

/-- Where the parts of a document come from. -/
inductive Origin
  | text
  | value
  | buffer
deriving DecidableEq, Repr, Inhabited

namespace Origin

def place (origin : Origin) (offset : Nat) : Option Nat :=
  match origin with
  | text => some offset
  | _ => none

end Origin

abbrev Reading (α : Type) := Origin → Doc → Except Fault α

namespace Fault

def ofFlaw (flaw : Flaw) : Fault := ⟨.defect flaw.defect, some flaw.offset, []⟩

/-- Places a fault that has no place yet. -/
def settle (origin : Origin) (offset : Nat) (fault : Fault) : Fault :=
  match fault.offset with
  | some _ => fault
  | none => { fault with offset := origin.place offset }

end Fault

namespace Doc

def found : Doc → Found
  | null _ => .unit
  | bool b _ => .bool b
  | number (.integer n) _ => .integer n
  | number (.real x) _ => .real x
  | nonFinite x _ => .nonFinite x
  | string s _ => .string s
  | array .. => .array
  | map .. => .map
  | refused .. | flawed _ => .variant

/-- Scalars are read before they are refused, brackets are not. -/
def refusedAt : Doc → Nat
  | null stop | bool _ stop | number _ stop | nonFinite _ stop | string _ stop => stop
  | array start _ | map start _ | refused _ _ start => start
  | flawed flaw => flaw.offset

/-- The fault of a part of the wrong type. -/
def mismatch (origin : Origin) (expected : String) (doc : Doc) : Fault :=
  match doc with
  | flawed flaw => .ofFlaw flaw
  | refused asValue _ start => ⟨asValue, origin.place start, []⟩
  | doc => ⟨.wrongType doc.found expected, origin.place doc.refusedAt, []⟩

end Doc

namespace Key

/-- The fault of a key of the wrong type. -/
def mismatch (expected : String) (key : Key) : Fault := ⟨.wrongType key.content expected, none, []⟩

end Key

/-- How many items are left. -/
def Items.count : Items → Nat
  | .item _ _ _ rest => rest.count + 1
  | _ => 0

/-! ## Scalars -/

namespace Reading

def text : Reading String
  | _, .string s _ => .ok s
  | origin, doc => .error (doc.mismatch origin "a string")

def flag : Reading Bool
  | _, .bool b _ => .ok b
  | origin, doc => .error (doc.mismatch origin "a boolean")

/-- A number below `2^32`. -/
def count : Reading UInt32
  | origin, .number (.integer n) stop =>
    if 0 ≤ n ∧ n < 2 ^ 32 then .ok (UInt32.ofNat n.toNat)
    else .error ⟨.wrongValue (.integer n) "u32", origin.place stop, []⟩
  | origin, doc => .error (doc.mismatch origin "u32")

def map {α β : Type} (f : α → β) (reading : Reading α) : Reading β :=
  fun origin doc => (reading origin doc).map f

/-- A null part is no value. -/
def optional {α : Type} (reading : Reading α) : Reading (Option α)
  | _, .null _ => .ok none
  | origin, doc => (reading origin doc).map some

end Reading

/-! ## Whole values -/

mutual

/-- The JSON value of a document; numbers that JSON cannot write become `null`, and of members with
one key the last counts. -/
def Doc.toJson (origin : Origin) (doc : Doc) : Except Fault Json :=
  match doc with
  | .null _ => .ok .null
  | .bool b _ => .ok (.bool b)
  | .number n _ => .ok (.number n)
  | .nonFinite _ _ => .ok .null
  | .string s _ => .ok (.string s)
  | .array _ items => (items.toJson origin 0).map .array
  | .map _ members => (members.toRecord origin "a string key" []).map .object
  | .refused asValue _ start => .error ⟨asValue, origin.place start, []⟩
  | .flawed flaw => .error (.ofFlaw flaw)

def Items.toJson (origin : Origin) (index : Nat) (items : Items) : Except Fault (List Json) :=
  match items with
  | .closed _ => .ok []
  | .flawed flaw => .error (.ofFlaw flaw)
  | .item _ doc _ rest =>
    match doc.toJson origin with
    | .error fault => .error (fault.under (.index index))
    | .ok v =>
      match rest.toJson origin (index + 1) with
      | .error fault => .error fault
      | .ok vs => .ok (v :: vs)

/-- Adds members to a record; `expected` says what the first key has to be. -/
def Members.toRecord (origin : Origin) (expected : String) (record : Record) (members : Members) :
    Except Fault Record :=
  match members with
  | .closed _ => .ok record
  | .flawed flaw => .error (.ofFlaw flaw)
  | .refused fault => .error fault
  | .cut _ _ flaw => .error (.ofFlaw flaw)
  | .member ⟨.string key, step⟩ _ doc _ _ rest =>
    match doc.toJson origin with
    | .error fault => .error (fault.under step)
    | .ok v => rest.toRecord origin "a string" (record.insert key v)
  | .member key settled _ _ _ _ => .error ((key.mismatch expected).settle origin settled)

end

mutual

/-- Refuses a document with a flaw in it, at the first one; only such a document cannot be set
aside. -/
def Doc.sound (doc : Doc) : Except Fault Unit :=
  match doc with
  | .array _ items => items.sound 0
  | .map _ members => members.sound
  | .refused _ aside start => .error ⟨aside, some start, []⟩
  | .flawed flaw => .error (.ofFlaw flaw)
  | _ => .ok ()

def Items.sound (index : Nat) (items : Items) : Except Fault Unit :=
  match items with
  | .closed _ => .ok ()
  | .flawed flaw => .error (.ofFlaw flaw)
  | .item _ doc _ rest =>
    match doc.sound with
    | .error fault => .error (fault.under (.index index))
    | .ok () => rest.sound (index + 1)

def Members.sound (members : Members) : Except Fault Unit :=
  match members with
  | .closed _ => .ok ()
  | .flawed flaw => .error (.ofFlaw flaw)
  | .refused fault => .error fault
  | .cut _ _ flaw => .error (.ofFlaw flaw)
  | .member key _ doc _ _ rest =>
    match doc.sound with
    | .error fault => .error (fault.under key.step)
    | .ok () => rest.sound

end

namespace Reading

def json : Reading Json := fun origin doc => doc.toJson origin

def record : Reading Record
  | origin, .map _ members => members.toRecord origin "a string" []
  | origin, doc => .error (doc.mismatch origin "a map")

/-! ## Lists -/

def items {α : Type} (reading : Reading α) (origin : Origin) (index : Nat) :
    Items → Except Fault (List α)
  | .closed _ => .ok []
  | .flawed flaw => .error (.ofFlaw flaw)
  | .item _ doc _ rest =>
    match reading origin doc with
    | .error fault => .error (fault.under (.index index))
    | .ok v =>
      match items reading origin (index + 1) rest with
      | .error fault => .error fault
      | .ok vs => .ok (v :: vs)

def list {α : Type} (reading : Reading α) : Reading (List α)
  | origin, .array _ parts => items reading origin 0 parts
  | origin, doc => .error (doc.mismatch origin "a sequence")

/-- One value or a list of values, one value being tried first. The part is set aside before, so the
fault of neither reading is reported. -/
def oneOrMany {α : Type} (type : String) (reading : Reading α) : Reading (List α) := fun _ doc =>
  match doc.sound with
  | .error fault => .error fault
  | .ok () =>
    match reading .buffer doc with
    | .ok v => .ok [v]
    | .error _ =>
      match list reading .buffer doc with
      | .ok vs => .ok vs
      | .error _ => .error ⟨.noVariant type, none, []⟩

end Reading

/-! ## Structures -/

/-- One field of a structure that is read into a draft of type `δ`. -/
structure Slot (δ : Type) where
  name : String
  aliases : List String
  filled : δ → Bool
  fill : Origin → Doc → δ → Except Fault δ

namespace Slot

/-- A slot whose content is kept by `put` once `reading` has accepted it. -/
def reading {δ α : Type} (name : String) (aliases : List String) (get : δ → Option α)
    (put : α → δ → δ) (reading : Reading α) : Slot δ where
  name := name
  aliases := aliases
  filled draft := (get draft).isSome
  fill origin doc draft := (reading origin doc).map (put · draft)

def answersTo {δ : Type} (slot : Slot δ) (key : String) : Bool :=
  slot.name == key || slot.aliases.contains key

end Slot

/-- The fields of a structure in their order, and how a draft becomes the structure: `finish` gives
the name of a required field that is missing. -/
structure Layout (δ α : Type) where
  title : String
  slots : List (Slot δ)
  blank : δ
  finish : δ → Except String α

namespace Layout

variable {δ α : Type}

/-- The field that a key names; a number names a field by its position. -/
def slotOf? (layout : Layout δ α) (key : Key) : Except Fault (Option (Slot δ)) :=
  match key.content with
  | .string s => .ok (layout.slots.find? (·.answersTo s))
  | .integer (.ofNat n) => .ok layout.slots[n]?
  | _ => .error (key.mismatch "field identifier")

/-- Reads members into a draft; a member of no field is passed over. -/
def readMembers (layout : Layout δ α) (origin : Origin) (draft : δ) : Members → Except Fault α
  | .closed stop =>
    match layout.finish draft with
    | .ok v => .ok v
    | .error name => .error ⟨.missingField name, origin.place stop, []⟩
  | .flawed flaw => .error (.ofFlaw flaw)
  | .refused fault => .error fault
  | .cut key settled flaw =>
    match layout.slotOf? key with
    | .error fault => .error (fault.settle origin settled)
    | .ok none => .error (.ofFlaw flaw)
    | .ok (some slot) =>
      if slot.filled draft then .error ⟨.duplicateField slot.name, origin.place settled, []⟩
      else .error (.ofFlaw flaw)
  | .member key keySettled doc settled skim rest =>
    match layout.slotOf? key with
    | .error fault => .error (fault.settle origin keySettled)
    | .ok none =>
      match skim with
      | some flaw => .error ((Fault.ofFlaw flaw).under key.step)
      | none => readMembers layout origin draft rest
    | .ok (some slot) =>
      if slot.filled draft then .error ⟨.duplicateField slot.name, origin.place keySettled, []⟩
      else
        match slot.fill origin doc draft with
        | .error fault => .error ((fault.under key.step).settle origin settled)
        | .ok draft => readMembers layout origin draft rest

/-- How many fields a structure has, in words. -/
def sized (layout : Layout δ α) : String :=
  "struct " ++ layout.title ++ " with " ++ toString layout.slots.length ++ " elements"

/-- What stands after the last field of a structure that is written as a list. -/
def readEnd (layout : Layout δ α) (origin : Origin) (v : α) : Items → Except Fault α
  | .closed _ => .ok v
  | .flawed flaw =>
    let defect := match flaw.defect with
      | .expectedArrayEnd | .endInValue => .trailingCharacters
      | defect => defect
    .error (.ofFlaw { flaw with defect })
  | .item start _ _ rest =>
    let count := layout.slots.length
    let length := count + 1 + rest.count
    match origin with
    | .text => .error (.ofFlaw ⟨.trailingCharacters, start + 1⟩)
    | .value => .error ⟨.wrongLength length "fewer elements in array", none, []⟩
    | .buffer =>
      let elements := if count = 1 then "1 element" else toString count ++ " elements"
      .error ⟨.wrongLength length (elements ++ " in sequence"), none, []⟩

/-- Reads items into the fields in their order. -/
def readItems (layout : Layout δ α) (origin : Origin) (index : Nat) (draft : δ) :
    List (Slot δ) → Items → Except Fault α
  | [], items =>
    match layout.finish draft with
    | .ok v => layout.readEnd origin v items
    | .error name => .error ⟨.missingField name, none, []⟩
  | _ :: _, .closed stop =>
    match layout.finish draft with
    | .ok v => .ok v
    | .error name =>
      let length := (layout.slots.findIdx? (·.name == name)).getD index
      .error ⟨.wrongLength length layout.sized, origin.place stop, []⟩
  | _ :: _, .flawed flaw => .error (.ofFlaw flaw)
  | slot :: slots, .item _ doc settled rest =>
    match slot.fill origin doc draft with
    | .error fault => .error ((fault.under (.index index)).settle origin settled)
    | .ok draft => readItems layout origin (index + 1) draft slots rest

def read (layout : Layout δ α) : Reading α
  | origin, .map _ members => layout.readMembers origin layout.blank members
  | origin, .array _ items => layout.readItems origin 0 layout.blank layout.slots items
  | origin, doc => .error (doc.mismatch origin ("struct " ++ layout.title))

end Layout

end Verdict
