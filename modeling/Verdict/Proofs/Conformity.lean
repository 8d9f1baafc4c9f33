import Verdict.CommandLine
import Verdict.Http.Route
import Verdict.Proofs.Canonical
import Verdict.Proofs.Execution

/-!
# The published schema and the encoding of trees

A document that holds a schema has a meaning of its own (`Json.Satisfies`), which refers neither to
how trees are written nor to how the document came about. The published document describes the
encoding of a tree exactly if the names of the comparison and of the field type are among those that
it lists (`Tree.describes_encode_iff`); all else that a tree can hold is encoded as the document
says, and so are the results that an evaluation leaves in it.
-/

namespace Verdict

/-! ## The meaning of schemas -/

/-- The number in units of `2^-1074`. -/
def Number.units : Number → Int
  | integer n => n * 2 ^ 1074
  | real x => x.units

namespace Json

/-- The values of a type, by the name of the type. A number is an integer by its value, however it
is written. -/
inductive HasType : String → Json → Prop
  | null : HasType "null" .null
  | boolean (b : Bool) : HasType "boolean" (.bool b)
  | integer (n : Number) (h : 2 ^ 1074 ∣ n.units) : HasType "integer" (.number n)
  | number (n : Number) : HasType "number" (.number n)
  | string (s : String) : HasType "string" (.string s)
  | array (items : List Json) : HasType "array" (.array items)
  | object (members : List (String × Json)) : HasType "object" (.object members)

/-- The keywords that no value can violate. -/
def annotations : List String :=
  ["$schema", "title", "description", "format", "default", "definitions"]

section
variable (definitions : Record)

mutual

/-- A value satisfies a schema if it obeys each of its rules. -/
inductive Satisfies : Json → Json → Prop
  | rules {rules : Record} {v : Json} (h : ∀ rule ∈ rules, Obeys rules rule.1 rule.2 v) :
    Satisfies (.object rules) v

/-- What a rule asks of a value, by the keyword of the rule and its argument, and the rules that
stand beside it. A rule for values of one type asks nothing of other values. A reference has the
meaning of the definition that it names; nothing is derived through a circle of references. -/
inductive Obeys : Record → String → Json → Json → Prop
  | annotated {rules : Record} {keyword : String} {argument v : Json}
    (h : keyword ∈ annotations) : Obeys rules keyword argument v
  | type {rules : Record} {name : String} {v : Json} (h : HasType name v) :
    Obeys rules "type" (.string name) v
  | types {rules : Record} {names : List Json} {name : String} {v : Json}
    (hname : .string name ∈ names) (h : HasType name v) : Obeys rules "type" (.array names) v
  | enum {rules : Record} {allowed : List Json} {v : Json} (h : v ∈ allowed) :
    Obeys rules "enum" (.array allowed) v
  | minimum {rules : Record} {bound : Number} {v : Json}
    (h : ∀ n, v = .number n → bound.units ≤ n.units) : Obeys rules "minimum" (.number bound) v
  | items {rules : Record} {schema v : Json}
    (h : ∀ items, v = .array items → ∀ item ∈ items, Satisfies schema item) :
    Obeys rules "items" schema v
  | properties {rules fields : Record} {v : Json}
    (h : ∀ members, v = .object members → ∀ member ∈ members,
      ∀ schema, Record.get? member.1 fields = some schema → Satisfies schema member.2) :
    Obeys rules "properties" (.object fields) v
  | additionalProperties {rules : Record} {allowed : Bool} {v : Json}
    (h : allowed = false → ∀ members, v = .object members → ∀ member ∈ members,
      ∃ fields, Record.get? "properties" rules = some (.object fields) ∧
        member.1 ∈ fields.map Prod.fst) :
    Obeys rules "additionalProperties" (.bool allowed) v
  | required {rules : Record} {names : List Json} {v : Json}
    (h : ∀ members, v = .object members → ∀ name ∈ names,
      ∃ member ∈ members, name = .string member.1) : Obeys rules "required" (.array names) v
  | anyOf {rules : Record} {schemas : List Json} {schema v : Json} (hschema : schema ∈ schemas)
    (h : Satisfies schema v) : Obeys rules "anyOf" (.array schemas) v
  | allOf {rules : Record} {schemas : List Json} {v : Json}
    (h : ∀ schema ∈ schemas, Satisfies schema v) : Obeys rules "allOf" (.array schemas) v
  | reference {rules : Record} {pointer name : String} {schema v : Json}
    (hpointer : pointer = "#/definitions/" ++ name)
    (hname : Record.get? name definitions = some schema) (h : Satisfies schema v) :
    Obeys rules "$ref" (.string pointer) v

end

end

/-- The schemas that references in a document can name. -/
def definitions (document : Json) : Record :=
  match document with
  | .object rules =>
    match Record.get? "definitions" rules with
    | some (.object schemas) => schemas
    | _ => []
  | _ => []

/-- The value satisfies the schema that is the document, with the definitions it brings along. -/
def Describes (document v : Json) : Prop := Satisfies document.definitions document v

namespace Obeys

variable {definitions rules : Record} {v : Json}

theorem mem_of_enum {allowed : List Json} (h : Obeys definitions rules "enum" (.array allowed) v) :
    v ∈ allowed := by
  generalize hkeyword : "enum" = keyword at h
  cases h with
  | enum h => exact h
  | annotated h => exact absurd (hkeyword ▸ h) (by decide)
  | _ => exact absurd hkeyword (by decide)

theorem satisfies_of_allOf {schemas : List Json}
    (h : Obeys definitions rules "allOf" (.array schemas) v) :
    ∀ schema ∈ schemas, Satisfies definitions schema v := by
  generalize hkeyword : "allOf" = keyword at h
  cases h with
  | allOf h => exact h
  | annotated h => exact absurd (hkeyword ▸ h) (by decide)
  | _ => exact absurd hkeyword (by decide)

theorem satisfies_of_properties {fields : Record} {members : List (String × Json)}
    (h : Obeys definitions rules "properties" (.object fields) (.object members)) :
    ∀ member ∈ members, ∀ schema, Record.get? member.1 fields = some schema →
      Satisfies definitions schema member.2 := by
  generalize hkeyword : "properties" = keyword at h
  cases h with
  | properties h => exact h members rfl
  | annotated h => exact absurd (hkeyword ▸ h) (by decide)
  | _ => exact absurd hkeyword (by decide)

theorem satisfies_of_reference {name : String} {schema : Json}
    (h : Obeys definitions rules "$ref" (.string ("#/definitions/" ++ name)) v)
    (hname : Record.get? name definitions = some schema) : Satisfies definitions schema v := by
  generalize hkeyword : "$ref" = keyword at h
  generalize hpointer : "#/definitions/" ++ name = pointer at h
  cases h with
  | reference hpointer' hname' h =>
    cases (String.append_right_inj _).mp (hpointer.trans hpointer')
    cases hname.symm.trans hname'
    exact h
  | annotated h => exact absurd (hkeyword ▸ h) (by decide)
  | _ => exact absurd hkeyword (by decide)

end Obeys

end Json

/-! ## Schemas as documents -/

/-- What a keyword asks of a value in a document, among the rules of its schema. -/
def Keyword.Accepts (definitions rules : Record) (keyword : Keyword) (v : Json) : Prop :=
  Json.Obeys definitions rules keyword.name keyword.encode v

/-- The value satisfies the schema as it stands in a document. -/
def Schema.Accepts (definitions : Record) (schema : Schema) (v : Json) : Prop :=
  Json.Satisfies definitions schema.encode v

namespace Schema

theorem mem_or_exists_of_mem_encodeOnto {schema : Schema} {record : Record} {rule : String × Json}
    (h : rule ∈ encodeOnto record schema) :
    rule ∈ record ∨ ∃ keyword ∈ schema, rule = (keyword.name, keyword.encode) := by
  induction schema generalizing record with
  | nil => exact .inl h
  | cons keyword rest ih =>
    rcases ih h with h | ⟨other, hother, heq⟩
    · rcases Record.eq_or_mem_of_mem_insert h with heq | h
      · exact .inr ⟨keyword, List.mem_cons_self, heq⟩
      · exact .inl h
    · exact .inr ⟨other, List.mem_cons_of_mem _ hother, heq⟩

/-- What stands in a record stays there if no keyword has its key. -/
theorem mem_encodeOnto_of_mem {schema : Schema} {record : Record} {rule : String × Json}
    (h : rule ∈ record) (hfresh : rule.1 ∉ schema.map Keyword.name) :
    rule ∈ encodeOnto record schema := by
  induction schema generalizing record with
  | nil => exact h
  | cons keyword rest ih =>
    exact ih (Record.mem_insert_of_mem h (List.ne_of_not_mem_cons hfresh))
      (List.not_mem_of_not_mem_cons hfresh)

theorem mem_encodeOnto {schema : Schema} {record : Record} {keyword : Keyword}
    (hnames : (schema.map Keyword.name).Nodup) (h : keyword ∈ schema) :
    (keyword.name, keyword.encode) ∈ encodeOnto record schema := by
  induction schema generalizing record with
  | nil => cases h
  | cons first rest ih =>
    obtain ⟨hfirst, hrest⟩ := List.nodup_cons.mp hnames
    rcases List.mem_cons.mp h with rfl | h
    · exact @mem_encodeOnto_of_mem rest _ _ Record.mem_insert_self hfirst
    · exact ih hrest h

variable {definitions rules : Record} {schema : Schema} {v : Json}

theorem accepts_of_forall
    (h : ∀ keyword ∈ schema, keyword.Accepts definitions (encodeOnto [] schema) v) :
    schema.Accepts definitions v := by
  refine .rules fun rule hrule => ?_
  rcases mem_or_exists_of_mem_encodeOnto hrule with hrule | ⟨keyword, hkeyword, rfl⟩
  · cases hrule
  · exact h keyword hkeyword

theorem Accepts.keyword (h : schema.Accepts definitions v)
    (hnames : (schema.map Keyword.name).Nodup) {keyword : Keyword} (hkeyword : keyword ∈ schema) :
    keyword.Accepts definitions (encodeOnto [] schema) v := by
  cases h with
  | rules h => exact h _ (mem_encodeOnto hnames hkeyword)

/-! ### Keywords -/

theorem accepts_annotated {keyword : Keyword} (h : keyword.name ∈ Json.annotations) :
    keyword.Accepts definitions rules v := .annotated h

theorem accepts_description {about : String} :
    (Keyword.description about).Accepts definitions rules v :=
  have hdescription : "description" ∈ Json.annotations := by decide
  .annotated hdescription

theorem accepts_type {type : JsonType} {types : List JsonType} (hmem : type ∈ types)
    (h : Json.HasType type.name v) : (Keyword.type types).Accepts definitions rules v := by
  match types with
  | [_] =>
    cases List.mem_singleton.mp hmem
    exact .type h
  | _ :: _ :: _ =>
    exact .types (List.mem_map_of_mem (List.mem_map_of_mem hmem)) h

theorem accepts_words_iff {allowed : List String} {word : String} :
    (Keyword.words allowed).Accepts definitions rules (.string word) ↔ word ∈ allowed := by
  constructor
  · intro h
    obtain ⟨_, hmem, ⟨⟩⟩ := List.mem_map.mp (Json.Obeys.mem_of_enum h)
    exact hmem
  · intro hmem
    exact .enum (List.mem_map_of_mem hmem)

theorem accepts_items {itemSchema : Schema} {items : List Json}
    (h : ∀ item ∈ items, itemSchema.Accepts definitions item) :
    (Keyword.items itemSchema).Accepts definitions rules (.array items) := by
  refine .items ?_
  rintro _ ⟨⟩
  exact h

theorem accepts_required {names : List String} {members : List (String × Json)}
    (h : ∀ name ∈ names, name ∈ members.map Prod.fst) :
    (Keyword.required names).Accepts definitions rules (.object members) := by
  refine .required ?_
  rintro _ ⟨⟩ _ hname
  obtain ⟨name, hmem, rfl⟩ := List.mem_map.mp hname
  obtain ⟨member, hmember, rfl⟩ := List.mem_map.mp (h name hmem)
  exact ⟨member, hmember, rfl⟩

/-- A member that has a schema among the fields satisfies it. -/
def Fits (definitions : Record) (fields : List (String × Schema)) (member : String × Json) : Prop :=
  ∀ fieldSchema, Record.get? member.1 (encodeFields [] fields) = some fieldSchema →
    Json.Satisfies definitions fieldSchema member.2

theorem fits_iff {fields : List (String × Schema)} {key : String} {fieldSchema : Schema}
    (h : Record.get? key (encodeFields [] fields) = some fieldSchema.encode) :
    Fits definitions fields (key, v) ↔ fieldSchema.Accepts definitions v := by
  refine ⟨fun hfits => hfits _ h, fun hv fieldSchema' h' => ?_⟩
  cases h.symm.trans h'
  exact hv

theorem accepts_properties_iff {fields : List (String × Schema)} {members : List (String × Json)} :
    (Keyword.properties fields).Accepts definitions rules (.object members) ↔
      ∀ member ∈ members, Fits definitions fields member := by
  refine ⟨Json.Obeys.satisfies_of_properties, fun h => .properties ?_⟩
  rintro _ ⟨⟩
  exact h

theorem accepts_anyOf {alternative : Schema} {schemas : List Schema}
    (hmem : alternative.encode ∈ encodeAll schemas) (h : alternative.Accepts definitions v) :
    (Keyword.anyOf schemas).Accepts definitions rules v := .anyOf hmem h

theorem accepts_allOf_singleton_iff {part : Schema} :
    (Keyword.allOf [part]).Accepts definitions rules v ↔ part.Accepts definitions v :=
  ⟨fun h => Json.Obeys.satisfies_of_allOf h _ List.mem_cons_self,
    fun h => .allOf (List.forall_mem_singleton.mpr h)⟩

theorem accepts_reference_iff {name : String} {definition : Schema}
    (hname : Record.get? name definitions = some definition.encode) :
    (Keyword.reference name).Accepts definitions rules v ↔ definition.Accepts definitions v :=
  ⟨fun h => Json.Obeys.satisfies_of_reference h hname, .reference rfl hname⟩

/-! ### Schemas -/

theorem accepts_singleton_iff {keyword : Keyword} :
    Accepts definitions [keyword] v ↔
      keyword.Accepts definitions [(keyword.name, keyword.encode)] v := by
  refine ⟨fun h => h.keyword (List.pairwise_singleton ..) List.mem_cons_self, fun h => ?_⟩
  exact accepts_of_forall (List.forall_mem_singleton.mpr h)

/-- A schema that is nothing but a reference. -/
theorem accepts_referring_iff {name : String} {definition : Schema}
    (hname : Record.get? name definitions = some definition.encode) :
    Accepts definitions [.reference name] v ↔ definition.Accepts definitions v :=
  accepts_singleton_iff.trans (accepts_reference_iff hname)

theorem accepts_typed {type : JsonType} (h : Json.HasType type.name v) :
    Accepts definitions [.type [type]] v :=
  accepts_singleton_iff.mpr (accepts_type List.mem_cons_self h)

theorem accepts_text (s : String) : text.Accepts definitions (.string s) :=
  @accepts_typed _ _ .string (.string s)

theorem accepts_described {about : String} {types : List JsonType} (type : JsonType)
    (h : Json.HasType type.name v) (hmem : type ∈ types) :
    Accepts definitions [.description about, .type types] v := by
  refine accepts_of_forall ?_
  simp only [List.forall_mem_cons]
  exact ⟨accepts_description, accepts_type hmem h, nofun⟩

theorem accepts_openRecord (record : Record) : openRecord.Accepts definitions (.object record) := by
  refine accepts_of_forall ?_
  simp only [openRecord, List.forall_mem_cons]
  exact ⟨accepts_type List.mem_cons_self (.object record), .additionalProperties nofun,
    accepts_annotated (by decide), nofun⟩

/-- A list of actions is accepted by the keywords of such a list if each action satisfies its own
schema, also where further keywords stand beside them. -/
theorem accepts_actionsDescribed {about : String} {types : List JsonType} {items : List Json}
    (htype : .array ∈ types)
    (h : ∀ item ∈ items, Accepts definitions [.reference "Action"] item) :
    ∀ keyword ∈ actionsDescribed about types,
      keyword.Accepts definitions rules (.array items) := by
  simp only [actionsDescribed, List.forall_mem_cons]
  exact ⟨accepts_description, accepts_type htype (.array items), accepts_items h, nofun⟩

/-- An object satisfies the schema of an object with some fields, whatever is annotated, if no field
is missing and the members fit. -/
theorem accepts_object {before after : Schema} {names : List String}
    {fields : List (String × Schema)} {members : List (String × Json)}
    (hbefore : ∀ keyword ∈ before, keyword.name ∈ Json.annotations)
    (hafter : ∀ keyword ∈ after, keyword.name ∈ Json.annotations)
    (hrequired : ∀ name ∈ names, name ∈ members.map Prod.fst)
    (hfits : ∀ member ∈ members, Fits definitions fields member) :
    Accepts definitions
      (before ++ .type [.object] :: .required names :: .properties fields :: after)
      (.object members) := by
  refine accepts_of_forall ?_
  simp only [List.forall_mem_append, List.forall_mem_cons]
  exact ⟨fun keyword hmem => accepts_annotated (hbefore keyword hmem),
    accepts_type List.mem_cons_self (.object members), accepts_required hrequired,
    accepts_properties_iff.mpr hfits, fun keyword hmem => accepts_annotated (hafter keyword hmem)⟩

/-- An object schema with a description and nothing else besides its fields. -/
theorem accepts_fields {about : String} {names : List String} {fields : List (String × Schema)}
    {members : List (String × Json)} (hrequired : ∀ name ∈ names, name ∈ members.map Prod.fst)
    (hfits : ∀ member ∈ members, Fits definitions fields member) :
    Accepts definitions
      [.description about, .type [.object], .required names, .properties fields]
      (.object members) :=
  have hdescription : "description" ∈ Json.annotations := by decide
  @accepts_object definitions [.description about] [] names fields members
    (List.forall_mem_singleton.mpr hdescription) nofun hrequired hfits

theorem Accepts.fits {fields : List (String × Schema)} {members : List (String × Json)}
    (h : schema.Accepts definitions (.object members))
    (hnames : (schema.map Keyword.name).Nodup) (hfields : .properties fields ∈ schema) :
    ∀ member ∈ members, Fits definitions fields member :=
  accepts_properties_iff.mp (h.keyword hnames hfields)

end Schema

/-! ## The parts of a tree -/

open Schema

/-- The definitions that the published document brings along. -/
def Schema.treeDefinitions : Record := ofTree.encode.definitions

theorem ActionResult.accepts_encode (result : ActionResult) :
    ofActionResult.Accepts treeDefinitions result.encode := by
  have hrequired : ∀ name ∈ ["resultMessage", "success"],
      name ∈ ["success", "resultMessage", "output"] := by decide
  refine accepts_fields hrequired ?_
  simp only [List.forall_mem_cons]
  refine ⟨?success, ?message, ?output, nofun⟩
  case success => exact (fits_iff rfl).mpr (@accepts_typed _ _ .boolean (.boolean _))
  case message => exact (fits_iff rfl).mpr (accepts_text _)
  case output => exact (fits_iff rfl).mpr (accepts_openRecord _)

namespace Action

theorem accepts_encode (action : Action) : ofAction.Accepts treeDefinitions action.encode := by
  have hrequired : ∀ name ∈ ["kind"], name ∈ ["kind", "parameters"] := by decide
  refine accepts_fields (fun name hname => ?_) ?_
  · rw [List.map_append]
    exact List.mem_append_left _ (hrequired name hname)
  simp only [List.forall_mem_append, List.forall_mem_cons]
  refine ⟨⟨?kind, ?parameters, nofun⟩, ?result⟩
  case kind =>
    exact (fits_iff rfl).mpr ((accepts_referring_iff rfl).mpr (accepts_text _))
  case parameters => exact (fits_iff rfl).mpr (accepts_openRecord _)
  case result =>
    cases action.result with
    | none => nofun
    | some result =>
      have hresult : Accepts treeDefinitions [.reference "ActionResult"] result.encode :=
        (accepts_referring_iff rfl).mpr result.accepts_encode
      refine List.forall_mem_singleton.mpr ((fits_iff rfl).mpr (accepts_singleton_iff.mpr ?_))
      exact accepts_anyOf List.mem_cons_self hresult

/-- Where actions are listed, the schema of an action stands by its name. -/
theorem accepts_referring_encode (actions : List Action) :
    ∀ item ∈ actions.map encode, Accepts treeDefinitions [.reference "Action"] item := by
  intro item hitem
  obtain ⟨action, -, rfl⟩ := List.mem_map.mp hitem
  exact (accepts_referring_iff rfl).mpr action.accepts_encode

theorem accepts_encodeActions {rules : Record} {about : String} {types : List JsonType}
    (actions : List Action) (htype : .array ∈ types) :
    ∀ keyword ∈ actionsDescribed about types,
      keyword.Accepts treeDefinitions rules (Node.encodeActions actions) :=
  accepts_actionsDescribed htype (accepts_referring_encode actions)

end Action

namespace Condition

/-- The comparison and the field type have names that the document lists. -/
def Listed (condition : Condition) : Prop :=
  condition.comparison.name ∈ ["equals", "greaterThan", "lessThan"] ∧
    condition.fieldType.name ∈ ["string", "number", "date"]

theorem accepts_word_iff {name : String} {allowed : List String} :
    Accepts treeDefinitions [.type [.string], .words allowed] (.string name) ↔ name ∈ allowed := by
  constructor
  · intro h
    have hnames : ["type", "enum"].Nodup := by decide
    exact accepts_words_iff.mp (h.keyword hnames (List.mem_cons_of_mem _ List.mem_cons_self))
  · intro hname
    refine accepts_of_forall ?_
    simp only [List.forall_mem_cons]
    exact ⟨accepts_type List.mem_cons_self (.string name), accepts_words_iff.mpr hname, nofun⟩

/-- The schema of the field type is described where it is referred to. -/
theorem accepts_describedFieldType_iff {about : String} {v : Json} :
    Accepts treeDefinitions [.description about, .allOf [[.reference "FieldType"]]] v ↔
      ofFieldType.Accepts treeDefinitions v := by
  have hnames : ["description", "allOf"].Nodup := by decide
  rw [← @accepts_referring_iff treeDefinitions v "FieldType" ofFieldType rfl]
  constructor
  · intro h
    exact accepts_allOf_singleton_iff.mp
      (h.keyword hnames (List.mem_cons_of_mem _ List.mem_cons_self))
  · intro h
    refine accepts_of_forall ?_
    simp only [List.forall_mem_cons]
    exact ⟨accepts_description, accepts_allOf_singleton_iff.mpr h, nofun⟩

/-- Nothing but the two names can keep the encoding of a condition from satisfying its schema. -/
theorem accepts_encode_iff (condition : Condition) :
    ofCondition.Accepts treeDefinitions condition.encode ↔ condition.Listed := by
  constructor
  · intro h
    have hfits := h.fits (by decide) (List.mem_of_getElem? (i := 3) rfl)
    simp only [List.forall_mem_cons] at hfits
    obtain ⟨hcomparison, hfieldType, -⟩ := hfits
    exact ⟨accepts_word_iff.mp ((accepts_referring_iff rfl).mp ((fits_iff rfl).mp hcomparison)),
      accepts_word_iff.mp (accepts_describedFieldType_iff.mp ((fits_iff rfl).mp hfieldType))⟩
  · rintro ⟨hcomparison, hfieldType⟩
    have hcomparison : ofComparison.Accepts treeDefinitions _ := accepts_word_iff.mpr hcomparison
    have hfieldType : ofFieldType.Accepts treeDefinitions _ := accepts_word_iff.mpr hfieldType
    have hrequired : ∀ name ∈ ["compareTo", "comparisonKind", "fieldName", "fieldType"],
        name ∈ ["comparisonKind", "fieldType", "fieldName", "compareTo"] := by decide
    refine accepts_fields hrequired ?_
    simp only [List.forall_mem_cons]
    refine ⟨?comparison, ?fieldType, ?fieldName, ?compareTo, nofun⟩
    case comparison => exact (fits_iff rfl).mpr ((accepts_referring_iff rfl).mpr hcomparison)
    case fieldType => exact (fits_iff rfl).mpr (accepts_describedFieldType_iff.mpr hfieldType)
    case fieldName =>
      exact (fits_iff rfl).mpr (accepts_described .string (.string _) List.mem_cons_self)
    case compareTo =>
      exact (fits_iff rfl).mpr (accepts_singleton_iff.mpr accepts_description)

theorem WellFormed.listed {condition : Condition} (h : condition.WellFormed) :
    condition.Listed := by
  constructor
  · cases hcomparison : condition.comparison with
    | unrecognized name => exact absurd hcomparison (h.comparison name)
    | equals | greaterThan | lessThan => decide
  · cases htype : condition.fieldType with
    | unrecognized name => exact absurd htype (fieldType_ne_of_reads h.compareTo name)
    | string | number | date => decide

end Condition

namespace Node

theorem forall_mem_ifSome {α : Type} {key : String} {encode : α → Json} {v? : Option α}
    {P : String × Json → Prop} (h : ∀ v, P (key, encode v)) :
    ∀ member ∈ ifSome key encode v?, P member := by
  cases v? with
  | none => nofun
  | some v => exact List.forall_mem_singleton.mpr (h v)

end Node

/-- A count is a whole number that is not below zero. -/
theorem Schema.accepts_count {about : String} (n : UInt32) :
    Accepts treeDefinitions
      [.description about, .type [.integer, .null], .format "uint32", .minimum (.zero false)]
      (.ofNat n.toNat) := by
  have hinteger : Json.HasType "integer" (.ofNat n.toNat) := .integer _ (Int.dvd_mul_left ..)
  have hzero : (Binary64.zero false).units = 0 := by decide
  have hminimum : ∀ m, Json.ofNat n.toNat = .number m → (Binary64.zero false).units ≤ m.units := by
    rintro _ ⟨⟩
    rw [hzero]
    exact Int.mul_nonneg (Int.natCast_nonneg _) (Int.pow_nonneg (by decide))
  refine accepts_of_forall ?_
  simp only [List.forall_mem_cons]
  exact ⟨accepts_description, accepts_type List.mem_cons_self hinteger,
    accepts_annotated (by decide), .minimum hminimum, nofun⟩

theorem Schema.accepts_outputs {about : String} (outputs : List (List Action)) :
    Accepts treeDefinitions
      [.description about, .type [.array, .null],
        .items [.type [.array], .items [.reference "Action"]]]
      (.array (outputs.map Node.encodeActions)) := by
  have hitems : ∀ item ∈ outputs.map Node.encodeActions,
      Accepts treeDefinitions [.type [.array], .items [.reference "Action"]] item := by
    intro item hitem
    obtain ⟨actions, -, rfl⟩ := List.mem_map.mp hitem
    refine accepts_of_forall ?_
    simp only [List.forall_mem_cons]
    exact ⟨accepts_type List.mem_cons_self (.array _),
      accepts_items (Action.accepts_referring_encode actions), nofun⟩
  refine accepts_of_forall ?_
  simp only [List.forall_mem_cons]
  exact ⟨accepts_description, accepts_type List.mem_cons_self (.array _), accepts_items hitems,
    nofun⟩

namespace Tree

/-- The published document describes the encoding of a tree exactly if the names in the condition of
the tree are listed there. -/
theorem describes_encode_iff (tree : Tree) :
    ofTree.encode.Describes tree.encode ↔ tree.root.condition.Listed := by
  constructor
  · intro h
    have hfits := Accepts.fits h (by decide) (List.mem_of_getElem? (i := 5) rfl)
    have hcondition := hfits ("condition", tree.root.condition.encode)
      (List.mem_cons_of_mem _ (by simp [Node.encodeMembers]))
    exact tree.root.condition.accepts_encode_iff.mp
      ((accepts_referring_iff rfl).mp ((fits_iff rfl).mp hcondition))
  · intro hlisted
    have hannotated : ∀ keyword ∈ [draft, .title "DecisionTree",
        .description "A named decision node, the unit a caller submits for evaluation"],
        keyword.name ∈ Json.annotations := by decide
    have hdefinitions : ∀ keyword ∈ ofTree.drop 6, keyword.name ∈ Json.annotations := by decide
    have hrequired : ∀ name ∈ ["condition", "name"],
        name ∈ (("name", .string tree.name) :: tree.root.encodeMembers).map Prod.fst := by
      simp [Node.encodeMembers]
    refine accepts_object hannotated hdefinitions hrequired ?_
    rw [List.forall_mem_cons, Node.encodeMembers]
    simp only [List.forall_mem_append, List.forall_mem_cons]
    refine ⟨?name, ⟨⟨⟨⟨⟨?condition, ?trueActions, nofun⟩, ?falseActions⟩, ?conditionResult⟩,
      ?repeatCount⟩, ?subActions⟩, ?subtreeOutputs⟩
    case name =>
      exact (fits_iff rfl).mpr (accepts_described .string (.string _) List.mem_cons_self)
    case condition =>
      exact (fits_iff rfl).mpr ((accepts_referring_iff rfl).mpr
        (tree.root.condition.accepts_encode_iff.mpr hlisted))
    case trueActions =>
      exact (fits_iff rfl).mpr (accepts_of_forall (List.forall_mem_cons.mpr
        ⟨accepts_annotated (by decide), Action.accepts_encodeActions _ List.mem_cons_self⟩))
    case falseActions =>
      exact Node.forall_mem_ifSome fun actions => (fits_iff rfl).mpr
        (accepts_of_forall (Action.accepts_encodeActions actions List.mem_cons_self))
    case conditionResult =>
      exact Node.forall_mem_ifSome fun holds =>
        (fits_iff rfl).mpr (accepts_described .boolean (.boolean holds) List.mem_cons_self)
    case repeatCount =>
      exact Node.forall_mem_ifSome fun count => (fits_iff rfl).mpr (accepts_count count)
    case subActions =>
      split
      · nofun
      · exact List.forall_mem_singleton.mpr ((fits_iff rfl).mpr
          (accepts_of_forall (Action.accepts_encodeActions _ List.mem_cons_self)))
    case subtreeOutputs =>
      exact Node.forall_mem_ifSome fun outputs => (fits_iff rfl).mpr (accepts_outputs outputs)

end Tree

/-! ## The document that is given out -/

theorem Http.handle_treeSchema {service : Service} {request : Request}
    (get : request.method = .get) (path : request.path = "/api/schema/decision-tree")
    (past : List Call) :
    handle service request past =
      ⟨[], .ok ((Response.json 200 ofTree.encode).withHeaders readable)⟩ := by
  have hroute : Route.ofPath? request.path = some .treeSchema := by
    rw [path]
    decide
  exact handle_of_allowed hroute (by rw [get]; decide) (by rw [get]; decide) rfl

/-- Asking for the schema needs a configuration that can be read, like all commands but help. -/
theorem Command.start_schema {platform : Platform} {environment : Environment} {config : Config}
    (configured : Config.read (environmentIn platform.directory environment) = .ok config) :
    start platform environment ["schema"] =
      .finished (platform.print (environmentIn platform.directory environment)
        (ofTree.encode.pretty ++ "\n")) := by
  have hcommand : ofArguments? ["schema"] = some .schema := by rfl
  rw [start, hcommand]
  simp only [configured]
  rfl

/-- The route of the schema and the command of the schema give out one document. It describes the
encodings of all trees that a validator accepts, and of all results of their evaluation, with any
executors on any data. -/
theorem Tree.encodings_conform (validator : Validator) (tree : Tree)
    (accepted : validator.validate tree = .ok ()) :
    let document := ofTree.encode
    (∀ (service : Service) (request : Http.Request) (past : List Call),
      request.method = .get → request.path = "/api/schema/decision-tree" →
      Http.handle service request past =
        ⟨[], .ok ((Http.Response.json 200 document).withHeaders Http.readable)⟩) ∧
    (∀ (platform : Platform) (environment : Environment) (config : Config),
      Config.read (Command.environmentIn platform.directory environment) = .ok config →
      Command.start platform environment ["schema"] = .finished
        { status := 0
          output := document.pretty ++ "\n"
          errors := platform.logger.write
            (Command.environmentIn platform.directory environment) [] }) ∧
    document.Describes tree.encode ∧
    ∀ (registry : Registry) (data : Record) (past : List Call) (output : Tree),
      (tree.evaluate registry data past).outcome = .ok output →
        document.Describes output.encode := by
  intro document
  have hlisted : tree.root.condition.Listed :=
    (Validator.validate_eq_ok_iff.mp accepted).condition.listed
  refine ⟨fun _ _ past get path => Http.handle_treeSchema get path past,
    fun _ _ _ => Command.start_schema, tree.describes_encode_iff.mpr hlisted, ?_⟩
  intro registry data past output success
  obtain ⟨holds, -, -, -, rfl⟩ := exists_holds_of_evaluate_ok success
  refine (describes_encode_iff _).mpr ?_
  rw [Node.annotate_condition]
  exact hlisted

/-- The reminder before it is sent, and with the results of its five calls. -/
theorem Tree.reminder_conforms :
    (Validator.ofRegistry .counting 2).validate ⟨"week", .reminder⟩ = .ok () ∧
      ofTree.encode.Describes (encode ⟨"week", .reminder⟩) ∧
      ∃ output, (evaluate .counting ⟨"week", .reminder⟩ [("due", .string "exam")] []).outcome =
          .ok output ∧
        ofTree.encode.Describes output.encode := by
  have accepted : (Validator.ofRegistry .counting 2).validate ⟨"week", .reminder⟩ = .ok () := by
    rfl
  obtain ⟨output, success⟩ : ∃ output,
      (evaluate .counting ⟨"week", .reminder⟩ [("due", .string "exam")] []).outcome =
        .ok output := ⟨_, rfl⟩
  obtain ⟨-, -, htree, houtput⟩ := encodings_conform _ _ accepted
  exact ⟨accepted, htree, output, success, houtput _ _ _ output success⟩

end Verdict
