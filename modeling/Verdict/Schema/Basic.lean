import Verdict.Json.Basic

/-!
# JSON Schemas

A schema is a list of keywords, and a value satisfies it when it satisfies every one of them.
Titles, descriptions, formats and defaults are annotations that no value can violate.
-/

namespace Verdict

/-- Names of the types of JSON values. -/
inductive JsonType
  | null
  | boolean
  | integer
  | string
  | array
  | object
deriving DecidableEq, Repr, Inhabited

namespace JsonType

def name : JsonType → String
  | null => "null"
  | boolean => "boolean"
  | integer => "integer"
  | string => "string"
  | array => "array"
  | object => "object"

end JsonType

inductive Keyword
  /-- The dialect that the document is written in. -/
  | dialect (uri : String)
  | title (text : String)
  | description (text : String)
  | format (name : String)
  | default (value : Json)
  | type (types : List JsonType)
  /-- The strings that are allowed. -/
  | words (allowed : List String)
  | minimum (bound : Binary64)
  | items (schema : List Keyword)
  | properties (fields : List (String × List Keyword))
  | additionalProperties (allowed : Bool)
  | required (names : List String)
  | anyOf (schemas : List (List Keyword))
  | allOf (schemas : List (List Keyword))
  /-- The schema of this name among the definitions. -/
  | reference (name : String)
  | definitions (schemas : List (String × List Keyword))
deriving Repr, Inhabited

abbrev Schema := List Keyword

namespace Keyword

def name : Keyword → String
  | dialect _ => "$schema"
  | title _ => "title"
  | description _ => "description"
  | format _ => "format"
  | default _ => "default"
  | type _ => "type"
  | words _ => "enum"
  | minimum _ => "minimum"
  | items _ => "items"
  | properties _ => "properties"
  | additionalProperties _ => "additionalProperties"
  | required _ => "required"
  | anyOf _ => "anyOf"
  | allOf _ => "allOf"
  | reference _ => "$ref"
  | definitions _ => "definitions"

def strings (names : List String) : Json := .array (names.map .string)

end Keyword

/-! ## Schemas as JSON -/

mutual

/-- What a keyword says, as JSON; a single type stands without a list. -/
def Keyword.encode (keyword : Keyword) : Json :=
  match keyword with
  | .dialect text | .title text | .description text | .format text => .string text
  | .default value => value
  | .type [type] => .string type.name
  | .type types => Keyword.strings (types.map JsonType.name)
  | .words allowed => Keyword.strings allowed
  | .minimum bound => .number (.real bound)
  | .items schema => .object (Schema.encodeOnto [] schema)
  | .properties fields => .object (Schema.encodeFields [] fields)
  | .additionalProperties allowed => .bool allowed
  | .required names => Keyword.strings names
  | .anyOf schemas => .array (Schema.encodeAll schemas)
  | .allOf schemas => .array (Schema.encodeAll schemas)
  | .reference name => .string ("#/definitions/" ++ name)
  | .definitions schemas => .object (Schema.encodeFields [] schemas)

def Schema.encodeOnto (record : Record) (schema : List Keyword) : Record :=
  match schema with
  | [] => record
  | keyword :: rest => Schema.encodeOnto (record.insert keyword.name keyword.encode) rest

def Schema.encodeFields (record : Record) (fields : List (String × List Keyword)) : Record :=
  match fields with
  | [] => record
  | (name, schema) :: rest =>
    Schema.encodeFields (record.insert name (.object (Schema.encodeOnto [] schema))) rest

def Schema.encodeAll (schemas : List (List Keyword)) : List Json :=
  match schemas with
  | [] => []
  | schema :: rest => .object (Schema.encodeOnto [] schema) :: Schema.encodeAll rest

end

namespace Schema

def encode (schema : Schema) : Json := .object (encodeOnto [] schema)

/-- The dialect of all published schemas. -/
def draft : Keyword := .dialect "http://json-schema.org/draft-07/schema#"

def text : Schema := [.type [.string]]

/-- An object without a rule for its members, empty when it is left out. -/
def openRecord : Schema := [.type [.object], .additionalProperties true, .default (.object [])]

end Schema

end Verdict
