import EntityQuery.Configuration.Basic

/-!
# Configuration/Schema — the schema of configuration files

A schema is a list of keywords, as JSON Schema (draft 07) has them. `configurationSchema` describes
the files that are written and read here; `Schema.toJson` is the document that is kept beside a
configuration.
-/

namespace EntityQuery

/-- A keyword of a schema with its value. -/
inductive Keyword where
  /-- A remark. -/
  | description (text : String)
  /-- The value of a key that is left out; a remark, too. -/
  | default (value : Json)
  /-- The value has a type. -/
  | type (name : String)
  /-- The value has one of some types. -/
  | types (names : List String)
  /-- An object has some keys. -/
  | required (keys : List String)
  /-- The values of some keys meet schemas. -/
  | properties (schemas : List (String × List Keyword))
  /-- The values of all other keys meet a schema. -/
  | additional (schema : List Keyword)
  /-- There are no other keys. -/
  | closed
  /-- The value is one of some texts. -/
  | oneText (values : List String)
  /-- The value meets one schema or more. -/
  | anyOf (schemas : List (List Keyword))
  /-- The value meets exactly one schema. -/
  | oneOf (schemas : List (List Keyword))
  /-- The value meets every schema. -/
  | allOf (schemas : List (List Keyword))
  /-- The value meets a definition. -/
  | ref (name : String)

/-- A schema: what all of its keywords ask for. -/
abbrev Schema : Type := List Keyword

/-- A schema with the definitions that it refers to. -/
structure SchemaDocument where
  /-- The title. -/
  title : String
  /-- The schema of the document. -/
  root : Schema
  /-- The definitions by name. -/
  definitions : List (String × Schema)

/-! ## As a value -/

namespace Schema

mutual

/-- A keyword as a member. -/
def member : Keyword → String × Json
  | .description text => ("description", .str text)
  | .default value => ("default", value)
  | .type name => ("type", .str name)
  | .types names => ("type", .arr (names.map .str))
  | .required keys => ("required", .arr (keys.map .str))
  | .properties schemas => ("properties", .obj (namedSchemas schemas))
  | .additional schema => ("additionalProperties", .obj (members schema))
  | .closed => ("additionalProperties", .bool false)
  | .oneText values => ("enum", .arr (values.map .str))
  | .anyOf schemas => ("anyOf", .arr (schemaList schemas))
  | .oneOf schemas => ("oneOf", .arr (schemaList schemas))
  | .allOf schemas => ("allOf", .arr (schemaList schemas))
  | .ref name => ("$ref", .str ("#/definitions/" ++ name))

/-- A schema as members. -/
def members : List Keyword → List (String × Json)
  | [] => []
  | keyword :: rest => member keyword :: members rest

/-- Schemas as values. -/
def schemaList : List (List Keyword) → List Json
  | [] => []
  | schema :: rest => .obj (members schema) :: schemaList rest

/-- Named schemas as members. -/
def namedSchemas : List (String × List Keyword) → List (String × Json)
  | [] => []
  | (name, schema) :: rest => (name, .obj (members schema)) :: namedSchemas rest

end

end Schema

namespace SchemaDocument

/-- A schema document as a value. -/
def toJson (document : SchemaDocument) : Json :=
  .obj (("$schema", .str "http://json-schema.org/draft-07/schema#")
    :: ("title", .str document.title)
    :: Schema.members document.root
    ++ [("definitions", .obj (Schema.namedSchemas document.definitions))])

end SchemaDocument

/-! ## The schema of configurations -/

namespace Schema

/-- One text, with a remark. -/
def oneName (description name : String) : Schema :=
  [.description description, .type "string", .oneText [name]]

/-- A text that may be left out. -/
def optionalText : Schema :=
  [.types ["string", "null"]]

/-- The version. -/
def version : Schema :=
  [.type "string", .oneText [Configuration.currentVersion]]

/-- The dialect. -/
def dialect : Schema :=
  [.description "How placeholders are written and how booleans are bound.",
    .type "object",
    .properties [
      ("placeholder", [.default (.str Dialect.generic.placeholder.name),
        .allOf [[.ref "Placeholder"]]]),
      ("booleans", [.default (.str Dialect.generic.booleans.name),
        .allOf [[.ref "BooleanBinding"]]])]]

/-- The placeholders. -/
def placeholder : Schema :=
  [.oneOf [
    oneName "`?` for every parameter." Placeholder.questionMark.name,
    oneName "`$1`, `$2`, ..." Placeholder.numbered.name]]

/-- The bindings of booleans. -/
def booleanBinding : Schema :=
  [.oneOf [
    oneName "Bind booleans as booleans." BooleanBinding.native.name,
    oneName "Bind booleans as the strings `TRUE` and `FALSE`." BooleanBinding.text.name]]

/-- A declared entity. -/
def entity : Schema :=
  [.description "A single entity: its table and its field mapping.",
    .type "object",
    .required ["tableName"],
    .properties [
      ("tableName", [.type "string"]),
      ("fields", [.default (.obj []), .type "object", .additional [.ref "RawField"]])]]

/-- A declared field. -/
def field : Schema :=
  [.description "A field is either a column name or a relation object.",
    .anyOf [[.type "string"], [.ref "RawRelation"]]]

/-- A declared relation. -/
def relation : Schema :=
  [.description "An unclassified relation. Which keys are present decides its kind.",
    .type "object",
    .required ["target"],
    .properties [
      ("target", [.description "Name of the entity this relation points at.", .type "string"]),
      ("bridgeTable", optionalText),
      ("sourceRefKey", optionalText),
      ("targetRefKey", optionalText),
      ("bridgeSourceForeignKey", optionalText),
      ("bridgeTargetForeignKey", optionalText),
      ("sourceForeignKey", optionalText),
      ("targetForeignKey", optionalText)],
    .closed]

/-- A configuration. -/
def configuration : Schema :=
  [.description "The configuration as it is stored on disk.",
    .type "object",
    .required ["version"],
    .properties [
      ("version", [.description "Which version of the configuration format are we using",
        .allOf [[.ref "Version"]]]),
      ("dialect", [.description "Placeholder and boolean conventions of the target database",
        .default Dialect.generic.toJson, .allOf [[.ref "Dialect"]]]),
      ("entities", [.description "Entities by logical name", .default (.obj []),
        .type "object", .additional [.ref "RawEntity"]])]]

end Schema

/-- The schema of configuration files. -/
def configurationSchema : SchemaDocument where
  title := "ParsedConfiguration"
  root := Schema.configuration
  definitions := [
    ("Version", Schema.version),
    ("Dialect", Schema.dialect),
    ("Placeholder", Schema.placeholder),
    ("BooleanBinding", Schema.booleanBinding),
    ("RawEntity", Schema.entity),
    ("RawField", Schema.field),
    ("RawRelation", Schema.relation)]

end EntityQuery
