import EntityQuery.Configuration.Schema
import Mathlib.Data.List.Basic

/-!
# Proofs/Configuration/Validity — the values that meet a schema

`Schema.meets` is what JSON Schema (draft 07) makes of a list of keywords.  A keyword about objects
asks nothing of other values, `additional` and `closed` look only at keys that the same schema has
no property for, remarks ask nothing, and beside a reference nothing else counts.

What a name means is a parameter of `meets`.  `SchemaDocument.meaning` looks names up and follows
references up to a depth, and `SchemaDocument.Accepts` is the verdict that no greater depth changes.
-/

namespace EntityQuery

/-- A number without a fraction. -/
def Number.isWhole : Number → Bool
  | .integer _ => true
  | .real x => x.isFinite && Binary64.units x.magnitude % Binary64.unitsInOne == 0

namespace Json

/-- Whether a value has a type. -/
def hasType (value : Json) (name : String) : Bool :=
  match value with
  | .null => name == "null"
  | .bool _ => name == "boolean"
  | .num number => name == "number" || (name == "integer" && number.isWhole)
  | .str _ => name == "string"
  | .arr _ => name == "array"
  | .obj _ => name == "object"

/-- Whether a value is a text. -/
def isText (value : Json) (text : String) : Bool :=
  match value with
  | .str other => other == text
  | _ => false

/-- Tests the members of an object; other values pass. -/
def ifObj (value : Json) (test : List (String × Json) → Bool) : Bool :=
  match value with
  | .obj members => test members
  | _ => true

end Json

/-- The keys that a keyword has schemas for. -/
def Keyword.listed : Keyword → List String
  | .properties schemas => schemas.map Prod.fst
  | _ => []

/-- The definition that a keyword refers to. -/
def Keyword.reference? : Keyword → Option String
  | .ref name => some name
  | _ => none

namespace Schema

/-- Which values meet the definition of a name. -/
abbrev Meaning : Type := String → Json → Bool

/-- The keys that a schema has schemas for. -/
def listed (schema : Schema) : List String :=
  schema.flatMap Keyword.listed

/-- The definition that a schema refers to. -/
def reference? (schema : Schema) : Option String :=
  schema.findSome? Keyword.reference?

/-- Beside a reference, only references count. -/
def counts (schema : Schema) (keyword : Keyword) : Bool :=
  schema.reference?.isNone || keyword.reference?.isSome

mutual

/-- Whether a value meets a keyword of a schema. -/
def meetsKeyword (meaning : Meaning) (schema : Schema) : Keyword → Json → Bool
  | .description _, _ => true
  | .default _, _ => true
  | .type name, value => value.hasType name
  | .types names, value => names.any value.hasType
  | .required keys, value => value.ifObj fun members =>
      keys.all (Entries.names members).contains
  | .properties schemas, value => value.ifObj (meetsListed meaning schemas)
  | .additional other, value => value.ifObj fun members => members.all fun member =>
      schema.listed.contains member.1 || meetsKeywords meaning other other member.2
  | .closed, value => value.ifObj fun members =>
      (Entries.names members).all schema.listed.contains
  | .oneText texts, value => texts.any value.isText
  | .anyOf schemas, value => (verdicts meaning schemas value).any id
  | .oneOf schemas, value => (verdicts meaning schemas value).count true == 1
  | .allOf schemas, value => (verdicts meaning schemas value).all id
  | .ref name, value => meaning name value

/-- Whether a value meets those of some keywords of a schema that count. -/
def meetsKeywords (meaning : Meaning) (schema : Schema) : List Keyword → Json → Bool
  | [], _ => true
  | keyword :: rest, value =>
      (!schema.counts keyword || meetsKeyword meaning schema keyword value)
        && meetsKeywords meaning schema rest value

/-- Whether the members of some keys meet the schemas of the keys. -/
def meetsListed (meaning : Meaning) :
    List (String × List Keyword) → List (String × Json) → Bool
  | [], _ => true
  | (key, schema) :: rest, members =>
      (members.all fun member => member.1 != key || meetsKeywords meaning schema schema member.2)
        && meetsListed meaning rest members

/-- For each of some schemas, whether a value meets it. -/
def verdicts (meaning : Meaning) : List (List Keyword) → Json → List Bool
  | [], _ => []
  | schema :: rest, value =>
      meetsKeywords meaning schema schema value :: verdicts meaning rest value

end

/-- Whether a value meets a schema. -/
def meets (meaning : Meaning) (schema : Schema) (value : Json) : Bool :=
  meetsKeywords meaning schema schema value

/-! ## One keyword after the other -/

-- The equations of the four, worked out once for all that follows.
attribute [local simp] meetsKeyword meetsKeywords meetsListed verdicts

variable {meaning : Meaning} {schema : Schema} {value : Json}

/-- Keywords are met one by one, except those that do not count beside a reference. -/
theorem meetsKeywords_iff {keywords : List Keyword} :
    meetsKeywords meaning schema keywords value = true ↔ ∀ keyword ∈ keywords,
      schema.counts keyword = true → meetsKeyword meaning schema keyword value = true := by
  induction keywords with
  | nil => exact iff_of_true (by rw [meetsKeywords]) nofun
  | cons keyword rest ih =>
    rw [meetsKeywords, Bool.and_eq_true, ih, List.forall_mem_cons, Bool.or_eq_true,
      Bool.not_eq_true', ← Bool.not_eq_true, ← imp_iff_not_or]

/-- **A schema without a reference asks what each of its keywords asks.** -/
theorem meets_iff (h : schema.reference? = none) : schema.meets meaning value = true ↔
    ∀ keyword ∈ schema, meetsKeyword meaning schema keyword value = true := by
  have hcounts : ∀ keyword, schema.counts keyword = true := fun keyword => by
    rw [counts, h]
    rfl
  rw [meets, meetsKeywords_iff]
  simp only [hcounts, true_imp_iff]

/-- A schema without a reference is met if all of its keywords are. -/
theorem meets_iff_forall (h : schema.reference? = none) : schema.meets meaning value = true ↔
    schema.Forall fun keyword => meetsKeyword meaning schema keyword value = true := by
  rw [meets_iff h, List.forall_iff_forall_mem]

/-- A reference is met if what it names is. -/
theorem meets_ref (name : String) : meets meaning [.ref name] value = meaning name value := by
  simp [meets, counts, reference?, Keyword.reference?]

theorem verdicts_eq_map (schemas : List (List Keyword)) :
    verdicts meaning schemas value = schemas.map fun schema => meets meaning schema value := by
  induction schemas with
  | nil => rw [verdicts, List.map_nil]
  | cons schema rest ih => rw [verdicts, ih, List.map_cons, meets]

/-- Listed schemas are met if every member under a listed key meets its own. -/
theorem meetsListed_iff {schemas : List (String × List Keyword)} {members : List (String × Json)} :
    meetsListed meaning schemas members = true ↔ ∀ entry ∈ schemas, ∀ member ∈ members,
      member.1 = entry.1 → meets meaning entry.2 member.2 = true := by
  induction schemas with
  | nil => exact iff_of_true (by rw [meetsListed]) nofun
  | cons entry rest ih =>
    rw [meetsListed, Bool.and_eq_true, ih, List.forall_mem_cons, List.all_eq_true]
    simp only [Bool.or_eq_true, bne_iff_ne, ne_eq, ← imp_iff_not_or, meets]

/-! ## What a keyword asks -/

section Keywords

variable {members : List (String × Json)} {schemas : List Schema}

theorem meetsKeyword_string : meetsKeyword meaning schema (.type "string") value = true
    ↔ ∃ text, value = .str text := by
  cases value <;> simp [Json.hasType]

theorem meetsKeyword_object : meetsKeyword meaning schema (.type "object") value = true
    ↔ ∃ members, value = .obj members := by
  cases value <;> simp [Json.hasType]

/-- Required keys are there. -/
theorem meetsKeyword_required {keys : List String} :
    meetsKeyword meaning schema (.required keys) (.obj members) = true
      ↔ ∀ key ∈ keys, key ∈ Entries.names members := by
  simp [Json.ifObj]

/-- Members under listed keys meet the schemas listed for them. -/
theorem meetsKeyword_properties {schemas : List (String × Schema)} :
    meetsKeyword meaning schema (.properties schemas) (.obj members) = true
      ↔ ∀ entry ∈ schemas, ∀ member ∈ members, member.1 = entry.1 →
        meets meaning entry.2 member.2 = true := by
  rw [meetsKeyword, Json.ifObj, meetsListed_iff]

/-- Members under other keys meet the schema for others. -/
theorem meetsKeyword_additional {other : Schema} :
    meetsKeyword meaning schema (.additional other) (.obj members) = true
      ↔ ∀ member ∈ members, member.1 ∈ schema.listed ∨ meets meaning other member.2 = true := by
  simp [Json.ifObj, meets]

/-- No other keys are there. -/
theorem meetsKeyword_closed :
    meetsKeyword meaning schema .closed (.obj members) = true
      ↔ ∀ name ∈ Entries.names members, name ∈ schema.listed := by
  simp [Json.ifObj]

/-- One of some texts is there. -/
theorem meetsKeyword_oneText {texts : List String} :
    meetsKeyword meaning schema (.oneText texts) value = true
      ↔ ∃ text ∈ texts, value = .str text := by
  cases value <;> simp [Json.isText]

theorem meetsKeyword_allOf : meetsKeyword meaning schema (.allOf schemas) value = true
    ↔ ∀ inner ∈ schemas, meets meaning inner value = true := by
  rw [meetsKeyword, verdicts_eq_map, List.all_map, List.all_eq_true]
  rfl

theorem meetsKeyword_anyOf : meetsKeyword meaning schema (.anyOf schemas) value = true
    ↔ ∃ inner ∈ schemas, meets meaning inner value = true := by
  rw [meetsKeyword, verdicts_eq_map, List.any_map, List.any_eq_true]
  rfl

/-- Exactly one of the schemas is met. -/
theorem meetsKeyword_oneOf : meetsKeyword meaning schema (.oneOf schemas) value = true
    ↔ schemas.countP (fun inner => meets meaning inner value) = 1 := by
  rw [meetsKeyword, verdicts_eq_map, beq_iff_eq, List.count_eq_countP, List.countP_map]
  simp [Function.comp_def]

end Keywords

end Schema

/-! ## Definitions -/

namespace SchemaDocument

/-- What names mean if references are followed no deeper than some depth; beyond it, no value meets
a definition. -/
def meaning (document : SchemaDocument) : Nat → Schema.Meaning
  | 0, _, _ => false
  | depth + 1, name, value =>
      ((document.definitions.lookup name).map fun schema =>
        schema.meets (document.meaning depth) value).getD false

/-- A document accepts the values that meet its root however deep references are followed, from some
depth on. -/
def Accepts (document : SchemaDocument) (value : Json) : Prop :=
  ∃ enough, ∀ depth, enough ≤ depth → document.root.meets (document.meaning depth) value = true

/-- A reference asks what its definition asks. -/
theorem meets_ref_iff {document : SchemaDocument} {name : String} {schema : Schema}
    (h : document.definitions.lookup name = some schema) {depth : Nat} {value : Json} :
    Schema.meets (document.meaning (depth + 1)) [.ref name] value = true
      ↔ schema.meets (document.meaning depth) value = true := by
  rw [Schema.meets_ref, meaning, h]
  rfl

end SchemaDocument

end EntityQuery
