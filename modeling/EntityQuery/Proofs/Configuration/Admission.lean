import EntityQuery.Proofs.Configuration.Validity
import EntityQuery.Proofs.Reading.Known

/-!
# Proofs/Configuration/Admission — readers take what schemas admit

A schema *ensures* what holds of every value that meets it and repeats no key (`Schema.Ensures`),
with one lemma for each keyword that can be relied on.  It *admits* a reader if it ensures that the
reader takes the value (`Schema.Admits`).  A schema that describes the fields of a record admits the
record's reader (`Schema.Describes.admits`), and so, from the definitions up, the schemas of
configurations admit the readers of what they are about (`Schema.describes_configuration`).
-/

namespace EntityQuery

/-! ## Keys that differ -/

/-- No key is repeated in any object. -/
inductive Json.KeysDiffer : Json → Prop
  | null : KeysDiffer .null
  | bool (value : Bool) : KeysDiffer (.bool value)
  | num (value : Number) : KeysDiffer (.num value)
  | str (value : String) : KeysDiffer (.str value)
  | arr {items : List Json} (differ : ∀ item ∈ items, KeysDiffer item) : KeysDiffer (.arr items)
  | obj {members : List (String × Json)} (nodup : (Entries.names members).Nodup)
      (differ : ∀ member ∈ members, KeysDiffer member.2) : KeysDiffer (.obj members)

/-! ## What a schema ensures -/

namespace Schema

variable {α β : Type} {meaning : Meaning} {schema : Schema} {P : Json → Prop}
  {read : Node → Except Complaint α}

/-- Every value that meets the schema has a property, if it repeats no key. -/
def Ensures (meaning : Meaning) (schema : Schema) (P : Json → Prop) : Prop :=
  ∀ value : Json, value.KeysDiffer → schema.meets meaning value = true → P value

/-- A reference ensures what its definition does. -/
theorem ensures_ref {document : SchemaDocument} {name : String} {depth : Nat}
    (hname : document.definitions.lookup name = some schema)
    (h : schema.Ensures (document.meaning depth) P) :
    Ensures (document.meaning (depth + 1)) [.ref name] P :=
  fun value hkeys hmeets => h value hkeys ((SchemaDocument.meets_ref_iff hname).mp hmeets)

section Keywords

variable (hplain : schema.reference? = none)

include hplain

/-- What one keyword asks for is ensured. -/
theorem Ensures.of_keyword {keyword : Keyword} (hmem : keyword ∈ schema)
    (h : ∀ value : Json, value.KeysDiffer → meetsKeyword meaning schema keyword value = true →
      P value) : schema.Ensures meaning P :=
  fun value hkeys hmeets => h value hkeys ((meets_iff hplain).mp hmeets keyword hmem)

theorem ensures_string (hmem : .type "string" ∈ schema) (h : ∀ text, P (.str text)) :
    schema.Ensures meaning P := by
  refine .of_keyword hplain hmem fun value _ hstring => ?_
  obtain ⟨text, rfl⟩ := meetsKeyword_string.mp hstring
  exact h text

theorem ensures_oneText {texts : List String} (hmem : .oneText texts ∈ schema)
    (h : ∀ text ∈ texts, P (.str text)) : schema.Ensures meaning P := by
  refine .of_keyword hplain hmem fun value _ hone => ?_
  obtain ⟨text, htext, rfl⟩ := meetsKeyword_oneText.mp hone
  exact h text htext

/-- What one of the schemas ensures, all of them together do. -/
theorem ensures_allOf {schemas : List Schema} (hmem : .allOf schemas ∈ schema) {inner : Schema}
    (hinner : inner ∈ schemas) (h : inner.Ensures meaning P) : schema.Ensures meaning P :=
  .of_keyword hplain hmem fun value hkeys hall =>
    h value hkeys (meetsKeyword_allOf.mp hall inner hinner)

/-- What every alternative ensures, the choice does. -/
theorem ensures_anyOf {schemas : List Schema} (hmem : .anyOf schemas ∈ schema)
    (h : ∀ inner ∈ schemas, inner.Ensures meaning P) : schema.Ensures meaning P := by
  refine .of_keyword hplain hmem fun value hkeys hany => ?_
  obtain ⟨inner, hinner, hmeets⟩ := meetsKeyword_anyOf.mp hany
  exact h inner hinner value hkeys hmeets

/-- What every alternative ensures, the choice of one does. -/
theorem ensures_oneOf {schemas : List Schema} (hmem : .oneOf schemas ∈ schema)
    (h : ∀ inner ∈ schemas, inner.Ensures meaning P) : schema.Ensures meaning P := by
  refine .of_keyword hplain hmem fun value hkeys hone => ?_
  have hsome : 0 < schemas.countP fun inner => meets meaning inner value := by
    rw [meetsKeyword_oneOf.mp hone]
    exact Nat.one_pos
  obtain ⟨inner, hinner, hmeets⟩ := List.countP_pos_iff.mp hsome
  exact h inner hinner value hkeys hmeets

end Keywords

/-! ## Values that are read -/

/-- Every value that meets the schema is read, if it repeats no key. -/
def Admits (meaning : Meaning) (schema : Schema) (read : Node → Except Complaint α) : Prop :=
  schema.Ensures meaning fun value => ∃ result, read (Node.ofJson value) = .ok result

/-- What is made of the result does not matter as long as something is. -/
theorem Admits.bind {make : α → Except Complaint β} (h : schema.Admits meaning read)
    (hmake : ∀ a, ∃ b, make a = .ok b) : schema.Admits meaning fun node => read node >>= make := by
  intro value hkeys hmeets
  obtain ⟨a, ha⟩ := h value hkeys hmeets
  obtain ⟨b, hb⟩ := hmake a
  exact ⟨b, Except.bind_eq_ok.mpr ⟨a, ha, hb⟩⟩

theorem Admits.map (h : schema.Admits meaning read) (make : α → β) :
    schema.Admits meaning fun node => (read node).map make :=
  fun value hkeys hmeets => Except.exists_map_eq_ok.mpr (h value hkeys hmeets)

/-- A text or null is read as an optional text. -/
theorem admits_optionalText : optionalText.Admits meaning (Node.readOption Node.readText) := by
  refine .of_keyword rfl (.head _) fun value _ h => ?_
  cases value with
  | null => exact ⟨none, rfl⟩
  | str text => exact ⟨some text, rfl⟩
  | _ => simp [meetsKeyword, Json.hasType] at h

/-- Entries are read if no key is listed and what is asked of all other keys is read. -/
theorem admits_entries (hplain : schema.reference? = none) (hobject : .type "object" ∈ schema)
    {other : Schema} (hother : .additional other ∈ schema) (hlisted : schema.listed = [])
    (h : other.Admits meaning read) : schema.Admits meaning (Node.readEntries read) := by
  intro value hkeys hmeets
  obtain ⟨members, rfl⟩ := meetsKeyword_object.mp ((meets_iff hplain).mp hmeets _ hobject)
  have hmembers := meetsKeyword_additional.mp ((meets_iff hplain).mp hmeets _ hother)
  simp only [hlisted, List.not_mem_nil, false_or] at hmembers
  cases hkeys with
  | obj _ hdiffer =>
    have hread : ∀ member ∈ members, ∃ entry,
        (read (Node.ofJson member.2)).map (Prod.mk member.1) = .ok entry := fun member hmember =>
      Except.exists_map_eq_ok.mpr (h member.2 (hdiffer member hmember) (hmembers member hmember))
    obtain ⟨entries, hentries⟩ := Except.exists_mapM_eq_ok.mpr hread
    exact ⟨Entries.ofList entries, by rw [Node.readEntries_ofJson, hentries]; rfl⟩

/-! ### Records -/

variable {σ : Type} {record : Record σ}

/-- A schema describes a record: it lists the fields in their order, with schemas that admit their
readers, and it is as strict about fields that are left out and keys that are not known. -/
structure Describes (meaning : Meaning) (schema : Schema) (record : Record σ) : Prop where
  plain : schema.reference? = none
  object : .type "object" ∈ schema
  fields : ∃ schemas, .properties schemas ∈ schema ∧ schema.listed = schemas.map Prod.fst
    ∧ List.Forall₂ (fun entry field => entry.1 = field.name ∧ Admits meaning entry.2 field.read)
      schemas record.fields
  required : ∀ name ∈ (record.fields.filter RecordField.required).map RecordField.name,
    ∃ keys, .required keys ∈ schema ∧ name ∈ keys
  closed : record.closed = true → .closed ∈ schema

/-- **A schema that describes a record admits its reader.** -/
theorem Describes.admits (h : schema.Describes meaning record) (source : Source) (start : σ) :
    schema.Admits meaning (record.read source start) := by
  intro value hkeys hmeets
  have hkeyword := (meets_iff h.plain).mp hmeets
  obtain ⟨members, rfl⟩ := meetsKeyword_object.mp (hkeyword _ h.object)
  obtain ⟨schemas, hproperties, hlisted, hfields⟩ := h.fields
  cases hkeys with
  | obj hnodup hdiffer =>
    refine record.exists_read_ofJson source start hnodup
      (fun member hmember field hfield hname => ?_) (fun hclosed member hmember => ?_)
      (fun field hfield hrequired => ?_)
    · obtain ⟨entry, hentry, hkey, hadmits⟩ := exists_of_mem_forall₂ hfields.flip field hfield
      exact hadmits member.2 (hdiffer member hmember) (meetsKeyword_properties.mp
        (hkeyword _ hproperties) entry hentry member hmember (hname.symm.trans hkey.symm))
    · have hmem := meetsKeyword_closed.mp (hkeyword _ (h.closed hclosed)) member.1
        (List.mem_map_of_mem hmember)
      obtain ⟨entry, hentry, hkey⟩ := List.mem_map.mp (hlisted ▸ hmem)
      obtain ⟨field, hfield, hname, -⟩ := exists_of_mem_forall₂ hfields entry hentry
      exact ⟨field, hfield, hname.symm.trans hkey⟩
    · obtain ⟨keys, hmem, hname⟩ := h.required field.name
        (List.mem_map_of_mem (List.mem_filter.mpr ⟨hfield, hrequired⟩))
      exact meetsKeyword_required.mp (hkeyword _ hmem) field.name hname

/-! ### The definitions -/

/-- Where only one name is valid, it is enough that this one is read. -/
theorem admits_oneName {name : String} (h : ∃ result, read (.str name) = .ok result)
    (description : String) : (oneName description name).Admits meaning read :=
  ensures_oneText rfl (.tail _ (.tail _ (.head _))) (List.forall_mem_singleton.mpr h)

theorem admits_version : version.Admits meaning
    (Names.read .text [(Configuration.currentVersion, ())]) :=
  ensures_oneText rfl (.tail _ (.head _)) (List.forall_mem_singleton.mpr ⟨(), rfl⟩)

theorem admits_placeholder : placeholder.Admits meaning (Names.read .text Placeholder.names) := by
  refine ensures_oneOf rfl (.head _) (List.forall_mem_cons.mpr ⟨?_, ?_⟩)
  · exact admits_oneName ⟨.questionMark, rfl⟩ _
  · exact List.forall_mem_singleton.mpr (admits_oneName ⟨.numbered, rfl⟩ _)

theorem admits_booleanBinding :
    booleanBinding.Admits meaning (Names.read .text BooleanBinding.names) := by
  refine ensures_oneOf rfl (.head _) (List.forall_mem_cons.mpr ⟨?_, ?_⟩)
  · exact admits_oneName ⟨.native, rfl⟩ _
  · exact List.forall_mem_singleton.mpr (admits_oneName ⟨.text, rfl⟩ _)

variable (depth : Nat)

/-- A dialect may leave out its fields, by its schema as by its reader. -/
theorem describes_dialect :
    dialect.Describes (configurationSchema.meaning (depth + 1)) (Dialect.record .text) where
  plain := rfl
  object := .tail _ (.head _)
  fields := by
    have hplaceholder : Admits (configurationSchema.meaning (depth + 1)) [.ref "Placeholder"]
      (Names.read .text Placeholder.names) := ensures_ref rfl admits_placeholder
    have hbooleans : Admits (configurationSchema.meaning (depth + 1)) [.ref "BooleanBinding"]
      (Names.read .text BooleanBinding.names) := ensures_ref rfl admits_booleanBinding
    refine ⟨_, .tail _ (.tail _ (.head _)), rfl, .cons ⟨rfl, ?_⟩ (.cons ⟨rfl, ?_⟩ .nil)⟩
    · exact .bind (ensures_allOf rfl (.tail _ (.head _)) (.head _) hplaceholder) fun _ => ⟨_, rfl⟩
    · exact .bind (ensures_allOf rfl (.tail _ (.head _)) (.head _) hbooleans) fun _ => ⟨_, rfl⟩
  required := nofun
  closed := nofun

theorem describes_relation : relation.Describes meaning RelationDecl.record where
  plain := rfl
  object := .tail _ (.head _)
  fields := by
    have hoptional : ∀ name set, name = (RelationDecl.optionalField name set).name
        ∧ optionalText.Admits meaning (RelationDecl.optionalField name set).read :=
      fun name set => ⟨rfl, admits_optionalText.map set⟩
    refine ⟨_, .tail _ (.tail _ (.tail _ (.head _))), rfl, .cons ⟨rfl, ?_⟩ ?_⟩
    · exact .bind (ensures_string rfl (.tail _ (.head _)) fun text => ⟨text, rfl⟩) fun _ => ⟨_, rfl⟩
    · repeat' first | exact .nil | refine .cons (hoptional _ _) ?_
  required := by
    refine List.forall_mem_singleton.mpr ⟨["target"], ?_, .head _⟩
    exact .tail _ (.tail _ (.head _))
  closed _ := .tail _ (.tail _ (.tail _ (.tail _ (.head _))))

/-- What is read as a relation is read as a field. -/
theorem ofNode_of_read_relation {value : Json} {declared : RelationDecl}
    (h : RelationDecl.record.read .value {} (Node.ofJson value) = .ok declared) :
    FieldDecl.ofNode (Node.ofJson value) = .ok (.relation declared) := by
  have hmapped : Except.mapError (fun _ => Complaint.noShape "RawField")
      ((RelationDecl.record.read .value {} (Node.ofJson value)).map FieldDecl.relation)
      = .ok (.relation declared) := by
    rw [h]
    rfl
  unfold FieldDecl.ofNode
  rw [Node.content_ofJson]
  cases value with
  | str name => exact nomatch h
  | _ => exact hmapped

/-- A column or a relation is read as a field. -/
theorem admits_field :
    field.Admits (configurationSchema.meaning (depth + 1)) FieldDecl.ofNode := by
  refine ensures_anyOf rfl (.tail _ (.head _)) (List.forall_mem_cons.mpr ⟨?_, ?_⟩)
  · exact ensures_string rfl (.head _) fun text => ⟨.column text, rfl⟩
  · have hrelation : Admits (configurationSchema.meaning (depth + 1)) [.ref "RawRelation"]
      (RelationDecl.record.read .value {}) := ensures_ref rfl (describes_relation.admits .value {})
    refine List.forall_mem_singleton.mpr fun value hkeys hmeets => ?_
    obtain ⟨declared, hdeclared⟩ := hrelation value hkeys hmeets
    exact ⟨.relation declared, ofNode_of_read_relation hdeclared⟩

/-- The schema of an entity leaves its columns to the schema of fields. -/
theorem describes_entity :
    entity.Describes (configurationSchema.meaning (depth + 2)) EntityDecl.record where
  plain := rfl
  object := .tail _ (.head _)
  fields := by
    have hfield : Admits (configurationSchema.meaning (depth + 2)) [.ref "RawField"]
      FieldDecl.ofNode := ensures_ref rfl (admits_field depth)
    refine ⟨_, .tail _ (.tail _ (.tail _ (.head _))), rfl, .cons ⟨rfl, ?_⟩ (.cons ⟨rfl, ?_⟩ .nil)⟩
    · exact .bind (ensures_string rfl (.head _) fun text => ⟨text, rfl⟩) fun _ => ⟨_, rfl⟩
    · exact .bind (admits_entries rfl (.tail _ (.head _)) (.tail _ (.tail _ (.head _))) rfl hfield)
        fun _ => ⟨_, rfl⟩
  required := by
    refine List.forall_mem_singleton.mpr ⟨["tableName"], ?_, .head _⟩
    exact .tail _ (.tail _ (.head _))
  closed := nofun

/-- The schema of a configuration is open, as its reader is. -/
theorem describes_configuration :
    configuration.Describes (configurationSchema.meaning (depth + 3)) Configuration.record where
  plain := rfl
  object := .tail _ (.head _)
  fields := by
    have hversion : Admits (configurationSchema.meaning (depth + 3)) [.ref "Version"]
      (Names.read .text [(Configuration.currentVersion, ())]) := ensures_ref rfl admits_version
    have hdialect : Admits (configurationSchema.meaning (depth + 3)) [.ref "Dialect"]
      (Dialect.ofNode .text) := ensures_ref rfl ((describes_dialect (depth + 1)).admits .text {})
    have hentity : Admits (configurationSchema.meaning (depth + 3)) [.ref "RawEntity"]
      EntityDecl.ofNode := ensures_ref rfl ((describes_entity depth).admits .text ⟨"", .empty⟩)
    refine ⟨_, .tail _ (.tail _ (.tail _ (.head _))), rfl,
      .cons ⟨rfl, ?_⟩ (.cons ⟨rfl, ?_⟩ (.cons ⟨rfl, ?_⟩ .nil))⟩
    · exact .bind (ensures_allOf rfl (.tail _ (.head _)) (.head _) hversion) fun _ => ⟨_, rfl⟩
    · exact .bind (ensures_allOf rfl (.tail _ (.tail _ (.head _))) (.head _) hdialect)
        fun _ => ⟨_, rfl⟩
    · refine .bind (.map ?_ SortedMap.ofList) fun _ => ⟨_, rfl⟩
      exact admits_entries rfl (.tail _ (.tail _ (.head _))) (.tail _ (.tail _ (.tail _ (.head _))))
        rfl hentity
  required := by
    refine List.forall_mem_singleton.mpr ⟨["version"], ?_, .head _⟩
    exact .tail _ (.tail _ (.head _))
  closed := nofun

end Schema

end EntityQuery
