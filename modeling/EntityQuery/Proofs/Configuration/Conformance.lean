import EntityQuery.Proofs.Configuration.Admission
import EntityQuery.Proofs.Configuration.RoundTrip
import EntityQuery.Proofs.Configuration.Version
import EntityQuery.Proofs.Json.Bare
import Mathlib.Data.List.Nodup

/-!
# Proofs/Configuration/Conformance — the schema and the reader describe one format

From the definitions up, every part of a configuration is written as a value that meets the schema
of the part (`Schema.meets_configuration`).  In the other direction, a document that meets the
schema has the current version (`Configuration.last?_version`) and the shape that is read
(`Configuration.exists_parse`).  `schema_and_reader_agree` states both for configuration files.

It is about documents that have a value: the schema has nothing against a number that no double
holds, but whoever looks for the version does (`bareRemarks_not_read`).
-/

namespace EntityQuery

open Json.Grammar (Spells)

/-- Where no key is repeated, the member of a key is the one that stands last. -/
theorem Json.last?_eq_some {members : List (String × Json)} (h : (Entries.names members).Nodup)
    {key : String} {value : Json} :
    last? (.obj members) key = some value ↔ (key, value) ∈ members := by
  have hreverse : (Entries.names members.reverse).Nodup := by
    rwa [Entries.names, List.map_reverse, List.nodup_reverse]
  rw [last?, Entries.get?_eq_some hreverse, List.mem_reverse]

namespace Schema

variable {α : Type} {meaning : Meaning} {schema : Schema} (depth : Nat)

/-! ## Values that are written -/

/-- Members that stand in the order of the schemas of their keys meet them. -/
theorem meetsKeyword_of_forall₂ {schemas : List (String × Schema)} {members : List (String × Json)}
    (hnodup : (Entries.names members).Nodup) (h : List.Forall₂ (fun entry member =>
      entry.1 = member.1 ∧ meets meaning entry.2 member.2 = true) schemas members) :
    meetsKeyword meaning schema (.properties schemas) (.obj members) = true := by
  refine meetsKeyword_properties.mpr fun entry hentry member hmember hkey => ?_
  obtain ⟨other, hother, hname, hmeets⟩ := exists_of_mem_forall₂ h entry hentry
  rwa [List.inj_on_of_nodup_map hnodup hmember hother (hkey.trans hname)]

/-- Entries meet the schema for other keys if all values do. -/
theorem meetsKeyword_mapValues {other : Schema} {toJson : α → Json}
    (h : ∀ a, meets meaning other (toJson a) = true) (entries : Entries α) :
    meetsKeyword meaning schema (.additional other) (.obj (entries.mapValues toJson)) = true := by
  refine meetsKeyword_additional.mpr fun member hmember => .inr ?_
  obtain ⟨a, ha⟩ := Entries.exists_of_mem_mapValues hmember
  rw [ha]
  exact h a

/-- A relation that is written meets its schema, keys that are left out included. -/
theorem meets_relation (declared : RelationDecl) :
    relation.meets meaning declared.toJson = true := by
  refine (meets_iff_forall rfl).mpr ⟨rfl, rfl, rfl, meetsKeyword_properties.mpr ?_, ?_⟩
  · intro entry hentry member hmember _
    obtain ⟨text, htext⟩ := RelationDecl.exists_text_of_mem_members hmember
    rw [htext]
    refine (List.forall_iff_forall_mem (p := fun entry : String × Schema =>
      meets meaning entry.2 (.str text) = true)).mp ?_ entry hentry
    exact ⟨rfl, rfl, rfl, rfl, rfl, rfl, rfl, rfl⟩
  · exact meetsKeyword_closed.mpr fun name hname => declared.names_members.subset hname

theorem meets_field (declared : FieldDecl) :
    field.meets (configurationSchema.meaning (depth + 1)) declared.toJson = true := by
  refine (meets_iff_forall rfl).mpr ⟨rfl, ?_⟩
  cases declared with
  | column name => rfl
  | relation declared =>
    have hrelation : meets (configurationSchema.meaning (depth + 1)) [.ref "RawRelation"]
        declared.toJson = true := (SchemaDocument.meets_ref_iff rfl).mpr (meets_relation declared)
    exact meetsKeyword_anyOf.mpr ⟨_, .tail _ (.head _), hrelation⟩

theorem meets_entity (declared : EntityDecl) :
    entity.meets (configurationSchema.meaning (depth + 2)) declared.toJson = true := by
  have hfield : ∀ field : FieldDecl, meets (configurationSchema.meaning (depth + 2))
      [.ref "RawField"] field.toJson = true := fun field =>
    (SchemaDocument.meets_ref_iff rfl).mpr (meets_field depth field)
  refine (meets_iff_forall rfl).mpr ⟨rfl, rfl, rfl, meetsKeyword_of_forall₂ (by simp) ?_⟩
  refine .cons ⟨rfl, rfl⟩ (.cons ⟨rfl, ?_⟩ .nil)
  exact (meets_iff_forall rfl).mpr
    ⟨rfl, rfl, meetsKeyword_mapValues hfield declared.fields.entries⟩

theorem meets_dialect (declared : Dialect) :
    dialect.meets (configurationSchema.meaning (depth + 1)) declared.toJson = true := by
  rcases declared with ⟨_ | _, _ | _⟩ <;> rfl

/-- **A configuration that is written meets its schema.** -/
theorem meets_configuration (declared : Configuration) :
    configuration.meets (configurationSchema.meaning (depth + 3)) declared.toJson = true := by
  have hdialect : meets (configurationSchema.meaning (depth + 3)) [.ref "Dialect"]
      declared.dialect.toJson = true :=
    (SchemaDocument.meets_ref_iff rfl).mpr (meets_dialect _ declared.dialect)
  have hentity : ∀ entity : EntityDecl, meets (configurationSchema.meaning (depth + 3))
      [.ref "RawEntity"] entity.toJson = true := fun entity =>
    (SchemaDocument.meets_ref_iff rfl).mpr (meets_entity depth entity)
  refine (meets_iff_forall rfl).mpr ⟨rfl, rfl, rfl, meetsKeyword_of_forall₂ (by simp) ?_⟩
  refine .cons ⟨rfl, rfl⟩ (.cons ⟨rfl, ?_⟩ (.cons ⟨rfl, ?_⟩ .nil))
  · exact (meets_iff_forall rfl).mpr
      ⟨rfl, rfl, meetsKeyword_allOf.mpr (List.forall_mem_singleton.mpr hdialect)⟩
  · exact (meets_iff_forall rfl).mpr
      ⟨rfl, rfl, rfl, meetsKeyword_mapValues hentity declared.entities.entries⟩

end Schema

/-! ## Configurations -/

namespace Configuration

/-- Whatever is written as a configuration is accepted. -/
theorem accepts_toJson (configuration : Configuration) :
    configurationSchema.Accepts configuration.toJson := by
  refine ⟨3, fun depth hdepth => ?_⟩
  obtain ⟨more, rfl⟩ := Nat.exists_eq_add_of_le' hdepth
  exact Schema.meets_configuration more configuration

/-- A document that meets the schema has the current version. -/
theorem last?_version {value : Json} {depth : Nat} (hkeys : value.KeysDiffer)
    (h : Schema.configuration.meets (configurationSchema.meaning (depth + 1)) value = true) :
    value.last? "version" = some (.str currentVersion) := by
  have hkeyword := (Schema.meets_iff rfl).mp h
  obtain ⟨members, rfl⟩ := Schema.meetsKeyword_object.mp (hkeyword _ (.tail _ (.head _)))
  have hrequired : "version" ∈ Entries.names members := Schema.meetsKeyword_required.mp
    (hkeyword (.required ["version"]) (.tail _ (.tail _ (.head _)))) "version" (.head _)
  obtain ⟨member, hmember, hname⟩ := List.mem_map.mp hrequired
  have hproperty := Schema.meetsKeyword_properties.mp
    (hkeyword _ (.tail _ (.tail _ (.tail _ (.head _))))) _ (.head _) member hmember hname
  have hversion : Schema.Ensures (configurationSchema.meaning (depth + 1)) [.ref "Version"]
      (· = .str currentVersion) := Schema.ensures_ref rfl
    (Schema.ensures_oneText rfl (.tail _ (.head _)) (List.forall_mem_singleton.mpr rfl))
  cases hkeys with
  | obj hnodup hdiffer =>
    have hvalue : member.2 = .str currentVersion := Schema.ensures_allOf rfl (.tail _ (.head _))
      (.head _) hversion member.2 (hdiffer member hmember) hproperty
    rw [Json.last?_eq_some hnodup, ← hname, ← hvalue]
    exact hmember

/-- A document that meets the schema is read. -/
theorem exists_parse {text : String} {value : Json} {depth : Nat} (hspells : Spells text value)
    (hnesting : value.nesting ≤ maxDepth) (hkeys : value.KeysDiffer)
    (h : Schema.configuration.meets (configurationSchema.meaning (depth + 3)) value = true)
    (file : String) : ∃ configuration, parse file text = .ok configuration := by
  obtain ⟨configuration, hread⟩ :=
    (Schema.describes_configuration depth).admits .text {} value hkeys h
  refine ⟨configuration, ?_⟩
  rw [parse_of_spells hspells hnesting, checkVersion_current (last?_version hkeys h), hread]
  rfl

end Configuration

/-- **The schema and the reader agree.**  What is written as a configuration is accepted by the
schema, and a document within the limit that repeats no key and is accepted by the schema is read as
a configuration. -/
theorem schema_and_reader_agree :
    (∀ configuration : Configuration,
      Spells configuration.text configuration.toJson
      ∧ configurationSchema.Accepts configuration.toJson
      ∧ ∀ (context : CommandContext) (tree written : FileTree),
        context.writeConfiguration tree configuration = (written, .ok ()) →
          written.read context.configurationFile = .ok configuration.text)
    ∧ ∀ (context : CommandContext) (tree : FileTree) (text : String) (value : Json),
      tree.read context.configurationFile = .ok text →
        Spells text value → value.nesting ≤ maxDepth → value.KeysDiffer →
          configurationSchema.Accepts value →
            ∃ configuration, context.readConfiguration tree = .ok configuration := by
  refine ⟨fun configuration => ⟨?_, configuration.accepts_toJson, fun _ _ _ hwrite => ?_⟩, ?_⟩
  · exact Json.spells_prettyLines configuration.numbersReadBack_toJson
  · exact CommandContext.read_of_writeConfiguration hwrite
  · rintro context tree text value hread hspells hnesting hkeys ⟨enough, haccepts⟩
    rw [CommandContext.readConfiguration_of_read hread]
    exact Configuration.exists_parse hspells hnesting hkeys
      (haccepts (enough + 3) (Nat.le_add_right enough 3)) _

/-- An entity with a relation that has a key given as `null`. -/
def sparseEntity : Json :=
  .obj [("tableName", .str "people"),
    ("fields", .obj [("friend", .obj [("target", .str "person"), ("bridgeTable", .null)])])]

/-- The entity, with a remark and a dialect that says nothing. -/
def sparseDocument : Json :=
  .obj [("version", .str "1"), ("remark", .null), ("dialect", .obj []),
    ("entities", .obj [("person", sparseEntity)])]

/-- It is read, although it leaves out what it may. -/
theorem sparseDocument_read :
    (∃ written, CommandContext.writeConfiguration ⟨"conf", none⟩ .empty .empty = (written, .ok ())
      ∧ written.read "conf/configuration.json" = .ok Configuration.empty.text)
    ∧ configurationSchema.Accepts sparseDocument
    ∧ ∃ configuration, CommandContext.readConfiguration ⟨"conf", none⟩
      (treeOf sparseDocument.prettyLines) = .ok configuration := by
  have haccepts : configurationSchema.Accepts sparseDocument := by
    refine ⟨3, fun depth hdepth => ?_⟩
    obtain ⟨more, rfl⟩ := Nat.exists_eq_add_of_le' hdepth
    rfl
  have hspells : Spells sparseDocument.prettyLines sparseDocument := Json.spells_prettyLines (by
    simp [sparseDocument, sparseEntity, Json.NumbersReadBack, Json.EveryNumber,
      Json.EveryNumberMembers])
  have hkeys : sparseDocument.KeysDiffer := by
    have hsingle : ∀ {key : String} {value : Json}, value.KeysDiffer →
        (Json.obj [(key, value)]).KeysDiffer := fun h =>
      .obj (List.nodup_singleton _) (List.forall_mem_singleton.mpr h)
    have hrelation : (Json.obj [("target", .str "person"), ("bridgeTable", .null)]).KeysDiffer :=
      .obj (by decide) (List.forall_iff_forall_mem.mp ⟨.str _, .null⟩)
    have hentity : sparseEntity.KeysDiffer :=
      .obj (by decide) (List.forall_iff_forall_mem.mp ⟨.str _, hsingle hrelation⟩)
    have hempty : (Json.obj []).KeysDiffer := .obj .nil (List.forall_mem_nil _)
    exact .obj (by decide)
      (List.forall_iff_forall_mem.mp ⟨.str _, .null, hempty, hsingle hentity⟩)
  obtain ⟨written, hwritten⟩ := CommandContext.writes_iff_takes.mpr takes_empty
  refine ⟨⟨written, hwritten, (schema_and_reader_agree.1 .empty).2.2 _ _ _ hwritten⟩, haccepts, ?_⟩
  exact schema_and_reader_agree.2 _ _ _ _ (read_treeOf _) hspells (by decide) hkeys haccepts

/-! ## Remarks that have no value -/

/-- The current version, and a number that no double holds. -/
def hugeRemark : String :=
  "\x7b\"version\":\"1\",\"remark\":1e999\x7d"

/-- The current version, and half a surrogate pair. -/
def halfRemark : String :=
  "\x7b\"version\":\"1\",\"remark\":\"\\ud800\"\x7d"

/-- A document of the current version with a remark that can only be passed over. -/
def HasBareRemark (text : String) : Prop :=
  ∃ fault, Document.ofText text
    = ⟨.obj [(.ok "version", .str "1"), (.ok "remark", .unreadable fault none)] none, none⟩

/-- What stands in front of the remark. -/
def remarkLead : List Char :=
  ['\x7b', '"', 'v', 'e', 'r', 's', 'i', 'o', 'n', '"', ':', '"', '1', '"', ',',
    '"', 'r', 'e', 'm', 'a', 'r', 'k', '"', ':']

/-- The remark stands behind a version that is current. -/
theorem leads_remark :
    Assembly.Leads remarkLead [(.ok "version", .str "1")] "remark" := by
  intro rest
  simp only [remarkLead, List.cons_append, List.nil_append]
  rw [Assembly.run_token _ rfl, Assembly.run_token _ rfl, Assembly.run_token _ rfl,
    Assembly.run_token _ rfl, Assembly.run_token _ rfl, Assembly.run_token _ rfl,
    Assembly.run_token _ rfl]
  rfl

theorem hasBareRemark_hugeRemark : HasBareRemark hugeRemark :=
  Document.ofText_of_bare leads_remark (by decide) bare_huge

theorem hasBareRemark_halfRemark : HasBareRemark halfRemark :=
  Document.ofText_of_bare leads_remark (by decide) bare_half

/-- A configuration is not read that ends with a bare remark. -/
theorem HasBareRemark.readConfiguration {text : String} (h : HasBareRemark text) :
    ∃ line column, CommandContext.readConfiguration ⟨"conf", none⟩ (treeOf text)
      = .error (.notJson "conf/configuration.json" line column) := by
  obtain ⟨fault, htext⟩ := h
  rw [CommandContext.readConfiguration_of_read (read_treeOf text), Configuration.parse, htext]
  exact ⟨_, _, rfl⟩

/-- The schema accepts the current version with any remark, but a numeral that no double holds and
half a surrogate pair are refused as no JSON, although who passes over them meets no fault. -/
theorem bareRemarks_not_read :
    Numeral.scan "1e999".toList = .read hugeNumeral []
    ∧ (∀ remark, configurationSchema.Accepts (.obj [("version", .str "1"), ("remark", remark)]))
    ∧ ∀ text ∈ [hugeRemark, halfRemark], HasBareRemark text
      ∧ (treeOf text).read (CommandContext.configurationFile ⟨"conf", none⟩) = .ok text
      ∧ ∃ line column, CommandContext.readConfiguration ⟨"conf", none⟩ (treeOf text)
        = .error (.notJson "conf/configuration.json" line column) := by
  have haccepts : ∀ remark,
      configurationSchema.Accepts (.obj [("version", .str "1"), ("remark", remark)]) := by
    refine fun remark => ⟨3, fun depth hdepth => ?_⟩
    obtain ⟨more, rfl⟩ := Nat.exists_eq_add_of_le' hdepth
    rfl
  have hall : ∀ text ∈ [hugeRemark, halfRemark], HasBareRemark text :=
    List.forall_mem_cons.mpr ⟨hasBareRemark_hugeRemark,
      List.forall_mem_singleton.mpr hasBareRemark_halfRemark⟩
  refine ⟨rfl, haccepts, fun text htext => ⟨hall text htext, read_treeOf text, ?_⟩⟩
  exact (hall text htext).readConfiguration

end EntityQuery
