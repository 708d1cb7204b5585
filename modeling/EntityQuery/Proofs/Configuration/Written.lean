import EntityQuery.Configuration.Basic
import EntityQuery.Proofs.Entries
import EntityQuery.Proofs.Json.Printed
import EntityQuery.Proofs.Reading.Record

/-!
# Proofs/Configuration/Written — a configuration that is written is read back

From the inside out, each part of a configuration is read off the value that it is written as:
names, relations with any of their keys, fields, entities, and the configuration itself.  A written
configuration holds no number and nests five containers deep at most, so its text spells its value
and `Configuration.parse_text` follows: the text of any configuration is read as that configuration.
-/

namespace EntityQuery

/-! ## Dialects -/

/-- A dialect is read back. -/
theorem Dialect.ofNode_toJson (source : Source) (dialect : Dialect) :
    Dialect.ofNode source (Node.ofJson dialect.toJson) = .ok dialect := by
  rcases dialect with ⟨_ | _, _ | _⟩ <;> cases source <;> rfl

/-! ## Relations -/

namespace RelationDecl

/-- The member of an optional key, if the key is given. -/
def optionalMember (name : String) (value : Option String) : List (String × Json) :=
  value.toList.map fun text => (name, .str text)

/-- A member that is optional has the one name or none. -/
theorem names_optionalMember (name : String) (value : Option String) :
    (Entries.names (optionalMember name value)).Sublist [name] := by
  cases value with
  | none => exact List.nil_sublist _
  | some text => exact List.Sublist.refl _

/-- Members that are read, one by one, as a relation. -/
def Reads (members : List (String × Json)) (relation : RelationDecl) : Prop :=
  ∃ updates, members.mapM record.update = .ok updates ∧ Record.applyAll updates {} = relation

theorem reads_target (target : String) : Reads [("target", .str target)] { target } :=
  ⟨[fun relation => { relation with target }], rfl, rfl⟩

/-- An optional key that was not there before sets what it stands for, or leaves it left out. -/
theorem Reads.optional {members : List (String × Json)} {relation : RelationDecl}
    (h : Reads members relation) (name : String) {set : Option String → RelationDecl → RelationDecl}
    (hfield : record.field? name = some (optionalField name set))
    (hset : set none relation = relation) (value : Option String) :
    Reads (members ++ optionalMember name value) (set value relation) := by
  obtain ⟨updates, hupdates, hrelation⟩ := h
  cases value with
  | none => exact ⟨updates, (List.append_nil members).symm ▸ hupdates, hrelation.trans hset.symm⟩
  | some text =>
    have hupdate : record.update (name, .str text) = .ok (set (some text)) := by
      rw [Record.update, hfield]
      rfl
    have hmember :
        (optionalMember name (some text)).mapM record.update = .ok [set (some text)] := by
      rw [optionalMember, Option.toList_some, List.map_singleton, Except.mapM_cons, hupdate]
      rfl
    refine ⟨updates ++ [set (some text)], Except.mapM_append hupdates hmember, ?_⟩
    rw [Record.applyAll_append, hrelation]
    rfl

/-- A relation as members: its target, and the keys that are given. -/
def members (relation : RelationDecl) : List (String × Json) :=
  [("target", .str relation.target)]
    ++ optionalMember "bridgeTable" relation.bridgeTable
    ++ optionalMember "sourceRefKey" relation.sourceRefKey
    ++ optionalMember "targetRefKey" relation.targetRefKey
    ++ optionalMember "bridgeSourceForeignKey" relation.bridgeSourceForeignKey
    ++ optionalMember "bridgeTargetForeignKey" relation.bridgeTargetForeignKey
    ++ optionalMember "sourceForeignKey" relation.sourceForeignKey
    ++ optionalMember "targetForeignKey" relation.targetForeignKey

theorem toJson_eq (relation : RelationDecl) : relation.toJson = .obj relation.members := rfl

/-- The keys of a relation are those of its record, in their order. -/
theorem names_members (relation : RelationDecl) :
    (Entries.names relation.members).Sublist (record.fields.map RecordField.name) := by
  have hnames : (Entries.names relation.members).Sublist (["target"] ++ ["bridgeTable"]
      ++ ["sourceRefKey"] ++ ["targetRefKey"] ++ ["bridgeSourceForeignKey"]
      ++ ["bridgeTargetForeignKey"] ++ ["sourceForeignKey"] ++ ["targetForeignKey"]) := by
    simp only [members, Entries.names, List.map_append]
    repeat' refine .append ?_ (names_optionalMember _ _)
    exact .refl _
  exact hnames

theorem nodup_names_members (relation : RelationDecl) : (Entries.names relation.members).Nodup :=
  relation.names_members.nodup (by decide)

/-- The members of a relation are read back as the relation. -/
theorem reads_members (relation : RelationDecl) : Reads relation.members relation := by
  have h := reads_target relation.target
  replace h := h.optional "bridgeTable" rfl rfl relation.bridgeTable
  replace h := h.optional "sourceRefKey" rfl rfl relation.sourceRefKey
  replace h := h.optional "targetRefKey" rfl rfl relation.targetRefKey
  replace h := h.optional "bridgeSourceForeignKey" rfl rfl relation.bridgeSourceForeignKey
  replace h := h.optional "bridgeTargetForeignKey" rfl rfl relation.bridgeTargetForeignKey
  replace h := h.optional "sourceForeignKey" rfl rfl relation.sourceForeignKey
  exact h.optional "targetForeignKey" rfl rfl relation.targetForeignKey

/-- The keys of a relation hold texts. -/
theorem exists_text_of_mem_members {relation : RelationDecl} {member : String × Json}
    (h : member ∈ relation.members) : ∃ text, member.2 = .str text := by
  have hoptional : ∀ {name : String} {value : Option String},
      member ∈ optionalMember name value → ∃ text, member.2 = .str text := by
    intro name value hmember
    obtain ⟨text, -, rfl⟩ := List.mem_map.mp hmember
    exact ⟨text, rfl⟩
  simp only [members, List.mem_append, List.mem_singleton] at h
  rcases h with ((((((rfl | h) | h) | h) | h) | h) | h) | h
  · exact ⟨relation.target, rfl⟩
  all_goals exact hoptional h

/-- **A relation is read back, whichever keys it has.** -/
theorem read_toJson (source : Source) (relation : RelationDecl) :
    record.read source {} (Node.ofJson relation.toJson) = .ok relation := by
  obtain ⟨updates, hupdates, hrelation⟩ := relation.reads_members
  have hmissing : record.missing? (Entries.names relation.members) = none := by
    simp [Record.missing?, record, optionalField, members, Entries.names]
  rw [toJson_eq, record.read_ofJson source {} relation.nodup_names_members, hupdates, hmissing]
  exact congrArg _ hrelation

end RelationDecl

/-! ## Fields and entities -/

/-- A field is read back: a text stays a column, and an object a relation. -/
theorem FieldDecl.ofNode_toJson (declared : FieldDecl) :
    FieldDecl.ofNode (Node.ofJson declared.toJson) = .ok declared := by
  cases declared with
  | column name => rfl
  | relation relation =>
    have hread := RelationDecl.read_toJson .value relation
    unfold FieldDecl.ofNode
    rw [Node.content_ofJson]
    change Except.mapError _ (Except.map _ (RelationDecl.record.read .value {}
      (Node.ofJson relation.toJson))) = _
    rw [hread]
    rfl

/-- An entity is read back, its fields in order. -/
theorem EntityDecl.ofNode_toJson (declared : EntityDecl) :
    EntityDecl.ofNode (Node.ofJson declared.toJson) = .ok declared := by
  have htable : record.update ("tableName", .str declared.table)
      = .ok fun entity => { entity with table := declared.table } := rfl
  have hfields : record.update
      ("fields", .obj (declared.fields.entries.mapValues FieldDecl.toJson))
      = .ok fun entity => { entity with fields := declared.fields } := by
    change (Node.readEntries FieldDecl.ofNode _ >>= _) = _
    rw [Node.readEntries_mapValues FieldDecl.ofNode_toJson,
      Entries.ofList_of_nodup declared.fields.nodup]
    simp only [bind, Except.bind, OrderedMap.ofList_entries]
  rw [EntityDecl.ofNode, EntityDecl.toJson, record.read_ofJson, Except.mapM_cons,
    Except.mapM_cons, htable, hfields]
  · rfl
  · simp

/-- Declared entities are read back. -/
theorem Declarations.ofNode_toJson (declarations : Declarations) :
    Declarations.ofNode (Node.ofJson declarations.toJson) = .ok declarations := by
  have hnodup : declarations.entries.names.Nodup :=
    declarations.ascending.imp fun h => String.ne_of_lt h
  rw [Declarations.ofNode, Declarations.toJson,
    Node.readEntries_mapValues EntityDecl.ofNode_toJson, Entries.ofList_of_nodup hnodup]
  exact congrArg _ declarations.ofList_entries

/-! ## Configurations -/

namespace Configuration

/-- A configuration is read back. -/
theorem read_toJson (configuration : Configuration) :
    record.read .text {} (Node.ofJson configuration.toJson) = .ok configuration := by
  have hversion : record.update ("version", .str currentVersion) = .ok id := rfl
  have hdialect : record.update ("dialect", configuration.dialect.toJson)
      = .ok fun start => { start with dialect := configuration.dialect } := by
    change (Dialect.ofNode .text _ >>= _) = _
    rw [Dialect.ofNode_toJson]
    rfl
  have hentities : record.update ("entities", Declarations.toJson configuration.entities)
      = .ok fun start => { start with entities := configuration.entities } := by
    change (Declarations.ofNode _ >>= _) = _
    rw [Declarations.ofNode_toJson]
    rfl
  rw [toJson, record.read_ofJson, Except.mapM_cons, Except.mapM_cons, Except.mapM_cons, hversion,
    hdialect, hentities]
  · rfl
  · simp

end Configuration

/-! ## As text -/

theorem RelationDecl.numbersReadBack_toJson (relation : RelationDecl) :
    relation.toJson.NumbersReadBack := by
  refine Json.everyNumberMembers_iff.mpr fun member hmember => ?_
  obtain ⟨text, htext⟩ := exists_text_of_mem_members hmember
  rw [htext]
  trivial

theorem RelationDecl.nesting_toJson (relation : RelationDecl) : relation.toJson.nesting ≤ 1 := by
  refine Nat.succ_le_succ (Json.nestingMembers_le fun member hmember => ?_)
  obtain ⟨text, htext⟩ := exists_text_of_mem_members hmember
  rw [htext]
  exact Nat.le_refl 0

theorem Entries.exists_of_mem_mapValues {α β : Type} {f : α → β} {entries : Entries α}
    {entry : String × β} (h : entry ∈ entries.mapValues f) : ∃ value, entry.2 = f value := by
  obtain ⟨original, -, rfl⟩ := List.mem_map.mp h
  exact ⟨original.2, rfl⟩

/-- Entries hold no number that is not read back if their values do not. -/
theorem Json.numbersReadBack_mapValues {α : Type} {toJson : α → Json}
    (h : ∀ value, (toJson value).NumbersReadBack) (entries : Entries α) :
    (Json.obj (entries.mapValues toJson)).NumbersReadBack := by
  refine everyNumberMembers_iff.mpr fun member hmember => ?_
  obtain ⟨value, hvalue⟩ := Entries.exists_of_mem_mapValues hmember
  rw [hvalue]
  exact h value

/-- Entries nest one deeper than their values. -/
theorem Json.nesting_mapValues {α : Type} {toJson : α → Json} {bound : Nat}
    (h : ∀ value, (toJson value).nesting ≤ bound) (entries : Entries α) :
    (Json.obj (entries.mapValues toJson)).nesting ≤ bound + 1 := by
  refine Nat.succ_le_succ (nestingMembers_le fun member hmember => ?_)
  obtain ⟨value, hvalue⟩ := Entries.exists_of_mem_mapValues hmember
  rw [hvalue]
  exact h value

namespace Configuration

theorem numbersReadBack_toJson (configuration : Configuration) :
    configuration.toJson.NumbersReadBack := by
  have hfield : ∀ declared : FieldDecl, declared.toJson.NumbersReadBack
    | .column _ => trivial
    | .relation relation => relation.numbersReadBack_toJson
  have hentity : ∀ declared : EntityDecl, declared.toJson.NumbersReadBack := fun declared =>
    ⟨trivial, Json.numbersReadBack_mapValues hfield declared.fields.entries, trivial⟩
  exact ⟨trivial, ⟨trivial, trivial, trivial⟩,
    Json.numbersReadBack_mapValues hentity configuration.entities.entries, trivial⟩

/-- The entities, the entity, its fields and the relation: five containers with the outermost. -/
theorem nesting_toJson (configuration : Configuration) : configuration.toJson.nesting ≤ 5 := by
  have hfield : ∀ declared : FieldDecl, declared.toJson.nesting ≤ 1
    | .column _ => Nat.zero_le 1
    | .relation relation => relation.nesting_toJson
  have hentity : ∀ declared : EntityDecl, declared.toJson.nesting ≤ 3 := by
    intro declared
    have hfields := Json.nesting_mapValues hfield declared.fields.entries
    simp only [EntityDecl.toJson, Json.nesting, Json.nestingMembers] at hfields ⊢
    omega
  have hentities := Json.nesting_mapValues hentity configuration.entities.entries
  simp only [toJson, Declarations.toJson, Dialect.toJson, Json.nesting, Json.nestingMembers]
    at hentities ⊢
  omega

/-- **The text of a configuration has the tree of what is written.** -/
theorem ofText_text (configuration : Configuration) :
    Document.ofText configuration.text = ⟨Node.ofJson configuration.toJson, none⟩ :=
  Document.ofText_eq_ofJson (Json.spells_prettyLines configuration.numbersReadBack_toJson)
    (Nat.le_trans configuration.nesting_toJson (by decide))

/-- A written configuration has the current version. -/
theorem checkVersion_settle (configuration : Configuration) :
    checkVersion configuration.toJson.settle = .ok () := by
  rfl

/-- **The text of a configuration is read as that configuration.** -/
theorem parse_text (file : String) (configuration : Configuration) :
    parse file configuration.text = .ok configuration := by
  have hvalue : (Document.ofText configuration.text).value = .ok configuration.toJson.settle := by
    rw [ofText_text, Document.value, Node.value_ofJson]
    rfl
  have hread : (Document.ofText configuration.text).read (.ofNode (record.read .text {}))
      = .ok configuration := by
    rw [ofText_text, Document.read_eq_ok, Reader.read_ofNode]
    exact configuration.read_toJson
  rw [parse, hvalue, hread]
  simp only [Except.mapError, bind, Except.bind, checkVersion_settle]

end Configuration

end EntityQuery
