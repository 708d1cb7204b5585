import EntityQuery.Graph.Basic
import EntityQuery.Reading.Record

/-!
# Graph/Declaration — graphs as they are declared

A declaration gives an entity a table and its fields columns or relations. A relation names its
target and some keys, and which keys it has decides its kind (`RelationDecl.link?`): a bridge table
makes a bridge, otherwise a foreign key on the near side an outgoing link, otherwise one on the far
side an incoming link. A kind whose other keys are missing is not replaced by the next.
`Graph.build` makes the links once and then checks where they lead.
-/

namespace EntityQuery

/-- A relation as it is declared. -/
structure RelationDecl where
  /-- The entity at the other end. -/
  target : String := ""
  bridgeTable : Option String := none
  sourceRefKey : Option String := none
  targetRefKey : Option String := none
  bridgeSourceForeignKey : Option String := none
  bridgeTargetForeignKey : Option String := none
  sourceForeignKey : Option String := none
  targetForeignKey : Option String := none
  deriving DecidableEq, Repr

/-- A field as it is declared. -/
inductive FieldDecl where
  /-- A column. -/
  | column (name : String)
  /-- A relation. -/
  | relation (relation : RelationDecl)
  deriving DecidableEq, Repr

/-- An entity as it is declared. -/
structure EntityDecl where
  /-- The table. -/
  table : String
  /-- The fields, in order. -/
  fields : OrderedMap FieldDecl
  deriving DecidableEq

/-- Declared entities by name. -/
abbrev Declarations : Type := SortedMap EntityDecl

/-! ## Reading -/

namespace RelationDecl

/-- Reads an optional text into a relation. -/
def optionalField (name : String) (set : Option String → RelationDecl → RelationDecl) :
    RecordField RelationDecl where
  name := name
  required := false
  read := fun node => (Node.readOption Node.readText node).map set

/-- The record of a relation's keys. -/
def record : Record RelationDecl where
  name := "RawRelation"
  closed := true
  fields := [
    ⟨"target", true, fun node => do
      let target ← node.readText
      .ok fun relation => { relation with target }⟩,
    optionalField "bridgeTable" fun bridgeTable relation => { relation with bridgeTable },
    optionalField "sourceRefKey" fun sourceRefKey relation => { relation with sourceRefKey },
    optionalField "targetRefKey" fun targetRefKey relation => { relation with targetRefKey },
    optionalField "bridgeSourceForeignKey" fun bridgeSourceForeignKey relation =>
      { relation with bridgeSourceForeignKey },
    optionalField "bridgeTargetForeignKey" fun bridgeTargetForeignKey relation =>
      { relation with bridgeTargetForeignKey },
    optionalField "sourceForeignKey" fun sourceForeignKey relation =>
      { relation with sourceForeignKey },
    optionalField "targetForeignKey" fun targetForeignKey relation =>
      { relation with targetForeignKey }]

end RelationDecl

namespace FieldDecl

/-- Reads a field: a text is a column, and anything else must be a relation. -/
def ofNode (node : Node) : Except Complaint FieldDecl := do
  let _ ← Node.faulty node.content
  match node with
  | .str name => .ok (.column name)
  | node =>
      ((RelationDecl.record.read .value {} node).map FieldDecl.relation).mapError fun _ =>
        .noShape "RawField"

end FieldDecl

namespace EntityDecl

/-- The record of an entity's keys. -/
def record : Record EntityDecl where
  name := "RawEntity"
  closed := false
  fields := [
    ⟨"tableName", true, fun node => do
      let table ← node.readText
      .ok fun entity => { entity with table }⟩,
    ⟨"fields", false, fun node => do
      let entries ← node.readEntries FieldDecl.ofNode
      .ok fun entity => { entity with fields := .ofList entries }⟩]

/-- Reads an entity. -/
def ofNode (node : Node) : Except Complaint EntityDecl :=
  record.read .text ⟨"", .empty⟩ node

end EntityDecl

namespace Declarations

/-- Reads declared entities. -/
def ofNode (node : Node) : Except Complaint Declarations :=
  (node.readEntries EntityDecl.ofNode).map SortedMap.ofList

end Declarations

/-! ## Writing -/

namespace RelationDecl

/-- A relation as a value; a key that is left out is not written. -/
def toJson (relation : RelationDecl) : Json :=
  let optional (name : String) (value : Option String) : List (String × Json) :=
    value.toList.map fun text => (name, .str text)
  .obj (("target", .str relation.target)
    :: optional "bridgeTable" relation.bridgeTable
    ++ optional "sourceRefKey" relation.sourceRefKey
    ++ optional "targetRefKey" relation.targetRefKey
    ++ optional "bridgeSourceForeignKey" relation.bridgeSourceForeignKey
    ++ optional "bridgeTargetForeignKey" relation.bridgeTargetForeignKey
    ++ optional "sourceForeignKey" relation.sourceForeignKey
    ++ optional "targetForeignKey" relation.targetForeignKey)

end RelationDecl

namespace FieldDecl

/-- A field as a value. -/
def toJson : FieldDecl → Json
  | .column name => .str name
  | .relation declared => declared.toJson

end FieldDecl

namespace EntityDecl

/-- An entity as a value. -/
def toJson (entity : EntityDecl) : Json :=
  .obj [("tableName", .str entity.table),
    ("fields", .obj (entity.fields.entries.mapValues FieldDecl.toJson))]

end EntityDecl

namespace Declarations

/-- Declared entities as a value. -/
def toJson (declarations : Declarations) : Json :=
  .obj (declarations.entries.mapValues EntityDecl.toJson)

end Declarations

/-! ## Building -/

namespace RelationDecl

/-- The link that a relation describes, if its keys make one. -/
def link? (relation : RelationDecl) : Option Link :=
  let target := relation.target
  match relation.bridgeTable, relation.sourceForeignKey, relation.targetForeignKey with
  | some table, _, _ => do
      let sourceRefKey ← relation.sourceRefKey
      let targetRefKey ← relation.targetRefKey
      let sourceForeignKey ← relation.bridgeSourceForeignKey
      let targetForeignKey ← relation.bridgeTargetForeignKey
      some (.bridge ⟨target, table, sourceRefKey, targetRefKey, sourceForeignKey,
        targetForeignKey⟩)
  | none, some sourceForeignKey, _ => do
      let targetRefKey ← relation.targetRefKey
      some (.outgoing ⟨target, sourceForeignKey, targetRefKey⟩)
  | none, none, some targetForeignKey => do
      let sourceRefKey ← relation.sourceRefKey
      some (.incoming ⟨target, sourceRefKey, targetForeignKey⟩)
  | none, none, none => none

end RelationDecl

/-- What a declared field stands for. -/
def FieldDecl.build (entity field : String) : FieldDecl → Except GraphError Field
  | .column name => .ok (.column name)
  | .relation declared =>
      match declared.link? with
      | some link => .ok (.link link)
      | none => .error (.unsupportedLink entity field)

/-- The entity that is declared. -/
def EntityDecl.build (name : String) (declared : EntityDecl) : Except GraphError Entity := do
  let fields ← declared.fields.traverse (FieldDecl.build name)
  .ok ⟨declared.table, fields⟩

/-- The graph that is declared, once every link is known to lead somewhere. -/
def Graph.build (declarations : Declarations) : Except GraphError Graph := do
  let entities ← declarations.traverse EntityDecl.build
  let graph : Graph := ⟨entities⟩
  graph.validate
  .ok graph

end EntityQuery
