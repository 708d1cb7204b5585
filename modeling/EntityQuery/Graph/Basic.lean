import EntityQuery.OrderedMap
import EntityQuery.SortedMap

/-!
# Graph/Basic — entities, their tables and the links between them

An entity stands for a table. Each of its fields is either a column of that table or a link to
another entity, and links name the entity at the other end, so a graph may have cycles. A field that
is not mapped goes by its own name (`Entity.columnOf?`); a link has no column.
`Graph.validate` looks for a link that leads nowhere.
-/

namespace EntityQuery

/-! ## Links -/

/-- A link through a table that refers to both ends. -/
structure Bridge where
  /-- The entity at the other end. -/
  target : String
  /-- The table between the ends. -/
  table : String
  /-- The near column that the table refers to. -/
  sourceRefKey : String
  /-- The far column that the table refers to. -/
  targetRefKey : String
  /-- The column of the table that refers to the near end. -/
  sourceForeignKey : String
  /-- The column of the table that refers to the far end. -/
  targetForeignKey : String
  deriving DecidableEq, Repr

/-- A link by a column of the near end. -/
structure Outgoing where
  /-- The entity at the other end. -/
  target : String
  /-- The near column that refers to the far end. -/
  sourceForeignKey : String
  /-- The far column that is referred to. -/
  targetRefKey : String
  deriving DecidableEq, Repr

/-- A link by a column of the far end. -/
structure Incoming where
  /-- The entity at the other end. -/
  target : String
  /-- The near column that is referred to. -/
  sourceRefKey : String
  /-- The far column that refers to the near end. -/
  targetForeignKey : String
  deriving DecidableEq, Repr

/-- A link to an entity. -/
inductive Link where
  | bridge (bridge : Bridge)
  | outgoing (outgoing : Outgoing)
  | incoming (incoming : Incoming)
  deriving DecidableEq, Repr

/-- The entity at the other end of a link. -/
def Link.target : Link → String
  | .bridge link => link.target
  | .outgoing link => link.target
  | .incoming link => link.target

/-! ## Entities -/

/-- What a field stands for. -/
inductive Field where
  /-- A column of the entity's table. -/
  | column (name : String)
  /-- A link to an entity. -/
  | link (link : Link)
  deriving DecidableEq, Repr

/-- A table and what its fields stand for. -/
structure Entity where
  /-- The table. -/
  table : String
  /-- The fields, in the order of their declaration. -/
  fields : OrderedMap Field
  deriving DecidableEq

namespace Entity

/-- An entity without fields. -/
def ofTable (table : String) : Entity := ⟨table, .empty⟩

/-- Maps a field. -/
def withField (entity : Entity) (name : String) (field : Field) : Entity :=
  { entity with fields := entity.fields.put name field }

/-- What a field stands for, if it is mapped. -/
def field? (entity : Entity) (name : String) : Option Field :=
  entity.fields.get? name

/-- The column of a field: the mapped one, or the one of the same name; a link has none. -/
def columnOf? (entity : Entity) (name : String) : Option String :=
  match entity.field? name with
  | none => some name
  | some (.column column) => some column
  | some (.link _) => none

/-- The fields that are mapped to columns, with their columns. -/
def columns (entity : Entity) : Entries String :=
  entity.fields.entries.filterMap fun (name, field) =>
    match field with
    | .column column => some (name, column)
    | .link _ => none

end Entity

/-! ## Graphs -/

/-- What is wrong with a graph. -/
inductive GraphError where
  /-- A link has the keys of none of the three kinds. -/
  | unsupportedLink (entity field : String)
  /-- A link leads to an entity that does not exist. -/
  | unknownTarget (entity field target : String)
  deriving DecidableEq, Repr

/-- The wording of what is wrong with a graph. -/
def GraphError.message : GraphError → String
  | .unsupportedLink entity field =>
      "relation '" ++ field ++ "' of entity '" ++ entity
        ++ "' is not a bridge, outgoing or incoming link"
  | .unknownTarget entity field target =>
      "relation '" ++ field ++ "' of entity '" ++ entity ++ "' points at unknown entity '"
        ++ target ++ "'"

/-- Entities by name. -/
structure Graph where
  /-- The entities, in the order of their names. -/
  entities : SortedMap Entity
  deriving DecidableEq

namespace Graph

/-- The graph without entities. -/
def empty : Graph := ⟨.empty⟩

/-- The entity of a name. -/
def entity? (graph : Graph) (name : String) : Option Entity :=
  graph.entities.get? name

/-- Adds an entity, or replaces the one of that name. -/
def withEntity (graph : Graph) (name : String) (entity : Entity) : Graph :=
  ⟨graph.entities.insert name entity⟩

/-- The links of the graph with their entities and fields, in order. -/
def links (graph : Graph) : List (String × String × Link) :=
  graph.entities.entries.flatMap fun (name, entity) =>
    entity.fields.entries.filterMap fun (field, meaning) =>
      match meaning with
      | .column _ => none
      | .link link => some (name, field, link)

/-- Checks that every link leads to an entity; the first that does not is the error. -/
def validate (graph : Graph) : Except GraphError Unit :=
  match graph.links.find? fun (_, _, link) => (graph.entity? link.target).isNone with
  | none => .ok ()
  | some (entity, field, link) => .error (.unknownTarget entity field link.target)

end Graph

end EntityQuery
