import EntityQuery.Command
import EntityQuery.Proofs.Configuration.Written
import EntityQuery.Proofs.FileTree

/-!
# Proofs/Configuration/RoundTrip — configurations in files, and graphs in configurations

A configuration goes into a directory as two files, and the schema beside it does not touch it:
whatever configuration is written into a directory is what is read from there
(`readConfiguration_of_write`), and whether one can be written has nothing to do with what it holds
(`writes_iff_takes`).

`Graph.declarations` goes back from a graph to declarations, every link with the keys of its kind
and no others, and building them makes the graph again (`Graph.build_declarations`).  Together, a
graph comes back through a directory (`written_configurations_read_back`).
-/

namespace EntityQuery

/-! ## Graphs as declarations -/

/-- A link as a relation: its target and the keys of its kind, and no others. -/
def Link.declaration : Link → RelationDecl
  | .bridge link =>
      { target := link.target
        bridgeTable := some link.table
        sourceRefKey := some link.sourceRefKey
        targetRefKey := some link.targetRefKey
        bridgeSourceForeignKey := some link.sourceForeignKey
        bridgeTargetForeignKey := some link.targetForeignKey }
  | .outgoing link =>
      { target := link.target
        targetRefKey := some link.targetRefKey
        sourceForeignKey := some link.sourceForeignKey }
  | .incoming link =>
      { target := link.target
        sourceRefKey := some link.sourceRefKey
        targetForeignKey := some link.targetForeignKey }

/-- A field as it is declared: its column, or its link as a relation. -/
def Field.declaration : Field → FieldDecl
  | .column name => .column name
  | .link relation => .relation relation.declaration

/-- An entity as it is declared, its fields in order. -/
def Entity.declaration (entity : Entity) : EntityDecl :=
  ⟨entity.table, entity.fields.mapValues Field.declaration⟩

/-- A graph as it is declared. -/
def Graph.declarations (graph : Graph) : Declarations :=
  graph.entities.mapValues Entity.declaration

/-- The keys of a link's kind make the link. -/
theorem Link.link?_declaration (link : Link) : link.declaration.link? = some link := by
  cases link <;> rfl

theorem Field.build_declaration (entity field : String) (meaning : Field) :
    meaning.declaration.build entity field = .ok meaning := by
  cases meaning with
  | column name => rfl
  | link relation => rw [declaration, FieldDecl.build, relation.link?_declaration]

theorem Entity.build_declaration (name : String) (entity : Entity) :
    entity.declaration.build name = .ok entity := by
  have hfields : (entity.fields.mapValues Field.declaration).traverse (FieldDecl.build name)
      = .ok entity.fields :=
    OrderedMap.traverse_eq_ok.mpr
      (Entries.traverse_mapValues (Field.build_declaration name) entity.fields.entries)
  rw [EntityDecl.build, declaration, hfields]
  rfl

/-- **A graph whose links lead somewhere is built from its declarations.** -/
theorem Graph.build_declarations {graph : Graph}
    (h : ∀ link ∈ graph.links, (graph.entity? link.2.2.target).isSome) :
    Graph.build graph.declarations = .ok graph := by
  have hentities : graph.declarations.traverse EntityDecl.build = .ok graph.entities :=
    SortedMap.traverse_eq_ok.mpr
      (Entries.traverse_mapValues Entity.build_declaration graph.entities.entries)
  have hvalid : graph.validate = .ok () := by
    have hnone : graph.links.find? (fun link => (graph.entity? link.2.2.target).isNone) = none := by
      refine List.find?_eq_none.mpr fun link hlink => ?_
      rw [Option.isNone_iff_eq_none]
      exact Option.isSome_iff_ne_none.mp (h link hlink)
    rw [validate, hnone]
  rw [build, hentities]
  change (graph.validate >>= fun _ => _) = _
  rw [hvalid]
  rfl

/-! ## Configurations in a directory -/

/-- A text can be written at a path: it leads to a place that is no directory. -/
def FileTree.IsWritable (tree : FileTree) (path : String) : Prop :=
  ∃ place, tree.locate path = .ok place ∧ tree.isDirectory place = false

theorem FileTree.exists_write_iff {tree : FileTree} {path text : String} :
    (∃ written, tree.write path text = .ok written) ↔ tree.IsWritable path := by
  constructor
  · rintro ⟨written, h⟩
    obtain ⟨place, hplace, hfile, -⟩ := write_eq_ok.mp h
    exact ⟨place, hplace, hfile⟩
  · rintro ⟨place, hplace, hfile⟩
    exact ⟨_, write_eq_ok.mpr ⟨place, hplace, hfile, rfl⟩⟩

theorem FileTree.isWritable_congr {tree other : FileTree}
    (h : tree.directories = other.directories) {path : String} (hpath : tree.IsWritable path) :
    other.IsWritable path := by
  obtain ⟨place, hplace, hfile⟩ := hpath
  exact ⟨place, locate_congr h hplace, (isDirectory_congr h place).symm.trans hfile⟩

namespace CommandContext

variable {context : CommandContext} {tree written : FileTree} {configuration : Configuration}

/-- A tree takes configurations: the directory can be made, and both files can be written there. -/
def Takes (context : CommandContext) (tree : FileTree) : Prop :=
  ∃ made, tree.makePath context.directory = (made, .ok ())
    ∧ made.IsWritable context.configurationFile ∧ made.IsWritable context.schemaFile

/-- The steps of writing a configuration. -/
theorem writeConfiguration_eq_ok :
    context.writeConfiguration tree configuration = (written, .ok ()) ↔
      ∃ made first, tree.makePath context.directory = (made, .ok ())
        ∧ made.write context.configurationFile configuration.text = .ok first
        ∧ first.write context.schemaFile configurationSchema.toJson.prettyLines = .ok written := by
  unfold writeConfiguration
  constructor
  · intro h
    split at h
    · cases h
    · split at h
      · cases h
      · split at h
        · cases h
        · obtain ⟨rfl, -⟩ := Prod.mk.inj h
          exact ⟨_, _, ‹_›, ‹_›, ‹_›⟩
  · rintro ⟨made, first, hmade, hfirst, hwritten⟩
    simp only [hmade, hfirst, hwritten]

/-- Whether a configuration can be written has nothing to do with what it holds. -/
theorem writes_iff_takes :
    (∃ written, context.writeConfiguration tree configuration = (written, .ok ()))
      ↔ context.Takes tree := by
  simp only [writeConfiguration_eq_ok]
  constructor
  · rintro ⟨written, made, first, hmade, hfirst, hwritten⟩
    refine ⟨made, hmade, FileTree.exists_write_iff.mp ⟨first, hfirst⟩, ?_⟩
    exact FileTree.isWritable_congr (FileTree.directories_write hfirst).symm
      (FileTree.exists_write_iff.mp ⟨written, hwritten⟩)
  · rintro ⟨made, hmade, hconfiguration, hschema⟩
    obtain ⟨first, hfirst⟩ := FileTree.exists_write_iff.mpr hconfiguration
    obtain ⟨written, hwritten⟩ := FileTree.exists_write_iff.mpr
      (FileTree.isWritable_congr (FileTree.directories_write hfirst) hschema)
    exact ⟨written, made, first, hmade, hfirst, hwritten⟩

theorem isPlainName_configuration : IsPlainName "configuration.json" :=
  ⟨by decide, by decide, by decide⟩

theorem isPlainName_schema : IsPlainName "schema.json" :=
  ⟨by decide, by decide, by decide⟩

/-- A configuration and a schema lie at different places, whatever their directories. -/
theorem places_ne {kept : CommandContext} {place other : List String}
    (hplace : tree.locate kept.configurationFile = .ok place)
    (hother : tree.locate context.schemaFile = .ok other) : place ≠ other := by
  obtain ⟨above, -, -, rfl⟩ := FileTree.locate_joinPath isPlainName_configuration hplace
  obtain ⟨above', -, -, rfl⟩ := FileTree.locate_joinPath isPlainName_schema hother
  intro heq
  exact absurd (List.append_inj_right' heq rfl) (by decide)

/-- The schema beside a configuration leaves the file of the configuration alone. -/
theorem read_of_writeConfiguration
    (h : context.writeConfiguration tree configuration = (written, .ok ())) :
    written.read context.configurationFile = .ok configuration.text := by
  obtain ⟨made, first, -, hfirst, hwritten⟩ := writeConfiguration_eq_ok.mp h
  have hread := FileTree.read_of_write hfirst
  obtain ⟨place, hplace, -, -⟩ := FileTree.read_eq_ok.mp hread
  obtain ⟨other, hother, -, -⟩ := FileTree.write_eq_ok.mp hwritten
  exact FileTree.read_of_write_ne hwritten hother hplace (places_ne hplace hother) hread

/-- **A configuration that is written into a directory is what is read from there.** -/
theorem readConfiguration_of_write
    (h : context.writeConfiguration tree configuration = (written, .ok ())) :
    context.readConfiguration written = .ok configuration := by
  rw [readConfiguration, read_of_writeConfiguration h]
  exact Configuration.parse_text _ configuration

end CommandContext

/-- **Configurations and graphs come back from a directory.**  A directory that takes files takes
every configuration, and reading it gives the configuration that was written.  So a graph whose
links lead somewhere, written as its declarations for a dialect, is built again as the same graph
for the same dialect. -/
theorem written_configurations_read_back {context : CommandContext} {tree : FileTree}
    (h : context.Takes tree) :
    (∀ configuration : Configuration, ∃ written,
      context.writeConfiguration tree configuration = (written, .ok ())
        ∧ context.readConfiguration written = .ok configuration)
    ∧ ∀ (dialect : Dialect) (graph : Graph),
      (∀ link ∈ graph.links, (graph.entity? link.2.2.target).isSome) → ∃ written,
        context.writeConfiguration tree ⟨dialect, graph.declarations⟩ = (written, .ok ())
          ∧ (context.readConfiguration written).map Configuration.runtime
            = .ok (.ok ⟨dialect, graph⟩) := by
  have hall : ∀ configuration : Configuration, ∃ written,
      context.writeConfiguration tree configuration = (written, .ok ())
        ∧ context.readConfiguration written = .ok configuration := by
    intro configuration
    obtain ⟨written, hwritten⟩ := CommandContext.writes_iff_takes.mpr h
    exact ⟨written, hwritten, CommandContext.readConfiguration_of_write hwritten⟩
  refine ⟨hall, fun dialect graph hlinks => ?_⟩
  obtain ⟨written, hwritten, hread⟩ := hall ⟨dialect, graph.declarations⟩
  refine ⟨written, hwritten, ?_⟩
  have hruntime : (⟨dialect, graph.declarations⟩ : Configuration).runtime
      = .ok ⟨dialect, graph⟩ := by
    rw [Configuration.runtime, Graph.build_declarations hlinks]
    rfl
  rw [hread, Except.map, hruntime]

/-- The empty tree takes configurations in the directory `conf`. -/
theorem takes_empty : (⟨"conf", none⟩ : CommandContext).Takes .empty := by
  refine ⟨⟨[["conf"]], []⟩, ?_, ⟨["conf", "configuration.json"], ?_, ?_⟩,
    ⟨["conf", "schema.json"], ?_, ?_⟩⟩
  · change FileTree.empty.makeDirectories ["conf"] = _
    rw [FileTree.makeDirectories]
    rfl
  all_goals decide

/-- People whose names need escapes, with a link of every kind to people again. -/
def escapedPeople : Graph :=
  ⟨.ofList [("per\"son\\", ⟨"tab\tle\n", .ofList [
    ("", .column "\x00\x1f\x7f é 😀 /"),
    ("friends", .link (.bridge ⟨"per\"son\\", "\x08", "\x0c", "\r", "--", ";"⟩)),
    ("target", .link (.outgoing ⟨"per\"son\\", "\x7b", "\\u0041"⟩)),
    ("bridgeTable", .link (.incoming ⟨"per\"son\\", ":", ","⟩))]⟩)]⟩

theorem escapedPeople_read_back :
    (⟨"conf", none⟩ : CommandContext).Takes .empty
      ∧ (∀ link ∈ escapedPeople.links, (escapedPeople.entity? link.2.2.target).isSome)
      ∧ ∃ written, (⟨"conf", none⟩ : CommandContext).writeConfiguration .empty
          ⟨.postgres, escapedPeople.declarations⟩ = (written, .ok ())
        ∧ ((⟨"conf", none⟩ : CommandContext).readConfiguration written).map Configuration.runtime
          = .ok (.ok ⟨.postgres, escapedPeople⟩) := by
  have hlinks : ∀ link ∈ escapedPeople.links,
      (escapedPeople.entity? link.2.2.target).isSome := by decide
  exact ⟨takes_empty, hlinks, (written_configurations_read_back takes_empty).2 .postgres _ hlinks⟩

end EntityQuery
