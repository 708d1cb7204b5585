import EntityQuery.Graph.Declaration
import EntityQuery.Reading.Reader
import EntityQuery.Sql.Dialect

/-!
# Configuration/Basic — a dialect and declared entities

A configuration is what is kept in a file: a version, a dialect and declared entities. Reading looks
at the version first, as the value of the last `version` key of the whole document, and only then at
the shape of the rest, so a document of another version is told apart from a malformed one.
`Configuration.runtime` builds the graph.
-/

namespace EntityQuery

/-- A dialect and declared entities; there is one version of the format. -/
structure Configuration where
  /-- The conventions of the database. -/
  dialect : Dialect := {}
  /-- The declared entities. -/
  entities : Declarations := .empty
  deriving DecidableEq

/-- A dialect and a graph. -/
structure RuntimeConfiguration where
  /-- The conventions of the database. -/
  dialect : Dialect
  /-- The graph. -/
  graph : Graph

/-- Why a configuration was not read. -/
inductive ConfigurationError where
  /-- The file could not be read. -/
  | unreadable (file reason : String)
  /-- The file is not JSON from a line and a column on. -/
  | notJson (file : String) (line column : Nat)
  /-- The file is JSON of the wrong shape. -/
  | misfit (file : String) (complaint : Complaint)
  /-- The version is another one, or there is none. -/
  | unsupportedVersion (version : String)
  deriving DecidableEq, Repr

/-- The wording of an error. -/
def ConfigurationError.message : ConfigurationError → String
  | .unreadable file reason => "I/O error: " ++ file ++ ": " ++ reason
  | .notJson file line column =>
      "parse error on " ++ file ++ ":" ++ line.repr ++ ":" ++ column.repr
  | .misfit file complaint => "parse error on " ++ file ++ ": " ++ complaint.message
  | .unsupportedVersion version => "unsupported configuration version: " ++ version

namespace Configuration

/-- The version of the format. -/
def currentVersion : String := "1"

/-- The configuration without entities, for the default dialect. -/
def empty : Configuration := {}

/-! ## Reading -/

/-- The record of a configuration's keys; the version has one name and leaves nothing behind. -/
def record : Record Configuration where
  name := "ParsedConfiguration"
  closed := false
  fields := [
    ⟨"version", true, fun node => do
      let () ← Names.read .text [(currentVersion, ())] node
      .ok id⟩,
    ⟨"dialect", false, fun node => do
      let dialect ← Dialect.ofNode .text node
      .ok fun configuration => { configuration with dialect }⟩,
    ⟨"entities", false, fun node => do
      let entities ← Declarations.ofNode node
      .ok fun configuration => { configuration with entities }⟩]

/-- Checks the version of a document. -/
def checkVersion (value : Json) : Except ConfigurationError Unit :=
  match value.get? "version" with
  | some (.str version) =>
      if version = currentVersion then .ok ()
      else .error (.unsupportedVersion (Json.str version).compact)
  | some other => .error (.unsupportedVersion other.compact)
  | none => .error (.unsupportedVersion "<missing>")

/-- Reads the text of a file. -/
def parse (file text : String) : Except ConfigurationError Configuration := do
  let document := Document.ofText text
  let value ← document.value.mapError fun fault =>
    let (line, column) := fault.place text
    .notJson file line column
  checkVersion value
  (document.read (.ofNode (record.read .text {}))).mapError fun refusal =>
    .misfit file refusal.complaint

/-! ## Writing -/

/-- A configuration as a value. -/
def toJson (configuration : Configuration) : Json :=
  .obj [("version", .str currentVersion), ("dialect", configuration.dialect.toJson),
    ("entities", configuration.entities.toJson)]

/-- A configuration as the text of a file. -/
def text (configuration : Configuration) : String :=
  configuration.toJson.prettyLines

/-! ## Building -/

/-- The dialect and the graph of a configuration. -/
def runtime (configuration : Configuration) : Except GraphError RuntimeConfiguration := do
  let graph ← Graph.build configuration.entities
  .ok ⟨configuration.dialect, graph⟩

end Configuration

end EntityQuery
