import EntityQuery.Compile.Insert
import EntityQuery.Compile.Select
import EntityQuery.Configuration.Schema
import EntityQuery.FileTree

/-!
# Command — the commands of the command line

A command reads files of a tree, prints a text or fails, and leaves a tree behind. The compiling
commands look at the input document first, then at the configuration, then at the graph, and compile
last; they print one JSON object and write no file. Setting up a directory writes an empty
configuration and its schema, and never over a configuration that is there.
-/

namespace EntityQuery

/-- A command. -/
inductive Command where
  /-- Compiles the request in a file. -/
  | select (entity file : String)
  /-- Compiles the filter in a file. -/
  | filter (entity file : String)
  /-- Compiles the order in a file. -/
  | order (entity file : String)
  /-- Compiles the insertion of the rows in a file. -/
  | insert (entity file : String)
  /-- Writes an empty configuration and its schema. -/
  | setUp
  /-- Prints the schema of configurations. -/
  | printSchema
  deriving DecidableEq, Repr

/-- What commands run with. -/
structure CommandContext where
  /-- The directory of the configuration. -/
  directory : String
  /-- The dialect in place of the configured one. -/
  dialect : Option Dialect

/-- Why a command failed. -/
inductive CommandError where
  /-- The input file could not be read. -/
  | input (file : String) (fault : FileFault)
  /-- The input file does not hold the document that is due. -/
  | document (file : String) (refusal : Refusal)
  /-- The configuration was not read. -/
  | configuration (error : ConfigurationError)
  /-- The configured graph cannot be built. -/
  | graph (error : GraphError)
  /-- The document cannot be compiled. -/
  | compile (error : CompileError)
  /-- There is a configuration already. -/
  | alreadyConfigured (directory : String)
  /-- The configuration could not be written. -/
  | unwritten (fault : FileFault)
  deriving DecidableEq, Repr

/-- The wording of a graph that cannot be built, in a configuration. -/
def GraphError.configurationMessage (error : GraphError) : String :=
  "invalid entity metadata: " ++ error.message

namespace CommandError

/-- What was tried when the input failed. -/
def context? : CommandError → Option String
  | .input file _ => some ("Could not read " ++ file)
  | .document file _ => some ("Could not parse " ++ file)
  | _ => none

/-- The wording of an error. -/
def message : CommandError → String
  | .input _ fault => fault.message
  | .document _ refusal => refusal.complaint.message
  | .configuration error => error.message
  | .graph error => error.configurationMessage
  | .compile error => error.message
  | .alreadyConfigured directory => "A configuration already exists in " ++ directory
  | .unwritten fault => "I/O error: " ++ fault.message

end CommandError

/-! ## Output -/

/-- A parameter as a value. -/
def Sql.Value.toJson : Sql.Value → Json
  | .null => .null
  | .bool value => .bool value
  | .int value => .num (.integer value.toInt)
  | .float value => .num (.real value)
  | .text value => .str value

/-- Compiled SQL as a value. -/
def Sql.Buffer.toJson (buffer : Sql.Buffer) : Json :=
  .obj [("sql", .str buffer.text), ("params", .arr (buffer.params.toList.map Sql.Value.toJson))]

/-- SQL without parameters as a value. -/
def textToJson (sql : String) : Json :=
  .obj [("sql", .str sql)]

/-! ## Files -/

namespace CommandContext

/-- The file of the configuration. -/
def configurationFile (context : CommandContext) : String :=
  joinPath context.directory "configuration.json"

/-- The file of the schema. -/
def schemaFile (context : CommandContext) : String :=
  joinPath context.directory "schema.json"

/-- Reads the configuration. -/
def readConfiguration (context : CommandContext) (tree : FileTree) :
    Except ConfigurationError Configuration :=
  match tree.read context.configurationFile with
  | .error fault => .error (.unreadable context.configurationFile fault.message)
  | .ok text => Configuration.parse context.configurationFile text

/-- What requests are compiled against. -/
def target (context : CommandContext) (tree : FileTree) : Except CommandError Target := do
  let configuration ← (context.readConfiguration tree).mapError .configuration
  let runtime ← configuration.runtime.mapError .graph
  .ok ⟨runtime.graph, context.dialect.getD runtime.dialect⟩

/-- Makes the directory and writes a configuration and its schema. -/
def writeConfiguration (context : CommandContext) (tree : FileTree)
    (configuration : Configuration) : FileTree × Except FileFault Unit :=
  match tree.makePath context.directory with
  | (tree, .error fault) => (tree, .error fault)
  | (tree, .ok ()) =>
      match tree.write context.configurationFile configuration.text with
      | .error fault => (tree, .error fault)
      | .ok tree =>
          match tree.write context.schemaFile configurationSchema.toJson.prettyLines with
          | .error fault => (tree, .error fault)
          | .ok tree => (tree, .ok ())

end CommandContext

/-! ## Running -/

namespace Command

/-- Reads a document from a file. -/
def readInput {α : Type} (tree : FileTree) (file : String) (reader : Reader α) :
    Except CommandError α :=
  match tree.read file with
  | .error fault => .error (.input file fault)
  | .ok text => ((Document.ofText text).read reader).mapError (.document file)

/-- Reads a document, compiles it against the configuration, and gives the result as a text. -/
def compileInput {α β : Type} (context : CommandContext) (tree : FileTree) (file : String)
    (reader : Reader α) (compile : Target → α → Except CompileError β)
    (toJson : β → Json) : Except CommandError String := do
  let input ← readInput tree file reader
  let target ← context.target tree
  let result ← (compile target input).mapError .compile
  .ok ((toJson result).prettyLines)

/-- Sets up a directory. -/
def setUpDirectory (context : CommandContext) (tree : FileTree) :
    FileTree × Except CommandError String :=
  if tree.holds context.configurationFile then
    (tree, .error (.alreadyConfigured context.directory))
  else
    let (tree, result) := context.writeConfiguration tree .empty
    (tree, (result.mapError .unwritten).map fun _ => "")

/-- Runs a command: the tree that it leaves, and what it prints or why it fails. -/
def run (context : CommandContext) (command : Command) (tree : FileTree) :
    FileTree × Except CommandError String :=
  match command with
  | .select entity file =>
      (tree, compileInput context tree file (.ofNode Request.ofNode)
        (fun target request => request.compile target entity) Sql.Buffer.toJson)
  | .filter entity file =>
      (tree, compileInput context tree file Filter.reader
        (fun target filter => filter.compile target entity) Sql.Buffer.toJson)
  | .order entity file =>
      (tree, compileInput context tree file (.ofNode Order.ofNode)
        (fun target order => order.compile target entity) textToJson)
  | .insert entity file =>
      (tree, compileInput context tree file (.ofNode Row.readAll)
        (fun target rows => Row.compileAll target entity rows) Sql.Buffer.toJson)
  | .setUp => setUpDirectory context tree
  | .printSchema => (tree, .ok (configurationSchema.toJson.prettyLines))

end Command

end EntityQuery
