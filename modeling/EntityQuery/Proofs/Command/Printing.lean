import EntityQuery.Command
import EntityQuery.Proofs.Json.Nearest
import EntityQuery.Proofs.Request.Finite

/-!
# Proofs/Command/Printing — commands print what is compiled, or nothing

    input file  ──▸  configuration  ──▸  graph  ──▸  compilation  ──▸  { "sql": …, "params": … } ⏎

A compiling command takes these steps in this order.  It prints exactly if all of them succeed
(`Command.Compiles`), and otherwise it fails as the first one that does not (`Command.Fails`).

What is printed is one JSON object that reads back as the text and the parameters that were compiled
(`ShowsCompiled`).  Two inputs.  A value that is written is read back when its numbers fit
(`Json.parseNearest_pretty`), and the doubles among the parameters do: they are read off a text, in
which every number is finite (`Filter.isFinite_params` and its siblings).
-/

namespace EntityQuery

/-! ## What is printed -/

/-- A JSON value stands for a parameter: it has the same type and the same value. -/
inductive Json.StandsFor : Json → Sql.Value → Prop
  | null : StandsFor .null .null
  | bool (truth : Bool) : StandsFor (.bool truth) (.bool truth)
  | int (n : Int64) : StandsFor (.num (.integer n.toInt)) (.int n)
  | float (x : Binary64) : StandsFor (.num (.real x)) (.float x)
  | text (text : String) : StandsFor (.str text) (.text text)

/-- A text is one JSON object on lines of its own: its text, and its parameters in order.  The
reader of this library agrees, unless it misses a double. -/
def ShowsCompiled (text : String) (buffer : Sql.Buffer) : Prop :=
  ∃ object params, text = object ++ "\n"
    ∧ Json.parseNearest object = .ok (.obj [("sql", .str buffer.text), ("params", .arr params)])
    ∧ List.Forall₂ Json.StandsFor params buffer.params.toList
    ∧ ((∀ x, .float x ∈ buffer.params.toList → (Number.real x).ReadsBack) →
      Json.parse object = .ok (.obj [("sql", .str buffer.text), ("params", .arr params)]))

/-- A text is one JSON object on lines of its own, with a text alone. -/
def ShowsText (text sql : String) : Prop :=
  ∃ object, text = object ++ "\n" ∧ Json.parseNearest object = .ok (.obj [("sql", .str sql)])
    ∧ Json.parse object = .ok (.obj [("sql", .str sql)])

namespace Sql

/-- What is printed for a value stands for it. -/
theorem Value.standsFor_toJson (value : Value) : value.toJson.StandsFor value := by
  cases value with
  | null => exact .null
  | bool truth => exact .bool truth
  | int n => exact .int n
  | float x => exact .float x
  | text text => exact .text text

theorem Value.isProper_toJson {value : Value} (h : value.IsFinite) : value.toJson.IsProper := by
  cases value with
  | null => exact .null
  | bool truth => exact .bool truth
  | int n => exact .num (Number.isProper_toInt n)
  | float x => exact .num h
  | text text => exact .str text

theorem Value.settle_toJson (value : Value) : value.toJson.settle = value.toJson := by
  cases value <;> rfl

theorem Value.nesting_toJson (value : Value) : value.toJson.nesting = 0 := by
  cases value <;> rfl

variable {buffer : Buffer}

/-- All numbers of what is printed fit, if the parameters are finite. -/
theorem Buffer.isProper_toJson (h : ∀ value ∈ buffer.params.toList, value.IsFinite) :
    buffer.toJson.IsProper := by
  refine .obj (List.forall_mem_cons.mpr ⟨.str _, List.forall_mem_singleton.mpr (.arr ?_)⟩)
  exact List.forall_mem_map.mpr fun value hvalue => Value.isProper_toJson (h value hvalue)

/-- What is printed repeats no key. -/
theorem Buffer.settle_toJson (buffer : Buffer) : buffer.toJson.settle = buffer.toJson := by
  have hparams : Json.settleItems (buffer.params.toList.map Value.toJson)
      = buffer.params.toList.map Value.toJson := by
    rw [Json.settleItems_eq_map, List.map_map]
    exact List.map_congr_left fun value _ => value.settle_toJson
  change Json.obj [("sql", .str buffer.text), ("params", .arr (Json.settleItems _))] = _
  rw [hparams]
  rfl

/-- What is printed nests within the limit. -/
theorem Buffer.nesting_toJson (buffer : Buffer) : buffer.toJson.nesting ≤ maxDepth := by
  have hparams : Json.nestingItems (buffer.params.toList.map Value.toJson) = 0 := by
    induction buffer.params.toList with
    | nil => rfl
    | cons value rest ih =>
      rw [List.map_cons, Json.nestingItems, ih, value.nesting_toJson]
      rfl
  change max 0 (max (Json.nestingItems _ + 1) 0) + 1 ≤ maxDepth
  rw [hparams]
  decide

/-- What is printed is read back if each float among the parameters is. -/
theorem Buffer.numbersReadBack_toJson
    (h : ∀ x, .float x ∈ buffer.params.toList → (Number.real x).ReadsBack) :
    buffer.toJson.NumbersReadBack := by
  have hitems : ∀ values : List Value, (∀ x, .float x ∈ values → (Number.real x).ReadsBack) →
      Json.EveryNumberItems Number.ReadsBack (values.map Value.toJson) := by
    intro values
    induction values with
    | nil => exact fun _ => trivial
    | cons value rest ih =>
      intro h
      refine ⟨?_, ih fun x hx => h x (List.mem_cons_of_mem _ hx)⟩
      cases value with
      | int n => exact Number.readsBack_integer (Number.isProper_toInt n)
      | float x => exact h x List.mem_cons_self
      | _ => trivial
  exact ⟨trivial, hitems _ h, trivial⟩

end Sql

/-- **Compiled SQL is shown by its lines** if its parameters are finite. -/
theorem showsCompiled_prettyLines {buffer : Sql.Buffer}
    (h : ∀ value ∈ buffer.params.toList, value.IsFinite) :
    ShowsCompiled buffer.toJson.prettyLines buffer := by
  refine ⟨buffer.toJson.pretty, buffer.params.toList.map Sql.Value.toJson, rfl, ?_, ?_, ?_⟩
  · rw [Json.parseNearest_pretty (Sql.Buffer.isProper_toJson h) buffer.nesting_toJson,
      buffer.settle_toJson]
    rfl
  · rw [List.forall₂_map_left_iff]
    exact List.forall₂_same.mpr fun value _ => value.standsFor_toJson
  · intro hread
    rw [Json.parse_of_spells (Json.spells_pretty (Sql.Buffer.numbersReadBack_toJson hread))
      buffer.nesting_toJson, buffer.settle_toJson]
    rfl

/-- So is a text by itself. -/
theorem showsText_prettyLines (sql : String) : ShowsText (textToJson sql).prettyLines sql := by
  have hproper : (textToJson sql).IsProper := .obj (List.forall_mem_singleton.mpr (.str sql))
  have hdepth : (textToJson sql).nesting ≤ maxDepth := by
    change max 0 0 + 1 ≤ maxDepth
    decide
  have hread : (textToJson sql).NumbersReadBack := ⟨trivial, trivial⟩
  exact ⟨_, rfl, Json.parseNearest_pretty hproper hdepth,
    Json.parse_of_spells (Json.spells_pretty hread) hdepth⟩

/-! ## The steps of a command -/

namespace Command

section

variable {α β : Type} (context : CommandContext) (tree : FileTree) (file : String)
  (reader : Reader α) (compile : Target → α → Except CompileError β)

/-- The input file is there, and holds a document that reads as the input. -/
def Takes (input : α) : Prop :=
  ∃ text, tree.read file = .ok text ∧ (Document.ofText text).read reader = .ok input

/-- The configuration is read and its graph is built.  The dialect is the configured one, unless
another one is given. -/
def Loads (target : Target) : Prop :=
  ∃ configuration runtime, context.readConfiguration tree = .ok configuration
    ∧ configuration.runtime = .ok runtime
    ∧ target = ⟨runtime.graph, context.dialect.getD runtime.dialect⟩

/-- Every step succeeds, and this is what is compiled. -/
def Compiles (result : β) : Prop :=
  ∃ input target, Takes tree file reader input ∧ Loads context tree target
    ∧ compile target input = .ok result

/-- The first step that does not succeed, and its error. -/
inductive Fails : CommandError → Prop
  | input {fault} (h : tree.read file = .error fault) : Fails (.input file fault)
  | document {text refusal} (hfile : tree.read file = .ok text)
      (h : (Document.ofText text).read reader = .error refusal) : Fails (.document file refusal)
  | configuration {input error} (htakes : Takes tree file reader input)
      (h : context.readConfiguration tree = .error error) : Fails (.configuration error)
  | graph {input configuration error} (htakes : Takes tree file reader input)
      (hread : context.readConfiguration tree = .ok configuration)
      (h : configuration.runtime = .error error) : Fails (.graph error)
  | compile {input target error} (htakes : Takes tree file reader input)
      (hloads : Loads context tree target) (h : compile target input = .error error) :
      Fails (.compile error)

/-- **A command prints what it compiles, or fails.**  It leaves the tree as it is, prints exactly if
every step succeeds, and then shows what is compiled; otherwise nothing is printed, and the error is
that of the first step that does not succeed. -/
structure Prints (command : Command) (Shows : String → β → Prop) : Prop where
  keeps : (command.run context tree).1 = tree
  succeeds : (∃ text, (command.run context tree).2 = .ok text)
    ↔ ∃ result, Compiles context tree file reader compile result
  shows : ∀ text result, (command.run context tree).2 = .ok text →
    Compiles context tree file reader compile result → Shows text result
  fails : ∀ error, (command.run context tree).2 = .error error
    ↔ Fails context tree file reader compile error

variable {context tree file reader compile}

/-- An input is read exactly if its file is there and its text is taken. -/
theorem readInput_eq_ok {input : α} :
    readInput tree file reader = .ok input ↔ Takes tree file reader input := by
  rw [readInput, Takes]
  cases tree.read file with
  | error fault => exact ⟨nofun, nofun⟩
  | ok text => simp only [Except.mapError_eq_ok, Except.ok.injEq, exists_eq_left']

/-- A target is there exactly if its configuration is read and its graph is built. -/
theorem target_eq_ok {target : Target} :
    context.target tree = .ok target ↔ Loads context tree target := by
  rw [CommandContext.target, Loads]
  simp only [Except.bind_eq_ok, Except.mapError_eq_ok, Except.ok.injEq]
  constructor
  · rintro ⟨configuration, hread, runtime, hruntime, rfl⟩
    exact ⟨configuration, runtime, hread, hruntime, rfl⟩
  · rintro ⟨configuration, runtime, hread, hruntime, rfl⟩
    exact ⟨configuration, hread, runtime, hruntime, rfl⟩

/-- Nothing but one result is compiled. -/
theorem Compiles.unique {result other : β} (h : Compiles context tree file reader compile result)
    (hother : Compiles context tree file reader compile other) : result = other := by
  obtain ⟨input, target, htakes, hloads, hcompile⟩ := h
  obtain ⟨input', target', htakes', hloads', hcompile'⟩ := hother
  rw [← readInput_eq_ok] at htakes htakes'
  rw [← target_eq_ok] at hloads hloads'
  obtain rfl := Except.ok.inj (htakes.symm.trans htakes')
  obtain rfl := Except.ok.inj (hloads.symm.trans hloads')
  exact Except.ok.inj (hcompile.symm.trans hcompile')

variable {toJson : β → Json}

/-- **A command succeeds exactly if every step does**, and prints what is compiled. -/
theorem compileInput_eq_ok {text : String} :
    compileInput context tree file reader compile toJson = .ok text
      ↔ ∃ result, Compiles context tree file reader compile result
        ∧ text = (toJson result).prettyLines := by
  rw [compileInput]
  simp only [Except.bind_eq_ok, Except.mapError_eq_ok, Except.ok.injEq, readInput_eq_ok,
    target_eq_ok]
  constructor
  · rintro ⟨input, htakes, target, hloads, result, hcompile, rfl⟩
    exact ⟨result, ⟨input, target, htakes, hloads, hcompile⟩, rfl⟩
  · rintro ⟨result, ⟨input, target, htakes, hloads, hcompile⟩, rfl⟩
    exact ⟨input, htakes, target, hloads, result, hcompile, rfl⟩

/-- An input fails by its file or by its text. -/
theorem readInput_eq_error {error : CommandError} : readInput tree file reader = .error error
    ↔ (∃ fault, tree.read file = .error fault ∧ .input file fault = error)
      ∨ ∃ text, tree.read file = .ok text
        ∧ ∃ refusal, (Document.ofText text).read reader = .error refusal
          ∧ .document file refusal = error := by
  rw [readInput]
  cases tree.read file with
  | error fault => simp
  | ok text => simp [Except.mapError_eq_error]

/-- **The error is that of the first step that fails.** -/
theorem compileInput_eq_error {error : CommandError} :
    compileInput context tree file reader compile toJson = .error error
      ↔ Fails context tree file reader compile error := by
  rw [compileInput]
  simp only [Except.bind_eq_error, readInput_eq_error, readInput_eq_ok, target_eq_ok]
  simp only [CommandContext.target, Except.bind_eq_error, Except.mapError_eq_error,
    Except.mapError_eq_ok, reduceCtorEq, and_false, exists_false, or_false]
  constructor
  · rintro ((⟨fault, h, rfl⟩ | ⟨text, hfile, refusal, h, rfl⟩) | ⟨input, htakes,
      (⟨failure, h, rfl⟩ | ⟨configuration, hread, failure, h, rfl⟩)
        | ⟨target, hloads, failure, h, rfl⟩⟩)
    · exact .input h
    · exact .document hfile h
    · exact .configuration htakes h
    · exact .graph htakes hread h
    · exact .compile htakes hloads h
  · rintro (h | ⟨hfile, h⟩ | ⟨htakes, h⟩ | ⟨htakes, hread, h⟩ | ⟨htakes, hloads, h⟩)
    · exact .inl (.inl ⟨_, h, rfl⟩)
    · exact .inl (.inr ⟨_, hfile, _, h, rfl⟩)
    · exact .inr ⟨_, htakes, .inl (.inl ⟨_, h, rfl⟩)⟩
    · exact .inr ⟨_, htakes, .inl (.inr ⟨_, hread, _, h, rfl⟩)⟩
    · exact .inr ⟨_, htakes, .inr ⟨_, hloads, _, h, rfl⟩⟩

/-- **A command that compiles its input prints so**, if the lines of a result show it. -/
theorem prints_of_compileInput {command : Command} {Shows : String → β → Prop}
    (hrun : command.run context tree
      = (tree, compileInput context tree file reader compile toJson))
    (hshows : ∀ result, Compiles context tree file reader compile result →
      Shows (toJson result).prettyLines result) :
    Prints context tree file reader compile command Shows := by
  refine ⟨congrArg Prod.fst hrun, ?_, fun text result htext hcompiles => ?_, fun error => ?_⟩
  · simp only [hrun, compileInput_eq_ok]
    exact ⟨fun ⟨_, result, hcompiles, _⟩ => ⟨result, hcompiles⟩,
      fun ⟨result, hcompiles⟩ => ⟨_, result, hcompiles, rfl⟩⟩
  · rw [hrun, compileInput_eq_ok] at htext
    obtain ⟨other, hother, rfl⟩ := htext
    obtain rfl := hcompiles.unique hother
    exact hshows _ hcompiles
  · rw [hrun, compileInput_eq_error]

end

end Command

/-- **Commands print what is compiled, or nothing.**  Whatever the files hold, a command on a
request, a filter, an order or rows prints exactly if its document reads, the configuration is read
and built, and the document compiles against it.  What it prints is one JSON object that holds the
text and the parameters that were compiled, and an order has no parameters.  Otherwise the error is
that of the first step that fails: the document, the configuration, the graph, the compilation. -/
theorem prints_what_is_compiled (context : CommandContext) (tree : FileTree)
    (entity file : String) :
    Command.Prints context tree file (.ofNode Request.ofNode)
        (fun target request => request.compile target entity) (.select entity file) ShowsCompiled
      ∧ Command.Prints context tree file Filter.reader
        (fun target filter => filter.compile target entity) (.filter entity file) ShowsCompiled
      ∧ Command.Prints context tree file (.ofNode Order.ofNode)
        (fun target order => order.compile target entity) (.order entity file) ShowsText
      ∧ Command.Prints context tree file (.ofNode Row.readAll)
        (fun target rows => Row.compileAll target entity rows) (.insert entity file)
        ShowsCompiled := by
  refine ⟨Command.prints_of_compileInput rfl ?_, Command.prints_of_compileInput rfl ?_,
    Command.prints_of_compileInput rfl ?_, Command.prints_of_compileInput rfl ?_⟩
  · rintro buffer ⟨request, target, ⟨text, -, hread⟩, -, hcompile⟩
    have hnode := (Reader.read_ofNode _ _).symm.trans (Document.root_of_read hread)
    have hfinite := Request.isFinite_of_ofNode (Document.isProper_ofText text) hnode
    exact showsCompiled_prettyLines (Request.isFinite_params hfinite hcompile)
  · rintro buffer ⟨filter, target, ⟨text, -, hread⟩, -, hcompile⟩
    have hfinite := Filter.isFinite_of_ofNode (Document.isProper_ofText text)
      (Document.root_of_read hread)
    exact showsCompiled_prettyLines (Filter.isFinite_params hfinite hcompile)
  · exact fun sql _ => showsText_prettyLines sql
  · rintro buffer ⟨rows, target, ⟨text, -, hread⟩, -, hcompile⟩
    have hnode := (Reader.read_ofNode _ _).symm.trans (Document.root_of_read hread)
    have hfinite := Row.isFinite_of_readAll (Document.isProper_ofText text) hnode
    exact showsCompiled_prettyLines (Row.isFinite_params hfinite hcompile)

example : ((Command.filter "person" "search.json").run ⟨"conf", some .postgres⟩
    ⟨[["conf"]], [(["search.json"], "\x7b\"age\": 1.50\x7d"), (["conf", "configuration.json"],
      "\x7b\"version\": \"1\", \"entities\": \x7b\"person\": \x7b\"tableName\": \"people\",
        \"fields\": \x7b\"age\": \"age\"\x7d\x7d\x7d\x7d")]⟩).2
      = .ok "\x7b\n  \"sql\": \"people.age = $1\",\n  \"params\": [\n    1.5\n  ]\n\x7d\n" := by
  decide +kernel

end EntityQuery
