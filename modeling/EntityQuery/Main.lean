import EntityQuery.Arguments

/-!
# Main — the command line

Reads the files that a command needs, runs the command on them, writes the files that it leaves and
prints its text, or its error on the standard error.
-/

namespace EntityQuery

/-- The tree with those of some files that exist; one that exists and cannot be read is an error. -/
def loadFiles (files : List String) : IO FileTree :=
  files.foldlM (fun tree (file : String) => do
    match ← (IO.FS.readFile file).toBaseIO with
    | .ok text => return (tree.store file text).toOption.getD tree
    | .error (.noFileOrDirectory ..) => return tree
    | .error error => throw error) FileTree.empty

/-- Writes those of some files that a tree has. -/
def storeFiles (files : List String) (tree : FileTree) : IO Unit :=
  files.forM fun (file : String) =>
    match tree.file? file with
    | some text => IO.FS.writeFile file text
    | none => pure ()

/-- Prints an error and what was tried. -/
def printError (error : CommandError) : IO Unit := do
  if let some context := error.context? then IO.eprintln context
  IO.eprintln error.message

/-- Runs a command on the files that are there; the exit code tells whether it succeeded. -/
def perform (invocation : Invocation) : IO UInt32 := do
  let (tree, result) := invocation.run (← loadFiles invocation.inputs)
  match result with
  | .error error => do
      printError error
      return 1
  | .ok text => do
      unless invocation.outputs.isEmpty do
        IO.FS.createDirAll invocation.context.directory
      storeFiles invocation.outputs tree
      IO.print text
      return 0

end EntityQuery

open EntityQuery in
/-- Runs what a command line asks for. -/
def main (arguments : List String) : IO UInt32 := do
  match Invocation.ofArguments arguments with
  | .ok invocation => perform invocation
  | .error error => do
      IO.eprintln error.message
      return 2
