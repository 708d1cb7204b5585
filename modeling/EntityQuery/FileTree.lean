import EntityQuery.Path

/-!
# FileTree — directories and files

A file tree has directories and the texts of files, each at its *place*: the names on the way to it
from the root. A path is walked step by step, and each step has to start in a directory, so a walk
through a file fails, and so does one through a directory that is not there, even when the next step
comes back. Directories are made from the longest path that can be: `makeDirectories` goes up until
one can be made or is there, and comes down again.

`walk_joinPath` says where a name in a directory is found.
-/

namespace EntityQuery

/-- Why a file was not read or written. -/
inductive FileFault where
  | missing
  | isDirectory
  | notDirectory
  | exists
  | nameTooLong
  | nullCharacter
  deriving DecidableEq, Repr

/-- The wording of a fault. -/
def FileFault.message : FileFault → String
  | .missing => "No such file or directory (os error 2)"
  | .isDirectory => "Is a directory (os error 21)"
  | .notDirectory => "Not a directory (os error 20)"
  | .exists => "File exists (os error 17)"
  | .nameTooLong => "File name too long (os error 36)"
  | .nullCharacter => "file name contained an unexpected NUL byte"

/-- Directories and files, by the names on the way to them. -/
structure FileTree where
  /-- The directories other than the root. -/
  directories : List (List String)
  /-- The texts of the files. -/
  files : List (List String × String)
  deriving DecidableEq, Repr

namespace FileTree

/-- The tree with nothing but its root. -/
def empty : FileTree := ⟨[], []⟩

/-! ## Walking -/

/-- A name has at most this many bytes. -/
def longestName : Nat := 255

/-- A path has at most this many bytes. -/
def longestPath : Nat := 4095

/-- Whether there is a directory at a place. -/
def isDirectory (tree : FileTree) (place : List String) : Bool :=
  place.isEmpty || tree.directories.contains place

/-- Whether there is anything at a place. -/
def occupied (tree : FileTree) (place : List String) : Bool :=
  tree.isDirectory place || (tree.files.lookup place).isSome

/-- Takes a step from a place, which has to be a directory. -/
def takeStep (tree : FileTree) (place : List String) (step : String) :
    Except FileFault (List String) :=
  if tree.isDirectory place then
    if staysInPlace step then .ok place
    else if step = ".." then .ok place.dropLast
    else if longestName < step.utf8ByteSize then .error .nameTooLong
    else .ok (place ++ [step])
  else if (tree.files.lookup place).isSome then .error .notDirectory
  else .error .missing

/-- The place where steps from the root lead. -/
def walk (tree : FileTree) (steps : List String) : Except FileFault (List String) :=
  steps.foldlM tree.takeStep []

/-- The steps of a path that can be a path. -/
def usableSteps (path : String) : Except FileFault (List String) :=
  if path.toList.contains '\x00' then .error .nullCharacter
  else if longestPath < path.utf8ByteSize then .error .nameTooLong
  else .ok (pathSteps path)

/-- The place where a path leads; an empty one leads nowhere. -/
def locate (tree : FileTree) (path : String) : Except FileFault (List String) :=
  if path.isEmpty then .error .missing else (usableSteps path).bind tree.walk

/-- Whether there is anything at a path. -/
def holds (tree : FileTree) (path : String) : Bool :=
  match tree.locate path with
  | .ok place => tree.occupied place
  | .error _ => false

/-! ## Files -/

/-- The text at a place. -/
def textAt (tree : FileTree) (place : List String) : Except FileFault String :=
  if tree.isDirectory place then .error .isDirectory
  else match tree.files.lookup place with
    | some text => .ok text
    | none => .error .missing

/-- Reads a file. -/
def read (tree : FileTree) (path : String) : Except FileFault String :=
  (tree.locate path).bind tree.textAt

/-- The text of a file. -/
def file? (tree : FileTree) (path : String) : Option String :=
  (tree.read path).toOption

/-- Gives the file at a place a text. -/
def put (place : List String) (text : String) :
    List (List String × String) → List (List String × String)
  | [] => [(place, text)]
  | file :: rest => if file.1 = place then (place, text) :: rest else file :: put place text rest

/-- Writes a text at a place. -/
def writeAt (tree : FileTree) (text : String) (place : List String) : Except FileFault FileTree :=
  if tree.isDirectory place then .error .isDirectory
  else .ok { tree with files := put place text tree.files }

/-- Writes a file in a directory that is there. -/
def write (tree : FileTree) (path text : String) : Except FileFault FileTree :=
  (tree.locate path).bind (tree.writeAt text)

/-! ## Directories -/

/-- Makes a directory at a place where nothing is. -/
def makeDirectoryAt (tree : FileTree) (place : List String) : Except FileFault FileTree :=
  if tree.occupied place then .error .exists
  else .ok { tree with directories := tree.directories ++ [place] }

/-- Whether steps lead to a directory. -/
def leadsToDirectory (tree : FileTree) (steps : List String) : Bool :=
  match tree.walk steps with
  | .ok place => tree.isDirectory place
  | .error _ => false

/-- Makes a directory in one that is there, if it is not there itself; slashes may follow. -/
def ensureDirectory (tree : FileTree) (steps : List String) : Except FileFault FileTree :=
  match (tree.walk (dropLastWhile (· == "") steps)).bind tree.makeDirectoryAt with
  | .ok made => .ok made
  | .error fault => if tree.leadsToDirectory steps then .ok tree else .error fault

/-- Makes a directory and, before, those above it that are missing; on a fault those that were made
stay. -/
def makeDirectories (tree : FileTree) (steps : List String) : FileTree × Except FileFault Unit :=
  match tree.ensureDirectory steps with
  | .ok made => (made, .ok ())
  | .error fault =>
      if h : fault = .missing ∧ steps ≠ [] then
        have := length_parentSteps_lt h.2
        match tree.makeDirectories (parentSteps steps) with
        | (tree, .error fault) => (tree, .error fault)
        | (tree, .ok ()) =>
            match tree.ensureDirectory steps with
            | .ok made => (made, .ok ())
            | .error fault => (tree, .error fault)
      else (tree, .error fault)
termination_by steps.length

/-- Makes the directory of a path, with those above it. -/
def makePath (tree : FileTree) (path : String) : FileTree × Except FileFault Unit :=
  match usableSteps path with
  | .ok steps => tree.makeDirectories steps
  | .error fault => (tree, .error fault)

/-- Writes a file after making the directories above it. -/
def store (tree : FileTree) (path text : String) : Except FileFault FileTree := do
  let (tree, result) := tree.makeDirectories (parentSteps (← usableSteps path))
  result
  tree.write path text

/-! ## Walks -/

theorem walk_append (tree : FileTree) (first second : List String) :
    tree.walk (first ++ second) = (tree.walk first).bind (second.foldlM tree.takeStep) :=
  List.foldlM_append

/-- A step that stays changes nothing about a step after it. -/
theorem takeStep_bind_takeStep {step : String} (h : staysInPlace step = true) (tree : FileTree)
    (place : List String) (next : String) :
    ((tree.takeStep place step).bind fun place => tree.takeStep place next)
      = tree.takeStep place next := by
  by_cases hplace : tree.isDirectory place = true
  · simp [takeStep, hplace, h, Except.bind]
  · rw [Bool.not_eq_true] at hplace
    by_cases hfile : (tree.files.lookup place).isSome = true <;>
      simp [takeStep, hplace, hfile, Except.bind]

/-- A name joined to a directory leads one step further than the directory. -/
theorem walk_joinPath (tree : FileTree) (directory : String) {name : String}
    (h : IsPlainName name) :
    tree.walk (pathSteps (joinPath directory name))
      = (tree.walk (pathSteps directory)).bind fun place => tree.takeStep place name := by
  rcases pathSteps_joinPath directory h with hj | ⟨before, hd, hj⟩
  · rw [hj, walk_append]
    simp
  · rw [hj, hd, walk_append, walk_append]
    cases tree.walk before with
    | error => rfl
    | ok place => simpa [Except.bind] using (takeStep_bind_takeStep rfl tree place name).symm

end FileTree

end EntityQuery
