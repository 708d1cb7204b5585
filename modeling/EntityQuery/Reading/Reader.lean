import EntityQuery.Reading.Record

/-!
# Reading/Reader — documents in two steps

A document is read in two steps: a reader takes something off the text, and makes its value of that
once it has all of it. A complaint of the first step stands at a place in the text, one of the
second is about the whole, and text after the document is looked at last. `complaint_read` says that
the steps complain as one reading of the tree does; only `Refusal` tells them apart.
-/

namespace EntityQuery

/-- Reads values off trees, in two steps. -/
structure Reader (α : Type) where
  /-- What is taken off the tree. -/
  Taken : Type
  /-- Takes it. -/
  take : Node → Except Complaint Taken
  /-- Makes the value of it. -/
  make : Taken → Except Complaint α

/-- Why a document was refused. -/
inductive Refusal where
  /-- Something does not fit at a place in the text. -/
  | atPlace (complaint : Complaint)
  /-- What was taken off the text makes no value. -/
  | ofWhole (complaint : Complaint)
  deriving DecidableEq, Repr

/-- The complaint, wherever it arose. -/
def Refusal.complaint : Refusal → Complaint
  | .atPlace complaint | .ofWhole complaint => complaint

namespace Reader

variable {α : Type}

/-- The reader whose first step is all it does. -/
def ofNode (read : Node → Except Complaint α) : Reader α :=
  ⟨α, read, .ok⟩

/-- Reads a value off a tree. -/
def read (reader : Reader α) (node : Node) : Except Complaint α :=
  (reader.take node).bind reader.make

theorem read_ofNode (read : Node → Except Complaint α) (node : Node) :
    (ofNode read).read node = read node := by
  cases h : read node <;> simp [Reader.read, ofNode, h, Except.bind]

end Reader

namespace Document

variable {α : Type}

/-- Reads a document: its value, and then nothing more. -/
def read (reader : Reader α) (document : Document) : Except Refusal α := do
  let taken ← (reader.take document.root).mapError .atPlace
  let value ← (reader.make taken).mapError .ofWhole
  (Node.faulty (Node.close document.trailing)).mapError .atPlace
  .ok value

theorem complaint_read (reader : Reader α) (document : Document) :
    (document.read reader).mapError Refusal.complaint = (do
      let value ← reader.read document.root
      Node.faulty (Node.close document.trailing)
      .ok value) := by
  unfold read Reader.read
  cases reader.take document.root with
  | error => rfl
  | ok taken =>
    change Except.mapError _ (Except.bind (Except.mapError _ (reader.make taken)) _)
      = Except.bind (reader.make taken) _
    cases reader.make taken with
    | error => rfl
    | ok value => cases Node.faulty (Node.close document.trailing) <;> rfl

end Document

end EntityQuery
