import EntityQuery.Filter.Basic

/-!
# Filter/Reader — filters as they are written

A filter is an object of clauses by field. An array is a list of scalars, an object with a scalar's
mark is a scalar, one with an operator key is a condition, and any other object is a filter again.
The value of a field is read in full before it is looked at, so repeated keys inside it have been
merged. Keys that start with `$_` are reserved: at the level of a filter only `$_not` has a meaning.
-/

namespace EntityQuery

namespace Operand

/-- The operand that a value spells: a list of scalars, or a scalar. -/
def ofJson (value : Json) : Except Complaint Operand :=
  let operand := match value with
    | .arr items => (items.mapM Scalar.ofJson).map Operand.oneOf
    | value => (Scalar.ofJson value).map Operand.one
  operand.mapError fun _ => .noShape "EqualValue"

/-- The reader of operands. -/
def reader : Reader Operand :=
  ⟨Json, fun node => Node.faulty node.content, ofJson⟩

/-- Reads an operand. -/
def ofNode (node : Node) : Except Complaint Operand :=
  reader.read node

end Operand

namespace Condition

/-- The keys of a condition, as far as they were given. A null bound is as good as none, but a null
operand or pattern is given. -/
structure Parts where
  /-- The operand of an equality. -/
  operand : Option Operand := none
  /-- The pattern. -/
  pattern : Option Scalar := none
  /-- The lower bound. -/
  above : Option Scalar := none
  /-- The upper bound. -/
  below : Option Scalar := none
  /-- The negation. -/
  negated : Bool := false

/-- The record of a condition's keys. -/
def record : Record Parts where
  name := "RawCondition"
  closed := true
  fields := [
    ⟨Key.equal, false, fun node => do
      let operand ← Operand.ofNode node
      .ok fun parts => { parts with operand := some operand }⟩,
    ⟨Key.like, false, fun node => do
      let pattern ← Scalar.ofNode node
      .ok fun parts => { parts with pattern := some pattern }⟩,
    ⟨Key.greater, false, fun node => do
      let above ← Node.readOption Scalar.ofNode node
      .ok fun parts => { parts with above }⟩,
    ⟨Key.lesser, false, fun node => do
      let below ← Node.readOption Scalar.ofNode node
      .ok fun parts => { parts with below }⟩,
    ⟨Key.negation, false, fun node => do
      let negated ← Node.readBool node
      .ok fun parts => { parts with negated }⟩]

namespace Parts

/-- Whether a bound is given. -/
def isRange (parts : Parts) : Bool :=
  parts.above.isSome || parts.below.isSome

/-- The families of the operators that are given. -/
def families (parts : Parts) : List String :=
  (if parts.operand.isSome then [Key.equal] else [])
    ++ (if parts.pattern.isSome then [Key.like] else [])
    ++ (if parts.isRange then [Key.greater ++ "/" ++ Key.lesser] else [])

/-- The condition, unless operators of several families are given. -/
def condition (parts : Parts) : Except Complaint Condition :=
  match parts.operand, parts.pattern, parts.isRange with
  | none, none, false => .ok ⟨.unspecified, parts.negated⟩
  | some operand, none, false => .ok ⟨.equal operand, parts.negated⟩
  | none, some pattern, false => .ok ⟨.like pattern, parts.negated⟩
  | none, none, true => .ok ⟨.range parts.above parts.below, parts.negated⟩
  | _, _, _ => .error (.mixedFamilies parts.families)

end Parts

/-- The reader of conditions. -/
def reader (source : Source) : Reader Condition :=
  ⟨Parts, record.read source {}, Parts.condition⟩

/-- Reads a condition. -/
def ofNode (source : Source) (node : Node) : Except Complaint Condition :=
  (reader source).read node

/-- Whether members hold an operator. -/
def isMarked {α : Type} (members : List (String × α)) : Bool :=
  [Key.equal, Key.like, Key.greater, Key.lesser].any fun key => Key.isIn key members

end Condition

namespace Filter

/-- Takes an entry into a filter: the negation, or the clause of a field. -/
def addEntry (filter : Filter) (key : String) (clause : Clause) : Except Complaint Filter :=
  if key = Key.negation then
    match clause with
    | .value (.bool negated) => .ok { filter with negated }
    | _ => .error .invalidNot
  else if Key.isReserved key then .error (.reservedKey key)
  else .ok (filter.add key clause)

/-- The filter that entries make up. -/
def ofEntries (entries : Entries Clause) : Except Complaint Filter :=
  entries.foldlM (fun filter entry => filter.addEntry entry.1 entry.2) empty

end Filter

namespace Clause

mutual

/-- The clause that a value spells. -/
def ofJson : Json → Except Complaint Clause
  | .arr items => (items.mapM Scalar.ofJson).map Clause.list
  | .obj members =>
      if Key.marksScalar members then (Scalar.ofJson (.obj members)).map Clause.value
      else if Condition.isMarked members then
        (Condition.ofNode .value (Node.ofJson (.obj members))).map Clause.condition
      else do
        let entries ← ofMembers members
        let filter ← Filter.ofEntries entries
        .ok filter.toClause
  | scalar => (Scalar.ofJson scalar).map Clause.value

/-- The clauses that members spell. -/
def ofMembers : List (String × Json) → Except Complaint (List (String × Clause))
  | [] => .ok []
  | (key, member) :: rest => do
      let clause ← ofJson member
      let entries ← ofMembers rest
      .ok ((key, clause) :: entries)

end

/-- The reader of clauses. -/
def reader : Reader Clause :=
  ⟨Json, fun node => Node.faulty node.value, ofJson⟩

/-- Reads a clause. -/
def ofNode (node : Node) : Except Complaint Clause :=
  reader.read node

end Clause

namespace Filter

/-- The filter that the members of an object spell. -/
def ofMembers (members : List (String × Json)) : Except Complaint Filter := do
  let entries ← Clause.ofMembers members
  ofEntries entries

/-- The reader of filters. -/
def reader : Reader Filter :=
  ⟨Entries Clause, fun node => node.readEntries Clause.ofNode, ofEntries⟩

/-- Reads a filter. -/
def ofNode (node : Node) : Except Complaint Filter :=
  reader.read node

end Filter

end EntityQuery
