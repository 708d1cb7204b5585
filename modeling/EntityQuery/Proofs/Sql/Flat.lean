import EntityQuery.Proofs.Sql.Evaluation
import EntityQuery.Proofs.Sql.Grammar

/-!
# Proofs/Sql/Flat — what is lost between a tree and its text

`a AND b AND c` is written alike for every way to nest its conjunctions, and a conjunction or a
disjunction of one operand is written as that operand.  `Expr.flat` undoes both: nested conjunctions
become one (`Expr.conjuncts`), and no operand stands alone.  Parentheses are kept, since they are
written.

Nothing that a database would notice is lost: `Expr.truth?_flat` and `Select.cells?_flat` say that a
statement and its flat form mean the same.
-/

namespace EntityQuery.Sql

/-! ## The flat form -/

mutual

/-- The operands of AND that an expression amounts to. -/
def Expr.conjuncts : Expr → List Expr
  | .and operands => listConjuncts operands
  | .or [operand] => operand.conjuncts
  | .or operands => [.or (flats operands)]
  | .not operand => [.not (.conjunction operand.conjuncts)]
  | .group operand => [.group (.conjunction operand.conjuncts)]
  | .compare left comparison right => [.compare left comparison right]
  | .inList operand items => [.inList operand items]
  | .inSelect operand select => [.inSelect operand select.flat]
  | .column ref => [.column ref]
  | .value given => [.value given]

/-- The operands of AND that expressions amount to, one after the other. -/
def listConjuncts : List Expr → List Expr
  | [] => []
  | operand :: rest => operand.conjuncts ++ listConjuncts rest

/-- The flat forms of expressions. -/
def flats : List Expr → List Expr
  | [] => []
  | operand :: rest => .conjunction operand.conjuncts :: flats rest

/-- The flat form of a condition that may be left out. -/
def conditionFlat : Option Expr → Option Expr
  | none => none
  | some condition => some (.conjunction condition.conjuncts)

/-- The flat form of a selection. -/
def Select.flat : Select → Select
  | ⟨list, table, condition, order, limit⟩ => ⟨list, table, conditionFlat condition, order, limit⟩

end

/-- The flat form of an expression. -/
def Expr.flat (expr : Expr) : Expr :=
  .conjunction expr.conjuncts

theorem Expr.flat_or (operands : List Expr) :
    (Expr.or operands).flat = .disjunction (flats operands) := by
  match operands with
  | [] => rfl
  | [operand] => rw [flat, conjuncts]; rfl
  | _ :: _ :: _ => rfl

/-! ## The flat form means the same -/

theorem Truth.and_assoc (a b c : Truth) : (a.and b).and c = a.and (b.and c) := by
  cases a <;> cases b <;> cases c <;> rfl

section Meaning

variable {D : Type} (db : Database D)

/-- What operands of AND say together, if each of them says something. -/
def allTrue? (scope : Scope D) (operands : List Expr) : Option Truth :=
  (truths? db scope operands).map Truth.all

theorem allTrue?_singleton (scope : Scope D) (operand : Expr) :
    allTrue? db scope [operand] = operand.truth? db scope := by
  rw [allTrue?, truths?, truths?]
  cases operand.truth? db scope with
  | none => rfl
  | some truth => exact congrArg some (Truth.all_singleton truth)

theorem allTrue?_cons (scope : Scope D) (operand : Expr) (rest : List Expr) :
    allTrue? db scope (operand :: rest) = (do
      let truth ← operand.truth? db scope
      let others ← allTrue? db scope rest
      some (truth.and others)) := by
  rw [allTrue?, allTrue?, truths?]
  cases operand.truth? db scope with
  | none => rfl
  | some truth => cases truths? db scope rest <;> rfl

theorem allTrue?_append (scope : Scope D) (first second : List Expr) :
    allTrue? db scope (first ++ second) = (do
      let truth ← allTrue? db scope first
      let others ← allTrue? db scope second
      some (truth.and others)) := by
  induction first with
  | nil =>
    rw [List.nil_append]
    cases allTrue? db scope second <;> rfl
  | cons operand rest ih =>
    rw [List.cons_append, allTrue?_cons, allTrue?_cons, ih]
    cases operand.truth? db scope with
    | none => rfl
    | some truth =>
      cases allTrue? db scope rest with
      | none => rfl
      | some restTruth =>
        cases allTrue? db scope second with
        | none => rfl
        | some others => exact congrArg some (Truth.and_assoc truth restTruth others).symm

/-- Operands of AND say the same as one expression. -/
theorem truth?_conjunction (scope : Scope D) (operands : List Expr) :
    (Expr.conjunction operands).truth? db scope = allTrue? db scope operands := by
  match operands with
  | [] => rfl
  | [operand] => exact (allTrue?_singleton db scope operand).symm
  | _ :: _ :: _ => rfl

/-- Selections that differ in conditions of one truth find the same cells. -/
theorem cells?_congr (scope : Scope D) {list : SelectList} {table : String}
    {condition other : Option Expr} {order : List SortTerm} {limit : Limit}
    (h : ∀ row, conditionTruth? db ((table, row) :: scope) condition
      = conditionTruth? db ((table, row) :: scope) other) :
    Select.cells? db scope ⟨list, table, condition, order, limit⟩
      = Select.cells? db scope ⟨list, table, other, order, limit⟩ := by
  match list, order, limit with
  | .columns [column], [], ⟨none, _⟩ => rw [Select.cells?, Select.cells?, funext h]
  | .columns [column], [], ⟨some _, _⟩ => rfl
  | .columns [column], _ :: _, _ => rfl
  | .columns [], _, _ => rfl
  | .columns (_ :: _ :: _), _, _ => rfl
  | .star _, _, _ => rfl

mutual

/-- **The operands of AND that an expression amounts to say what it says.** -/
theorem Expr.allTrue?_conjuncts : ∀ (expr : Expr) (scope : Scope D),
    allTrue? db scope expr.conjuncts = expr.truth? db scope
  | .and operands, scope => by
      rw [Expr.conjuncts, Expr.truth?]
      exact allTrue?_listConjuncts operands scope
  | .or [], scope => rfl
  | .or [operand], scope => by
      rw [Expr.conjuncts, Expr.allTrue?_conjuncts operand scope, Expr.truth?, truths?, truths?]
      cases operand.truth? db scope with
      | none => rfl
      | some truth => cases truth <;> rfl
  | .or (first :: second :: rest), scope => by
      rw [Expr.conjuncts, allTrue?_singleton, Expr.truth?, Expr.truth?,
        truths?_flats (first :: second :: rest) scope]
      rintro operand ⟨⟩
  | .not operand, scope => by
      rw [Expr.conjuncts, allTrue?_singleton, Expr.truth?, Expr.truth?, truth?_conjunction,
        Expr.allTrue?_conjuncts operand scope]
  | .group operand, scope => by
      rw [Expr.conjuncts, allTrue?_singleton, Expr.truth?, Expr.truth?, truth?_conjunction,
        Expr.allTrue?_conjuncts operand scope]
  | .inSelect operand select, scope => by
      rw [Expr.conjuncts, allTrue?_singleton, Expr.truth?, Expr.truth?,
        Select.cells?_flat select scope]
  | .compare left comparison right, scope => allTrue?_singleton db scope _
  | .inList operand items, scope => allTrue?_singleton db scope _
  | .column ref, scope => allTrue?_singleton db scope _
  | .value given, scope => allTrue?_singleton db scope _

theorem allTrue?_listConjuncts : ∀ (operands : List Expr) (scope : Scope D),
    allTrue? db scope (listConjuncts operands) = allTrue? db scope operands
  | [], _ => rfl
  | operand :: rest, scope => by
      rw [listConjuncts, allTrue?_append, allTrue?_cons, Expr.allTrue?_conjuncts operand scope,
        allTrue?_listConjuncts rest scope]

theorem truths?_flats : ∀ (operands : List Expr) (scope : Scope D),
    truths? db scope (flats operands) = truths? db scope operands
  | [], _ => rfl
  | operand :: rest, scope => by
      rw [flats, truths?, truths?, truth?_conjunction, Expr.allTrue?_conjuncts operand scope,
        truths?_flats rest scope]

theorem conditionTruth?_flat : ∀ (condition : Option Expr) (scope : Scope D),
    conditionTruth? db scope (conditionFlat condition) = conditionTruth? db scope condition
  | none, _ => rfl
  | some condition, scope => by
      rw [conditionFlat, conditionTruth?, conditionTruth?, truth?_conjunction,
        Expr.allTrue?_conjuncts condition scope]

/-- **A selection and its flat form find the same cells.** -/
theorem Select.cells?_flat : ∀ (select : Select) (scope : Scope D),
    select.flat.cells? db scope = select.cells? db scope
  | ⟨_, table, condition, _, _⟩, scope =>
      cells?_congr db scope fun row => conditionTruth?_flat condition ((table, row) :: scope)

end

/-- **An expression and its flat form say the same.** -/
theorem Expr.truth?_flat (expr : Expr) (scope : Scope D) :
    expr.flat.truth? db scope = expr.truth? db scope :=
  (truth?_conjunction db scope _).trans (expr.allTrue?_conjuncts db scope)

end Meaning

end EntityQuery.Sql
