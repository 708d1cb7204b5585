import EntityQuery.Graph.People
import EntityQuery.Proofs.Filter.Criterion
import EntityQuery.Proofs.Sql.Evaluation

/-!
# Proofs/Filter/Meaning — a filter means what its expression evaluates to

`Filter.meaning` says what a filter asks of a row, without SQL: a criterion compares the cell of the
field's column, a filter on a link asks for a row at the other end that passes, and a group joins
what its clauses say.  `truth?_of_expr?` is the correctness of the compiler: in every database, with
every reading of the comparisons, the expression of a filter evaluates to that meaning.

The induction runs over the filters that compile (`Clause.exprs_induction`), for all rows and all
outer scopes at once — the clauses at the other end of a link are evaluated in a longer scope.
-/

namespace EntityQuery

open Sql (Expr Database Tuple Scope Truth)

variable {D : Type}

/-! ## What a filter asks of a row -/

/-- What a criterion says of a cell. -/
def Criterion.truth (db : Database D) (cell : D) : Criterion D → Truth
  | .compare negated comparison operand => .negateIf negated (db.compare comparison cell operand)
  | .member negated operands => .negateIf negated (db.member cell operands)
  | .range negated bounds =>
      .negateIf negated (.all (bounds.map fun bound => db.compare bound.1 cell bound.2))

/-- The parameter of a scalar; one that is still to come has none, and counts as null. -/
def Scalar.parameter (dialect : Dialect) (scalar : Scalar) : Sql.Value :=
  match scalar.toValue dialect with
  | .ok value => value
  | .error _ => .null

/-- Whether a row is linked to one that passes: the disjunction of the equalities of the keys, over
the rows at the other end that pass. -/
def Link.truth (db : Database D) (other : Entity) (row : Tuple D) (passes : Tuple D → Truth) :
    Link → Truth
  | .bridge link =>
      let leads := fun via : Tuple D => (db.rows other.table).any fun far =>
        passes far = .yes ∧ db.compare .equal (via link.targetForeignKey) (far link.targetRefKey) = .yes
      db.member (row link.sourceRefKey)
        (((db.rows link.table).filter leads).map fun via => via link.sourceForeignKey)
  | .incoming link =>
      db.member (row link.sourceRefKey)
        (((db.rows other.table).filter fun far => passes far = .yes).map
          fun far => far link.targetForeignKey)
  | .outgoing link =>
      db.member (row link.sourceForeignKey)
        (((db.rows other.table).filter fun far => passes far = .yes).map
          fun far => far link.targetRefKey)

/-- The column of a field that is no link. -/
def Entity.columnName (entity : Entity) (field : String) : String :=
  (entity.columnOf? field).getD field

mutual

/-- What the clause of a field says of a row, if it says anything. -/
def Clause.meaning? (db : Database D) (target : Target) (entity : Entity) (row : Tuple D)
    (field : String) : Clause → Option Truth
  | .nested negated clauses => do
      let link ← entity.link? field
      let other ← target.graph.entity? link.target
      some (link.truth db other row fun far =>
        .ofGroup negated (clauseMeanings db target other far clauses))
  | asked =>
      asked.criterion?.map fun criterion =>
        (criterion.map fun scalar => db.bound (scalar.parameter target.dialect)).truth db
          (row (entity.columnName field))

/-- What the clauses of a group say of a row. -/
def clauseMeanings (db : Database D) (target : Target) (entity : Entity) (row : Tuple D) :
    List (String × Clause) → List Truth
  | [] => []
  | (field, clause) :: rest =>
      (clause.meaning? db target entity row field).toList
        ++ clauseMeanings db target entity row rest

end

/-- What a filter says of a row. -/
def Filter.meaning (db : Database D) (target : Target) (entity : Entity) (row : Tuple D)
    (filter : Filter) : Truth :=
  .ofGroup filter.negated (clauseMeanings db target entity row filter.clauses)

/-! ## What the parts of an expression evaluate to -/

section Evaluated

variable (db : Database D) (scope : Scope D)

theorem Criterion.truth?_expr {column : Expr} {cell : D} (h : column.cell? db scope = some cell)
    (criterion : Criterion Sql.Value) :
    (criterion.expr column).truth? db scope = some ((criterion.map db.bound).truth db cell) := by
  cases criterion with
  | compare negated comparison operand =>
    have htruth := Sql.truth?_compare_value db scope comparison operand h
    exact Sql.truth?_negateIf db scope negated htruth
  | member negated operands =>
    exact Sql.truth?_negateIf db scope negated (Sql.truth?_inList_values db scope operands h)
  | range negated bounds =>
    have hbounds := Sql.truths?_map db scope
      (fun bound : Sql.Comparison × Sql.Value => Sql.truth?_compare_value db scope bound.1 bound.2 h)
      bounds
    have hmap : (bounds.map fun bound => (bound.1, db.bound bound.2)).map
        (fun bound => db.compare bound.1 cell bound.2)
        = bounds.map fun bound => db.compare bound.1 cell (db.bound bound.2) := List.map_map
    rw [Criterion.map, Criterion.truth, hmap]
    cases negated with
    | false =>
      change (Sql.truths? db scope _).map Truth.all = _
      rw [hbounds]
      rfl
    | true =>
      change ((Sql.truths? db scope _).map Truth.all).map Truth.not = _
      rw [hbounds]
      rfl

/-- A group of expressions evaluates to the group of their truths; an empty one to true. -/
theorem conditionTruth?_joinGroup {operands : List Expr} {truths : List Truth} (negated : Bool)
    (h : Sql.truths? db scope operands = some truths) :
    Sql.conditionTruth? db scope (joinGroup negated operands)
      = some (.ofGroup negated truths) := by
  cases operands with
  | nil =>
    cases h
    cases negated <;> rfl
  | cons operand rest =>
    cases negated with
    | true =>
      change ((Sql.truths? db scope (operand :: rest)).map Truth.any).map Truth.not = _
      rw [h]
      rfl
    | false =>
      cases rest with
      | nil =>
        rw [Sql.truths?] at h
        obtain ⟨truth, htruth, h⟩ := Option.bind_eq_some_iff.mp h
        cases h
        exact htruth.trans (congrArg some (Truth.all_singleton truth).symm)
      | cons second rest =>
        change (Sql.truths? db scope (operand :: second :: rest)).map Truth.all = _
        rw [h]
        rfl

/-- A link evaluates to whether it leads to a row that passes, if its condition says which do. -/
theorem Link.truth?_expr (source other : Entity) {condition : Option Expr}
    {passes : Tuple D → Truth} (row : Tuple D)
    (h : ∀ far scope, Sql.conditionTruth? db ((other.table, far) :: scope) condition
      = some (passes far)) (link : Link) :
    (link.expr source other condition).truth? db ((source.table, row) :: scope)
      = some (link.truth db other row passes) := by
  cases link with
  | incoming link =>
    exact Sql.truth?_inSelect db _ (Sql.cell?_ofColumn db scope _ _ row)
      (Sql.cells?_columnWhere db _ _ _ fun far => h far _)
  | outgoing link =>
    exact Sql.truth?_inSelect db _ (Sql.cell?_ofColumn db scope _ _ row)
      (Sql.cells?_columnWhere db _ _ _ fun far => h far _)
  | bridge link =>
    -- a row of the table between passes when the inner selection finds its far key
    have hvia : ∀ via, Sql.conditionTruth? db ((link.table, via) :: (source.table, row) :: scope)
        (some (.inSelect (.ofColumn link.table link.targetForeignKey)
          (.columnWhere other.table link.targetRefKey condition)))
        = some (db.member (via link.targetForeignKey)
            (((db.rows other.table).filter fun far => passes far = .yes).map
              fun far => far link.targetRefKey)) := fun via =>
      Sql.truth?_inSelect db _ (Sql.cell?_ofColumn db _ _ _ via)
        (Sql.cells?_columnWhere db _ _ _ fun far => h far _)
    refine (Sql.truth?_inSelect db _ (Sql.cell?_ofColumn db scope _ _ row)
      (Sql.cells?_columnWhere db _ _ _ hvia)).trans ?_
    rw [Link.truth]
    refine congrArg (fun leads => some (db.member _ ((List.filter leads _).map _)))
      (funext fun via => ?_)
    rw [Bool.eq_iff_iff, decide_eq_true_eq, Database.member_column_eq_yes, List.any_eq_true]
    simp only [decide_eq_true_eq]

end Evaluated

/-! ## Correctness of the compiler -/

/-- A clause on a column says what its criterion says of the cell. -/
theorem Clause.meaning?_of_column (db : Database D) (target : Target) {entity : Entity}
    (row : Tuple D) {field : String} (h : entity.link? field = none) (clause : Clause) :
    clause.meaning? db target entity row field
      = clause.criterion?.map fun criterion =>
          (criterion.map fun scalar => db.bound (scalar.parameter target.dialect)).truth db
            (row (entity.columnName field)) := by
  cases clause with
  | nested negated clauses => rw [meaning?, h]; rfl
  | value scalar => rw [meaning?]; rintro _ _ ⟨⟩
  | list scalars => rw [meaning?]; rintro _ _ ⟨⟩
  | condition asked => rw [meaning?]; rintro _ _ ⟨⟩

theorem Scalar.parameter_of_toValue {dialect : Dialect} (scalar : Scalar) (value : Sql.Value)
    (h : scalar.toValue dialect = .ok value) : scalar.parameter dialect = value := by
  rw [Scalar.parameter, h]

/-- The expressions of clauses evaluate to what the clauses say, in every outer scope. -/
theorem truths?_exprs (db : Database D) (target : Target) {entity : Entity}
    {clauses : List (String × Clause)} {operands : List Expr}
    (h : Clause.exprs target entity clauses = .ok operands) (row : Tuple D) (outer : Scope D) :
    Sql.truths? db ((entity.table, row) :: outer) operands
      = some (clauseMeanings db target entity row clauses) := by
  refine Clause.exprs_induction target
    (P := fun entity field clause operand => ∀ row outer,
      Sql.truths? db ((entity.table, row) :: outer) operand.toList
        = some (clause.meaning? db target entity row field).toList)
    (Q := fun entity clauses operands => ∀ row outer,
      Sql.truths? db ((entity.table, row) :: outer) operands
        = some (clauseMeanings db target entity row clauses))
    ?silent ?column ?link ?nil ?cons entity clauses operands h row outer
  case silent =>
    intro entity field clause hlink hcriterion row outer
    rw [Clause.meaning?_of_column db target row hlink, hcriterion]
    rfl
  case column =>
    intro entity field clause criterion bound hlink hcriterion hbound row outer
    have htruth := Criterion.truth?_expr db _
      (Sql.cell?_ofColumn db outer entity.table (entity.columnName field) row) bound
    rw [Clause.meaning?_of_column db target row hlink, hcriterion,
      ← Criterion.map_of_traverse Scalar.parameter_of_toValue hbound, Criterion.map_map] at *
    exact Sql.truths?_singleton db _ htruth
  case link =>
    intro entity field link other negated clauses operands hlink hother ih row outer
    rw [Clause.meaning?, hlink, Option.bind_eq_bind, Option.bind_some, Target.entity_eq_ok.mp hother,
      Option.bind_eq_bind, Option.bind_some]
    exact Sql.truths?_singleton db _ (Link.truth?_expr db outer entity other row
      (fun far scope => conditionTruth?_joinGroup db _ negated (ih far scope)) link)
  case nil =>
    intro entity row outer
    rw [clauseMeanings]
    rfl
  case cons =>
    intro entity field clause operand rest operands ihClause ihRest row outer
    rw [clauseMeanings]
    exact Sql.truths?_append db _ (ihClause row outer) (ihRest row outer)

/-- **A filter means what its expression evaluates to** — in every database, at every row and in
every outer scope; in particular every column of the expression resolves. -/
theorem Filter.truth?_of_expr? (db : Database D) (target : Target) {entity : Entity}
    {filter : Filter} {condition : Option Expr} (h : filter.expr? target entity = .ok condition)
    (row : Tuple D) (outer : Scope D) :
    Sql.conditionTruth? db ((entity.table, row) :: outer) condition
      = some (filter.meaning db target entity row) := by
  obtain ⟨operands, hoperands, h⟩ := Except.bind_eq_ok.mp h
  cases h
  exact conditionTruth?_joinGroup db _ filter.negated (truths?_exprs db target hoperands row outer)

/-! ### A graph that refers to itself -/

/-- Those whose mother is not called Ann. -/
def notAnnsChild : Filter := ⟨true, [("mother", .nested false [("name", .value (.text "Ann"))])]⟩

/-- The child of a mother with the key 1. -/
def annsChild : Tuple Sql.Value
  | "id" => .int 2
  | "motherId" => .int 1
  | _ => .null

/-- Ann, with the key 1, and her child; whatever is compared with a null is unknown. -/
def annsFamily : Database Sql.Value where
  rows
    | "person" => [fun | "id" => .int 1 | "name" => .text "Ann" | _ => .null, annsChild]
    | _ => []
  bound := id
  compare
    | _, .null, _ => .unknown
    | _, _, .null => .unknown
    | .equal, cell, other => if cell = other then .yes else .no
    | _, _, _ => .unknown

/-- Inside the selection, `person.name` is the name of the mother. -/
theorem truth?_of_notAnnsChild :
    notAnnsChild.expr? ⟨Graph.People.graph, .generic⟩ Graph.People.person
        = .ok (some (.not (.group (.or [.inSelect (.ofColumn "person" "motherId")
            (.columnWhere "person" "id" (some (.compare (.ofColumn "person" "name") .equal
              (.value (.text "Ann")))))]))))
      ∧ Sql.conditionTruth? annsFamily [("person", annsChild)]
          (some (.not (.group (.or [.inSelect (.ofColumn "person" "motherId")
            (.columnWhere "person" "id" (some (.compare (.ofColumn "person" "name") .equal
              (.value (.text "Ann")))))]))))
          = some .no := by
  have h : notAnnsChild.expr? ⟨Graph.People.graph, .generic⟩ Graph.People.person
      = .ok (some (.not (.group (.or [.inSelect (.ofColumn "person" "motherId")
          (.columnWhere "person" "id" (some (.compare (.ofColumn "person" "name") .equal
            (.value (.text "Ann")))))])))) := rfl
  exact ⟨h, (Filter.truth?_of_expr? annsFamily _ h annsChild []).trans rfl⟩

end EntityQuery
