import EntityQuery.Compile.Insert
import EntityQuery.Compile.Select
import EntityQuery.Graph.People
import EntityQuery.Proofs.Filter.Criterion
import EntityQuery.Proofs.Sql.Segments

/-!
# Proofs/Filter/Parameters — which scalars become parameters, and where

`Filter.scalars` walks a filter depth first and collects the scalars of the clauses that ask
something, and `Row.cells` lists the cells of an insertion.  Compiling binds exactly these, in this
order (`values_expr?`, `values_of_insertion`), and how placeholders look plays no part in it
(`exprs_placeholder`): the same segments and the same parameters go with either style.
-/

namespace EntityQuery

open Sql (Expr Buffer Value)

/-! ## The scalars of a request -/

mutual

/-- The scalars that the clause of a field binds, in order. -/
def Clause.scalars (graph : Graph) (entity : Entity) (field : String) : Clause → List Scalar
  | .nested _ clauses =>
      match (entity.link? field).bind fun link => graph.entity? link.target with
      | some other => clauseScalars graph other clauses
      | none => []
  | asked => (asked.criterion?.map Criterion.operands).getD []

/-- The scalars that the clauses of a group bind, one clause after the other. -/
def clauseScalars (graph : Graph) (entity : Entity) : List (String × Clause) → List Scalar
  | [] => []
  | (field, clause) :: rest =>
      clause.scalars graph entity field ++ clauseScalars graph entity rest

end

/-- The scalars that a filter binds: those of the clauses that ask something, depth first. -/
def Filter.scalars (graph : Graph) (entity : Entity) (filter : Filter) : List Scalar :=
  clauseScalars graph entity filter.clauses

/-- The scalar that a row gives to a field; null if it gives none. -/
def Row.scalarAt (row : Row) (field : String) : Scalar :=
  match Entries.get? row field with
  | some (.scalar scalar) => scalar
  | _ => .null

/-- The cells of rows, row by row, in the order of the entity's columns. -/
def Row.cells (entity : Entity) (rows : List Row) : List Scalar :=
  rows.flatMap fun row => entity.columns.names.map row.scalarAt

/-! ## The values of what is compiled -/

theorem listValues_append (first second : List Expr) :
    Sql.listValues (first ++ second) = Sql.listValues first ++ Sql.listValues second := by
  induction first with
  | nil => rfl
  | cons operand rest ih =>
    rw [List.cons_append, Sql.listValues, ih, Sql.listValues, List.append_assoc]

theorem listValues_values (values : List Value) :
    Sql.listValues (values.map .value) = values := by
  induction values with
  | nil => rfl
  | cons value rest ih => exact congrArg (value :: ·) ih

theorem values_negateIf (negated : Bool) (operand : Expr) :
    (Expr.negateIf negated operand).values = operand.values := by
  cases negated <;> rfl

/-- The values of a criterion are its operands. -/
theorem Criterion.values_expr (table name : String) (criterion : Criterion Value) :
    (criterion.expr (.ofColumn table name)).values = criterion.operands := by
  cases criterion with
  | compare negated comparison operand => exact values_negateIf negated _
  | member negated operands =>
    exact (values_negateIf negated _).trans (listValues_values operands)
  | range negated bounds =>
    have hbounds : Sql.listValues (bounds.map fun bound =>
        .compare (.ofColumn table name) bound.1 (.value bound.2)) = bounds.map Prod.snd := by
      induction bounds with
      | nil => rfl
      | cons bound rest ih => exact congrArg (bound.2 :: ·) ih
    cases negated <;> exact hbounds

/-- A group has the values of its operands, in order. -/
theorem values_joinGroup (negated : Bool) (operands : List Expr) :
    Sql.conditionValues (joinGroup negated operands) = Sql.listValues operands := by
  match negated, operands with
  | true, [] => rfl
  | true, _ :: _ => rfl
  | false, [] => rfl
  | false, [operand] => exact (List.append_nil _).symm
  | false, _ :: _ :: _ => rfl

/-- A link adds no value to those of its condition. -/
theorem Link.values_expr (source other : Entity) (condition : Option Expr) (link : Link) :
    (link.expr source other condition).values = Sql.conditionValues condition := by
  cases link <;> rfl

/-- What is asked of a column is compared with the operands of its criterion. -/
theorem Clause.scalars_of_column (graph : Graph) {entity : Entity} {field : String}
    (h : entity.link? field = none) (clause : Clause) :
    clause.scalars graph entity field = (clause.criterion?.map Criterion.operands).getD [] := by
  cases clause with
  | nested negated clauses => rw [scalars, h]; rfl
  | value scalar => rw [scalars]; rintro _ _ ⟨⟩
  | list scalars => rw [Clause.scalars]; rintro _ _ ⟨⟩
  | condition asked => rw [scalars]; rintro _ _ ⟨⟩

/-- **The values of the expressions of clauses are their scalars, bound in order.** -/
theorem values_exprs (target : Target) {entity : Entity} {clauses : List (String × Clause)}
    {operands : List Expr} (h : Clause.exprs target entity clauses = .ok operands) :
    (clauseScalars target.graph entity clauses).mapM (Scalar.toValue target.dialect)
      = .ok (Sql.listValues operands) := by
  refine Clause.exprs_induction target
    (P := fun entity field clause operand =>
      (clause.scalars target.graph entity field).mapM (Scalar.toValue target.dialect)
        = .ok (Sql.listValues operand.toList))
    (Q := fun entity clauses operands =>
      (clauseScalars target.graph entity clauses).mapM (Scalar.toValue target.dialect)
        = .ok (Sql.listValues operands))
    ?silent ?column ?link ?nil ?cons entity clauses operands h
  case silent =>
    intro entity field clause hlink hcriterion
    rw [Clause.scalars_of_column _ hlink, hcriterion]
    rfl
  case column =>
    intro entity field clause criterion bound hlink hcriterion hbound
    rw [Clause.scalars_of_column _ hlink, hcriterion]
    refine (criterion.operands_of_traverse hbound).trans (congrArg Except.ok ?_)
    exact ((List.append_nil _).trans (bound.values_expr _ _)).symm
  case link =>
    intro entity field link other negated clauses operands hlink hother ih
    rw [Clause.scalars, hlink, Option.bind_some, Target.entity_eq_ok.mp hother]
    refine ih.trans (congrArg Except.ok ?_)
    exact ((List.append_nil _).trans
      ((link.values_expr _ _ _).trans (values_joinGroup negated operands))).symm
  case nil =>
    intro entity
    rw [clauseScalars]
    rfl
  case cons =>
    intro entity field clause operand rest operands hclause hrest
    rw [clauseScalars, listValues_append]
    exact Except.mapM_append hclause hrest

/-- **The values of a filter's expression are its scalars, bound in order.** -/
theorem Filter.values_expr? (target : Target) {entity : Entity} {filter : Filter}
    {condition : Option Expr} (h : filter.expr? target entity = .ok condition) :
    (filter.scalars target.graph entity).mapM (Scalar.toValue target.dialect)
      = .ok (Sql.conditionValues condition) := by
  obtain ⟨operands, hoperands, h⟩ := Except.bind_eq_ok.mp h
  cases h
  rw [values_joinGroup]
  exact values_exprs target hoperands

/-! ## The values of an insertion -/

namespace Row

/-- A cell is bound as the scalar that the row gives to the field. -/
theorem cellExpr_eq_ok {dialect : Dialect} {row : Row} {field : String} {expr : Expr}
    (h : row.cellExpr dialect field = .ok expr) :
    ∃ value, (row.scalarAt field).toValue dialect = .ok value ∧ expr = .value value := by
  rw [scalarAt]
  rw [cellExpr] at h
  generalize Entries.get? row field = cell at h ⊢
  rcases cell with _ | ⟨scalar⟩ | ⟨value⟩
  · cases h
    exact ⟨.null, rfl, rfl⟩
  · obtain ⟨value, hvalue, rfl⟩ := Except.map_eq_ok.mp h
    exact ⟨value, hvalue, rfl⟩
  · exact nomatch h

/-- The values of a tuple are the scalars of its row, by the names of the fields. -/
theorem values_tuple {dialect : Dialect} {row : Row} :
    ∀ {fields : List String} {exprs : List Expr}, row.tuple dialect fields = .ok exprs →
      (fields.map row.scalarAt).mapM (Scalar.toValue dialect) = .ok (Sql.listValues exprs)
  | [], exprs, h => by
      cases h
      rfl
  | field :: rest, exprs, h => by
      rw [tuple, Except.mapM_cons] at h
      obtain ⟨expr, hexpr, h⟩ := Except.bind_eq_ok.mp h
      obtain ⟨others, hothers, rfl⟩ := Except.map_eq_ok.mp h
      obtain ⟨value, hvalue, rfl⟩ := cellExpr_eq_ok hexpr
      rw [List.map_cons, Except.mapM_cons, hvalue]
      exact Except.map_eq_ok.mpr ⟨_, values_tuple hothers, rfl⟩

/-- The values of all tuples are the scalars of the rows, row by row. -/
theorem values_tuples {dialect : Dialect} {fields : List String} :
    ∀ {rows : List Row} {tuples : List (List Expr)},
      rows.mapM (tuple dialect fields) = .ok tuples →
        (rows.flatMap fun row => fields.map row.scalarAt).mapM (Scalar.toValue dialect)
          = .ok (tuples.flatMap Sql.listValues)
  | [], tuples, h => by
      cases h
      rfl
  | row :: rest, tuples, h => by
      rw [Except.mapM_cons] at h
      obtain ⟨exprs, hexprs, h⟩ := Except.bind_eq_ok.mp h
      obtain ⟨others, hothers, rfl⟩ := Except.map_eq_ok.mp h
      rw [List.flatMap_cons, List.flatMap_cons]
      exact Except.mapM_append (values_tuple hexprs) (values_tuples hothers)

/-- What an insertion is, when there is one. -/
theorem insertion_eq_ok {target : Target} {name : String} {entity : Entity} {rows : List Row}
    {insert : Sql.Insert} (h : insertion target name entity rows = .ok insert) :
    rows ≠ [] ∧ entity.columns ≠ [] ∧ ∃ tuples,
      rows.mapM (tuple target.dialect entity.columns.names) = .ok tuples
        ∧ insert = ⟨entity.table, entity.columns.map Prod.snd, tuples⟩ := by
  rw [insertion] at h
  split at h
  · exact nomatch h
  · next hrows =>
    split at h
    · exact nomatch h
    · next hcolumns =>
      obtain ⟨tuples, htuples, h⟩ := Except.bind_eq_ok.mp h
      cases h
      exact ⟨fun e => hrows (List.isEmpty_iff.mpr e), fun e => hcolumns (List.isEmpty_iff.mpr e),
        tuples, htuples, rfl⟩

/-- **The values of an insertion are its cells, bound row by row.** -/
theorem values_of_insertion {target : Target} {name : String} {entity : Entity} {rows : List Row}
    {insert : Sql.Insert} (h : insertion target name entity rows = .ok insert) :
    (cells entity rows).mapM (Scalar.toValue target.dialect) = .ok insert.values := by
  obtain ⟨-, -, tuples, htuples, rfl⟩ := insertion_eq_ok h
  exact values_tuples htuples

end Row

/-! ## The style of placeholders -/

section Style

variable (graph : Graph) (booleans : BooleanBinding) (style other : Placeholder)

theorem Scalar.toValue_placeholder :
    Scalar.toValue ⟨style, booleans⟩ = Scalar.toValue ⟨other, booleans⟩ :=
  funext fun scalar => by cases scalar <;> rfl

/-- Expressions do not depend on how placeholders are written. -/
theorem exprs_placeholder (entity : Entity) (clauses : List (String × Clause)) :
    Clause.exprs ⟨graph, ⟨style, booleans⟩⟩ entity clauses
      = Clause.exprs ⟨graph, ⟨other, booleans⟩⟩ entity clauses := by
  refine Clause.induction_on_clauses
    (R := fun clause => ∀ entity field, clause.expr? ⟨graph, ⟨style, booleans⟩⟩ entity field
      = clause.expr? ⟨graph, ⟨other, booleans⟩⟩ entity field)
    (S := fun clauses => ∀ entity, Clause.exprs ⟨graph, ⟨style, booleans⟩⟩ entity clauses
      = Clause.exprs ⟨graph, ⟨other, booleans⟩⟩ entity clauses)
    ?clause ?nil ?cons clauses entity
  case clause =>
    intro clause ih entity field
    cases hlink : entity.link? field with
    | none =>
      rw [Clause.expr?_of_column _ hlink, Clause.expr?_of_column _ hlink]
      cases clause.criterion? with
      | none => rfl
      | some criterion =>
        simp only [Criterion.compiled?, Scalar.toValue_placeholder booleans style other]
    | some link =>
      rw [Clause.expr?_of_link _ hlink, Clause.expr?_of_link _ hlink]
      cases clause with
      | nested negated inner =>
        simp only [ih negated inner rfl]
        rfl
      | value scalar => rfl
      | list scalars => rfl
      | condition asked => rfl
  case nil =>
    intro entity
    rw [Clause.exprs, Clause.exprs]
  case cons =>
    intro field clause rest hclause hrest entity
    rw [Clause.exprs, Clause.exprs, hclause, hrest]

/-- The style of placeholders changes nothing of what a filter compiles to. -/
theorem Filter.expr?_placeholder (entity : Entity) (filter : Filter) :
    filter.expr? ⟨graph, ⟨style, booleans⟩⟩ entity
      = filter.expr? ⟨graph, ⟨other, booleans⟩⟩ entity := by
  rw [Filter.expr?, Filter.expr?, exprs_placeholder]

theorem Request.select_placeholder (entity : Entity) (request : Request) :
    request.select ⟨graph, ⟨style, booleans⟩⟩ entity
      = request.select ⟨graph, ⟨other, booleans⟩⟩ entity := by
  rw [Request.select, Request.select, Filter.expr?_placeholder]

/-- A row is bound alike under either style. -/
theorem Row.tuple_placeholder :
    Row.tuple ⟨style, booleans⟩ = Row.tuple ⟨other, booleans⟩ := by
  funext fields row
  refine congrArg (fields.mapM ·) (funext fun field => ?_)
  simp only [Row.cellExpr, Scalar.toExpr, Scalar.toValue_placeholder booleans style other]

theorem Row.insertion_placeholder (name : String) (entity : Entity) (rows : List Row) :
    Row.insertion ⟨graph, ⟨style, booleans⟩⟩ name entity rows
      = Row.insertion ⟨graph, ⟨other, booleans⟩⟩ name entity rows := by
  rw [Row.insertion, Row.insertion, Row.tuple_placeholder]

end Style

/-! ## Alignment -/

/-- A compilation that leaves the style of placeholders open: whichever style is chosen, it gives
the same segments with the placeholders of the same values between. -/
def Aligned (compile : Placeholder → Except CompileError Buffer) (values : List Value) : Prop :=
  ∃ segments, ∀ style, ∃ buffer, compile style = .ok buffer
    ∧ (Buffer.empty style).Extends buffer segments values

/-- A compilation that writes the same pieces under either style is aligned. -/
theorem aligned_of_pieces {compile : Placeholder → Except CompileError Buffer}
    {pieces : List Sql.Piece} (booleans : BooleanBinding)
    (h : ∀ style, compile style = .ok (.ofPieces ⟨style, booleans⟩ pieces)) :
    Aligned compile (Sql.Piece.params pieces) :=
  ⟨Sql.Piece.segments pieces, fun style => ⟨_, h style, Buffer.extends_appendAll pieces rfl⟩⟩

/-- The pieces of a condition that may be left out have its values. -/
theorem params_condition_getD (condition : Option Expr) :
    Sql.Piece.params ((condition.map Expr.pieces).getD []) = Sql.conditionValues condition := by
  cases condition with
  | none => rfl
  | some condition => exact condition.params_pieces

section Compiled

variable {graph : Graph} {booleans : BooleanBinding} {style : Placeholder} {name : String}
  {buffer : Buffer}

/-- A filter that compiles is aligned with its scalars, bound in order. -/
theorem Filter.aligned_compile {filter : Filter}
    (h : Filter.compile ⟨graph, ⟨style, booleans⟩⟩ name filter = .ok buffer) :
    ∃ entity values, graph.entity? name = some entity
      ∧ (filter.scalars graph entity).mapM (Scalar.toValue ⟨style, booleans⟩) = .ok values
      ∧ Aligned (fun style => Filter.compile ⟨graph, ⟨style, booleans⟩⟩ name filter) values := by
  obtain ⟨entity, hentity, h⟩ := Except.bind_eq_ok.mp h
  obtain ⟨condition, hcondition, -⟩ := Except.bind_eq_ok.mp h
  refine ⟨entity, _, Target.entity_eq_ok.mp hentity, Filter.values_expr? _ hcondition, ?_⟩
  rw [← params_condition_getD]
  refine aligned_of_pieces booleans fun other => ?_
  refine Except.bind_eq_ok.mpr ⟨entity, hentity, Except.bind_eq_ok.mpr ⟨condition, ?_, rfl⟩⟩
  exact (filter.expr?_placeholder graph booleans other style entity).trans hcondition

/-- A request that compiles is aligned with the scalars of its filter, bound in order. -/
theorem Request.aligned_compile {request : Request}
    (h : Request.compile ⟨graph, ⟨style, booleans⟩⟩ name request = .ok buffer) :
    ∃ entity values, graph.entity? name = some entity
      ∧ (request.search.scalars graph entity).mapM (Scalar.toValue ⟨style, booleans⟩) = .ok values
      ∧ Aligned (fun style => Request.compile ⟨graph, ⟨style, booleans⟩⟩ name request) values := by
  obtain ⟨entity, hentity, h⟩ := Except.bind_eq_ok.mp h
  obtain ⟨select, hselect, -⟩ := Except.bind_eq_ok.mp h
  obtain ⟨condition, hcondition, hcompiled⟩ := Except.bind_eq_ok.mp hselect
  refine ⟨entity, select.values, Target.entity_eq_ok.mp hentity, ?_, ?_⟩
  · cases hcompiled
    exact Filter.values_expr? _ hcondition
  · rw [← select.params_pieces]
    refine aligned_of_pieces booleans fun other => ?_
    refine Except.bind_eq_ok.mpr ⟨entity, hentity, Except.bind_eq_ok.mpr ⟨select, ?_, rfl⟩⟩
    exact (request.select_placeholder graph booleans other style entity).trans hselect

/-- Rows that compile are aligned with their cells, bound row by row. -/
theorem Row.aligned_compileAll {rows : List Row}
    (h : Row.compileAll ⟨graph, ⟨style, booleans⟩⟩ name rows = .ok buffer) :
    ∃ entity values, graph.entity? name = some entity
      ∧ (Row.cells entity rows).mapM (Scalar.toValue ⟨style, booleans⟩) = .ok values
      ∧ Aligned (fun style => Row.compileAll ⟨graph, ⟨style, booleans⟩⟩ name rows) values := by
  obtain ⟨entity, hentity, h⟩ := Except.bind_eq_ok.mp h
  obtain ⟨insert, hinsert, -⟩ := Except.bind_eq_ok.mp h
  refine ⟨entity, insert.values, Target.entity_eq_ok.mp hentity,
    Row.values_of_insertion hinsert, ?_⟩
  rw [← insert.params_pieces]
  refine aligned_of_pieces booleans fun other => ?_
  refine Except.bind_eq_ok.mpr ⟨entity, hentity, Except.bind_eq_ok.mpr ⟨insert, ?_, rfl⟩⟩
  exact (Row.insertion_placeholder graph booleans other style name entity rows).trans hinsert

end Compiled

/-- **Placeholders and parameters are aligned.**  Every statement extends every buffer by its
values, numbered on, with segments that depend on the statement alone.  A filter, a request and an
insertion that compile do so under either style, with the same segments, and their parameters are
their scalars, bound in order. -/
theorem placeholders_aligned :
    (∀ expr : Expr, ∃ segments, ∀ buffer : Buffer, buffer.paramIndex = buffer.params.size →
      buffer.Extends (buffer.appendAll expr.pieces) segments expr.values)
    ∧ (∀ select : Sql.Select, ∃ segments, ∀ buffer : Buffer,
      buffer.paramIndex = buffer.params.size →
        buffer.Extends (buffer.appendAll select.pieces) segments select.values)
    ∧ (∀ insert : Sql.Insert, ∃ segments, ∀ buffer : Buffer,
      buffer.paramIndex = buffer.params.size →
        buffer.Extends (buffer.appendAll insert.pieces) segments insert.values)
    ∧ (∀ graph booleans style name filter buffer,
      Filter.compile ⟨graph, ⟨style, booleans⟩⟩ name filter = .ok buffer →
        ∃ entity values, graph.entity? name = some entity
          ∧ (filter.scalars graph entity).mapM (Scalar.toValue ⟨style, booleans⟩) = .ok values
          ∧ Aligned (fun style => Filter.compile ⟨graph, ⟨style, booleans⟩⟩ name filter) values)
    ∧ (∀ graph booleans style name request buffer,
      Request.compile ⟨graph, ⟨style, booleans⟩⟩ name request = .ok buffer →
        ∃ entity values, graph.entity? name = some entity
          ∧ (request.search.scalars graph entity).mapM (Scalar.toValue ⟨style, booleans⟩)
            = .ok values
          ∧ Aligned (fun style => Request.compile ⟨graph, ⟨style, booleans⟩⟩ name request) values)
    ∧ (∀ graph booleans style name rows buffer,
      Row.compileAll ⟨graph, ⟨style, booleans⟩⟩ name rows = .ok buffer →
        ∃ entity values, graph.entity? name = some entity
          ∧ (Row.cells entity rows).mapM (Scalar.toValue ⟨style, booleans⟩) = .ok values
          ∧ Aligned (fun style => Row.compileAll ⟨graph, ⟨style, booleans⟩⟩ name rows) values) := by
  refine ⟨fun expr => ?_, fun select => ?_, fun insert => ?_, ?_, ?_, ?_⟩
  · exact ⟨_, fun buffer h => expr.params_pieces ▸ Buffer.extends_appendAll expr.pieces h⟩
  · exact ⟨_, fun buffer h => select.params_pieces ▸ Buffer.extends_appendAll select.pieces h⟩
  · exact ⟨_, fun buffer h => insert.params_pieces ▸ Buffer.extends_appendAll insert.pieces h⟩
  · exact fun _ _ _ _ _ _ h => Filter.aligned_compile h
  · exact fun _ _ _ _ _ _ h => Request.aligned_compile h
  · exact fun _ _ _ _ _ _ h => Row.aligned_compileAll h

/-- People of an age, unless a vehicle of theirs has a tag of a name; the null asks nothing. -/
def agedWithoutTag : Filter :=
  ⟨true, [("age", .condition (.between (.int 18) (.int 65))), ("name", .value .null),
    ("vehicles", .nested false [("tags", .nested false [("name", .value (.text "old"))])])]⟩

/-- The bounds come first, then the name two links away; and a buffer that holds a parameter is
numbered on. -/
theorem placeholders_of_agedWithoutTag :
    Aligned (fun style => agedWithoutTag.compile ⟨Graph.People.graph, ⟨style, .text⟩⟩ "person")
        [.int 18, .int 65, .text "old"]
      ∧ ∃ segments, (Buffer.ofPieces .postgres [.param .null]).Extends
          ((Buffer.ofPieces .postgres [.param .null]).appendAll
            (Expr.not (.inList (.ofColumn "person" "age") [.value .null])).pieces)
          segments [.null] := by
  obtain ⟨hexpr, -, -, hfilter, -, -⟩ := placeholders_aligned
  refine ⟨?_, ?_⟩
  · obtain ⟨entity, values, hentity, hvalues, haligned⟩ :=
      hfilter Graph.People.graph .text .numbered "person" agedWithoutTag _ rfl
    obtain rfl : Graph.People.person = entity := Option.some.inj hentity
    obtain rfl : [.int 18, .int 65, .text "old"] = values := Except.ok.inj hvalues
    exact haligned
  · obtain ⟨segments, hextends⟩ := hexpr (.not (.inList (.ofColumn "person" "age") [.value .null]))
    exact ⟨segments, hextends _ rfl⟩

end EntityQuery
