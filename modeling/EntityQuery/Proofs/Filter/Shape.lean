import EntityQuery.Graph.People
import EntityQuery.Proofs.Filter.Parameters
import EntityQuery.Proofs.Sql.Outline

/-!
# Proofs/Filter/Shape — values never reach the text

Two filters have the same shape when they differ in their scalars only — not in where a null stands
that drops a clause, and not in a value that is still to come, which is an error by its name.
`text_independent_of_values` says that filters of one shape compile to one text or to one error,
that rows of an insertion are only counted, and that how booleans are bound does not show either.

The proof compares outlines: a scalar that is bound at all leaves the same outline as any other.
-/

namespace EntityQuery

open Sql (Expr Buffer)

/-! ## Shapes -/

namespace Scalar

/-- Whether a scalar is still to come. -/
def isPending : Scalar → Bool
  | .pending _ => true
  | _ => false

/-- Scalars that may stand for each other: two that can be bound, of whatever types. -/
def Alike (a b : Scalar) : Prop :=
  a = b ∨ a.isPending = false ∧ b.isPending = false

/-- Places for a scalar that are both left free, or null, or both taken. -/
def SamePlace (a b : Option Scalar) : Prop :=
  match present? a, present? b with
  | none, none => True
  | some a, some b => a.Alike b
  | _, _ => False

end Scalar

/-- Tests with the same operator over places of the same kind. -/
def Test.SameShape : Test → Test → Prop
  | .equal (.one a), .equal (.one b) => Scalar.SamePlace a b
  | .equal (.oneOf as), .equal (.oneOf bs) => List.Forall₂ Scalar.Alike as bs
  | .like a, .like b => Scalar.SamePlace a b
  | .range above below, .range above' below' =>
      Scalar.SamePlace above above' ∧ Scalar.SamePlace below below'
  | .unspecified, .unspecified => True
  | _, _ => False

/-- Conditions with the same negation and tests of one shape. -/
def Condition.SameShape (a b : Condition) : Prop :=
  a.negated = b.negated ∧ a.test.SameShape b.test

mutual

/-- Clauses that differ in scalars only. -/
def Clause.SameShape : Clause → Clause → Prop
  | .value a, .value b => Scalar.SamePlace a b
  | .list as, .list bs => List.Forall₂ Scalar.Alike as bs
  | .condition a, .condition b => a.SameShape b
  | .nested negated clauses, .nested negated' clauses' =>
      negated = negated' ∧ SameShapes clauses clauses'
  | _, _ => False

/-- Groups of clauses that ask the same fields, in the same order, clauses of the same shapes. -/
def SameShapes : List (String × Clause) → List (String × Clause) → Prop
  | [], [] => True
  | (field, clause) :: rest, (field', clause') :: rest' =>
      field = field' ∧ clause.SameShape clause' ∧ SameShapes rest rest'
  | _, _ => False

end

/-- Filters that differ in scalars only. -/
def Filter.SameShape (a b : Filter) : Prop :=
  a.negated = b.negated ∧ SameShapes a.clauses b.clauses

/-! ## Criteria of one shape -/

/-- Criteria that differ in their operands only. -/
def Criterion.SameShape : Criterion Scalar → Criterion Scalar → Prop
  | .compare negated comparison a, .compare negated' comparison' b =>
      negated = negated' ∧ comparison = comparison' ∧ a.Alike b
  | .member negated as, .member negated' bs => negated = negated' ∧ List.Forall₂ Scalar.Alike as bs
  | .range negated as, .range negated' bs =>
      negated = negated' ∧ List.Forall₂ (fun a b => a.1 = b.1 ∧ a.2.Alike b.2) as bs
  | _, _ => False

/-- Criteria that are both missing, or of one shape. -/
def Criterion.SameShape? (a b : Option (Criterion Scalar)) : Prop :=
  match a, b with
  | none, none => True
  | some a, some b => a.SameShape b
  | _, _ => False

theorem Scalar.SamePlace.cases {a b : Option Scalar} (h : SamePlace a b) :
    (present? a = none ∧ present? b = none)
      ∨ ∃ first second, present? a = some first ∧ present? b = some second
        ∧ first.Alike second := by
  rw [SamePlace] at h
  rcases ha : present? a with _ | first <;> rcases hb : present? b with _ | second
    <;> rw [ha, hb] at h
  · exact .inl ⟨rfl, rfl⟩
  · exact h.elim
  · exact h.elim
  · exact .inr ⟨first, second, rfl, rfl, h⟩

theorem Scalar.SamePlace.compare {a b : Option Scalar} (h : SamePlace a b) (negated : Bool)
    (comparison : Sql.Comparison) :
    Criterion.SameShape? ((present? a).map (.compare negated comparison))
      ((present? b).map (.compare negated comparison)) := by
  rcases h.cases with ⟨ha, hb⟩ | ⟨first, second, ha, hb, halike⟩
  · rw [ha, hb]
    trivial
  · rw [ha, hb]
    exact ⟨rfl, rfl, halike⟩

/-- The bounds in one place of two ranges. -/
theorem Scalar.SamePlace.bounds {a b : Option Scalar} (h : SamePlace a b)
    (comparison : Sql.Comparison) :
    List.Forall₂ (fun a b => a.1 = b.1 ∧ a.2.Alike b.2)
      ((present? a).toList.map (comparison, ·)) ((present? b).toList.map (comparison, ·)) := by
  rcases h.cases with ⟨ha, hb⟩ | ⟨first, second, ha, hb, halike⟩
  · rw [ha, hb]
    exact .nil
  · rw [ha, hb]
    exact .cons ⟨rfl, halike⟩ .nil

/-- **Tests of one shape ask criteria of one shape.** -/
theorem Test.SameShape.criterion? (negated : Bool) : ∀ {a b : Test}, a.SameShape b →
    Criterion.SameShape? (Condition.criterion? ⟨a, negated⟩) (Condition.criterion? ⟨b, negated⟩)
  | .equal (.one a), .equal (.one b), h => Scalar.SamePlace.compare h negated .equal
  | .equal (.oneOf []), .equal (.oneOf []), _ => trivial
  | .equal (.oneOf (a :: as)), .equal (.oneOf (b :: bs)), h => ⟨rfl, h⟩
  | .like a, .like b, h => Scalar.SamePlace.compare h negated .like
  | .range above below, .range above' below', h => by
      have hbounds : List.Forall₂ (fun a b => a.1 = b.1 ∧ a.2.Alike b.2)
          ((Scalar.present? above).toList.map (Sql.Comparison.greater, ·)
            ++ (Scalar.present? below).toList.map (Sql.Comparison.less, ·))
          ((Scalar.present? above').toList.map (Sql.Comparison.greater, ·)
            ++ (Scalar.present? below').toList.map (Sql.Comparison.less, ·)) :=
        List.rel_append (h.1.bounds .greater) (h.2.bounds .less)
      rw [Condition.criterion?, Condition.criterion?]
      generalize (Scalar.present? above).toList.map _ ++ _ = bounds at hbounds ⊢
      generalize (Scalar.present? above').toList.map _ ++ _ = bounds' at hbounds ⊢
      rcases hbounds with _ | ⟨hfirst, hrest⟩
      · trivial
      · exact ⟨rfl, .cons hfirst hrest⟩
  | .unspecified, .unspecified, _ => trivial

theorem Condition.SameShape.criterion? {a b : Condition} (h : a.SameShape b) :
    Criterion.SameShape? a.criterion? b.criterion? := by
  obtain ⟨test, negated⟩ := a
  obtain ⟨test', negated'⟩ := b
  obtain ⟨rfl, h⟩ : negated = negated' ∧ test.SameShape test' := h
  exact h.criterion? negated

theorem Clause.SameShape.criterion? : ∀ {a b : Clause}, a.SameShape b →
    Criterion.SameShape? a.criterion? b.criterion?
  | .value _, .value _, h => Scalar.SamePlace.compare h false .equal
  | .list _, .list _, h => Condition.SameShape.criterion? ⟨rfl, h⟩
  | .condition _, .condition _, h => Condition.SameShape.criterion? h
  | .nested _ _, .nested _ _, _ => trivial

/-! ## Outlines of what is compiled -/

/-- A scalar that can be bound leaves the outline of any value. -/
theorem Scalar.map_toValue_of_not_pending (dialect : Dialect) {a : Scalar}
    (h : a.isPending = false) :
    ((a.toValue dialect).map fun _ => Sql.Value.null) = .ok .null := by
  cases a with
  | pending reference => cases h
  | _ => rfl

theorem Scalar.Alike.map_toValue {a b : Scalar} (h : a.Alike b) (dialect dialect' : Dialect) :
    ((a.toValue dialect).map fun _ => Sql.Value.null)
      = (b.toValue dialect').map fun _ => Sql.Value.null := by
  rcases h with rfl | ⟨ha, hb⟩
  · cases a <;> rfl
  · rw [map_toValue_of_not_pending dialect ha, map_toValue_of_not_pending dialect' hb]

namespace Criterion

variable {α β γ ε : Type}

/-- What is done with every operand can be done in the end. -/
theorem traverse_map_right (f : α → Except ε β) (g : β → γ) (criterion : Criterion α) :
    criterion.traverse (fun a => (f a).map g) = (criterion.traverse f).map (map g) := by
  cases criterion with
  | compare negated comparison operand =>
    rw [traverse, traverse]
    cases f operand <;> rfl
  | member negated operands =>
    rw [traverse, traverse, Except.mapM_map_right]
    cases operands.mapM f <;> rfl
  | range negated bounds =>
    have hbounds : (bounds.mapM fun bound => ((f bound.2).map g).map (bound.1, ·))
        = (bounds.mapM fun bound => (f bound.2).map (bound.1, ·)).map
            (List.map fun bound => (bound.1, g bound.2)) := by
      rw [← Except.mapM_map_right]
      refine congrArg (bounds.mapM ·) (funext fun bound => ?_)
      cases f bound.2 <;> rfl
    rw [traverse, traverse, hbounds]
    cases bounds.mapM fun bound => (f bound.2).map (bound.1, ·) <;> rfl

/-- Criteria of one shape are bound to one outline, or fail alike. -/
theorem SameShape.traverse {a b : Criterion Scalar} (h : a.SameShape b)
    (dialect dialect' : Dialect) :
    (a.traverse (Scalar.toValue dialect)).map (map fun _ => Sql.Value.null)
      = (b.traverse (Scalar.toValue dialect')).map (map fun _ => Sql.Value.null) := by
  rw [← traverse_map_right, ← traverse_map_right]
  match a, b, h with
  | .compare negated comparison a, .compare _ _ b, ⟨rfl, rfl, h⟩ =>
    exact congrArg (Except.map _) (h.map_toValue dialect dialect')
  | .member negated as, .member _ bs, ⟨rfl, h⟩ =>
    refine congrArg (Except.map _) (Except.mapM_eq_of_forall₂ (h.imp fun _ _ hab => ?_))
    exact hab.map_toValue dialect dialect'
  | .range negated as, .range _ bs, ⟨rfl, h⟩ =>
    refine congrArg (Except.map _) (Except.mapM_eq_of_forall₂ (h.imp fun a b hab => ?_))
    obtain ⟨hcomparison, hab⟩ := hab
    change ((a.2.toValue dialect).map fun _ => Sql.Value.null).map (a.1, ·) = _
    rw [hab.map_toValue dialect dialect', hcomparison]

/-- The outline of a criterion has nulls for operands. -/
theorem outline_expr (table name : String) (criterion : Criterion Sql.Value) :
    (criterion.expr (.ofColumn table name)).outline
      = (criterion.map fun _ => Sql.Value.null).expr (.ofColumn table name) := by
  cases criterion with
  | compare negated comparison operand => cases negated <;> rfl
  | member negated operands =>
    have hoperands : Sql.outlines (operands.map .value)
        = (operands.map fun _ => Sql.Value.null).map .value := by
      induction operands with
      | nil => rfl
      | cons operand rest ih => exact congrArg (Expr.value .null :: ·) ih
    cases negated
    · exact congrArg (Expr.inList _) hoperands
    · exact congrArg (fun items => Expr.not (.inList _ items)) hoperands
  | range negated bounds =>
    have hbounds : Sql.outlines (bounds.map fun bound =>
          .compare (.ofColumn table name) bound.1 (.value bound.2))
        = (bounds.map fun bound => (bound.1, Sql.Value.null)).map fun bound =>
            .compare (.ofColumn table name) bound.1 (.value bound.2) := by
      induction bounds with
      | nil => rfl
      | cons bound rest ih =>
        exact congrArg (Expr.compare (.ofColumn table name) bound.1 (.value .null) :: ·) ih
    cases negated
    · exact congrArg Expr.and hbounds
    · exact congrArg (fun operands => Expr.not (.group (.and operands))) hbounds

end Criterion

/-- The outline of an expression that may be missing. -/
def outline? (operand : Option Expr) : Option Expr :=
  operand.map Expr.outline

/-- **Criteria of one shape compile to one outline, or to one error.** -/
theorem Criterion.SameShape?.compiled? {a b : Option (Criterion Scalar)}
    (h : Criterion.SameShape? a b) (dialect dialect' : Dialect) (table name : String) :
    (Criterion.compiled? dialect (.ofColumn table name) a).map outline?
      = (Criterion.compiled? dialect' (.ofColumn table name) b).map outline? := by
  have hsome : ∀ (dialect : Dialect) (criterion : Criterion Scalar),
      (Criterion.compiled? dialect (.ofColumn table name) (some criterion)).map outline?
        = ((criterion.traverse (Scalar.toValue dialect)).map (map fun _ => Sql.Value.null)).map
            fun bound => some (bound.expr (.ofColumn table name)) := by
    intro dialect criterion
    rw [Criterion.compiled?]
    cases criterion.traverse (Scalar.toValue dialect) with
    | error e => rfl
    | ok bound => exact congrArg (fun expr => Except.ok (some expr)) (bound.outline_expr table name)
  rcases a with _ | a
  · rcases b with _ | b
    · rfl
    · exact h.elim
  · rcases b with _ | b
    · exact h.elim
    · rw [hsome, hsome, SameShape.traverse h dialect dialect']

/-! ## Outlines of filters -/

/-- A link hands the outline of its condition on. -/
theorem Link.outline_expr (source other : Entity) (condition : Option Expr) (link : Link) :
    (link.expr source other condition).outline
      = link.expr source other (Sql.conditionOutline condition) := by
  cases link <;> rfl

theorem outline_joinGroup (negated : Bool) (operands : List Expr) :
    Sql.conditionOutline (joinGroup negated operands)
      = joinGroup negated (Sql.outlines operands) := by
  match negated, operands with
  | true, [] => rfl
  | true, _ :: _ => rfl
  | false, [] => rfl
  | false, [_] => rfl
  | false, _ :: _ :: _ => rfl

theorem outlines_toList {first second : Option Expr} (h : outline? first = outline? second) :
    Sql.outlines first.toList = Sql.outlines second.toList := by
  match first, second, h with
  | none, none, _ => rfl
  | some _, some _, h => exact congrArg (fun expr => [expr]) (Option.some.inj h)

section TwoRuns

variable (graph : Graph) (dialect dialect' : Dialect)

/-- A clause on a column that has the shape of another, under either dialect. -/
theorem Clause.SameShape.outline_of_column {a b : Clause} (h : a.SameShape b) {entity : Entity}
    {field : String} (hlink : entity.link? field = none) :
    (a.expr? ⟨graph, dialect⟩ entity field).map outline?
      = (b.expr? ⟨graph, dialect'⟩ entity field).map outline? := by
  rw [Clause.expr?_of_column _ hlink, Clause.expr?_of_column _ hlink]
  exact h.criterion?.compiled? dialect dialect' _ _

/-- A clause on a link that has the shape of another, if the groups inside leave one outline. -/
theorem Clause.SameShape.outline_of_link {entity : Entity} {field : String} {link : Link}
    (hlink : entity.link? field = some link) : ∀ {a b : Clause}, a.SameShape b →
      (∀ negated inner, a = .nested negated inner → ∀ inner', SameShapes inner inner' → ∀ entity,
        (Clause.exprs ⟨graph, dialect⟩ entity inner).map Sql.outlines
          = (Clause.exprs ⟨graph, dialect'⟩ entity inner').map Sql.outlines) →
      (a.expr? ⟨graph, dialect⟩ entity field).map outline?
        = (b.expr? ⟨graph, dialect'⟩ entity field).map outline?
  | .value _, .value _, _, _ => by
      rw [Clause.expr?_of_link _ hlink, Clause.expr?_of_link _ hlink]
  | .list _, .list _, _, _ => by
      rw [Clause.expr?_of_link _ hlink, Clause.expr?_of_link _ hlink]
  | .condition _, .condition _, _, _ => by
      rw [Clause.expr?_of_link _ hlink, Clause.expr?_of_link _ hlink]
  | .nested negated inner, .nested _ inner', ⟨rfl, h⟩, hinner => by
      rw [Clause.expr?_of_link _ hlink, Clause.expr?_of_link _ hlink]
      change ((Target.mk graph dialect).entity link.target >>= _).map _
        = ((Target.mk graph dialect).entity link.target >>= _).map _
      cases (Target.mk graph dialect).entity link.target with
      | error e => rfl
      | ok other =>
        change (Clause.exprs _ other inner >>= _).map _ = (Clause.exprs _ other inner' >>= _).map _
        rcases Except.map_eq_map (hinner negated inner rfl inner' h other) with
          ⟨e, ha, hb⟩ | ⟨operands, operands', ha, hb, hoperands⟩
        · rw [ha, hb]
        · rw [ha, hb]
          change Except.ok (some (Expr.outline _)) = Except.ok (some (Expr.outline _))
          rw [Link.outline_expr, Link.outline_expr, outline_joinGroup, outline_joinGroup,
            hoperands]

/-- **Groups of one shape compile to one outline, or to one error.** -/
theorem SameShapes.outlines_exprs {a b : List (String × Clause)} (h : SameShapes a b)
    (entity : Entity) :
    (Clause.exprs ⟨graph, dialect⟩ entity a).map Sql.outlines
      = (Clause.exprs ⟨graph, dialect'⟩ entity b).map Sql.outlines := by
  refine Clause.induction_on_clauses
    (R := fun a => ∀ b, a.SameShape b → ∀ entity field,
      (a.expr? ⟨graph, dialect⟩ entity field).map outline?
        = (b.expr? ⟨graph, dialect'⟩ entity field).map outline?)
    (S := fun a => ∀ b, SameShapes a b → ∀ entity,
      (Clause.exprs ⟨graph, dialect⟩ entity a).map Sql.outlines
        = (Clause.exprs ⟨graph, dialect'⟩ entity b).map Sql.outlines)
    ?clause ?nil ?cons a b h entity
  case clause =>
    intro a ih b h entity field
    cases hlink : entity.link? field with
    | none => exact h.outline_of_column graph dialect dialect' hlink
    | some link => exact h.outline_of_link graph dialect dialect' hlink ih
  case nil =>
    intro b h entity
    rcases b with _ | ⟨asked, others⟩
    · rw [Clause.exprs, Clause.exprs]
    · exact h.elim
  case cons =>
    intro field clause rest hclause hrest b h entity
    rcases b with _ | ⟨⟨field', clause'⟩, rest'⟩
    · exact h.elim
    · obtain ⟨rfl, hsame, hsames⟩ := h
      rw [Clause.exprs, Clause.exprs]
      rcases Except.map_eq_map (hclause clause' hsame entity field) with
        ⟨e, ha, hb⟩ | ⟨operand, operand', ha, hb, hoperand⟩
      · rw [ha, hb]
        rfl
      · rw [ha, hb]
        rcases Except.map_eq_map (hrest rest' hsames entity) with
          ⟨e, ha, hb⟩ | ⟨operands, operands', ha, hb, hoperands⟩
        · rw [ha, hb]
          rfl
        · rw [ha, hb]
          refine congrArg Except.ok ?_
          rw [Sql.outlines_append, Sql.outlines_append, outlines_toList hoperand, hoperands]

theorem Filter.SameShape.outline_expr? {f g : Filter} (h : f.SameShape g) (entity : Entity) :
    (f.expr? ⟨graph, dialect⟩ entity).map Sql.conditionOutline
      = (g.expr? ⟨graph, dialect'⟩ entity).map Sql.conditionOutline := by
  obtain ⟨hnegated, hclauses⟩ := h
  rw [Filter.expr?, Filter.expr?]
  rcases Except.map_eq_map (hclauses.outlines_exprs graph dialect dialect' entity) with
    ⟨e, hf, hg⟩ | ⟨operands, operands', hf, hg, hoperands⟩
  · rw [hf, hg]
    rfl
  · rw [hf, hg]
    refine congrArg Except.ok ?_
    rw [outline_joinGroup, outline_joinGroup, hnegated, hoperands]

end TwoRuns

/-! ## Outlines of insertions -/

/-- The outline of a tuple has a null for every field, whatever the row has. -/
theorem Row.outlines_tuple {dialect : Dialect} {row : Row} :
    ∀ {fields : List String} {exprs : List Expr}, row.tuple dialect fields = .ok exprs →
      Sql.outlines exprs = fields.map fun _ => .value .null
  | [], exprs, h => by
      cases h
      rfl
  | field :: rest, exprs, h => by
      rw [tuple, Except.mapM_cons] at h
      obtain ⟨expr, hexpr, h⟩ := Except.bind_eq_ok.mp h
      obtain ⟨others, hothers, rfl⟩ := Except.map_eq_ok.mp h
      obtain ⟨value, -, rfl⟩ := cellExpr_eq_ok hexpr
      exact congrArg (Expr.value .null :: ·) (outlines_tuple hothers)

/-- The outline of an insertion knows how many rows there are, and nothing else of them. -/
theorem Row.outline_insertion {target : Target} {name : String} {entity : Entity}
    {rows : List Row} {insert : Sql.Insert}
    (h : insertion target name entity rows = .ok insert) :
    insert.outline = ⟨entity.table, entity.columns.map Prod.snd,
      List.replicate rows.length (entity.columns.names.map fun _ => .value .null)⟩ := by
  obtain ⟨-, -, tuples, htuples, rfl⟩ := insertion_eq_ok h
  refine congrArg (Sql.Insert.mk _ _) ?_
  clear h
  induction rows generalizing tuples with
  | nil =>
    cases htuples
    rfl
  | cons row rest ih =>
    rw [Except.mapM_cons] at htuples
    obtain ⟨exprs, hexprs, htuples⟩ := Except.bind_eq_ok.mp htuples
    obtain ⟨others, hothers, rfl⟩ := Except.map_eq_ok.mp htuples
    rw [List.map_cons, ih others hothers, outlines_tuple hexprs]
    rfl

/-! ## Texts -/

/-- Conditions with the same outline have pieces with the same outlines. -/
theorem map_outline_condition {first second : Option Expr}
    (h : Sql.conditionOutline first = Sql.conditionOutline second) :
    ((first.map Expr.pieces).getD []).map Sql.Piece.outline
      = ((second.map Expr.pieces).getD []).map Sql.Piece.outline := by
  match first, second, h with
  | none, none, _ => rfl
  | some first, some second, h =>
    exact first.pieces_outline.symm.trans
      ((congrArg Expr.pieces (Option.some.inj h)).trans second.pieces_outline)

section Texts

variable (graph : Graph) (style : Placeholder) (booleans bound : BooleanBinding) (name : String)

/-- Filters of one shape compile to one text, or to one error. -/
theorem Filter.SameShape.text_compile {f g : Filter} (h : f.SameShape g) :
    (f.compile ⟨graph, ⟨style, booleans⟩⟩ name).map Buffer.text
      = (g.compile ⟨graph, ⟨style, bound⟩⟩ name).map Buffer.text := by
  rw [Filter.compile, Filter.compile, Target.entity, Target.entity]
  cases graph.entity? name with
  | none => rfl
  | some entity =>
    change (f.expr? _ entity >>= _).map _ = (g.expr? _ entity >>= _).map _
    rcases Except.map_eq_map (h.outline_expr? graph ⟨style, booleans⟩ ⟨style, bound⟩ entity) with
      ⟨e, hf, hg⟩ | ⟨first, second, hf, hg, houtline⟩
    · rw [hf, hg]
      rfl
    · rw [hf, hg]
      refine congrArg Except.ok (Sql.text_eq_of_outline style booleans bound ?_)
      exact map_outline_condition houtline

/-- Requests that differ in filters of one shape compile to one text, or to one error. -/
theorem Filter.SameShape.text_request {f g : Filter} (h : f.SameShape g) (request : Request) :
    (Request.compile ⟨graph, ⟨style, booleans⟩⟩ name { request with search := f }).map Buffer.text
      = (Request.compile ⟨graph, ⟨style, bound⟩⟩ name { request with search := g }).map
          Buffer.text := by
  rw [Request.compile, Request.compile, Target.entity, Target.entity]
  cases graph.entity? name with
  | none => rfl
  | some entity =>
    change (Request.select _ entity _ >>= _).map _ = (Request.select _ entity _ >>= _).map _
    rw [Request.select, Request.select]
    rcases Except.map_eq_map (h.outline_expr? graph ⟨style, booleans⟩ ⟨style, bound⟩ entity) with
      ⟨e, hf, hg⟩ | ⟨first, second, hf, hg, houtline⟩
    · rw [hf, hg]
      rfl
    · rw [hf, hg]
      refine congrArg Except.ok (Sql.text_eq_of_outline style booleans bound ?_)
      rw [← Sql.Select.pieces_outline, ← Sql.Select.pieces_outline, Sql.Select.outline,
        Sql.Select.outline, houtline]

/-- As many rows compile to one text, if they compile. -/
theorem Row.text_compileAll {rows others : List Row} {buffer other : Buffer}
    (hlength : rows.length = others.length)
    (hrows : Row.compileAll ⟨graph, ⟨style, booleans⟩⟩ name rows = .ok buffer)
    (hothers : Row.compileAll ⟨graph, ⟨style, bound⟩⟩ name others = .ok other) :
    buffer.text = other.text := by
  obtain ⟨entity, hentity, hrows⟩ := Except.bind_eq_ok.mp hrows
  obtain ⟨insert, hinsert, hrows⟩ := Except.bind_eq_ok.mp hrows
  obtain ⟨entity', hentity', hothers⟩ := Except.bind_eq_ok.mp hothers
  obtain ⟨insert', hinsert', hothers⟩ := Except.bind_eq_ok.mp hothers
  cases hrows
  cases hothers
  obtain rfl : entity = entity' := Option.some.inj
    ((Target.entity_eq_ok.mp hentity).symm.trans (Target.entity_eq_ok.mp hentity'))
  refine Sql.text_eq_of_outline style booleans bound ?_
  rw [← Sql.Insert.pieces_outline, ← Sql.Insert.pieces_outline,
    Row.outline_insertion hinsert, Row.outline_insertion hinsert', hlength]

end Texts

/-- **Values never reach the text.**  Filters of one shape compile to one text or to one error, by
themselves and in a request, and rows that are inserted are only counted — however booleans are
bound. -/
theorem text_independent_of_values (graph : Graph) (style : Placeholder)
    (booleans bound : BooleanBinding) (name : String) :
    (∀ f g : Filter, f.SameShape g →
      (f.compile ⟨graph, ⟨style, booleans⟩⟩ name).map Buffer.text
        = (g.compile ⟨graph, ⟨style, bound⟩⟩ name).map Buffer.text)
    ∧ (∀ (request : Request) (f g : Filter), f.SameShape g →
      (Request.compile ⟨graph, ⟨style, booleans⟩⟩ name { request with search := f }).map Buffer.text
        = (Request.compile ⟨graph, ⟨style, bound⟩⟩ name { request with search := g }).map Buffer.text)
    ∧ (∀ (rows others : List Row) (buffer other : Buffer), rows.length = others.length →
      Row.compileAll ⟨graph, ⟨style, booleans⟩⟩ name rows = .ok buffer →
        Row.compileAll ⟨graph, ⟨style, bound⟩⟩ name others = .ok other →
          buffer.text = other.text) := by
  refine ⟨fun f g h => ?_, fun request f g h => ?_, ?_⟩
  · exact h.text_compile graph style booleans bound name
  · exact h.text_request graph style booleans bound name request
  · intro rows others buffer other hlength hrows hothers
    exact Row.text_compileAll graph style booleans bound name hlength hrows hothers

/-- A filter on a link and a list, with the scalars that it is given. -/
def namedAndActive (name : Scalar) (active : List Scalar) : Filter :=
  ⟨false, [("mother", .nested true [("name", .value name)]), ("isActive", .list active)]⟩

/-- A text that ends a statement is written as any boolean is. -/
theorem text_of_namedAndActive :
    (namedAndActive (.text "'; --") [.null, .int 1]).SameShape
        (namedAndActive (.bool true) [.text "x", .bool false])
      ∧ ((namedAndActive (.text "'; --") [.null, .int 1]).compile
            ⟨Graph.People.graph, .sqlite⟩ "person").map Buffer.text
          = ((namedAndActive (.bool true) [.text "x", .bool false]).compile
            ⟨Graph.People.graph, .generic⟩ "person").map Buffer.text := by
  have h : (namedAndActive (.text "'; --") [.null, .int 1]).SameShape
      (namedAndActive (.bool true) [.text "x", .bool false]) := by
    refine ⟨rfl, rfl, ⟨rfl, rfl, .inr ⟨rfl, rfl⟩, trivial⟩, rfl, ?_, trivial⟩
    exact .cons (.inr ⟨rfl, rfl⟩) (.cons (.inr ⟨rfl, rfl⟩) .nil)
  exact ⟨h, (text_independent_of_values Graph.People.graph .questionMark .text .native "person").1
    _ _ h⟩

end EntityQuery
