import EntityQuery.Compile.Filter
import EntityQuery.Proofs.Except

/-!
# Proofs/Filter/Criterion — what a clause asks of a column

A clause on a column asks at most one thing: a comparison, membership in a list, or a range.
`Clause.criterion?` reads it off the clause and drops what asks nothing, without a graph or a
dialect; `Clause.expr?_of_column` says that compiling the clause is binding the operands of its
criterion and writing it as an expression.

`Clause.exprs_induction` is the induction over filters that compile: a clause that says nothing, a
criterion on a column, a link with the clauses at its other end.
-/

namespace EntityQuery

open Sql (Expr Comparison)

/-! ## Criteria -/

/-- What is asked of a column, over operands of a kind. -/
inductive Criterion (α : Type) where
  | compare (negated : Bool) (comparison : Comparison) (operand : α)
  | member (negated : Bool) (operands : List α)
  /-- Every one of some bounds. -/
  | range (negated : Bool) (bounds : List (Comparison × α))
  deriving DecidableEq, Repr

namespace Criterion

variable {α β ε : Type}

/-- The operands, in order. -/
def operands : Criterion α → List α
  | .compare _ _ operand => [operand]
  | .member _ operands => operands
  | .range _ bounds => bounds.map Prod.snd

/-- Replaces every operand. -/
def map (f : α → β) : Criterion α → Criterion β
  | .compare negated comparison operand => .compare negated comparison (f operand)
  | .member negated operands => .member negated (operands.map f)
  | .range negated bounds => .range negated (bounds.map fun bound => (bound.1, f bound.2))

/-- Replaces every operand by a function that may fail, in order. -/
def traverse (f : α → Except ε β) : Criterion α → Except ε (Criterion β)
  | .compare negated comparison operand => (f operand).map (.compare negated comparison)
  | .member negated operands => (operands.mapM f).map (.member negated)
  | .range negated bounds =>
      (bounds.mapM fun bound => (f bound.2).map (bound.1, ·)).map (.range negated)

/-- The criterion of a column as an expression. -/
def expr (column : Expr) : Criterion Sql.Value → Expr
  | .compare negated comparison operand =>
      .negateIf negated (.compare column comparison (.value operand))
  | .member negated operands => .negateIf negated (.inList column (operands.map .value))
  | .range negated bounds =>
      let operands := bounds.map fun bound => .compare column bound.1 (.value bound.2)
      if negated then .not (.group (.and operands)) else .and operands

theorem map_map {γ : Type} (f : α → β) (g : β → γ) (criterion : Criterion α) :
    (criterion.map f).map g = criterion.map (g ∘ f) := by
  cases criterion with
  | compare negated comparison operand => rfl
  | member negated operands => exact congrArg _ List.map_map
  | range negated bounds => exact congrArg _ List.map_map

/-- A list of bounds is bound one operand after the other. -/
theorem mapM_bounds (f : α → Except ε β) (bounds : List (Comparison × α)) :
    (bounds.map Prod.snd).mapM f
      = (bounds.mapM fun bound => (f bound.2).map (bound.1, ·)).map (List.map Prod.snd) := by
  rw [List.mapM_map, ← Except.mapM_map_right]
  refine congrArg (bounds.mapM ·) (funext fun bound => ?_)
  change f bound.2 = ((f bound.2).map (bound.1, ·)).map Prod.snd
  cases f bound.2 <;> rfl

/-- The operands of a traversed criterion are its traversed operands. -/
theorem operands_of_traverse {f : α → Except ε β} {criterion : Criterion α}
    {bound : Criterion β} (h : criterion.traverse f = .ok bound) :
    criterion.operands.mapM f = .ok bound.operands := by
  cases criterion with
  | compare negated comparison operand =>
    obtain ⟨value, hvalue, rfl⟩ := Except.map_eq_ok.mp h
    rw [operands, Except.mapM_cons, hvalue]
    rfl
  | member negated operands =>
    obtain ⟨values, hvalues, rfl⟩ := Except.map_eq_ok.mp h
    exact hvalues
  | range negated bounds =>
    obtain ⟨values, hvalues, rfl⟩ := Except.map_eq_ok.mp h
    rw [operands, mapM_bounds, hvalues]
    rfl

/-- A traversal that succeeds replaces every operand by its result. -/
theorem map_of_traverse {f : α → Except ε β} {g : α → β} (hg : ∀ a b, f a = .ok b → g a = b)
    {criterion : Criterion α} {bound : Criterion β} (h : criterion.traverse f = .ok bound) :
    criterion.map g = bound := by
  cases criterion with
  | compare negated comparison operand =>
    obtain ⟨value, hvalue, rfl⟩ := Except.map_eq_ok.mp h
    rw [map, hg operand value hvalue]
  | member negated operands =>
    obtain ⟨values, hvalues, rfl⟩ := Except.map_eq_ok.mp h
    rw [map, Except.map_of_mapM hg hvalues]
  | range negated bounds =>
    obtain ⟨values, hvalues, rfl⟩ := Except.map_eq_ok.mp h
    refine congrArg _ (Except.map_of_mapM (fun bound value hvalue => ?_) hvalues)
    obtain ⟨operand, hoperand, rfl⟩ := Except.map_eq_ok.mp hvalue
    rw [hg _ _ hoperand]

end Criterion

/-! ## The criterion of a clause -/

/-- The link that a field stands for, if it does. -/
def Entity.link? (entity : Entity) (field : String) : Option Link :=
  match entity.field? field with
  | some (.link link) => some link
  | _ => none

/-- A field that stands for a link is mapped to it. -/
theorem Entity.field_of_link {entity : Entity} {field : String} {link : Link}
    (h : entity.link? field = some link) : entity.field? field = some (.link link) := by
  unfold Entity.link? at h
  split at h
  · next hlink => rw [hlink, Option.some.inj h]
  · exact nomatch h

/-- A scalar that is given and is not null. -/
def Scalar.present? (scalar : Option Scalar) : Option Scalar :=
  scalar.filter fun scalar => !scalar.isNull

/-- Looking an entity up succeeds for the entities of the graph. -/
theorem Target.entity_eq_ok {target : Target} {name : String} {entity : Entity} :
    target.entity name = .ok entity ↔ target.graph.entity? name = some entity := by
  rw [Target.entity]
  cases target.graph.entity? name with
  | none => constructor <;> rintro ⟨⟩
  | some found =>
    constructor
    · exact fun h => congrArg some (Except.ok.inj h)
    · exact fun h => congrArg Except.ok (Option.some.inj h)

/-- What a condition asks; nothing for a null, an empty list, no bounds or no operator. -/
def Condition.criterion? : Condition → Option (Criterion Scalar)
  | ⟨.equal (.one scalar), negated⟩ =>
      (Scalar.present? scalar).map (.compare negated .equal)
  | ⟨.equal (.oneOf []), _⟩ => none
  | ⟨.equal (.oneOf scalars), negated⟩ => some (.member negated scalars)
  | ⟨.like pattern, negated⟩ => (Scalar.present? pattern).map (.compare negated .like)
  | ⟨.range above below, negated⟩ =>
      match (Scalar.present? above).toList.map (.greater, ·)
          ++ (Scalar.present? below).toList.map (.less, ·) with
      | [] => none
      | bounds => some (.range negated bounds)
  | ⟨.unspecified, _⟩ => none

/-- What a clause asks of a column; a filter asks nothing of it. -/
def Clause.criterion? : Clause → Option (Criterion Scalar)
  | .value scalar => (Condition.equal scalar).criterion?
  | .list scalars => (Condition.oneOf scalars).criterion?
  | .condition asked => asked.criterion?
  | .nested _ _ => none

section Compiled

variable (dialect : Dialect) (column : Expr)

/-- A criterion with its operands bound, as an expression; nothing for no criterion. -/
def Criterion.compiled? : Option (Criterion Scalar) → Except CompileError (Option Expr)
  | none => .ok none
  | some criterion =>
      (criterion.traverse (Scalar.toValue dialect)).map fun bound => some (bound.expr column)

/-- A bound that is null is as good as none. -/
theorem Scalar.bound?_eq (comparison : Comparison) (bound : Option Scalar) :
    Scalar.bound? dialect column comparison bound
      = match Scalar.present? bound with
        | none => .ok none
        | some scalar => (scalar.toValue dialect).map fun value =>
            some (.compare column comparison (.value value)) := by
  cases bound with
  | none => rfl
  | some scalar =>
    rw [Scalar.bound?, Scalar.compareTo?, Scalar.present?, Option.filter_some, Scalar.toExpr]
    cases scalar <;> rfl

/-- A comparison is a bound that is always given. -/
theorem Scalar.compareTo?_eq_bound? (comparison : Comparison) (scalar : Scalar) :
    scalar.compareTo? dialect column comparison
      = Scalar.bound? dialect column comparison (some scalar) := rfl

theorem Scalar.memberOf?_cons (scalar : Scalar) (rest : List Scalar) :
    Scalar.memberOf? dialect column (scalar :: rest)
      = ((scalar :: rest).mapM (Scalar.toValue dialect)).map fun values =>
          some (.inList column (values.map .value)) := by
  have hitems : (scalar :: rest).mapM (Scalar.toExpr dialect)
      = ((scalar :: rest).mapM (Scalar.toValue dialect)).map (List.map .value) :=
    Except.mapM_map_right _ _ _
  rw [Scalar.memberOf?, hitems]
  cases (scalar :: rest).mapM (Scalar.toValue dialect) <;> rfl

/-- **A condition compiles to its criterion.** -/
theorem Condition.expr?_eq (condition : Condition) :
    condition.expr? dialect column = Criterion.compiled? dialect column condition.criterion? := by
  obtain ⟨test, negated⟩ := condition
  cases test with
  | equal operand =>
    cases operand with
    | one scalar =>
      change (scalar.compareTo? dialect column .equal).map _ = _
      rw [Scalar.compareTo?_eq_bound?, Scalar.bound?_eq, Condition.criterion?]
      cases Scalar.present? scalar with
      | none => rfl
      | some scalar => cases scalar <;> rfl
    | oneOf scalars =>
      change (Scalar.memberOf? dialect column scalars).map _ = _
      cases scalars with
      | nil => rfl
      | cons scalar rest =>
        rw [Scalar.memberOf?_cons, Condition.criterion?, Criterion.compiled?, Criterion.traverse]
        · cases (scalar :: rest).mapM (Scalar.toValue dialect) <;> rfl
        · exact List.cons_ne_nil _ _
  | like pattern =>
    change (pattern.compareTo? dialect column .like).map _ = _
    rw [Scalar.compareTo?_eq_bound?, Scalar.bound?_eq, Condition.criterion?]
    cases Scalar.present? pattern with
    | none => rfl
    | some scalar => cases scalar <;> rfl
  | range above below =>
    change Condition.rangeExpr? dialect column above below negated = _
    rw [Condition.rangeExpr?, Scalar.bound?_eq, Scalar.bound?_eq, Condition.criterion?]
    cases Scalar.present? above with
    | none =>
      cases Scalar.present? below with
      | none => rfl
      | some upper => cases upper <;> rfl
    | some lower =>
      cases Scalar.present? below with
      | none => cases lower <;> rfl
      | some upper => cases lower <;> cases upper <;> rfl
  | unspecified => rfl

/-- What is not asked to be negated is left as it is. -/
theorem map_negateIf_false (x : Except CompileError (Option Expr)) :
    (x.map fun operand => operand.map (Expr.negateIf false)) = x := by
  cases x with
  | error e => rfl
  | ok operand => cases operand <;> rfl

end Compiled

namespace Clause

/-- A clause on a column, read off its definition. -/
theorem expr?_of_link?_eq_none (target : Target) {entity : Entity} {field : String}
    (h : entity.link? field = none) (clause : Clause) :
    clause.expr? target entity field
      = match clause with
        | .value scalar =>
            scalar.compareTo? target.dialect (entity.columnExpr field) .equal
        | .list scalars => Scalar.memberOf? target.dialect (entity.columnExpr field) scalars
        | .condition asked => asked.expr? target.dialect (entity.columnExpr field)
        | .nested _ _ => .ok none := by
  have hfield : ∀ link, entity.field? field ≠ some (.link link) := fun link hlink => by
    simp [Entity.link?, hlink] at h
  cases clause <;> rw [expr?] <;> split
  all_goals first | exact absurd ‹_› (hfield _) | rfl

/-- **A clause on a column compiles to its criterion.** -/
theorem expr?_of_column (target : Target) {entity : Entity} {field : String}
    (h : entity.link? field = none) (clause : Clause) :
    clause.expr? target entity field
      = Criterion.compiled? target.dialect (entity.columnExpr field) clause.criterion? := by
  rw [expr?_of_link?_eq_none target h]
  cases clause with
  | value scalar =>
    rw [criterion?, ← Condition.expr?_eq]
    exact (map_negateIf_false _).symm
  | list scalars =>
    rw [criterion?, ← Condition.expr?_eq]
    exact (map_negateIf_false _).symm
  | condition asked => exact Condition.expr?_eq _ _ asked
  | nested negated clauses => rfl

/-- A clause on a link compiles to membership in what the link reaches, and only a filter does. -/
theorem expr?_of_link (target : Target) {entity : Entity} {field : String} {link : Link}
    (h : entity.link? field = some link) (clause : Clause) :
    clause.expr? target entity field
      = match clause with
        | .nested negated clauses => do
            let other ← target.entity link.target
            let operands ← exprs target other clauses
            .ok (some (link.expr entity other (joinGroup negated operands)))
        | _ => .error (.linkComparedByValue field) := by
  cases clause <;> simp only [expr?, entity.field_of_link h]

mutual

/-- Induction over a clause: the clauses of a filter inside it have the property. -/
theorem induction_on {R : Clause → Prop} {S : List (String × Clause) → Prop}
    (clause : ∀ clause, (∀ negated inner, clause = .nested negated inner → S inner) → R clause)
    (nil : S []) (cons : ∀ field asked rest, R asked → S rest → S ((field, asked) :: rest)) :
    ∀ asked, R asked
  | .value scalar => clause _ fun _ _ h => nomatch h
  | .list scalars => clause _ fun _ _ h => nomatch h
  | .condition asked => clause _ fun _ _ h => nomatch h
  | .nested negated inner => clause _ fun _ _ h => by
      cases h
      exact induction_on_clauses clause nil cons inner

/-- Induction over the clauses of a filter. -/
theorem induction_on_clauses {R : Clause → Prop} {S : List (String × Clause) → Prop}
    (clause : ∀ clause, (∀ negated inner, clause = .nested negated inner → S inner) → R clause)
    (nil : S []) (cons : ∀ field asked rest, R asked → S rest → S ((field, asked) :: rest)) :
    ∀ clauses, S clauses
  | [] => nil
  | (field, asked) :: rest =>
      cons field asked rest (induction_on clause nil cons asked)
        (induction_on_clauses clause nil cons rest)

end

/-- **Induction over filters that compile** — one case for each way in which a clause does. -/
theorem exprs_induction (target : Target)
    {P : Entity → String → Clause → Option Expr → Prop}
    {Q : Entity → List (String × Clause) → List Expr → Prop}
    (silent : ∀ entity field clause, entity.link? field = none → clause.criterion? = none →
      P entity field clause none)
    (column : ∀ entity field clause criterion bound, entity.link? field = none →
      clause.criterion? = some criterion →
      criterion.traverse (Scalar.toValue target.dialect) = .ok bound →
      P entity field clause (some (bound.expr (entity.columnExpr field))))
    (link : ∀ entity field link other negated clauses operands,
      entity.link? field = some link → target.entity link.target = .ok other →
      Q other clauses operands →
      P entity field (.nested negated clauses)
        (some (link.expr entity other (joinGroup negated operands))))
    (nil : ∀ entity, Q entity [] [])
    (cons : ∀ entity field clause operand rest operands, P entity field clause operand →
      Q entity rest operands → Q entity ((field, clause) :: rest) (operand.toList ++ operands))
    (entity : Entity) (clauses : List (String × Clause)) (operands : List Expr)
    (h : exprs target entity clauses = .ok operands) : Q entity clauses operands := by
  -- a clause on a column has no clauses inside, so only links use the induction
  have onColumn : ∀ entity field clause operand, entity.link? field = none →
      expr? target entity field clause = .ok operand → P entity field clause operand := by
    intro entity field clause operand hlink h
    rw [expr?_of_column target hlink] at h
    cases hcriterion : clause.criterion? with
    | none =>
      rw [hcriterion] at h
      cases h
      exact silent entity field clause hlink hcriterion
    | some criterion =>
      rw [hcriterion] at h
      obtain ⟨bound, hbound, rfl⟩ := Except.map_eq_ok.mp h
      exact column entity field clause criterion bound hlink hcriterion hbound
  have all := induction_on_clauses
    (R := fun clause => ∀ entity field operand, expr? target entity field clause = .ok operand →
      P entity field clause operand)
    (S := fun clauses => ∀ entity operands, exprs target entity clauses = .ok operands →
      Q entity clauses operands)
  refine all ?_ ?_ ?_ clauses entity operands h
  · intro clause ih entity field operand h
    cases hlink : entity.link? field with
    | none => exact onColumn entity field clause operand hlink h
    | some found =>
      rw [expr?_of_link target hlink] at h
      cases clause with
      | nested negated inner =>
        obtain ⟨other, hother, h⟩ := Except.bind_eq_ok.mp h
        obtain ⟨operands, hoperands, h⟩ := Except.bind_eq_ok.mp h
        cases h
        exact link entity field found other negated inner operands hlink hother
          (ih negated inner rfl other operands hoperands)
      | value scalar => exact nomatch h
      | list scalars => exact nomatch h
      | condition asked => exact nomatch h
  · intro entity operands h
    rw [exprs] at h
    cases h
    exact nil entity
  · intro field clause rest ihClause ihRest entity operands h
    rw [exprs] at h
    obtain ⟨operand, hoperand, h⟩ := Except.bind_eq_ok.mp h
    obtain ⟨others, hothers, h⟩ := Except.bind_eq_ok.mp h
    cases h
    exact cons entity field clause operand rest others (ihClause entity field operand hoperand)
      (ihRest entity others hothers)

end Clause

end EntityQuery
