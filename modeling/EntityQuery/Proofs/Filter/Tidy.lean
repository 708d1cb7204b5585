import EntityQuery.Proofs.Entries
import EntityQuery.Proofs.Filter.Criterion

/-!
# Proofs/Filter/Tidy — filters without bounds that ask nothing

A bound that is null asks nothing, and a range without bounds is no operator at all.
`Filter.tidy` leaves both out, at every depth.  A tidied filter compiles as it did before, whatever
it is compiled for (`Filter.compile_tidy`), and one that has nothing of the kind is left as it is
(`Filter.tidy_of_isTight`).
-/

namespace EntityQuery

/-! ## Tidying -/

/-- The test that two bounds make: a range, or no operator if neither is there. -/
def Test.ofBounds : Option Scalar → Option Scalar → Test
  | none, none => .unspecified
  | above, below => .range above below

/-- Leaves out bounds that are null, and a range that has no others. -/
def Test.tidy : Test → Test
  | .range above below => .ofBounds (Scalar.present? above) (Scalar.present? below)
  | test => test

/-- Tidies the test of a condition. -/
def Condition.tidy (condition : Condition) : Condition :=
  { condition with test := condition.test.tidy }

namespace Clause

mutual

/-- Tidies the conditions of a clause. -/
def tidy : Clause → Clause
  | .condition asked => .condition asked.tidy
  | .nested negated clauses => .nested negated (tidyClauses clauses)
  | asked => asked

/-- Tidies the conditions of clauses. -/
def tidyClauses : List (String × Clause) → List (String × Clause)
  | [] => []
  | (field, asked) :: rest => (field, tidy asked) :: tidyClauses rest

end

theorem tidyClauses_eq_mapValues (clauses : Entries Clause) :
    tidyClauses clauses = clauses.mapValues tidy := by
  induction clauses with
  | nil => rfl
  | cons entry rest ih => rw [tidyClauses, ih, Entries.mapValues, Entries.mapValues, List.map_cons]

end Clause

/-- Tidies the conditions of a filter. -/
def Filter.tidy (filter : Filter) : Filter :=
  ⟨filter.negated, Entries.mapValues Clause.tidy filter.clauses⟩

theorem Filter.toClause_tidy (filter : Filter) : filter.tidy.toClause = filter.toClause.tidy := by
  rw [toClause, toClause, Clause.tidy, Clause.tidyClauses_eq_mapValues]
  rfl

/-! ## Nothing asked is lost -/

/-- A bound that is tidied twice is tidied once. -/
theorem Scalar.present?_present? (bound : Option Scalar) :
    present? (present? bound) = present? bound := by
  rw [present?, present?, Option.filter_filter]
  simp

/-- A bound that is null makes the same criterion as one that is left out. -/
theorem Condition.criterion?_ofBounds (above below : Option Scalar) (negated : Bool) :
    (⟨.ofBounds above below, negated⟩ : Condition).criterion?
      = (⟨.range above below, negated⟩ : Condition).criterion? := by
  cases above <;> cases below <;> rfl

/-- A tidied condition asks what it asked before. -/
theorem Condition.criterion?_tidy (condition : Condition) :
    condition.tidy.criterion? = condition.criterion? := by
  obtain ⟨test, negated⟩ := condition
  cases test with
  | range above below =>
    rw [tidy, Test.tidy, criterion?_ofBounds, criterion?, criterion?, Scalar.present?_present?,
      Scalar.present?_present?]
  | _ => rfl

/-- A clause that is tidied has the same criterion. -/
theorem Clause.criterion?_tidy (clause : Clause) : clause.tidy.criterion? = clause.criterion? := by
  cases clause with
  | condition asked => exact asked.criterion?_tidy
  | _ => rfl

/-- Tidied clauses compile as before, for every entity. -/
theorem Clause.exprs_tidyClauses (target : Target) (clauses : List (String × Clause)) :
    ∀ entity, exprs target entity (tidyClauses clauses) = exprs target entity clauses := by
  refine induction_on_clauses
    (R := fun clause => ∀ entity field,
      expr? target entity field clause.tidy = expr? target entity field clause)
    (S := fun clauses => ∀ entity,
      exprs target entity (tidyClauses clauses) = exprs target entity clauses) ?_ ?_ ?_ clauses
  · intro clause ih entity field
    cases hlink : entity.link? field with
    | none => rw [expr?_of_column target hlink, expr?_of_column target hlink, criterion?_tidy]
    | some link =>
      rw [expr?_of_link target hlink, expr?_of_link target hlink]
      cases clause with
      | nested negated inner => simp only [tidy, ih negated inner rfl]
      | _ => rfl
  · exact fun _ => rfl
  · intro field asked rest hasked hrest entity
    rw [tidyClauses, exprs, exprs, hasked, hrest]

/-- **A tidied filter compiles as it did before.** -/
theorem Filter.compile_tidy (target : Target) (entity : String) (filter : Filter) :
    filter.tidy.compile target entity = filter.compile target entity := by
  have hexpr : ∀ entity, filter.tidy.expr? target entity = filter.expr? target entity := by
    intro entity
    rw [expr?, expr?, tidy, ← Clause.tidyClauses_eq_mapValues, Clause.exprs_tidyClauses]
  simp only [compile, hexpr]

/-! ## Nothing to tidy -/

/-- A test with an operator, which has a bound if it is a range, and none that is null. -/
def Test.IsTight : Test → Prop
  | .range above below =>
      (above.isSome ∨ below.isSome) ∧ above ≠ some .null ∧ below ≠ some .null
  | .unspecified => False
  | _ => True

namespace Clause

mutual

/-- Every condition of the clause is tight. -/
def IsTight : Clause → Prop
  | .condition asked => asked.test.IsTight
  | .nested _ clauses => AreTight clauses
  | _ => True

/-- Every condition of the clauses is tight. -/
def AreTight : List (String × Clause) → Prop
  | [] => True
  | (_, asked) :: rest => IsTight asked ∧ AreTight rest

end

end Clause

theorem Scalar.present?_of_ne_null {bound : Option Scalar} (h : bound ≠ some .null) :
    present? bound = bound := by
  cases bound with
  | none => rfl
  | some scalar =>
    cases scalar with
    | null => exact absurd rfl h
    | _ => rfl

/-- There is nothing to tidy in a tight test. -/
theorem Test.tidy_of_isTight {test : Test} (h : test.IsTight) : test.tidy = test := by
  cases test with
  | range above below =>
    obtain ⟨hsome, habove, hbelow⟩ := h
    rw [tidy, Scalar.present?_of_ne_null habove, Scalar.present?_of_ne_null hbelow]
    cases above with
    | some _ => rfl
    | none =>
      cases below with
      | some _ => rfl
      | none => exact absurd hsome (by decide)
  | _ => rfl

namespace Clause

mutual

theorem tidy_of_isTight : ∀ {clause : Clause}, clause.IsTight → clause.tidy = clause
  | .value _, _ | .list _, _ => rfl
  | .condition asked, h => by
      rw [tidy, Condition.tidy, Test.tidy_of_isTight h]
  | .nested negated _, h => congrArg (Clause.nested negated) (tidyClauses_of_areTight h)

theorem tidyClauses_of_areTight : ∀ {clauses : List (String × Clause)}, AreTight clauses →
    tidyClauses clauses = clauses
  | [], _ => rfl
  | (field, _) :: _, h => by rw [tidyClauses, tidy_of_isTight h.1, tidyClauses_of_areTight h.2]

end

end Clause

/-- **A filter whose conditions are tight is left as it is.** -/
theorem Filter.tidy_of_isTight {filter : Filter} (h : Clause.AreTight filter.clauses) :
    filter.tidy = filter := by
  rw [tidy, ← Clause.tidyClauses_eq_mapValues, Clause.tidyClauses_of_areTight h]

end EntityQuery
