/-!
# Proofs/Sql/Truth — the three truth values of SQL

A comparison with an unknown cell is neither true nor false.  `Truth` has the three values with the
strong Kleene connectives, `all` and `any` join lists of them, and `any_eq_yes` reads a disjunction
the way a selection does: it keeps a row only for a condition that is *true* there.
-/

namespace EntityQuery.Sql

/-- The truth of a condition at a row. -/
inductive Truth where
  | no
  | unknown
  | yes
  deriving DecidableEq, Repr

namespace Truth

/-- The negation; what is unknown stays so. -/
def not : Truth → Truth
  | .no => .yes
  | .unknown => .unknown
  | .yes => .no

/-- The conjunction: false as soon as one side is. -/
def and : Truth → Truth → Truth
  | .no, _ => .no
  | .yes, other => other
  | .unknown, .no => .no
  | .unknown, _ => .unknown

/-- The disjunction: true as soon as one side is. -/
def or : Truth → Truth → Truth
  | .yes, _ => .yes
  | .no, other => other
  | .unknown, .yes => .yes
  | .unknown, _ => .unknown

/-- The conjunction of a list; true for none. -/
def all (truths : List Truth) : Truth :=
  truths.foldr and .yes

/-- The disjunction of a list; false for none. -/
def any (truths : List Truth) : Truth :=
  truths.foldr or .no

/-- The negation, if it is asked for. -/
def negateIf (negated : Bool) (truth : Truth) : Truth :=
  if negated then truth.not else truth

/-- A group of clauses: all of them hold — or, negated, it is false that any of them does. -/
def ofGroup (negated : Bool) (truths : List Truth) : Truth :=
  if negated then (any truths).not else all truths

@[simp] theorem all_singleton (truth : Truth) : all [truth] = truth := by
  cases truth <;> rfl

theorem and_eq_yes {a b : Truth} : a.and b = .yes ↔ a = .yes ∧ b = .yes := by
  cases a <;> cases b <;> decide

/-- A conjunction is true exactly when all of its members are. -/
theorem all_eq_yes {truths : List Truth} : all truths = .yes ↔ ∀ truth ∈ truths, truth = .yes := by
  induction truths with
  | nil => simp [all]
  | cons truth rest ih =>
    rw [List.forall_mem_cons, ← ih, all, List.foldr_cons, and_eq_yes]
    rfl

theorem or_eq_yes {a b : Truth} : a.or b = .yes ↔ a = .yes ∨ b = .yes := by
  cases a <;> cases b <;> decide

/-- **A disjunction is true exactly when one of its members is.** -/
theorem any_eq_yes {truths : List Truth} : any truths = .yes ↔ .yes ∈ truths := by
  induction truths with
  | nil => simp [any]
  | cons truth rest ih =>
    rw [List.mem_cons, ← ih, any, List.foldr_cons, or_eq_yes, eq_comm (a := Truth.yes)]
    rfl

end Truth

end EntityQuery.Sql
