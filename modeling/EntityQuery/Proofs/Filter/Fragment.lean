import EntityQuery.Graph.People
import EntityQuery.Proofs.Filter.Readable
import EntityQuery.Proofs.Sql.Script

/-!
# Proofs/Filter/Fragment — filters written without a tree between

    filter ──exprs──▸ expression ──pieces──▸ text, parameters
       └───────────────fragment──────────────────▴

A fragment is a text with the parameters of its question marks.  `Filter.fragment` writes a filter
in one pass: a criterion is a predicate on a column, a link puts its predicate around what is
written of the filter inside, and a group joins what is not empty.  `Filter.compile_eq_fragment`
says that with question marks compiling a filter — to an expression, and the expression to a text —
is the same.  So the text of a group is put together from the texts of its fields, one by one:
`compile_by_parts`.
-/

namespace EntityQuery

open Sql (Expr Buffer Piece Value clauseText)

/-! ## Conditions are never written as nothing -/

namespace Sql

theorem shows_negateIf (negated : Bool) {operand : Expr} (h : Piece.Shows operand.pieces) :
    Piece.Shows (Expr.negateIf negated operand).pieces := by
  rcases negated
  · exact h
  · rw [Expr.negateIf, if_pos rfl, Expr.pieces]
    exact h.mono (List.subset_cons_self _ _)

theorem shows_compare (left : Expr) (comparison : Comparison) (right : Expr) :
    Piece.Shows (Expr.compare left comparison right).pieces := by
  refine ⟨comparison.text, ?_, ?_⟩
  · rcases comparison <;> decide
  · simp [Expr.pieces]

theorem shows_inSelect (operand : Expr) (select : Select) :
    Piece.Shows (Expr.inSelect operand select).pieces :=
  ⟨" IN (", by decide, by simp [Expr.pieces]⟩

/-- A group of which every operand shows is not written as nothing. -/
theorem shows_join {separator : String} {operands : List Expr} (hne : operands ≠ [])
    (h : ∀ operand ∈ operands, Piece.Shows operand.pieces) :
    Piece.Shows (Piece.join separator (pieceLists operands)) := by
  obtain ⟨first, rest, rfl⟩ := List.exists_cons_of_ne_nil hne
  have hfirst : first.pieces ∈ pieceLists (first :: rest) := by
    rw [pieceLists]
    exact List.mem_cons_self
  exact (h first List.mem_cons_self).mono (Piece.subset_join hfirst)

end Sql

/-- A criterion shows if it compares with anything. -/
theorem Criterion.shows_expr (column : Expr) {criterion : Criterion Value}
    (hne : criterion.operands ≠ []) : Piece.Shows (criterion.expr column).pieces := by
  rcases criterion with ⟨negated, comparison, operand⟩ | ⟨negated, operands⟩ | ⟨negated, bounds⟩
  · exact Sql.shows_negateIf negated (Sql.shows_compare _ _ _)
  · refine Sql.shows_negateIf negated ⟨" IN (", by decide, ?_⟩
    simp [Expr.pieces]
  · have hbounds : Piece.Shows (Expr.and (bounds.map fun bound =>
        .compare column bound.1 (.value bound.2))).pieces := by
      rw [Expr.pieces]
      refine Sql.shows_join (fun hnil => hne ?_) fun operand hoperand => ?_
      · rw [operands, List.map_eq_nil_iff.mp hnil, List.map_nil]
      · obtain ⟨bound, -, rfl⟩ := List.mem_map.mp hoperand
        exact Sql.shows_compare _ _ _
    rcases negated
    · exact hbounds
    · refine ⟨"NOT ", by decide, ?_⟩
      simp [expr, Expr.pieces]

theorem Link.shows_expr (source other : Entity) (condition : Option Expr) (link : Link) :
    Piece.Shows (link.expr source other condition).pieces := by
  rcases link with link | link | link <;> exact Sql.shows_inSelect _ _

theorem shows_joinGroup (negated : Bool) {operands : List Expr} {condition : Expr}
    (hcondition : joinGroup negated operands = some condition)
    (h : ∀ operand ∈ operands, Piece.Shows operand.pieces) : Piece.Shows condition.pieces := by
  match negated, operands, hcondition with
  | true, _ :: _, rfl => exact ⟨"NOT ", by decide, by simp [Expr.pieces]⟩
  | false, [operand], rfl => exact h _ List.mem_cons_self
  | false, first :: second :: rest, rfl =>
    rw [Expr.pieces]
    exact Sql.shows_join (List.cons_ne_nil _ _) h

/-- **The expressions of clauses are never written as nothing.** -/
theorem shows_exprs (target : Target) {entity : Entity} {clauses : List (String × Clause)}
    {operands : List Expr} (h : Clause.exprs target entity clauses = .ok operands) :
    ∀ operand ∈ operands, Piece.Shows operand.pieces := by
  refine Clause.exprs_induction target
    (P := fun _ _ _ operand => ∀ expr ∈ operand.toList, Piece.Shows expr.pieces)
    (Q := fun _ _ operands => ∀ expr ∈ operands, Piece.Shows expr.pieces)
    ?silent ?column ?link ?nil ?cons entity clauses operands h
  case silent => simp
  case column =>
    intro entity field clause criterion bound _ hcriterion hbound
    have hlength := Except.length_of_mapM (criterion.operands_of_traverse hbound)
    have hne : bound.operands ≠ [] := fun hnil => by
      rw [hnil] at hlength
      exact Clause.operands_ne_nil hcriterion (List.eq_nil_of_length_eq_zero hlength.symm)
    simpa using bound.shows_expr _ hne
  case link =>
    intro entity field link other negated clauses operands _ _ _
    simpa using link.shows_expr entity other _
  case nil => simp
  case cons =>
    intro entity field clause operand rest operands hclause hrest
    exact List.forall_mem_append.mpr ⟨hclause, hrest⟩

/-- What a filter compiles to shows, if there is anything. -/
theorem Filter.shows_expr? {target : Target} {entity : Entity} {filter : Filter} {condition : Expr}
    (h : filter.expr? target entity = .ok (some condition)) : Piece.Shows condition.pieces := by
  obtain ⟨operands, hoperands, hjoined⟩ := Except.bind_eq_ok.mp h
  exact shows_joinGroup filter.negated (Except.ok.inj hjoined) (shows_exprs target hoperands)

theorem Clause.shows_expr? {target : Target} {entity : Entity} {field : String} {clause : Clause}
    {operand : Expr} (h : clause.expr? target entity field = .ok (some operand)) :
    Piece.Shows operand.pieces := by
  have hexprs : Clause.exprs target entity [(field, clause)] = .ok [operand] := by
    rw [exprs, h, exprs]
    rfl
  exact shows_exprs target hexprs operand List.mem_cons_self

/-! ## Fragments -/

/-- A text with the parameters of its question marks, in order. -/
structure Fragment where
  text : String
  params : List Value
  deriving DecidableEq, Repr

namespace Fragment

/-- Nothing. -/
def empty : Fragment := ⟨"", []⟩

/-- Fragments with a text between. -/
def joined (separator : String) (parts : List Fragment) : Fragment :=
  ⟨separator.intercalate (parts.map text), parts.flatMap params⟩

/-- A fragment with texts around it. -/
def within (before after : String) (inner : Fragment) : Fragment :=
  ⟨before ++ inner.text ++ after, inner.params⟩

/-- A fragment behind NOT, if it is asked for. -/
def negateIf (negated : Bool) (inner : Fragment) : Fragment :=
  if negated then inner.within "NOT " "" else inner

/-- The fragments of a group as one: all of them, or none of them. -/
def group (negated : Bool) : List Fragment → Fragment
  | [] => empty
  | parts => if negated then (joined " OR " parts).within "NOT (" ")" else joined " AND " parts

/-- The fragment in a buffer of its own. -/
def toBuffer (part : Fragment) : Buffer :=
  ⟨.questionMark, part.text, part.params.toArray, part.params.length⟩

/-- What a buffer holds. -/
def ofBuffer (buffer : Buffer) : Fragment :=
  ⟨buffer.text, buffer.params.toList⟩

@[simp] theorem ofBuffer_toBuffer (part : Fragment) : ofBuffer part.toBuffer = part := rfl

end Fragment

/-! ## Filters as fragments -/

/-- A criterion on a column. -/
def Criterion.fragment (column : String) : Criterion Value → Fragment
  | .compare negated comparison operand =>
      .negateIf negated ⟨column ++ comparison.text ++ "?", [operand]⟩
  | .member negated operands =>
      .negateIf negated
        ⟨column ++ " IN (" ++ ", ".intercalate (operands.map fun _ => "?") ++ ")", operands⟩
  | .range negated bounds =>
      let range := .joined " AND " (bounds.map fun bound =>
        ⟨column ++ bound.1.text ++ "?", [bound.2]⟩)
      if negated then range.within "NOT (" ")" else range

/-- The predicate of a link around a condition at its other end. -/
def Link.predicate (source other : Entity) (condition : String) : Link → String
  | .bridge link =>
      source.table ++ "." ++ link.sourceRefKey
        ++ " IN (SELECT " ++ link.table ++ "." ++ link.sourceForeignKey ++ " FROM " ++ link.table
        ++ " WHERE " ++ link.table ++ "." ++ link.targetForeignKey
        ++ " IN (SELECT " ++ other.table ++ "." ++ link.targetRefKey ++ " FROM " ++ other.table
        ++ clauseText " WHERE " condition ++ "))"
  | .incoming link =>
      source.table ++ "." ++ link.sourceRefKey
        ++ " IN (SELECT " ++ other.table ++ "." ++ link.targetForeignKey ++ " FROM " ++ other.table
        ++ clauseText " WHERE " condition ++ ")"
  | .outgoing link =>
      source.table ++ "." ++ link.sourceForeignKey
        ++ " IN (SELECT " ++ other.table ++ "." ++ link.targetRefKey ++ " FROM " ++ other.table
        ++ clauseText " WHERE " condition ++ ")"

/-- The column of a field that is no link, with its table. -/
def Entity.columnText (entity : Entity) (field : String) : String :=
  entity.table ++ "." ++ (entity.columnOf? field).getD field

mutual

/-- The clause of a field; empty if it says nothing. -/
def Clause.fragment (target : Target) (entity : Entity) (field : String) :
    Clause → Except CompileError Fragment
  | .nested negated clauses =>
      match entity.link? field with
      | none => .ok .empty
      | some link => do
          let other ← target.entity link.target
          let parts ← fragments target other clauses
          let inner := Fragment.group negated parts
          .ok { inner with text := link.predicate entity other inner.text }
  | asked =>
      match entity.link? field with
      | some _ => .error (.linkComparedByValue field)
      | none =>
          match asked.criterion? with
          | none => .ok .empty
          | some criterion =>
              (criterion.traverse (Scalar.toValue target.dialect)).map
                (Criterion.fragment (entity.columnText field))

/-- The clauses that are not empty, in order. -/
def fragments (target : Target) (entity : Entity) :
    List (String × Clause) → Except CompileError (List Fragment)
  | [] => .ok []
  | (field, clause) :: rest => do
      let part ← clause.fragment target entity field
      let parts ← fragments target entity rest
      .ok (if part.text = "" then parts else part :: parts)

end

/-- A filter on an entity; empty if everything passes. -/
def Filter.fragment (target : Target) (entity : Entity) (filter : Filter) :
    Except CompileError Fragment :=
  (fragments target entity filter.clauses).map (.group filter.negated)

/-! ## Written pieces as fragments -/

namespace Fragment

/-- Pieces that are written with question marks. -/
def ofPieces (pieces : List Piece) : Fragment :=
  ⟨Piece.script pieces, Piece.params pieces⟩

/-- A condition that may be left out. -/
def ofCondition (condition : Option Expr) : Fragment :=
  ofPieces ((condition.map Expr.pieces).getD [])

@[simp] theorem ofCondition_some (condition : Expr) :
    ofCondition (some condition) = ofPieces condition.pieces := rfl

@[simp] theorem ofPieces_nil : ofPieces [] = empty := rfl

@[simp] theorem ofPieces_fixed (text : String) (rest : List Piece) :
    ofPieces (.fixed text :: rest) = ⟨text ++ (ofPieces rest).text, (ofPieces rest).params⟩ := rfl

@[simp] theorem ofPieces_name (text : String) (rest : List Piece) :
    ofPieces (.name text :: rest) = ⟨text ++ (ofPieces rest).text, (ofPieces rest).params⟩ := rfl

@[simp] theorem ofPieces_param (value : Value) (rest : List Piece) :
    ofPieces (.param value :: rest)
      = ⟨"?" ++ (ofPieces rest).text, value :: (ofPieces rest).params⟩ := rfl

@[simp] theorem ofPieces_append (first second : List Piece) :
    ofPieces (first ++ second)
      = ⟨(ofPieces first).text ++ (ofPieces second).text,
          (ofPieces first).params ++ (ofPieces second).params⟩ := by
  rw [ofPieces, Piece.script_append, Sql.params_append]
  rfl

/-- Operands with a separator between are their fragments, joined. -/
theorem ofPieces_join (separator : String) (operands : List Expr) :
    ofPieces (Piece.join separator (Sql.pieceLists operands))
      = joined separator (operands.map fun operand => ofPieces operand.pieces) := by
  rw [ofPieces, Piece.script_join, Sql.params_join, Sql.pieceLists_eq_map, joined]
  simp [List.flatMap, ofPieces, Function.comp_def]

theorem ofPieces_not (operand : Expr) :
    ofPieces (Expr.not operand).pieces = (ofPieces operand.pieces).within "NOT " "" := by
  simp [Expr.pieces, within]

theorem ofPieces_group (operand : Expr) :
    ofPieces (Expr.group operand).pieces = (ofPieces operand.pieces).within "(" ")" := by
  simp [Expr.pieces, within, empty, String.append_assoc]

/-- What is put around twice can be put around at once. -/
theorem within_within (before after first last : String) (inner : Fragment) :
    (inner.within before after).within first last
      = inner.within (first ++ before) (after ++ last) := by
  simp [within, String.append_assoc]

theorem ofPieces_negateIf (negated : Bool) (operand : Expr) :
    ofPieces (Expr.negateIf negated operand).pieces
      = negateIf negated (ofPieces operand.pieces) := by
  rcases negated
  · rfl
  · exact ofPieces_not operand

/-- A comparison with a value has a question mark, with the value as its parameter. -/
theorem ofPieces_compare (table name : String) (comparison : Sql.Comparison) (value : Value) :
    ofPieces (Expr.compare (.ofColumn table name) comparison (.value value)).pieces
      = ⟨table ++ "." ++ name ++ comparison.text ++ "?", [value]⟩ := by
  simp [Expr.pieces, Expr.ofColumn, Sql.Column.pieces, empty, String.append_assoc]

/-- A list of values has as many question marks, each with its own value. -/
theorem ofPieces_inList (table name : String) (values : List Value) :
    ofPieces (Expr.inList (.ofColumn table name) (values.map .value)).pieces
      = ⟨table ++ "." ++ name ++ " IN (" ++ ", ".intercalate (values.map fun _ => "?") ++ ")",
          values⟩ := by
  have hitems : ofPieces (Piece.join ", " (Sql.pieceLists (values.map .value)))
      = ⟨", ".intercalate (values.map fun _ => "?"), values⟩ := by
    have hitem : (fun operand : Expr => ofPieces operand.pieces) ∘ Expr.value
        = fun value => ⟨"?", [value]⟩ :=
      funext fun value => by simp [Expr.pieces, empty]
    rw [ofPieces_join, List.map_map, hitem, joined]
    simp [List.flatMap_map, Function.comp_def]
  simp [Expr.pieces, Expr.ofColumn, Sql.Column.pieces, hitems, empty, String.append_assoc]

end Fragment

/-- A criterion is written as its fragment. -/
theorem Criterion.ofPieces_expr (table name : String) (criterion : Criterion Value) :
    Fragment.ofPieces (criterion.expr (.ofColumn table name)).pieces
      = criterion.fragment (table ++ "." ++ name) := by
  rcases criterion with ⟨negated, comparison, operand⟩ | ⟨negated, operands⟩ | ⟨negated, bounds⟩
  · rw [expr, Fragment.ofPieces_negateIf, Fragment.ofPieces_compare, fragment]
  · rw [expr, Fragment.ofPieces_negateIf, Fragment.ofPieces_inList, fragment]
  · have hrange : Fragment.ofPieces (Expr.and (bounds.map fun bound =>
        .compare (.ofColumn table name) bound.1 (.value bound.2))).pieces
        = .joined " AND " (bounds.map fun bound =>
            ⟨table ++ "." ++ name ++ bound.1.text ++ "?", [bound.2]⟩) := by
      rw [Expr.pieces, Fragment.ofPieces_join, List.map_map]
      refine congrArg (Fragment.joined " AND ") (List.map_congr_left fun bound _ => ?_)
      exact Fragment.ofPieces_compare table name bound.1 bound.2
    rcases negated
    · exact hrange
    · change Fragment.ofPieces (Expr.not (.group (.and _))).pieces = _
      rw [Fragment.ofPieces_not, Fragment.ofPieces_group, Fragment.within_within, hrange]
      rfl

/-- What shows has a text. -/
theorem Fragment.text_ne_empty {pieces : List Piece} (h : Piece.Shows pieces) :
    (ofPieces pieces).text ≠ "" := by
  have hbuffer := Buffer.text_ne_empty h .generic
  rwa [Dialect.generic, Buffer.ofPieces_questionMark] at hbuffer

/-- What shows is written behind WHERE. -/
theorem Fragment.clauseText_of_shows {condition : Expr} (h : Piece.Shows condition.pieces) :
    clauseText " WHERE " (ofPieces condition.pieces).text
      = " WHERE " ++ (ofPieces condition.pieces).text := by
  rw [clauseText, if_neg (text_ne_empty h)]

/-- The clause of a condition is its text behind WHERE, or nothing. -/
theorem Fragment.ofPieces_condition {condition : Option Expr}
    (h : ∀ expr ∈ condition, Piece.Shows expr.pieces) :
    ofPieces (Sql.conditionPieces condition)
      = { ofCondition condition with text := clauseText " WHERE " (ofCondition condition).text } := by
  rcases condition with _ | condition
  · rfl
  · rw [Sql.conditionPieces, ofPieces_fixed, ofCondition_some,
      clauseText_of_shows (h condition rfl)]

/-- A selection of one column is written with its condition. -/
theorem Fragment.ofPieces_columnWhere (table column : String) {condition : Option Expr}
    (h : ∀ expr ∈ condition, Piece.Shows expr.pieces) :
    ofPieces (Sql.Select.columnWhere table column condition).pieces
      = ⟨"SELECT " ++ table ++ "." ++ column ++ " FROM " ++ table
          ++ clauseText " WHERE " (ofCondition condition).text, (ofCondition condition).params⟩ := by
  have hpieces : (Sql.Select.columnWhere table column condition).pieces
      = .fixed "SELECT " :: .name table :: .fixed "." :: .name column :: .fixed " "
          :: .fixed "FROM " :: .name table :: Sql.conditionPieces condition := by
    simp [Sql.Select.columnWhere, Sql.Select.pieces, Sql.SelectList.pieces, Piece.join,
      Sql.Column.pieces]
  have hfrom : " FROM " = " " ++ "FROM " := by decide
  rw [hpieces, hfrom]
  simp only [ofPieces_fixed, ofPieces_name, ofPieces_condition h, String.append_assoc]

theorem Fragment.ofPieces_inSelect (table name : String) (select : Sql.Select) :
    ofPieces (Expr.inSelect (.ofColumn table name) select).pieces
      = (ofPieces select.pieces).within (table ++ "." ++ name ++ " IN (") ")" := by
  simp [Expr.pieces, Expr.ofColumn, Sql.Column.pieces, within, empty, String.append_assoc]

/-- A column selected where it is written in parentheses behind another. -/
theorem Fragment.ofPieces_inColumn (table name other column : String) {condition : Option Expr}
    (h : ∀ expr ∈ condition, Piece.Shows expr.pieces) :
    ofPieces (Expr.inSelect (.ofColumn table name) (.columnWhere other column condition)).pieces
      = ⟨table ++ "." ++ name ++ " IN (SELECT " ++ other ++ "." ++ column ++ " FROM " ++ other
          ++ clauseText " WHERE " (ofCondition condition).text ++ ")",
          (ofCondition condition).params⟩ := by
  have hselect : " IN (SELECT " = " IN (" ++ "SELECT " := by decide
  rw [ofPieces_inSelect, ofPieces_columnWhere _ _ h, hselect]
  simp only [within, String.append_assoc]

/-- A link is written as its predicate around what is written of its condition. -/
theorem Link.ofPieces_expr (source other : Entity) {condition : Option Expr}
    (h : ∀ expr ∈ condition, Piece.Shows expr.pieces) (link : Link) :
    Fragment.ofPieces (link.expr source other condition).pieces
      = { Fragment.ofCondition condition with
          text := link.predicate source other (Fragment.ofCondition condition).text } := by
  rcases link with link | link | link
  · -- the condition on the table between is membership at the far end, so it is never left out
    have hinner := Sql.shows_inSelect (.ofColumn link.table link.targetForeignKey)
      (.columnWhere other.table link.targetRefKey condition)
    have hclose : "))" = ")" ++ ")" := by decide
    have hpredicate (text : String) : predicate source other text (.bridge link)
        = source.table ++ "." ++ link.sourceRefKey ++ " IN (SELECT " ++ link.table ++ "."
          ++ link.sourceForeignKey ++ " FROM " ++ link.table ++ " WHERE " ++ link.table ++ "."
          ++ link.targetForeignKey ++ " IN (SELECT " ++ other.table ++ "." ++ link.targetRefKey
          ++ " FROM " ++ other.table ++ clauseText " WHERE " text ++ "))" := rfl
    rw [expr, Fragment.ofPieces_inColumn _ _ _ _ (by rintro expr ⟨⟩; exact hinner),
      Fragment.ofCondition_some, Fragment.clauseText_of_shows hinner,
      Fragment.ofPieces_inColumn _ _ _ _ h, hpredicate]
    simp only [hclose, String.append_assoc]
  · exact Fragment.ofPieces_inColumn _ _ _ _ h
  · exact Fragment.ofPieces_inColumn _ _ _ _ h

/-- A group is written as the group of what is written of its operands. -/
theorem Fragment.ofCondition_joinGroup (negated : Bool) (operands : List Expr) :
    ofCondition (joinGroup negated operands)
      = group negated (operands.map fun operand => ofPieces operand.pieces) := by
  match negated, operands with
  | true, [] => rfl
  | false, [] => rfl
  | true, first :: rest =>
    change ofPieces (Expr.not (.group (.or (first :: rest)))).pieces = _
    rw [ofPieces_not, ofPieces_group, within_within, Expr.pieces, ofPieces_join]
    rfl
  | false, [only] => simp [joinGroup, Expr.all?, ofCondition, group, joined]
  | false, first :: second :: rest =>
    change ofPieces (Expr.and (first :: second :: rest)).pieces = _
    rw [Expr.pieces, ofPieces_join]
    rfl

/-! ## One pass and two -/

/-- What is asked of a column is written as the fragment of its criterion. -/
theorem Clause.fragment_of_column (target : Target) {entity : Entity} {field : String}
    (h : entity.link? field = none) (clause : Clause) :
    clause.fragment target entity field
      = (clause.expr? target entity field).map .ofCondition := by
  have hcriterion : clause.fragment target entity field
      = match clause.criterion? with
        | none => .ok .empty
        | some criterion =>
            (criterion.traverse (Scalar.toValue target.dialect)).map
              (Criterion.fragment (entity.columnText field)) := by
    rcases clause with scalar | scalars | asked | ⟨negated, clauses⟩ <;> rw [fragment, h]
    · rintro _ _ ⟨⟩
    · rintro _ _ ⟨⟩
    · rintro _ _ ⟨⟩
    · rfl
  have hwritten (bound : Criterion Value) :
      Fragment.ofCondition (some (bound.expr (entity.columnExpr field)))
        = bound.fragment (entity.columnText field) :=
    bound.ofPieces_expr entity.table ((entity.columnOf? field).getD field)
  rw [hcriterion, expr?_of_column target h]
  rcases clause.criterion? with _ | criterion
  · rfl
  · change (criterion.traverse (Scalar.toValue target.dialect)).map _ = _
    rw [Criterion.compiled?]
    rcases criterion.traverse (Scalar.toValue target.dialect) with error | bound
    · rfl
    · exact congrArg Except.ok (hwritten bound).symm

/-- What is asked of a link is written as the predicate of the link around what is asked at its
other end. -/
theorem Clause.fragment_of_link (target : Target) {entity : Entity} {field : String} {link : Link}
    (h : entity.link? field = some link) {clause : Clause}
    (ih : ∀ negated inner, clause = .nested negated inner → ∀ entity,
      fragments target entity inner = (exprs target entity inner).map
        (List.map fun operand => .ofPieces operand.pieces)) :
    clause.fragment target entity field
      = (clause.expr? target entity field).map .ofCondition := by
  have hasked (asked : Clause) (hne : ∀ negated inner, asked ≠ .nested negated inner) :
      asked.fragment target entity field = .error (.linkComparedByValue field) := by
    rw [fragment, h]
    exact hne
  rw [expr?_of_link target h]
  rcases clause with scalar | scalars | asked | ⟨negated, clauses⟩
  · exact hasked (.value scalar) nofun
  · exact hasked (.list scalars) nofun
  · exact hasked (.condition asked) nofun
  rw [fragment, h]
  change (target.entity link.target >>= _) = (target.entity link.target >>= _).map _
  rcases target.entity link.target with error | other
  · rfl
  change (fragments target other clauses >>= _) = (exprs target other clauses >>= _).map _
  rw [ih negated clauses rfl other]
  rcases hoperands : exprs target other clauses with error | operands
  · rfl
  · have hshows : ∀ expr ∈ joinGroup negated operands, Piece.Shows expr.pieces := fun expr hexpr =>
      shows_joinGroup negated hexpr (shows_exprs target hoperands)
    have hwritten := link.ofPieces_expr entity other hshows
    rw [Fragment.ofCondition_joinGroup] at hwritten
    exact congrArg Except.ok hwritten.symm

/-- **Clauses are written as their fragments.** -/
theorem fragments_eq (target : Target) (entity : Entity) (clauses : List (String × Clause)) :
    fragments target entity clauses
      = (Clause.exprs target entity clauses).map
          (List.map fun operand => .ofPieces operand.pieces) := by
  refine Clause.induction_on_clauses
    (R := fun clause => ∀ entity field, clause.fragment target entity field
      = (clause.expr? target entity field).map .ofCondition)
    (S := fun clauses => ∀ entity, fragments target entity clauses
      = (Clause.exprs target entity clauses).map
          (List.map fun operand => .ofPieces operand.pieces))
    ?clause ?nil ?cons clauses entity
  case clause =>
    intro clause ih entity field
    rcases hlink : entity.link? field with _ | link
    · exact clause.fragment_of_column target hlink
    · exact clause.fragment_of_link target hlink ih
  case nil =>
    intro entity
    rw [fragments, Clause.exprs]
    rfl
  case cons =>
    intro field clause rest hclause hrest entity
    rw [fragments, Clause.exprs, hclause, hrest]
    -- a clause without an expression is empty, and no other is
    rcases hoperand : clause.expr? target entity field with error | _ | operand
    · rfl
    · rcases Clause.exprs target entity rest with error | operands <;> rfl
    · have htext : (Fragment.ofCondition (some operand)).text ≠ "" :=
        Fragment.text_ne_empty (Clause.shows_expr? hoperand)
      rcases Clause.exprs target entity rest with error | operands
      · rfl
      · exact congrArg Except.ok (if_neg htext)

/-- A clause is written as its fragment. -/
theorem Clause.fragment_eq (target : Target) (entity : Entity) (field : String) (clause : Clause) :
    clause.fragment target entity field
      = (clause.expr? target entity field).map .ofCondition := by
  rcases hlink : entity.link? field with _ | link
  · exact clause.fragment_of_column target hlink
  · exact clause.fragment_of_link target hlink fun _ inner _ entity =>
      fragments_eq target entity inner

/-- The fragment of a filter is that of its expression. -/
theorem Filter.fragment_eq (target : Target) (entity : Entity) (filter : Filter) :
    filter.fragment target entity = (filter.expr? target entity).map .ofCondition := by
  change (fragments target entity filter.clauses).map _
    = (Clause.exprs target entity filter.clauses >>= _).map _
  rw [fragments_eq]
  rcases Clause.exprs target entity filter.clauses with error | operands
  · rfl
  · exact congrArg Except.ok (Fragment.ofCondition_joinGroup filter.negated operands).symm

/-- **With question marks, a filter compiles to its fragment.** -/
theorem Filter.compile_eq_fragment {target : Target}
    (hstyle : target.dialect.placeholder = .questionMark) {name : String} {entity : Entity}
    (hentity : target.graph.entity? name = some entity) (filter : Filter) :
    filter.compile target name = (filter.fragment target entity).map Fragment.toBuffer := by
  have hbuffer (pieces : List Piece) :
      Buffer.ofPieces target.dialect pieces = (Fragment.ofPieces pieces).toBuffer := by
    obtain ⟨graph, style, booleans⟩ := target
    obtain rfl : style = .questionMark := hstyle
    exact Buffer.ofPieces_questionMark booleans pieces
  rw [compile, Target.entity_eq_ok.mpr hentity, fragment_eq]
  change (filter.expr? target entity >>= _) = _
  rcases filter.expr? target entity with error | condition
  · rfl
  · exact congrArg Except.ok (hbuffer _)

/-! ## Fields by themselves -/

/-- The filter that asks one thing. -/
def Filter.only (entry : String × Clause) : Filter := ⟨false, [entry]⟩

/-- A filter with one field is what the field asks, compiled. -/
theorem Filter.fragment_only (target : Target) (entity : Entity) (field : String)
    (clause : Clause) :
    (only (field, clause)).fragment target entity = clause.fragment target entity field := by
  have hexprs : Clause.exprs target entity [(field, clause)]
      = (clause.expr? target entity field).map Option.toList := by
    rw [Clause.exprs, Clause.exprs]
    rcases clause.expr? target entity field with error | _ | operand <;> rfl
  rw [fragment_eq, Clause.fragment_eq]
  change (Clause.exprs target entity [(field, clause)] >>= _).map _ = _
  rw [hexprs]
  rcases clause.expr? target entity field with error | _ | operand <;> rfl

/-- A filter on the other end of a link is written as the predicate around what it is there. -/
theorem Filter.fragment_toClause {target : Target} {entity other : Entity} {field : String}
    {link : Link} (hlink : entity.link? field = some link)
    (hother : target.graph.entity? link.target = some other) (inner : Filter) :
    inner.toClause.fragment target entity field
      = (inner.fragment target other).map fun part =>
          { part with text := link.predicate entity other part.text } := by
  rw [toClause, Clause.fragment, hlink]
  change (target.entity link.target >>= _) = _
  rw [Target.entity_eq_ok.mpr hother, fragment]
  change (fragments target other inner.clauses >>= _) = _
  rcases fragments target other inner.clauses with error | parts <;> rfl

/-- The clauses of a group are written one by one, and what is empty is left out. -/
theorem fragments_eq_mapM (target : Target) (entity : Entity) (clauses : List (String × Clause)) :
    fragments target entity clauses
      = (clauses.mapM fun entry : String × Clause => entry.2.fragment target entity entry.1).map
          (List.filter fun part => part.text ≠ "") := by
  induction clauses with
  | nil =>
    rw [fragments]
    rfl
  | cons entry rest ih =>
    obtain ⟨field, clause⟩ := entry
    rw [fragments, ih, Except.mapM_cons]
    generalize (rest.mapM fun entry : String × Clause => entry.2.fragment target entity entry.1)
      = results
    rcases clause.fragment target entity field with error | part
    · rfl
    · rcases results with error | parts
      · rfl
      · by_cases htext : part.text = "" <;> simp [bind, Except.bind, Except.map, htext]

/-- **A filter is compiled part by part** — with question marks, and on an entity of the graph.
A group is joined from what its fields compile to by themselves, without what is empty; it fails
with the first field that does.  A filter on the other end of a link compiles to the predicate of
the link around what it compiles to there. -/
theorem compile_by_parts {target : Target} (hstyle : target.dialect.placeholder = .questionMark)
    {name : String} {entity : Entity} (hentity : target.graph.entity? name = some entity) :
    (∀ filter : Filter, filter.compile target name
      = (filter.clauses.mapM fun entry => (Filter.only entry).compile target name).map fun parts =>
          (Fragment.group filter.negated
            ((parts.map .ofBuffer).filter fun part => part.text ≠ "")).toBuffer)
    ∧ (∀ (filter : Filter) (error : CompileError), filter.compile target name = .error error
      ↔ ∃ before entry after, filter.clauses = before ++ entry :: after
        ∧ (Filter.only entry).compile target name = .error error
        ∧ ∀ earlier ∈ before, ∃ part, (Filter.only earlier).compile target name = .ok part)
    ∧ ∀ field link other, entity.link? field = some link →
        target.graph.entity? link.target = some other → ∀ inner : Filter,
        (Filter.only (field, inner.toClause)).compile target name
          = (inner.compile target link.target).map fun part =>
              { part with text := link.predicate entity other part.text } := by
  have honly (entry : String × Clause) : (Filter.only entry).compile target name
      = (entry.2.fragment target entity entry.1).map Fragment.toBuffer := by
    rw [Filter.compile_eq_fragment hstyle hentity, Filter.fragment_only]
  have hparts (filter : Filter) : filter.compile target name
      = (filter.clauses.mapM fun entry => (Filter.only entry).compile target name).map fun parts =>
          (Fragment.group filter.negated
            ((parts.map .ofBuffer).filter fun part => part.text ≠ "")).toBuffer := by
    rw [Filter.compile_eq_fragment hstyle hentity, Filter.fragment, fragments_eq_mapM]
    simp only [honly, Except.mapM_map_right]
    rcases List.mapM _ filter.clauses with error | parts
    · rfl
    · simp [Except.map, Function.comp_def]
  refine ⟨hparts, fun filter error => ?_, fun field link other hlink hother inner => ?_⟩
  · rw [hparts, Except.map_eq_error, Except.mapM_eq_error]
  · rw [honly, inner.fragment_toClause hlink hother, Filter.compile_eq_fragment hstyle hother]
    rcases inner.fragment target other with error | part <;> rfl

/-! ### A group of links -/

/-- Neither the red-haired nor the owners of a vehicle that is not green; any name. -/
def notRedOrNotGreen : Filter := ⟨true, [
  ("bioMetrics", .nested false [("hairColor", .value (.text "red"))]),
  ("name", .value .null),
  ("vehicles", .nested true [("tags", .nested false [("name", .value (.text "green"))])])]⟩

/-- The name is left out; a comparison with a mother is an error, whatever is pending behind it; and
a filter on the mother that asks nothing leaves no clause behind. -/
theorem parts_of_notRedOrNotGreen :
    notRedOrNotGreen.compile ⟨Graph.People.graph, .sqlite⟩ "person"
        = .ok (Fragment.group true [
          ⟨"person.bioMetricsId IN (SELECT bio_metrics.id FROM bio_metrics "
            ++ "WHERE bio_metrics.hair_color = ?)", [.text "red"]⟩,
          ⟨"person.id IN (SELECT vehicles.ownerId FROM vehicles "
            ++ "WHERE NOT (vehicles.id IN (SELECT vehicle_tags.vehicleId FROM vehicle_tags "
            ++ "WHERE vehicle_tags.tagId IN (SELECT tags.id FROM tags WHERE tags.name = ?))))",
            [.text "green"]⟩]).toBuffer
      ∧ (⟨false, [("name", .value .null), ("mother", .value .null),
            ("age", .value (.pending "age"))]⟩ : Filter).compile
          ⟨Graph.People.graph, .sqlite⟩ "person" = .error (.linkComparedByValue "mother")
      ∧ (Filter.only ("mother", .nested true [("name", .value .null)])).compile
          ⟨Graph.People.graph, .sqlite⟩ "person"
        = .ok ⟨.questionMark, "person.motherId IN (SELECT person.id FROM person)", #[], 0⟩ := by
  obtain ⟨hgroup, herror, hlink⟩ :=
    @compile_by_parts ⟨Graph.People.graph, .sqlite⟩ rfl "person" Graph.People.person rfl
  refine ⟨?_, ?_, ?_⟩
  · rw [hgroup]
    decide +kernel
  · refine (herror _ _).mpr
      ⟨[("name", .value .null)], ("mother", .value .null), [_], rfl, rfl, ?_⟩
    intro earlier hearlier
    rw [List.mem_singleton.mp hearlier]
    exact ⟨_, rfl⟩
  · refine (hlink "mother" _ Graph.People.person rfl rfl ⟨true, [("name", .value .null)]⟩).trans ?_
    decide +kernel

end EntityQuery
