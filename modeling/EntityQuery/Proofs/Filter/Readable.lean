import EntityQuery.Proofs.Filter.Parameters
import EntityQuery.Proofs.Sql.Sentence

/-!
# Proofs/Filter/Readable — what is compiled reads back from its text

The compilers never put OR below AND, nor AND below NOT, without parentheses between, and they write
no empty list (`fits_exprs`, `Request.fits_select`, `Row.fits_insertion`).  So when the names of the
graph and the fields that are asked for are plain words, the text of a statement is a sentence of
the grammar, and reading it gives the statement back — `statements_read_back`.
-/

namespace EntityQuery

open Sql (Expr Buffer PlainWord)

/-! ## Plain names -/

/-- Whether the tables and keys of a link are plain words. -/
def Link.IsPlain : Link → Prop
  | .bridge link => PlainWord link.table ∧ PlainWord link.sourceRefKey ∧ PlainWord link.targetRefKey
      ∧ PlainWord link.sourceForeignKey ∧ PlainWord link.targetForeignKey
  | .outgoing link => PlainWord link.sourceForeignKey ∧ PlainWord link.targetRefKey
  | .incoming link => PlainWord link.sourceRefKey ∧ PlainWord link.targetForeignKey

/-- Whether the names that a field stands for are plain words. -/
def Field.IsPlain : Field → Prop
  | .column name => PlainWord name
  | .link leads => leads.IsPlain

/-- Whether the names of an entity's table, columns and keys are plain words. -/
def Entity.IsPlain (entity : Entity) : Prop :=
  PlainWord entity.table ∧ ∀ entry ∈ entity.fields.entries, entry.2.IsPlain

/-- Whether the names of all tables, columns and keys of a graph are plain words. -/
def Graph.IsPlain (graph : Graph) : Prop :=
  ∀ entry ∈ graph.entities.entries, entry.2.IsPlain

instance : DecidablePred Link.IsPlain
  | .bridge _ => inferInstanceAs (Decidable (_ ∧ _ ∧ _ ∧ _ ∧ _))
  | .outgoing _ => inferInstanceAs (Decidable (_ ∧ _))
  | .incoming _ => inferInstanceAs (Decidable (_ ∧ _))

instance : DecidablePred Field.IsPlain
  | .column name => inferInstanceAs (Decidable (PlainWord name))
  | .link leads => inferInstanceAs (Decidable leads.IsPlain)

instance : DecidablePred Entity.IsPlain :=
  fun _ => inferInstanceAs (Decidable (_ ∧ _))

instance : DecidablePred Graph.IsPlain :=
  fun graph => inferInstanceAs (Decidable (∀ entry ∈ graph.entities.entries, entry.2.IsPlain))

/-! ## Fields that are written by their names -/

/-- The name of a field if it is written itself: a field that is not mapped is its own column. -/
def Entity.written (entity : Entity) (field : String) : List String :=
  match entity.field? field with
  | none => [field]
  | some _ => []

mutual

/-- The fields that the clause of a field writes by their names. -/
def Clause.written (graph : Graph) (entity : Entity) (field : String) : Clause → List String
  | .nested _ clauses =>
      match (entity.link? field).bind fun link => graph.entity? link.target with
      | some other => clausesWritten graph other clauses
      | none => []
  | asked => if asked.criterion?.isSome then entity.written field else []

/-- The fields that the clauses of a group write by their names. -/
def clausesWritten (graph : Graph) (entity : Entity) : List (String × Clause) → List String
  | [] => []
  | (field, clause) :: rest =>
      clause.written graph entity field ++ clausesWritten graph entity rest

end

/-- The fields that are selected by their names. -/
def Projection.written (entity : Entity) (projection : Projection) : List String :=
  projection.flatMap fun (field, marker) =>
    if marker.isIncluded then entity.written field else []

/-- The fields that are sorted by under their names. -/
def Order.written (entity : Entity) (order : Order) : List String :=
  order.flatMap fun (field, entry) =>
    match entry with
    | .key _ => entity.written field
    | _ => []

/-- The fields that a request writes by their names. -/
def Request.written (graph : Graph) (entity : Entity) (request : Request) : List String :=
  clausesWritten graph entity request.search.clauses
    ++ (request.order.written entity ++ request.fields.written entity)

theorem Clause.written_of_column (graph : Graph) {entity : Entity} {field : String}
    (h : entity.link? field = none) (clause : Clause) :
    clause.written graph entity field
      = if clause.criterion?.isSome then entity.written field else [] := by
  cases clause with
  | nested negated clauses => rw [written, h]; rfl
  | value scalar => rw [written]; rintro _ _ ⟨⟩
  | list scalars => rw [written]; rintro _ _ ⟨⟩
  | condition asked => rw [written]; rintro _ _ ⟨⟩

/-! ## Columns with plain names -/

/-- A value that is found is the value of an entry. -/
theorem Entries.mem_of_get? {α : Type} {entries : Entries α} {name : String} {value : α}
    (h : entries.get? name = some value) : (name, value) ∈ entries := by
  obtain ⟨before, after, rfl, -⟩ := List.lookup_eq_some_iff.mp h
  exact List.mem_append_right before List.mem_cons_self

theorem Graph.IsPlain.entity {graph : Graph} (h : graph.IsPlain) {name : String} {entity : Entity}
    (hentity : graph.entity? name = some entity) : entity.IsPlain :=
  h (name, entity) (Entries.mem_of_get? hentity)

theorem Entity.IsPlain.link {entity : Entity} (h : entity.IsPlain) {field : String} {link : Link}
    (hlink : entity.link? field = some link) : link.IsPlain :=
  h.2 (field, .link link) (Entries.mem_of_get? (entity.field_of_link hlink))

/-- The column of a field is mapped, or it is the field. -/
theorem Entity.IsPlain.columnOf {entity : Entity} (h : entity.IsPlain) {field column : String}
    (hfield : ∀ name ∈ entity.written field, PlainWord name)
    (hcolumn : entity.columnOf? field = some column) : PlainWord column := by
  rw [Entity.columnOf?] at hcolumn
  rw [Entity.written] at hfield
  split at hcolumn
  · next hfound =>
    cases hcolumn
    rw [hfound] at hfield
    exact hfield field List.mem_cons_self
  · next found hfound =>
    cases hcolumn
    exact h.2 _ (Entries.mem_of_get? hfound)
  · exact nomatch hcolumn

/-- Only a link has no column. -/
theorem Entity.exists_columnOf {entity : Entity} {field : String} (h : entity.link? field = none) :
    ∃ column, entity.columnOf? field = some column := by
  rw [link?] at h
  rw [columnOf?]
  rcases hmeaning : entity.field? field with _ | ⟨name⟩ | link
  · exact ⟨field, rfl⟩
  · exact ⟨name, rfl⟩
  · rw [hmeaning] at h
    contradiction

/-- A field that is no link is an operand, mapped or written by its own name. -/
theorem Entity.IsPlain.columnExpr {entity : Entity} (h : entity.IsPlain) {field : String}
    (hlink : entity.link? field = none) (hfield : ∀ name ∈ entity.written field, PlainWord name) :
    (entity.columnExpr field).IsOperand := by
  obtain ⟨column, hcolumn⟩ := entity.exists_columnOf hlink
  refine ⟨h.1, ?_⟩
  rw [hcolumn]
  exact h.columnOf hfield hcolumn

/-! ## Expressions in their places -/

/-- What fits below AND fits anywhere but below NOT. -/
theorem Expr.Fits.weaken {expr : Expr} (h : expr.Fits .conjunction) : expr.Fits .disjunction := by
  cases expr with
  | and operands => exact ⟨Sql.Layer.noConfusion, h.2⟩
  | or operands => cases h.1
  | _ => exact h

/-- A criterion fits in a conjunction if it compares with anything. -/
theorem Criterion.fits_expr {column : Expr} (hcolumn : column.IsOperand)
    {criterion : Criterion Sql.Value} (hne : criterion.operands ≠ []) :
    (criterion.expr column).Fits .conjunction := by
  cases criterion with
  | compare negated comparison operand => cases negated <;> exact ⟨hcolumn, trivial⟩
  | member negated operands =>
    have hitems : (operands.map Expr.value) ≠ []
        ∧ ∀ item ∈ operands.map Expr.value, item.IsOperand := by
      refine ⟨fun h => hne (List.map_eq_nil_iff.mp h), fun item hitem => ?_⟩
      obtain ⟨value, -, rfl⟩ := List.mem_map.mp hitem
      trivial
    cases negated <;> exact ⟨hcolumn, hitems⟩
  | range negated bounds =>
    have hbounds : (bounds.map fun bound => Expr.compare column bound.1 (.value bound.2)) ≠ []
        ∧ Sql.AllFit (bounds.map fun bound => .compare column bound.1 (.value bound.2)) := by
      refine ⟨fun h => hne (congrArg (List.map Prod.snd) (List.map_eq_nil_iff.mp h)), ?_⟩
      refine Sql.allFit_iff.mpr fun operand hoperand => ?_
      obtain ⟨bound, -, rfl⟩ := List.mem_map.mp hoperand
      exact ⟨hcolumn, trivial⟩
    cases negated <;> exact ⟨Sql.Layer.noConfusion, hbounds⟩

/-- What a clause asks is never empty. -/
theorem Condition.operands_ne_nil {asked : Condition} {criterion : Criterion Scalar}
    (h : asked.criterion? = some criterion) : criterion.operands ≠ [] := by
  rcases asked with ⟨(scalar | ⟨_ | ⟨scalar, rest⟩⟩) | pattern | ⟨above, below⟩ | _, negated⟩
  · obtain ⟨_, -, rfl⟩ := Option.map_eq_some_iff.mp h
    exact List.cons_ne_nil _ _
  · cases h
  · cases h
    exact List.cons_ne_nil _ _
  · obtain ⟨_, -, rfl⟩ := Option.map_eq_some_iff.mp h
    exact List.cons_ne_nil _ _
  · rw [Condition.criterion?] at h
    split at h
    · cases h
    · next hbounds =>
      cases h
      exact fun h => hbounds (List.map_eq_nil_iff.mp h)
  · cases h

theorem Clause.operands_ne_nil {clause : Clause} {criterion : Criterion Scalar}
    (h : clause.criterion? = some criterion) : criterion.operands ≠ [] := by
  cases clause with
  | value scalar =>
    rw [Clause.criterion?] at h
    exact Condition.operands_ne_nil h
  | list scalars =>
    rw [Clause.criterion?] at h
    exact Condition.operands_ne_nil h
  | condition asked =>
    rw [Clause.criterion?] at h
    exact Condition.operands_ne_nil h
  | nested negated clauses => cases h

/-- A selection of one column with plain names, for a condition in its place. -/
theorem fits_columnWhere {table column : String} {condition : Option Expr}
    (htable : PlainWord table) (hcolumn : PlainWord column) (h : Sql.ConditionFits condition) :
    (Sql.Select.columnWhere table column condition).Fits := by
  refine ⟨⟨List.cons_ne_nil _ _, ?_⟩, htable, h, nofun, fun _ => rfl⟩
  intro listed hlisted
  cases List.mem_singleton.mp hlisted
  exact ⟨htable, hcolumn⟩

/-- A link fits below AND for a condition in its place. -/
theorem Link.fits_expr {source other : Entity} {link : Link} {condition : Option Expr}
    (hlink : link.IsPlain) (hsource : source.IsPlain) (hother : other.IsPlain)
    (h : Sql.ConditionFits condition) : (link.expr source other condition).Fits .conjunction := by
  cases link with
  | bridge link =>
    obtain ⟨htable, hsourceRef, htargetRef, hsourceForeign, htargetForeign⟩ := hlink
    exact ⟨⟨hsource.1, hsourceRef⟩, fits_columnWhere htable hsourceForeign
      ⟨⟨htable, htargetForeign⟩, fits_columnWhere hother.1 htargetRef h⟩⟩
  | incoming link => exact ⟨⟨hsource.1, hlink.1⟩, fits_columnWhere hother.1 hlink.2 h⟩
  | outgoing link => exact ⟨⟨hsource.1, hlink.1⟩, fits_columnWhere hother.1 hlink.2 h⟩

/-- A group is a condition in its place: OR stands in parentheses below NOT. -/
theorem fits_joinGroup (negated : Bool) {operands : List Expr} (h : Sql.AllFit operands) :
    Sql.ConditionFits (joinGroup negated operands) := by
  match negated, operands with
  | true, [] => trivial
  | true, _ :: _ => exact ⟨rfl, List.cons_ne_nil _ _, h⟩
  | false, [] => trivial
  | false, [operand] => exact Expr.Fits.weaken h.1
  | false, _ :: _ :: _ => exact ⟨nofun, List.cons_ne_nil _ _, h⟩

/-- **The expressions of clauses fit below AND and OR.** -/
theorem fits_exprs (target : Target) (hgraph : target.graph.IsPlain) {entity : Entity}
    {clauses : List (String × Clause)} {operands : List Expr}
    (h : Clause.exprs target entity clauses = .ok operands) (hentity : entity.IsPlain)
    (hwritten : ∀ field ∈ clausesWritten target.graph entity clauses, PlainWord field) :
    Sql.AllFit operands := by
  refine Clause.exprs_induction target
    (P := fun entity field clause operand => entity.IsPlain →
      (∀ name ∈ clause.written target.graph entity field, PlainWord name) →
        Sql.AllFit operand.toList)
    (Q := fun entity clauses operands => entity.IsPlain →
      (∀ field ∈ clausesWritten target.graph entity clauses, PlainWord field) →
        Sql.AllFit operands)
    ?silent ?column ?link ?nil ?cons entity clauses operands h hentity hwritten
  case silent => exact fun _ _ _ _ _ _ _ => trivial
  case column =>
    intro entity field clause criterion bound hlink hcriterion hbound hentity hwritten
    rw [Clause.written_of_column _ hlink, hcriterion] at hwritten
    refine ⟨Criterion.fits_expr (hentity.columnExpr hlink hwritten) fun hnil => ?_, trivial⟩
    have hlength := Except.length_of_mapM (criterion.operands_of_traverse hbound)
    rw [hnil] at hlength
    exact Clause.operands_ne_nil hcriterion (List.eq_nil_of_length_eq_zero hlength.symm)
  case link =>
    intro entity field link other negated clauses operands hlink hother ih hentity hwritten
    have hfound := Target.entity_eq_ok.mp hother
    have hplain := hgraph.entity hfound
    rw [Clause.written, hlink, Option.bind_some, hfound] at hwritten
    exact ⟨Link.fits_expr (hentity.link hlink) hentity hplain
      (fits_joinGroup negated (ih hplain hwritten)), trivial⟩
  case nil => exact fun _ _ _ => trivial
  case cons =>
    intro entity field clause operand rest operands hclause hrest hentity hwritten
    rw [clausesWritten] at hwritten
    obtain ⟨hfirst, hothers⟩ := List.forall_mem_append.mp hwritten
    exact Sql.allFit_iff.mpr (List.forall_mem_append.mpr
      ⟨Sql.allFit_iff.mp (hclause hentity hfirst), Sql.allFit_iff.mp (hrest hentity hothers)⟩)

/-! ## Statements in their places -/

/-- The select list of plain words fits. -/
theorem Projection.fits_selectList {entity : Entity} (hentity : entity.IsPlain)
    {projection : Projection} (h : ∀ field ∈ projection.written entity, PlainWord field) :
    (projection.selectList entity).Fits := by
  rw [Projection.selectList]
  split
  · exact hentity.1
  · next hcolumns =>
    refine ⟨fun hnil => hcolumns (List.isEmpty_iff.mpr hnil), fun column hcolumn => ?_⟩
    obtain ⟨⟨field, marker⟩, hentry, hlisted⟩ := List.mem_filterMap.mp hcolumn
    rw [ite_eq_iff] at hlisted
    rcases hlisted with ⟨hincluded, hlisted⟩ | ⟨-, hlisted⟩
    · obtain ⟨name, hname, rfl⟩ := Option.map_eq_some_iff.mp hlisted
      refine ⟨hentity.1, hentity.columnOf (fun written hwritten => ?_) hname⟩
      refine h written (List.mem_flatMap.mpr ⟨_, hentry, ?_⟩)
      change written ∈ if marker.isIncluded then entity.written field else []
      rwa [if_pos hincluded]
    · exact nomatch hlisted

theorem Order.plain_terms {entity : Entity} (hentity : entity.IsPlain) {order : Order}
    (h : ∀ field ∈ order.written entity, PlainWord field) :
    ∀ term ∈ order.terms entity, term.column.IsPlain := by
  intro term hterm
  obtain ⟨keyed, hkeyed, rfl⟩ := List.mem_map.mp hterm
  obtain ⟨⟨field, entry⟩, hentry, hprioritized⟩ :=
    List.mem_filterMap.mp (List.mem_mergeSort.mp hkeyed)
  cases entry with
  | key key =>
    obtain ⟨name, hname, rfl⟩ := Option.map_eq_some_iff.mp hprioritized
    refine ⟨hentity.1, hentity.columnOf (fun written hwritten => ?_) hname⟩
    exact h written (List.mem_flatMap.mpr ⟨_, hentry, hwritten⟩)
  | nested entries => exact nomatch hprioritized
  | other value => exact nomatch hprioritized

/-- Without a limit there is no offset. -/
theorem offset_pageLimit (page : UInt64) (pageSize : Option UInt64) :
    (pageLimit page pageSize).limit = none → (pageLimit page pageSize).offset = none := by
  cases pageSize with
  | none => exact fun _ => rfl
  | some size =>
    rw [pageLimit]
    split
    · exact fun _ => rfl
    · exact nofun

/-- **A request compiles to a selection whose parts are in their places.** -/
theorem Request.fits_select {target : Target} (hgraph : target.graph.IsPlain) {entity : Entity}
    (hentity : entity.IsPlain) {request : Request}
    (hwritten : ∀ field ∈ request.written target.graph entity, PlainWord field)
    {select : Sql.Select} (h : request.select target entity = .ok select) : select.Fits := by
  obtain ⟨hsearch, hrest⟩ := List.forall_mem_append.mp hwritten
  obtain ⟨horder, hfields⟩ := List.forall_mem_append.mp hrest
  obtain ⟨condition, hcondition, h⟩ := Except.bind_eq_ok.mp h
  obtain ⟨operands, hoperands, hjoined⟩ := Except.bind_eq_ok.mp hcondition
  cases hjoined
  cases h
  exact ⟨Projection.fits_selectList hentity hfields, hentity.1,
    fits_joinGroup _ (fits_exprs target hgraph hoperands hentity hsearch),
    Order.plain_terms hentity horder, offset_pageLimit _ _⟩

theorem Row.operands_tuple {dialect : Dialect} {row : Row} {fields : List String}
    {exprs : List Expr} (h : row.tuple dialect fields = .ok exprs) :
    ∀ cell ∈ exprs, cell.IsOperand := by
  intro cell hcell
  obtain ⟨field, -, hfield⟩ := Except.exists_of_mem_mapM h cell hcell
  obtain ⟨value, -, rfl⟩ := cellExpr_eq_ok hfield
  trivial

/-- **Rows compile to an insertion that has columns, rows and no empty row.** -/
theorem Row.fits_insertion {target : Target} {name : String} {entity : Entity}
    (hentity : entity.IsPlain) {rows : List Row} {insert : Sql.Insert}
    (h : insertion target name entity rows = .ok insert) : insert.Fits := by
  obtain ⟨hrows, hcolumns, tuples, htuples, rfl⟩ := insertion_eq_ok h
  have hne : ∀ {α β : Type} {first : List α} {second : List β}, second.length = first.length →
      first ≠ [] → second ≠ [] := fun hlength hfirst hsecond =>
    hfirst (List.eq_nil_of_length_eq_zero (hlength ▸ congrArg List.length hsecond))
  refine ⟨hentity.1, hne (List.length_map _) hcolumns, ?_,
    hne (Except.length_of_mapM htuples) hrows, fun tuple htuple => ?_⟩
  · intro column hcolumn
    obtain ⟨entry, hentry, rfl⟩ := List.mem_map.mp hcolumn
    obtain ⟨⟨field, meaning⟩, hfield, hmapped⟩ := List.mem_filterMap.mp hentry
    cases meaning with
    | column mapped =>
      cases hmapped
      exact hentity.2 _ hfield
    | link link => exact nomatch hmapped
  · obtain ⟨row, -, hrow⟩ := Except.exists_of_mem_mapM htuples tuple htuple
    refine ⟨hne (Except.length_of_mapM hrow) ?_, operands_tuple hrow⟩
    exact fun h => hcolumns (List.map_eq_nil_iff.mp h)

/-! ## Reading back -/

/-- **Statements read back from their text.**  When the names of the graph are plain words, and
those of the fields that a request writes by their names, the text of what is compiled is a sentence
of the grammar with the parameters in place of its placeholders.  It spells the flat form of the
selection that was compiled — which is true at the same rows — or the insertion itself, and no other
statement. -/
theorem statements_read_back (target : Target) (hgraph : target.graph.IsPlain) :
    (∀ name request buffer, Request.compile target name request = .ok buffer →
      ∃ entity select, target.graph.entity? name = some entity
        ∧ request.select target entity = .ok select
        ∧ ((∀ field ∈ request.written target.graph entity, PlainWord field) →
          ∀ tree, buffer.SpellsSelect tree ↔ tree = select.flat)
        ∧ ∀ (D : Type) (db : Sql.Database D) scope,
          Sql.conditionTruth? db scope select.flat.condition
            = Sql.conditionTruth? db scope select.condition)
    ∧ (∀ name rows buffer, Row.compileAll target name rows = .ok buffer →
      ∃ entity insert, target.graph.entity? name = some entity
        ∧ Row.insertion target name entity rows = .ok insert
        ∧ ∀ tree, buffer.SpellsInsert tree ↔ tree = insert) := by
  refine ⟨fun name request buffer h => ?_, fun name rows buffer h => ?_⟩
  · obtain ⟨entity, hentity, h⟩ := Except.bind_eq_ok.mp h
    obtain ⟨select, hselect, h⟩ := Except.bind_eq_ok.mp h
    cases h
    have hfound := Target.entity_eq_ok.mp hentity
    refine ⟨entity, select, hfound, hselect, fun hwritten tree => ?_, fun D db scope => ?_⟩
    · exact select.spells_iff _
        (Request.fits_select hgraph (hgraph.entity hfound) hwritten hselect)
    · obtain ⟨_, _, condition, _, _⟩ := select
      exact Sql.conditionTruth?_flat db condition scope
  · obtain ⟨entity, hentity, h⟩ := Except.bind_eq_ok.mp h
    obtain ⟨insert, hinsert, h⟩ := Except.bind_eq_ok.mp h
    cases h
    have hfound := Target.entity_eq_ok.mp hentity
    have hfits := Row.fits_insertion (hgraph.entity hfound) hinsert
    exact ⟨entity, insert, hfound, hinsert, fun tree => insert.spells_iff _ hfits⟩

/-- People of some ages, but not of some heights, which are not mapped; the ten highest of them. -/
def agedByHeight : Request where
  pageSize := some 10
  order := [("height", .key ⟨.desc, some .last, none⟩)]
  search := ⟨false, [("age", .condition (.between (.int 18) (.int 65))),
    ("height", .condition (Condition.between (.int 150) (.int 180)).negate)]⟩

/-- The conjunction of the bounds is one with that of the clauses, but for the negated one. -/
theorem agedByHeight_reads_back :
    ∃ buffer, agedByHeight.compile ⟨Graph.People.graph, .postgres⟩ "person" = .ok buffer
      ∧ ∀ tree, buffer.SpellsSelect tree ↔ tree =
        { list := .star "person"
          table := "person"
          condition := some (.and [
            .compare (.ofColumn "person" "age") .greater (.value (.int 18)),
            .compare (.ofColumn "person" "age") .less (.value (.int 65)),
            .not (.group (.and [
              .compare (.ofColumn "person" "height") .greater (.value (.int 150)),
              .compare (.ofColumn "person" "height") .less (.value (.int 180))]))])
          order := [⟨⟨"person", "height"⟩, .desc, some .last⟩]
          limit := { limit := some 10 } } := by
  obtain ⟨hselect, -⟩ := statements_read_back ⟨Graph.People.graph, .postgres⟩ (by decide)
  obtain ⟨entity, select, hentity, hcompiled, hspells, -⟩ := hselect "person" agedByHeight _ rfl
  obtain rfl : Graph.People.person = entity := Option.some.inj hentity
  have hplain : ∀ field ∈ agedByHeight.written Graph.People.graph Graph.People.person,
      PlainWord field := by decide
  refine ⟨_, rfl, fun tree => (hspells hplain tree).trans ?_⟩
  have horder : agedByHeight.order.terms Graph.People.person
      = [⟨⟨"person", "height"⟩, .desc, some .last⟩] :=
    congrArg (List.map Prod.snd) (List.mergeSort_singleton (0, _))
  obtain rfl := Except.ok.inj hcompiled
  rw [horder]
  exact Iff.rfl

end EntityQuery
