import EntityQuery.Graph.People
import EntityQuery.Proofs.Filter.Readable
import EntityQuery.Proofs.Request.Assembly
import EntityQuery.Proofs.Sql.Provenance

/-!
# Proofs/Request/Provenance — what a request can put into a text

A request is full of texts: values, patterns, names of fields.  Values become parameters and mapped
fields their columns, so what a compiled statement mentions are names of the graph, the numbers of
the page and the fields that are written by their own names because nothing maps them
(`mentions_exprs`, `Request.mentions_select`).  As every statement is traced to what it mentions, so
is every lexeme of the text — `Graph.Explains` lists what it can be.

An unmapped field is copied as it is.  So a text may hold words that are not the graph's, and more
question marks than parameters (`nicknames_are_copied`).
-/

namespace EntityQuery

open Sql (Expr Buffer Mention Traced lexemes)

/-! ## The names of a graph -/

/-- The table and the keys of a link; its target is an entity and is not written. -/
def Link.names : Link → List String
  | .bridge link => [link.table, link.sourceRefKey, link.targetRefKey, link.sourceForeignKey,
      link.targetForeignKey]
  | .outgoing link => [link.sourceForeignKey, link.targetRefKey]
  | .incoming link => [link.sourceRefKey, link.targetForeignKey]

/-- The names that a field stands for. -/
def Field.names : Field → List String
  | .column name => [name]
  | .link leads => leads.names

/-- The names of an entity's table, columns and keys. -/
def Entity.names (entity : Entity) : List String :=
  entity.table :: entity.fields.entries.flatMap fun entry => entry.2.names

/-- The names of all tables, columns and keys of a graph. -/
def Graph.names (graph : Graph) : List String :=
  graph.entities.entries.flatMap fun entry => entry.2.names

/-- An entity has no names but those of its graph. -/
theorem Graph.names_entity {graph : Graph} {name : String} {entity : Entity}
    (h : graph.entity? name = some entity) : entity.names ⊆ graph.names := fun _ hname =>
  List.mem_flatMap.mpr ⟨(name, entity), Entries.mem_of_get? h, hname⟩

theorem Entity.table_mem (entity : Entity) : entity.table ∈ entity.names :=
  List.mem_cons_self

/-- A field has no names but those of its entity. -/
theorem Entity.names_field {entity : Entity} {field : String} {meaning : Field}
    (h : entity.field? field = some meaning) : meaning.names ⊆ entity.names := fun _ hname =>
  List.mem_cons_of_mem _ (List.mem_flatMap.mpr ⟨(field, meaning), Entries.mem_of_get? h, hname⟩)

theorem Entity.names_link {entity : Entity} {field : String} {link : Link}
    (h : entity.link? field = some link) : link.names ⊆ entity.names :=
  entity.names_field (entity.field_of_link h)

/-- A column is a name of the entity, unless the field is not mapped. -/
theorem Entity.columnOf_mem {entity : Entity} {field column : String}
    (h : entity.columnOf? field = some column) :
    column ∈ entity.names ++ entity.written field := by
  rw [columnOf?] at h
  rw [written, List.mem_append]
  rcases hfield : entity.field? field with _ | ⟨name⟩ | link
  · rw [hfield] at h
    obtain rfl := Option.some.inj h
    exact .inr List.mem_cons_self
  · rw [hfield] at h
    obtain rfl := Option.some.inj h
    exact .inl (entity.names_field hfield List.mem_cons_self)
  · rw [hfield] at h
    contradiction

/-! ## What is mentioned -/

/-- Names as they are mentioned. -/
def named (names : List String) : List Mention :=
  names.map .name

theorem named_mono {names others : List String} (h : names ⊆ others) : named names ⊆ named others :=
  List.map_subset _ h

theorem listMentions_append (first second : List Expr) :
    Sql.listMentions (first ++ second) = Sql.listMentions first ++ Sql.listMentions second := by
  induction first with
  | nil => rfl
  | cons operand rest ih =>
    rw [List.cons_append, Sql.listMentions, ih, Sql.listMentions, List.append_assoc]

/-- A negation mentions nothing else. -/
theorem mentions_negateIf (negated : Bool) (operand : Expr) :
    (Expr.negateIf negated operand).mentions = operand.mentions := by
  rcases negated <;> rfl

/-- A criterion mentions its column. -/
theorem Criterion.mentions_expr (column : Expr) (criterion : Criterion Sql.Value) :
    (criterion.expr column).mentions ⊆ column.mentions := by
  rcases criterion with ⟨negated, comparison, operand⟩ | ⟨negated, operands⟩ | ⟨negated, bounds⟩
  · rw [expr, mentions_negateIf]
    exact List.append_subset.mpr ⟨List.Subset.refl _, List.nil_subset _⟩
  · have hvalues : Sql.listMentions (operands.map .value) = [] := by
      induction operands with
      | nil => rfl
      | cons value rest ih => exact ih
    rw [expr, mentions_negateIf, Expr.mentions, hvalues, List.append_nil]
    exact List.Subset.refl _
  · have hbounds : Sql.listMentions (bounds.map fun bound =>
        .compare column bound.1 (.value bound.2)) ⊆ column.mentions := by
      induction bounds with
      | nil => exact List.nil_subset _
      | cons bound rest ih =>
        have hbound : (Expr.compare column bound.1 (.value bound.2)).mentions
            ⊆ column.mentions :=
          List.append_subset.mpr ⟨List.Subset.refl _, List.nil_subset _⟩
        exact List.append_subset.mpr ⟨hbound, ih⟩
    rcases negated <;> exact hbounds

/-- A group mentions what its operands mention. -/
theorem mentions_joinGroup (negated : Bool) (operands : List Expr) :
    Sql.conditionMentions (joinGroup negated operands) = Sql.listMentions operands := by
  match negated, operands with
  | true, [] => rfl
  | true, _ :: _ => rfl
  | false, [] => rfl
  | false, [operand] => exact (List.append_nil _).symm
  | false, _ :: _ :: _ => rfl

/-- Membership in a selected column mentions two columns besides the condition. -/
theorem mentions_inSelect {mentions : List Mention} {table name other column : String}
    {condition : Option Expr} (htable : .name table ∈ mentions) (hname : .name name ∈ mentions)
    (hother : .name other ∈ mentions) (hcolumn : .name column ∈ mentions)
    (h : Sql.conditionMentions condition ⊆ mentions) :
    (Expr.inSelect (.ofColumn table name) (.columnWhere other column condition)).mentions
      ⊆ mentions := by
  have hmentions : (Expr.inSelect (.ofColumn table name)
        (.columnWhere other column condition)).mentions
      = [.name table, .name name, .name other, .name column, .name other]
        ++ Sql.conditionMentions condition := by
    simp [Expr.mentions, Expr.ofColumn, Sql.Column.mentions, Sql.Select.columnWhere,
      Sql.Select.mentions, Sql.SelectList.mentions, Sql.orderMentions, Sql.Limit.mentions]
  rw [hmentions]
  refine List.append_subset.mpr ⟨?_, h⟩
  simp [htable, hname, hother, hcolumn]

/-- A link mentions its tables and keys besides its condition. -/
theorem Link.mentions_expr {names : List String} {source other : Entity} {condition : Option Expr}
    {link : Link} (hsource : source.table ∈ names) (hother : other.table ∈ names)
    (hlink : link.names ⊆ names) (h : Sql.conditionMentions condition ⊆ named names) :
    (link.expr source other condition).mentions ⊆ named names := by
  have hkey {key : String} (hkey : key ∈ link.names) : Mention.name key ∈ named names :=
    List.mem_map_of_mem (hlink hkey)
  have hnear : Mention.name source.table ∈ named names := List.mem_map_of_mem hsource
  have hfar : Mention.name other.table ∈ named names := List.mem_map_of_mem hother
  rcases link with link | link | link
  · have hbridge : Mention.name link.table ∈ named names := hkey (by simp [Link.names])
    refine mentions_inSelect hnear (hkey (by simp [Link.names])) hbridge
      (hkey (by simp [Link.names])) ?_
    exact mentions_inSelect hbridge (hkey (by simp [Link.names])) hfar
      (hkey (by simp [Link.names])) h
  · exact mentions_inSelect hnear (hkey (by simp [Link.names])) hfar (hkey (by simp [Link.names])) h
  · exact mentions_inSelect hnear (hkey (by simp [Link.names])) hfar (hkey (by simp [Link.names])) h

/-- The column of a field mentions names of the entity, and the field if nothing maps it. -/
theorem Entity.mentions_column {entity : Entity} {field column : String} {fields : List String}
    (h : entity.columnOf? field = some column) (hfields : entity.written field ⊆ fields) :
    (Sql.Column.mk entity.table column).mentions ⊆ named (entity.names ++ fields) := by
  have htable : Mention.name entity.table ∈ named (entity.names ++ fields) :=
    List.mem_map_of_mem (List.mem_append_left _ entity.table_mem)
  have hcolumn : column ∈ entity.names ++ fields := by
    rcases List.mem_append.mp (entity.columnOf_mem h) with hnamed | hwritten
    · exact List.mem_append_left _ hnamed
    · exact List.mem_append_right _ (hfields hwritten)
  exact List.cons_subset.mpr ⟨htable,
    List.cons_subset.mpr ⟨List.mem_map_of_mem hcolumn, List.nil_subset _⟩⟩

/-- What is compared for a field that is no link is its column. -/
theorem Entity.mentions_columnExpr {entity : Entity} {field : String}
    (h : entity.link? field = none) :
    (entity.columnExpr field).mentions ⊆ named (entity.names ++ entity.written field) := by
  obtain ⟨column, hcolumn⟩ := entity.exists_columnOf h
  rw [columnExpr, hcolumn]
  exact entity.mentions_column hcolumn (List.Subset.refl _)

/-- **Clauses mention names of the graph, and the fields that are written by their own.** -/
theorem mentions_exprs (target : Target) {entity : Entity} {clauses : List (String × Clause)}
    {operands : List Expr} (h : Clause.exprs target entity clauses = .ok operands)
    (hentity : entity.names ⊆ target.graph.names) :
    Sql.listMentions operands
      ⊆ named (target.graph.names ++ clausesWritten target.graph entity clauses) := by
  refine Clause.exprs_induction target
    (P := fun entity field clause operand => entity.names ⊆ target.graph.names →
      Sql.listMentions operand.toList
        ⊆ named (target.graph.names ++ clause.written target.graph entity field))
    (Q := fun entity clauses operands => entity.names ⊆ target.graph.names →
      Sql.listMentions operands
        ⊆ named (target.graph.names ++ clausesWritten target.graph entity clauses))
    ?silent ?column ?link ?nil ?cons entity clauses operands h hentity
  case silent => exact fun _ _ _ _ _ _ => List.nil_subset _
  case column =>
    intro entity field clause criterion bound hlink hcriterion _ hentity
    have hnames : entity.names ++ entity.written field
        ⊆ target.graph.names ++ clause.written target.graph entity field := by
      rw [Clause.written_of_column _ hlink, hcriterion]
      exact List.append_subset.mpr ⟨List.subset_append_of_subset_left _ hentity,
        List.subset_append_right _ _⟩
    have hcolumn := List.Subset.trans (bound.mentions_expr (entity.columnExpr field))
      (entity.mentions_columnExpr hlink)
    exact List.append_subset.mpr
      ⟨List.Subset.trans hcolumn (named_mono hnames), List.nil_subset _⟩
  case link =>
    intro entity field link other negated clauses operands hlink hother ih hentity
    have hfound := Target.entity_eq_ok.mp hother
    have hgraph := Graph.names_entity hfound
    rw [Clause.written, hlink, Option.bind_some, hfound]
    have hkeys := List.Subset.trans (entity.names_link hlink) hentity
    have hcondition := ih hgraph
    rw [← mentions_joinGroup negated] at hcondition
    have hexpr := Link.mentions_expr (List.mem_append_left _ (hentity entity.table_mem))
      (List.mem_append_left _ (hgraph other.table_mem))
      (List.subset_append_of_subset_left _ hkeys) hcondition
    exact List.append_subset.mpr ⟨hexpr, List.nil_subset _⟩
  case nil => exact fun _ _ => List.nil_subset _
  case cons =>
    intro entity field clause operand rest operands hclause hrest hentity
    have hfirst : target.graph.names ++ clause.written target.graph entity field
        ⊆ target.graph.names ++ clausesWritten target.graph entity ((field, clause) :: rest) := by
      rw [clausesWritten, ← List.append_assoc]
      exact List.subset_append_left _ _
    have hothers : target.graph.names ++ clausesWritten target.graph entity rest
        ⊆ target.graph.names ++ clausesWritten target.graph entity ((field, clause) :: rest) := by
      rw [clausesWritten]
      exact List.append_subset.mpr ⟨List.subset_append_left _ _, List.subset_append_of_subset_right _
        (List.subset_append_right _ _)⟩
    rw [listMentions_append]
    exact List.append_subset.mpr
      ⟨List.Subset.trans (hclause hentity) (named_mono hfirst),
        List.Subset.trans (hrest hentity) (named_mono hothers)⟩

/-- A filter mentions what its clauses mention. -/
theorem Filter.mentions_expr? {target : Target} {entity : Entity} {filter : Filter}
    {condition : Option Expr} (h : filter.expr? target entity = .ok condition)
    (hentity : entity.names ⊆ target.graph.names) :
    Sql.conditionMentions condition
      ⊆ named (target.graph.names ++ clausesWritten target.graph entity filter.clauses) := by
  obtain ⟨operands, hoperands, hjoined⟩ := Except.bind_eq_ok.mp h
  obtain rfl := Except.ok.inj hjoined
  rw [mentions_joinGroup]
  exact mentions_exprs target hoperands hentity

/-- A select list mentions names of the entity and fields that are written by their own. -/
theorem Projection.mentions_selectList (entity : Entity) (projection : Projection) :
    (projection.selectList entity).mentions ⊆ named (entity.names ++ projection.written entity) := by
  have htable : Mention.name entity.table ∈ named (entity.names ++ projection.written entity) :=
    List.mem_map_of_mem (List.mem_append_left _ entity.table_mem)
  rw [selectList]
  split
  · exact List.cons_subset.mpr ⟨htable, List.nil_subset _⟩
  · intro mention hmention
    obtain ⟨column, hcolumn, hmention⟩ := List.mem_flatMap.mp hmention
    obtain ⟨⟨field, marker⟩, hentry, hlisted⟩ := List.mem_filterMap.mp hcolumn
    rw [ite_eq_iff] at hlisted
    rcases hlisted with ⟨hincluded, hlisted⟩ | ⟨-, hlisted⟩
    · obtain ⟨name, hname, rfl⟩ := Option.map_eq_some_iff.mp hlisted
      have hwritten : entity.written field ⊆ projection.written entity := fun other hother => by
        refine List.mem_flatMap.mpr ⟨_, hentry, ?_⟩
        change other ∈ if marker.isIncluded then entity.written field else []
        rwa [if_pos hincluded]
      exact entity.mentions_column hname hwritten hmention
    · contradiction

/-- Sort terms mention names of the entity and fields that are written by their own. -/
theorem Order.mentions_terms (entity : Entity) (order : Order) :
    Sql.orderMentions (order.terms entity) ⊆ named (entity.names ++ order.written entity) := by
  intro mention hmention
  obtain ⟨term, hterm, hmention⟩ := List.mem_flatMap.mp hmention
  obtain ⟨keyed, hkeyed, rfl⟩ := List.mem_map.mp hterm
  obtain ⟨⟨field, entry⟩, hentry, hprioritized⟩ :=
    List.mem_filterMap.mp (List.mem_mergeSort.mp hkeyed)
  rcases entry with key | entries | value
  · obtain ⟨name, hname, rfl⟩ := Option.map_eq_some_iff.mp hprioritized
    have hwritten : entity.written field ⊆ order.written entity := fun other hother =>
      List.mem_flatMap.mpr ⟨_, hentry, hother⟩
    exact entity.mentions_column hname hwritten hmention
  · contradiction
  · contradiction

/-- The numbers of a page: its size, and how many rows are in front of it. -/
def pageNumbers (page : UInt64) : Option UInt64 → List Nat
  | none => []
  | some size =>
      if size = 0 then []
      else size.toNat
        :: if page = 0 then [] else [min (page.toNat * size.toNat) (UInt64.size - 1)]

/-- A page mentions its two numbers. -/
theorem mentions_pageLimit (page : UInt64) (pageSize : Option UInt64) :
    (pageLimit page pageSize).mentions = (pageNumbers page pageSize).map .number := by
  rcases pageSize with _ | size
  · rfl
  by_cases hsize : size = 0
  · rw [pageLimit, pageNumbers, if_pos hsize, if_pos hsize]
    rfl
  · rw [pageLimit, pageNumbers, if_neg hsize, if_neg hsize]
    by_cases hpage : page = 0
    · rw [if_pos hpage, if_pos hpage]
      rfl
    · rw [if_neg hpage, if_neg hpage, ← toNat_saturatingMul]
      rfl

/-- **A selection mentions names of the graph, fields that are written by their own, and the numbers
of the page.** -/
theorem Request.mentions_select {target : Target} {entity : Entity} {request : Request}
    {select : Sql.Select} (h : request.select target entity = .ok select)
    (hentity : entity.names ⊆ target.graph.names) :
    select.mentions ⊆ named (target.graph.names ++ request.written target.graph entity)
      ++ (pageNumbers request.page request.pageSize).map .number := by
  obtain ⟨condition, hcondition, hselect⟩ := Except.bind_eq_ok.mp h
  obtain rfl := Except.ok.inj hselect
  have hwritten {names fields : List String} (hnames : names ⊆ target.graph.names)
      (hfields : fields ⊆ request.written target.graph entity) :
      named (names ++ fields)
        ⊆ named (target.graph.names ++ request.written target.graph entity) :=
    named_mono (List.append_subset.mpr ⟨List.subset_append_of_subset_left _ hnames,
      List.subset_append_of_subset_right _ hfields⟩)
  have hlist := List.Subset.trans (request.fields.mentions_selectList entity)
    (hwritten hentity (List.subset_append_of_subset_right _ (List.subset_append_right _ _)))
  have htable : Mention.name entity.table
      ∈ named (target.graph.names ++ request.written target.graph entity) :=
    List.mem_map_of_mem (List.mem_append_left _ (hentity entity.table_mem))
  have hsearch := List.Subset.trans (Filter.mentions_expr? hcondition hentity)
    (hwritten (List.Subset.refl _) (List.subset_append_left _ _))
  have horder := List.Subset.trans (request.order.mentions_terms entity)
    (hwritten hentity (List.subset_append_of_subset_right _ (List.subset_append_left _ _)))
  rw [Sql.Select.mentions, mentions_pageLimit]
  refine List.append_subset.mpr ⟨List.subset_append_of_subset_left _ ?_,
    List.subset_append_right _ _⟩
  exact List.append_subset.mpr ⟨List.append_subset.mpr
    ⟨hlist, List.cons_subset.mpr ⟨htable, hsearch⟩⟩, horder⟩

/-! ## What a lexeme can be -/

/-- Whether a name is a word of letters, digits and underscores. -/
def IsWord (name : String) : Prop :=
  name.toList ≠ [] ∧ name.toList.all fun c => c.isAlphanum || c == '_'

instance : DecidablePred IsWord := fun _ => inferInstanceAs (Decidable (_ ∧ _))

/-- A word is its only lexeme. -/
theorem IsWord.lexemes {name : String} (h : IsWord name) : lexemes name.toList = [name.toList] := by
  refine Sql.lexemes_word h.1 fun c hc => ?_
  have hc := List.all_eq_true.mp h.2 c hc
  simp only [Sql.isWordChar, Bool.or_eq_true] at hc ⊢
  exact .inl (.inl hc)

/-- What a lexeme of a text can be that is compiled for a graph: a keyword, an operator or a mark; a
placeholder; a number of a list; a name of the graph, all of it if it is a word; or a lexeme of one
of some fields. -/
inductive Graph.Explains (graph : Graph) (style : Placeholder) (numbers : List Nat)
    (fields : List String) (lexeme : List Char) : Prop where
  | sign (h : lexeme ∈ Sql.Sign.spellings.map fun spelling => spelling.1.toList)
  | placeholder (number : Nat) (h : lexeme = (style.write number).toList)
  | number (value : Nat) (hvalue : value ∈ numbers) (h : lexeme = value.repr.toList)
  | name (name : String) (hname : name ∈ graph.names) (h : lexeme ∈ lexemes name.toList)
    (hword : IsWord name → lexeme = name.toList)
  | field (field : String) (hfield : field ∈ fields) (h : lexeme ∈ lexemes field.toList)

/-- A text in which everything is explained, and which has a question mark for every parameter
unless there are some in the names. -/
structure Graph.ExplainsText (graph : Graph) (style : Placeholder) (numbers : List Nat)
    (fields : List String) (text : String) (params : Nat) : Prop where
  lexemes : ∀ lexeme ∈ lexemes text.toList, graph.Explains style numbers fields lexeme
  questionMarks : style = .questionMark → (∀ name ∈ graph.names ++ fields, '?' ∉ name.toList) →
    text.toList.count '?' = params

theorem name_mem_named {names : List String} {numbers : List Nat} {name : String}
    (h : Mention.name name ∈ named names ++ numbers.map .number) : name ∈ names := by
  simpa [named] using h

theorem number_mem_named {names : List String} {numbers : List Nat} {value : Nat}
    (h : Mention.number value ∈ named names ++ numbers.map .number) : value ∈ numbers := by
  simpa [named] using h

/-- An origin among the names of the graph, some fields and some numbers explains. -/
theorem Graph.Explains.of_origin {graph : Graph} {style : Placeholder} {numbers : List Nat}
    {fields : List String} {lexeme : List Char}
    (h : Sql.Origin style (named (graph.names ++ fields) ++ numbers.map .number) lexeme) :
    graph.Explains style numbers fields lexeme := by
  rcases h with hsign | ⟨number, hnumber⟩ | ⟨value, hvalue, hnumber⟩ | ⟨name, hname, hlexeme⟩
  · exact .sign hsign
  · exact .placeholder number hnumber
  · exact .number value (number_mem_named hvalue) hnumber
  · rcases List.mem_append.mp (name_mem_named hname) with hnamed | hfield
    · refine .name name hnamed hlexeme fun hword => ?_
      rw [hword.lexemes] at hlexeme
      exact List.mem_singleton.mp hlexeme
    · exact .field name hfield hlexeme

/-- **The text of traced pieces is explained.** -/
theorem Graph.ExplainsText.of_traced {graph : Graph} {numbers : List Nat} {fields : List String}
    {pieces : List Sql.Piece} (dialect : Dialect)
    (h : Traced (named (graph.names ++ fields) ++ numbers.map .number) pieces) :
    graph.ExplainsText dialect.placeholder numbers fields (Buffer.ofPieces dialect pieces).text
      (Buffer.ofPieces dialect pieces).params.size := by
  have htext : (Buffer.ofPieces dialect pieces).text.toList
      = Sql.Piece.written dialect.placeholder 0 pieces :=
    Buffer.toList_appendAll pieces (.empty dialect.placeholder)
  have hparams : (Buffer.ofPieces dialect pieces).params.size
      = (Sql.Piece.params pieces).length := by
    rw [Buffer.ofPieces_eq]
    rfl
  refine ⟨fun lexeme hlexeme => ?_, fun hstyle hnames => ?_⟩
  · rw [htext] at hlexeme
    exact .of_origin (h.origin hlexeme)
  · rw [htext, hparams, hstyle]
    exact h.count_questionMark fun name hname => hnames name (name_mem_named hname)

/-! ## Compiled texts -/

/-- The text of a filter is explained by the graph and what the filter writes by its name. -/
theorem Filter.explained {target : Target} {name : String} {entity : Entity}
    (hentity : target.graph.entity? name = some entity) {filter : Filter} {buffer : Buffer}
    (h : filter.compile target name = .ok buffer) :
    target.graph.ExplainsText target.dialect.placeholder []
      (clausesWritten target.graph entity filter.clauses) buffer.text buffer.params.size := by
  obtain ⟨found, hfound, h⟩ := Except.bind_eq_ok.mp h
  obtain rfl := Option.some.inj (hentity.symm.trans (Target.entity_eq_ok.mp hfound))
  obtain ⟨condition, hcondition, hbuffer⟩ := Except.bind_eq_ok.mp h
  obtain rfl := Except.ok.inj hbuffer
  have hmentions := filter.mentions_expr? hcondition (Graph.names_entity hentity)
  refine .of_traced target.dialect ?_
  rw [List.map_nil, List.append_nil]
  rcases condition with _ | condition
  · exact .nil
  · exact Expr.traced hmentions

/-- The text of a request is explained by the graph, the page, and what it writes by its name. -/
theorem Request.explained {target : Target} {name : String} {entity : Entity}
    (hentity : target.graph.entity? name = some entity) {request : Request} {buffer : Buffer}
    (h : request.compile target name = .ok buffer) :
    target.graph.ExplainsText target.dialect.placeholder
      (pageNumbers request.page request.pageSize) (request.written target.graph entity)
      buffer.text buffer.params.size := by
  obtain ⟨found, hfound, h⟩ := Except.bind_eq_ok.mp h
  obtain rfl := Option.some.inj (hentity.symm.trans (Target.entity_eq_ok.mp hfound))
  obtain ⟨select, hselect, hbuffer⟩ := Except.bind_eq_ok.mp h
  obtain rfl := Except.ok.inj hbuffer
  exact .of_traced target.dialect
    (Sql.Select.traced (request.mentions_select hselect (Graph.names_entity hentity)))

/-- The text of an order is explained by the graph and what the order writes by its name. -/
theorem Order.explained {target : Target} {name : String} {entity : Entity}
    (hentity : target.graph.entity? name = some entity) {order : Order} {text : String}
    (h : order.compile target name = .ok text) :
    target.graph.ExplainsText target.dialect.placeholder [] (order.written entity) text 0 := by
  obtain ⟨found, hfound, h⟩ := Except.bind_eq_ok.mp h
  obtain rfl := Option.some.inj (hentity.symm.trans (Target.entity_eq_ok.mp hfound))
  obtain rfl := Except.ok.inj h
  have hgraph : entity.names ++ order.written entity
      ⊆ target.graph.names ++ order.written entity :=
    List.append_subset.mpr ⟨List.subset_append_of_subset_left _ (Graph.names_entity hentity),
      List.subset_append_right _ _⟩
  have htraced : Traced (named (target.graph.names ++ order.written entity)
      ++ List.map Mention.number []) (Sql.orderPieces (order.terms entity)) := by
    rw [List.map_nil, List.append_nil]
    exact Sql.traced_order (List.Subset.trans (order.mentions_terms entity) (named_mono hgraph))
  have hparams : (Buffer.ofPieces target.dialect (Sql.orderPieces (order.terms entity))).params.size
      = 0 := by
    rw [Buffer.ofPieces_eq, Sql.params_order]
    rfl
  exact hparams ▸ .of_traced target.dialect htraced

/-! ## Fields that are written -/

/-- Whether some entity of the graph does not map a field. -/
def Graph.LeavesUnmapped (graph : Graph) (field : String) : Prop :=
  ∃ name entity, graph.entity? name = some entity ∧ entity.field? field = none

/-- What is written by its own name is not mapped. -/
theorem Entity.unmapped_of_written {graph : Graph} {name : String} {entity : Entity}
    (hentity : graph.entity? name = some entity) {field written : String}
    (h : written ∈ entity.written field) : graph.LeavesUnmapped written := by
  rw [Entity.written] at h
  split at h
  · next hfield =>
    obtain rfl := List.mem_singleton.mp h
    exact ⟨name, entity, hentity, hfield⟩
  · exact absurd h List.not_mem_nil

/-- Away from links, a field is written if there is anything to compare it with. -/
theorem Clause.written_of_ne_nested (graph : Graph) (entity : Entity) (field : String)
    {clause : Clause} (h : ∀ negated inner, clause ≠ .nested negated inner) :
    clause.written graph entity field
      = if clause.criterion?.isSome then entity.written field else [] := by
  rcases clause with scalar | scalars | asked | ⟨negated, inner⟩
  · rw [written]
    exact h
  · rw [written]
    exact h
  · rw [written]
    exact h
  · exact absurd rfl (h negated inner)

/-- **Clauses write no field by its own name that is mapped.** -/
theorem unmapped_of_clausesWritten {graph : Graph} {name : String} {entity : Entity}
    (hentity : graph.entity? name = some entity) {clauses : List (String × Clause)} :
    ∀ field ∈ clausesWritten graph entity clauses, graph.LeavesUnmapped field := by
  refine Clause.induction_on_clauses
    (R := fun clause => ∀ name entity field, graph.entity? name = some entity →
      ∀ written ∈ clause.written graph entity field, graph.LeavesUnmapped written)
    (S := fun clauses => ∀ name entity, graph.entity? name = some entity →
      ∀ written ∈ clausesWritten graph entity clauses, graph.LeavesUnmapped written)
    ?clause ?nil ?cons clauses name entity hentity
  case clause =>
    intro clause ih name entity field hentity written hwritten
    by_cases hnested : ∃ negated inner, clause = .nested negated inner
    · obtain ⟨negated, inner, rfl⟩ := hnested
      rw [Clause.written] at hwritten
      split at hwritten
      · next other hother =>
        obtain ⟨link, -, hother⟩ := Option.bind_eq_some_iff.mp hother
        exact ih negated inner rfl link.target other hother written hwritten
      · exact absurd hwritten List.not_mem_nil
    · push Not at hnested
      rw [Clause.written_of_ne_nested graph entity field hnested] at hwritten
      split at hwritten
      · exact Entity.unmapped_of_written hentity hwritten
      · exact absurd hwritten List.not_mem_nil
  case nil =>
    intro name entity _ written hwritten
    rw [clausesWritten] at hwritten
    exact absurd hwritten List.not_mem_nil
  case cons =>
    intro field clause rest hclause hrest name entity hentity written hwritten
    rw [clausesWritten] at hwritten
    rcases List.mem_append.mp hwritten with hfirst | hothers
    · exact hclause name entity field hentity written hfirst
    · exact hrest name entity hentity written hothers

/-- Whatever a request writes by its own name is not mapped. -/
theorem Request.unmapped_of_written {graph : Graph} {name : String} {entity : Entity}
    (hentity : graph.entity? name = some entity) (request : Request) :
    ∀ field ∈ request.written graph entity, graph.LeavesUnmapped field := by
  intro field hfield
  rcases List.mem_append.mp hfield with hsearch | hrest
  · exact unmapped_of_clausesWritten hentity field hsearch
  rcases List.mem_append.mp hrest with horder | hselected
  · obtain ⟨⟨key, entry⟩, -, hwritten⟩ := List.mem_flatMap.mp horder
    rcases entry with sortKey | entries | value
    · exact Entity.unmapped_of_written hentity hwritten
    · exact absurd hwritten List.not_mem_nil
    · exact absurd hwritten List.not_mem_nil
  · obtain ⟨⟨key, marker⟩, -, hwritten⟩ := List.mem_flatMap.mp hselected
    have hkey : field ∈ if marker.isIncluded then entity.written key else [] := hwritten
    split at hkey
    · exact Entity.unmapped_of_written hentity hkey
    · exact absurd hkey List.not_mem_nil

/-- **Texts are explained.**  On every entity of every graph, each lexeme of what a filter, a
request or an order compiles to is a sign, a placeholder, a number of the page, a name of the graph,
or comes from a field that is written by its own name; and a field is written so only where it is
not mapped.  With question marks and none in these names, there is one for every parameter. -/
theorem texts_explained (target : Target) (name : String) (entity : Entity)
    (hentity : target.graph.entity? name = some entity) :
    (∀ (filter : Filter) (buffer : Buffer), filter.compile target name = .ok buffer →
      target.graph.ExplainsText target.dialect.placeholder []
        (clausesWritten target.graph entity filter.clauses) buffer.text buffer.params.size)
    ∧ (∀ (request : Request) (buffer : Buffer), request.compile target name = .ok buffer →
      target.graph.ExplainsText target.dialect.placeholder
        (pageNumbers request.page request.pageSize) (request.written target.graph entity)
        buffer.text buffer.params.size)
    ∧ (∀ (order : Order) (text : String), order.compile target name = .ok text →
      target.graph.ExplainsText target.dialect.placeholder [] (order.written entity) text 0)
    ∧ ∀ request : Request, ∀ field ∈ request.written target.graph entity,
      target.graph.LeavesUnmapped field :=
  ⟨fun _ _ h => Filter.explained hentity h, fun _ _ h => Request.explained hentity h,
    fun _ _ h => Order.explained hentity h, fun request => request.unmapped_of_written hentity⟩

/-- A height is not mapped, so it is written as it is; the numbers are those of the third page. -/
theorem thirdPage_explained : ∃ buffer,
    thirdPage.compile ⟨Graph.People.graph, .sqlite⟩ "person" = .ok buffer
      ∧ Graph.People.graph.ExplainsText .questionMark [10, 20] ["height"] buffer.text 3 := by
  obtain ⟨-, hrequest, -, -⟩ := texts_explained ⟨Graph.People.graph, .sqlite⟩ "person"
    Graph.People.person rfl
  have hcompile : thirdPage.compile ⟨Graph.People.graph, .sqlite⟩ "person"
      = .ok ⟨.questionMark, "SELECT person.name, person.height FROM person WHERE person.age > ? "
          ++ "AND person.motherId IN (SELECT person.id FROM person "
          ++ "WHERE NOT (person.name IN (?, ?))) ORDER BY person.age DESC NULLS LAST "
          ++ "LIMIT 10 OFFSET 20", #[.int 17, .text "Ann", .text "Eve"], 3⟩ := by
    decide +kernel
  exact ⟨_, hcompile, hrequest thirdPage _ hcompile⟩

/-! ### Nicknames -/

/-- The lexemes of an unmapped field are not the graph's, and a question mark in it is no
placeholder. -/
theorem nicknames_are_copied :
    (∀ name ∈ Graph.People.graph.names, IsWord name)
      ∧ (∃ buffer, (Filter.only ("nickname", .value (.text "Jo"))).compile
          ⟨Graph.People.graph, .generic⟩ "person" = .ok buffer
        ∧ ¬ ∀ lexeme ∈ lexemes buffer.text.toList,
          Graph.People.graph.Explains .questionMark [] [] lexeme)
      ∧ ∃ buffer, (Filter.only ("nick?name", .value (.text "Jo"))).compile
          ⟨Graph.People.graph, .generic⟩ "person" = .ok buffer
        ∧ buffer.text.toList.count '?' ≠ buffer.params.size := by
  refine ⟨by decide +kernel, ⟨⟨.questionMark, "person.nickname = ?", #[.text "Jo"], 1⟩,
    by decide +kernel, fun h => ?_⟩,
    ⟨.questionMark, "person.nick?name = ?", #[.text "Jo"], 1⟩, by decide +kernel, by decide⟩
  have hnames : ∀ name ∈ Graph.People.graph.names, "nickname".toList ∉ lexemes name.toList := by
    decide +kernel
  rcases h "nickname".toList (by decide) with
    hsign | ⟨number, hnumber⟩ | ⟨value, hvalue, -⟩ | ⟨name, hname, hlexeme, -⟩ | ⟨field, hfield, -⟩
  · exact absurd hsign (by decide)
  · rw [Sql.toList_questionMark] at hnumber
    exact absurd hnumber (by decide)
  · exact absurd hvalue List.not_mem_nil
  · exact hnames name hname hlexeme
  · exact absurd hfield List.not_mem_nil

end EntityQuery
