import EntityQuery.Graph.People
import EntityQuery.Proofs.Entries
import EntityQuery.Proofs.Filter.Parameters
import EntityQuery.Proofs.Sql.Script
import Mathlib.Data.List.ProdSigma

/-!
# Proofs/Request/Insertion — every cell of an insertion stays in its column

    row i      (  …  $(i·c + j + 1)  …  )      c columns
    params        …  params[i·c + j]  …

An insertion is a table of values, a tuple of them for each row (`Row.values`), and the table is
read row by row twice: for the placeholders of the text (`text_insertion`) and for the parameters
(`getElem?_flatten`).  A cell that cannot be bound is met in the same order (`Row.failure?_values`),
so the first one is the error (`Row.compileAll_eq_error`).
-/

namespace EntityQuery

open Sql (Expr Piece Value)

/-! ## Cells -/

namespace Row

variable {dialect : Dialect} {row : Row} {field : String}

/-- What a row binds for a field: null for a property that is missing, otherwise the parameter that
the scalar becomes. -/
inductive Binds (dialect : Dialect) (row : Row) (field : String) : Value → Prop where
  | missing (h : Entries.get? row field = none) : Binds dialect row field .null
  | scalar {scalar : Scalar} {value : Value} (h : Entries.get? row field = some (.scalar scalar))
      (hvalue : scalar.toValue dialect = .ok value) : Binds dialect row field value

/-- Why a row cannot bind a field: its scalar is still to come, or it is no scalar. -/
inductive Fails (row : Row) (field : String) : CompileError → Prop where
  | pending {reference : String}
      (h : Entries.get? row field = some (.scalar (.pending reference))) :
      Fails row field (.pendingValue reference)
  | notScalar {other : Json} (h : Entries.get? row field = some (.other other)) :
      Fails row field (.cellNotScalar field)

/-- The value of a field. -/
def value (dialect : Dialect) (row : Row) (field : String) : Except CompileError Value :=
  match Entries.get? row field with
  | none => .ok .null
  | some (.scalar scalar) => scalar.toValue dialect
  | some (.other _) => .error (.cellNotScalar field)

theorem cellExpr_eq : row.cellExpr dialect field = (row.value dialect field).map Expr.value := by
  rw [cellExpr, value]
  rcases Entries.get? row field with _ | _ | _ <;> rfl

theorem value_eq_ok {value : Value} :
    row.value dialect field = .ok value ↔ row.Binds dialect field value := by
  rw [Row.value]
  constructor
  · intro h
    rcases hcell : Entries.get? row field with _ | scalar | other <;> rw [hcell] at h
    · obtain rfl := Except.ok.inj h
      exact .missing hcell
    · exact .scalar hcell h
    · exact nomatch h
  · rintro (hcell | ⟨hcell, hvalue⟩)
    · rw [hcell]
    · rw [hcell]
      exact hvalue

theorem value_eq_error {error : CompileError} :
    row.value dialect field = .error error ↔ row.Fails field error := by
  rw [Row.value]
  constructor
  · intro h
    rcases hcell : Entries.get? row field with _ | scalar | other <;> rw [hcell] at h
    · exact nomatch h
    · cases scalar with
      | pending reference =>
        obtain rfl := Except.error.inj h
        exact .pending hcell
      | _ => exact nomatch h
    · obtain rfl := Except.error.inj h
      exact .notScalar hcell
  · rintro (hcell | hcell)
    · rw [hcell]
      rfl
    · rw [hcell]

/-! ## Tables -/

/-- The values of fields, row by row. -/
def values (dialect : Dialect) (fields : List String) (rows : List Row) :
    Except CompileError (List (List Value)) :=
  rows.mapM fun row => fields.mapM (row.value dialect)

/-- The expressions of rows are their values. -/
theorem mapM_tuple (dialect : Dialect) (fields : List String) (rows : List Row) :
    rows.mapM (tuple dialect fields)
      = (values dialect fields rows).map (List.map (List.map Expr.value)) := by
  have htuple (row : Row) :
      row.tuple dialect fields = (fields.mapM (row.value dialect)).map (List.map Expr.value) := by
    rw [tuple, ← Except.mapM_map_right]
    exact congrArg (fields.mapM ·) (funext fun _ => cellExpr_eq)
  rw [values, ← Except.mapM_map_right]
  exact congrArg (rows.mapM ·) (funext htuple)

/-- **Rows fail as the first cell that does, row by row.** -/
theorem failure?_values (dialect : Dialect) (fields : List String) (rows : List Row) :
    Except.failure? (values dialect fields rows)
      = (rows.product fields).findSome? fun cell =>
          Except.failure? (cell.1.value dialect cell.2) := by
  rw [values, Except.failure?_mapM, List.product, Except.findSome?_flatMap]
  refine congrArg (List.findSome? · rows) (funext fun row => ?_)
  rw [Except.failure?_mapM, List.findSome?_map]
  rfl

/-- A table has a tuple for each row and a value for each field, each where it belongs. -/
theorem values_eq_ok {fields : List String} {rows : List Row} {table : List (List Value)}
    (h : values dialect fields rows = .ok table) :
    table.length = rows.length ∧ (∀ tuple ∈ table, tuple.length = fields.length)
      ∧ ∀ (i : Nat) (hi : i < rows.length) (j : Nat) (hj : j < fields.length),
        ∃ tuple value, table[i]? = some tuple ∧ tuple[j]? = some value
          ∧ rows[i].Binds dialect fields[j] value := by
  have htuples := Except.mapM_eq_ok_iff.mp h
  refine ⟨Except.length_of_mapM h, fun tuple htuple => ?_, fun i hi j hj => ?_⟩
  · obtain ⟨row, -, hrow⟩ := Except.exists_of_mem_mapM h tuple htuple
    exact Except.length_of_mapM hrow
  · have hi' : i < table.length := htuples.length_eq ▸ hi
    have htuple : List.Forall₂ _ fields table[i] := Except.mapM_eq_ok_iff.mp (htuples.get hi hi')
    have hj' : j < table[i].length := htuple.length_eq ▸ hj
    exact ⟨table[i], table[i][j], List.getElem?_eq_getElem hi', List.getElem?_eq_getElem hj',
      value_eq_ok.mp (htuple.get hj hj')⟩

end Row

/-- The entry of a table in a row and a column, when the table is read row by row. -/
theorem getElem?_flatten {α : Type} {columns : Nat} : ∀ {table : List (List α)},
    (∀ tuple ∈ table, tuple.length = columns) → ∀ (i : Nat) {j : Nat}, j < columns →
      table.flatten[i * columns + j]? = table[i]?.bind fun tuple => tuple[j]?
  | [], _, i, j, _ => rfl
  | tuple :: rest, h, 0, j, hj => by
      have htuple := h tuple List.mem_cons_self
      rw [List.flatten_cons, Nat.zero_mul, Nat.zero_add, List.getElem?_append_left (by omega)]
      rfl
  | tuple :: rest, h, i + 1, j, hj => by
      have htuple := h tuple List.mem_cons_self
      have hindex : (i + 1) * columns + j = tuple.length + (i * columns + j) := by
        rw [htuple, Nat.succ_mul]
        omega
      rw [List.flatten_cons, hindex, List.getElem?_append_right (Nat.le_add_right ..),
        Nat.add_sub_cancel_left, List.getElem?_cons_succ]
      exact getElem?_flatten (fun other hother => h other (List.mem_cons_of_mem _ hother)) i hj

/-! ## The text -/

/-- A tuple of placeholders, numbered on after a number. -/
def Placeholder.tuple (placeholder : Placeholder) (number columns : Nat) : String :=
  "(" ++ ", ".intercalate ((List.range columns).map fun j => placeholder.write (number + j + 1))
    ++ ")"

/-- The text of an insertion into an entity: its columns, and a tuple of placeholders for each
row. -/
def Entity.insertionText (entity : Entity) (placeholder : Placeholder) (rows : Nat) : String :=
  "INSERT INTO " ++ entity.table ++ " (" ++ ", ".intercalate (entity.columns.map Prod.snd)
    ++ ") VALUES " ++ ", ".intercalate ((List.range rows).map fun i =>
      placeholder.tuple (i * entity.columns.length) entity.columns.length)

/-- Lists of pieces that are written alike, but for where their numbers start. -/
theorem weave_join (style : Placeholder) (separator : String) {count : Nat}
    {text : Nat → String} :
    ∀ {lists : List (List Piece)}, (∀ pieces ∈ lists, (Piece.params pieces).length = count
        ∧ ∀ number, style.weave number (Piece.segments pieces) = text number) →
      ∀ number, style.weave number (Piece.segments (Piece.join separator lists))
        = separator.intercalate
            ((List.range lists.length).map fun i => text (number + i * count))
  | [], _, number => by simp [Piece.join, Piece.segments, Placeholder.weave]
  | [pieces], h, number => by
      have htext := (h pieces List.mem_cons_self).2 number
      simpa [Piece.join] using htext
  | pieces :: next :: rest, h, number => by
      obtain ⟨hcount, htext⟩ := h pieces List.mem_cons_self
      have ih : style.weave (number + count)
            (Piece.segments (Piece.join separator (next :: rest)))
          = separator.intercalate ((List.range (next :: rest).length).map fun i =>
              text (number + count + i * count)) :=
        weave_join style separator (fun other hother => h other (List.mem_cons_of_mem _ hother)) _
      have hshift (i : Nat) :
          text (number + (i + 1) * count) = text (number + count + i * count) := by
        refine congrArg text ?_
        rw [Nat.succ_mul]
        omega
      rw [Piece.join, Piece.weave_append, Piece.segments, Piece.weave_prepend, htext, hcount, ih]
      · simp only [List.length_cons, List.range_succ_eq_map, List.map_cons, List.map_map,
          Function.comp_def, hshift, Nat.zero_mul, Nat.add_zero, Nat.succ_eq_add_one]
        simp [String.intercalate_cons_cons, String.append_assoc]
      · exact List.cons_ne_nil _ _

/-- A tuple of values is written as a tuple of placeholders. -/
theorem weave_tuple (style : Placeholder) (number : Nat) (values : List Value) :
    style.weave number (Piece.segments (Sql.rowPieces (values.map Expr.value)))
      = style.tuple number values.length := by
  have hpieces : Sql.pieceLists (values.map Expr.value)
      = values.map fun value => [.param value] := by
    induction values with
    | nil => rfl
    | cons value rest ih => rw [List.map_cons, Sql.pieceLists, ih, List.map_cons, Expr.pieces]
  have hparam : ∀ pieces ∈ values.map (fun value => [Piece.param value]),
      (Piece.params pieces).length = 1
        ∧ ∀ number, style.weave number (Piece.segments pieces) = style.write (number + 1) := by
    intro pieces hpieces
    obtain ⟨value, -, rfl⟩ := List.mem_map.mp hpieces
    exact ⟨rfl, fun number => by simp [Piece.segments, Placeholder.weave]⟩
  rw [Sql.rowPieces, List.cons_append, Piece.segments, Piece.weave_prepend, Piece.weave_append,
    hpieces, weave_join style ", " hparam, Placeholder.tuple]
  simp [Piece.segments, Piece.prepend, Placeholder.weave, String.append_assoc]

/-- **The text of a table that is inserted.** -/
theorem text_insertion (dialect : Dialect) (entity : Entity) {table : List (List Value)}
    (h : ∀ tuple ∈ table, tuple.length = entity.columns.length) :
    (Sql.Buffer.ofPieces dialect (Sql.Insert.pieces
        ⟨entity.table, entity.columns.map Prod.snd, table.map (List.map Expr.value)⟩)).text
      = entity.insertionText dialect.placeholder table.length := by
  have htuples : ∀ pieces ∈ (table.map (List.map Expr.value)).map Sql.rowPieces,
      (Piece.params pieces).length = entity.columns.length
        ∧ ∀ number, dialect.placeholder.weave number (Piece.segments pieces)
          = dialect.placeholder.tuple number entity.columns.length := by
    intro pieces hpieces
    rw [List.map_map] at hpieces
    obtain ⟨tuple, htuple, rfl⟩ := List.mem_map.mp hpieces
    refine ⟨?_, fun number => h tuple htuple ▸ weave_tuple _ number tuple⟩
    rw [Function.comp_apply, Sql.params_row, listValues_values, h tuple htuple]
  let names := (entity.columns.map Prod.snd).map fun column => [Piece.name column]
  let head := .fixed "INSERT INTO " :: .name entity.table :: .fixed " ("
    :: Piece.join ", " names ++ [.fixed ") VALUES "]
  have hhead : Piece.params head = [] :=
    (Sql.params_append _ _).trans ((List.append_nil _).trans (Sql.params_names _))
  have hscript : Piece.script head = "INSERT INTO " ++ entity.table ++ " ("
      ++ ", ".intercalate (entity.columns.map Prod.snd) ++ ") VALUES " := by
    have hnames : names.map Piece.script = entity.columns.map Prod.snd := by
      simp [names, Function.comp_def]
    simp only [head, List.cons_append, Piece.script_fixed, Piece.script_name,
      Piece.script_append, Piece.script_join, Piece.script_nil, hnames, String.append_empty,
      String.append_assoc]
  have hpieces : Sql.Insert.pieces
        ⟨entity.table, entity.columns.map Prod.snd, table.map (List.map Expr.value)⟩
      = head ++ Piece.join ", " ((table.map (List.map Expr.value)).map Sql.rowPieces) ++ [] := by
    simp [Sql.Insert.pieces, head, names]
  rw [hpieces, Sql.Buffer.ofPieces_between dialect hhead rfl, Sql.Buffer.ofPieces_eq,
    weave_join _ ", " htuples, hscript]
  unfold Entity.insertionText
  simp [String.append_assoc]

/-- Two rows of bio metrics. -/
example : Graph.People.bioMetrics.insertionText .numbered 2
    = "INSERT INTO bio_metrics (id, height, hair_color, eye_color) VALUES "
      ++ "($1, $2, $3, $4), ($5, $6, $7, $8)" := by
  decide

namespace Row

/-! ## Rows that are refused -/

/-- Why rows are not inserted into an entity of a name: the entity is unknown, there are no rows, no
field is a column, or a cell fails after all in front of it, row by row, were bound. -/
inductive Refused (target : Target) (name : String) (rows : List Row) : CompileError → Prop where
  | unknown (h : target.graph.entity? name = none) :
      Refused target name rows (.entityNotFound name)
  | noRows {entity : Entity} (hentity : target.graph.entity? name = some entity)
      (h : rows = []) : Refused target name rows (.noRows name)
  | noColumns {entity : Entity} (hentity : target.graph.entity? name = some entity)
      (hrows : rows ≠ []) (h : entity.columns = []) : Refused target name rows (.noColumns name)
  | cell {entity : Entity} (hentity : target.graph.entity? name = some entity)
      {before after : List (Row × String)} {row : Row} {field : String} {error : CompileError}
      (hcells : rows.product entity.columns.names = before ++ (row, field) :: after)
      (hbefore : ∀ cell ∈ before, ∃ value, cell.1.Binds target.dialect cell.2 value)
      (h : row.Fails field error) : Refused target name rows error

variable {target : Target} {name : String} {rows : List Row}

/-- A table fails with the error of its first cell that cannot be bound, row by row. -/
theorem values_eq_error {dialect : Dialect} {fields : List String} {error : CompileError} :
    values dialect fields rows = .error error ↔ ∃ before row field after,
      rows.product fields = before ++ (row, field) :: after ∧ row.Fails field error
        ∧ ∀ cell ∈ before, ∃ value, cell.1.Binds dialect cell.2 value := by
  rw [← Except.failure?_eq_some, failure?_values, List.findSome?_eq_some_iff]
  simp only [Except.failure?_eq_some, Except.failure?_eq_none, value_eq_error, value_eq_ok,
    Prod.exists]

/-- Rows for an entity that is known are compiled as their insertion. -/
theorem compileAll_of_entity {entity : Entity} (h : target.graph.entity? name = some entity) :
    compileAll target name rows = (insertion target name entity rows).map fun insert =>
      .ofPieces target.dialect insert.pieces := by
  have hbind : compileAll target name rows = insertion target name entity rows >>= fun insert =>
      .ok (.ofPieces target.dialect insert.pieces) := by
    rw [compileAll, Target.entity_eq_ok.mpr h]
    rfl
  rw [hbind]
  cases insertion target name entity rows <;> rfl

/-- An insertion with rows and columns is its table. -/
theorem insertion_eq {entity : Entity} (hrows : rows ≠ []) (hcolumns : entity.columns ≠ []) :
    insertion target name entity rows
      = (values target.dialect entity.columns.names rows).map fun table =>
          ⟨entity.table, entity.columns.map Prod.snd, table.map (List.map Expr.value)⟩ := by
  rw [insertion, if_neg (by simpa using hrows), if_neg (by simpa using hcolumns), mapM_tuple]
  cases values target.dialect entity.columns.names rows <;> rfl

/-- **Rows are refused as the first thing that is wrong with them.** -/
theorem compileAll_eq_error {error : CompileError} :
    compileAll target name rows = .error error ↔ Refused target name rows error := by
  constructor
  · intro h
    rcases hentity : target.graph.entity? name with _ | entity
    · rw [compileAll, Target.entity, hentity] at h
      obtain rfl := Except.error.inj h
      exact .unknown hentity
    · rw [compileAll_of_entity hentity, Except.map_eq_error] at h
      by_cases hrows : rows = []
      · rw [hrows] at h
        obtain rfl := Except.error.inj h
        exact .noRows hentity hrows
      by_cases hcolumns : entity.columns = []
      · rw [insertion, if_neg (by simpa using hrows), if_pos (by simpa using hcolumns)] at h
        obtain rfl := Except.error.inj h
        exact .noColumns hentity hrows hcolumns
      · rw [insertion_eq hrows hcolumns, Except.map_eq_error] at h
        obtain ⟨before, row, field, after, hcells, hfails, hbefore⟩ := values_eq_error.mp h
        exact .cell hentity hcells hbefore hfails
  · rintro (hentity | ⟨hentity, hrows⟩ | ⟨hentity, hrows, hcolumns⟩ | ⟨hentity, hcells, hbefore, h⟩)
    · rw [compileAll, Target.entity, hentity]
      rfl
    · rw [compileAll_of_entity hentity, hrows]
      rfl
    · rw [compileAll_of_entity hentity, insertion, if_neg (by simpa using hrows),
        if_pos (by simpa using hcolumns)]
      rfl
    · rename_i entity before after row field
      have hcell : (row, field) ∈ rows.product entity.columns.names :=
        hcells ▸ List.mem_append_right _ List.mem_cons_self
      obtain ⟨hrow, hfield⟩ := List.mem_product.mp hcell
      have hcolumns : entity.columns ≠ [] := fun heq => by
        rw [heq] at hfield
        exact List.not_mem_nil hfield
      rw [compileAll_of_entity hentity, insertion_eq (List.ne_nil_of_mem hrow) hcolumns,
        values_eq_error.mpr ⟨before, row, field, after, hcells, h, hbefore⟩]
      rfl

/-! ## What does not matter -/

/-- Rows that give the same to the columns of an entity: no property stands twice in either, and
those of columns are the same, in whichever order. -/
structure SameCells (entity : Entity) (row other : Row) : Prop where
  nodup : (Entries.names row).Nodup
  nodup_other : (Entries.names other).Nodup
  perm : (row.filter fun entry => entry.1 ∈ entity.columns.names).Perm
    (other.filter fun entry => entry.1 ∈ entity.columns.names)

theorem SameCells.get?_eq {entity : Entity} {row other : Row} (h : SameCells entity row other)
    {field : String} (hfield : field ∈ entity.columns.names) :
    Entries.get? row field = Entries.get? other field := by
  have hnodup {entries : Row} (h : (Entries.names entries).Nodup) : (Entries.names
      (entries.filter fun entry => entry.1 ∈ entity.columns.names)).Nodup :=
    (List.filter_sublist.map Prod.fst).nodup h
  let test (name : String) : Bool := decide (name ∈ entity.columns.names)
  have htest : test field = true := decide_eq_true hfield
  rw [← Entries.get?_filter htest row, ← Entries.get?_filter htest other]
  refine Option.ext fun cell => ?_
  rw [Entries.get?_eq_some (hnodup h.nodup), Entries.get?_eq_some (hnodup h.nodup_other),
    h.perm.mem_iff]

/-- **What belongs to no column, and the order of properties, do not matter.** -/
theorem compileAll_of_sameCells {entity : Entity} {others : List Row}
    (hentity : target.graph.entity? name = some entity)
    (h : List.Forall₂ (SameCells entity) rows others) :
    compileAll target name rows = compileAll target name others := by
  have htuple : List.Forall₂ (fun row other => tuple target.dialect entity.columns.names row
      = tuple target.dialect entity.columns.names other) rows others := by
    refine h.imp fun row other hsame => ?_
    refine Except.mapM_eq_of_forall₂ (List.forall₂_same.mpr fun field hfield => ?_)
    rw [cellExpr, cellExpr, hsame.get?_eq hfield]
  have hempty : rows.isEmpty = others.isEmpty := by
    cases h <;> rfl
  rw [compileAll_of_entity hentity, compileAll_of_entity hentity, insertion, insertion, hempty,
    Except.mapM_eq_of_forall₂ htuple]

/-! ## Insertions -/

/-- A statement that inserts rows into an entity: its columns are named in order, there is a tuple
of placeholders for each row, and the parameter of a row and a column is what the row binds for the
field of the column. -/
structure Inserts (dialect : Dialect) (entity : Entity) (rows : List Row) (buffer : Sql.Buffer) :
    Prop where
  text : buffer.text = entity.insertionText dialect.placeholder rows.length
  size : buffer.params.size = rows.length * entity.columns.length
  cell : ∀ (i : Nat) (hi : i < rows.length) (j : Nat) (hj : j < entity.columns.length),
    ∃ value, buffer.params[i * entity.columns.length + j]? = some value
      ∧ rows[i].Binds dialect entity.columns[j].1 value

theorem inserts_of_compileAll {buffer : Sql.Buffer}
    (h : compileAll target name rows = .ok buffer) :
    ∃ entity, target.graph.entity? name = some entity
      ∧ Inserts target.dialect entity rows buffer := by
  obtain ⟨entity, hentity, hrest⟩ := Except.bind_eq_ok.mp h
  obtain ⟨insert, hinsert, -⟩ := Except.bind_eq_ok.mp hrest
  have hknown := Target.entity_eq_ok.mp hentity
  obtain ⟨hrows, hcolumns, -⟩ := insertion_eq_ok hinsert
  rw [compileAll_of_entity hknown, insertion_eq hrows hcolumns] at h
  obtain ⟨_, hmade, rfl⟩ := Except.map_eq_ok.mp h
  obtain ⟨table, htable, rfl⟩ := Except.map_eq_ok.mp hmade
  obtain ⟨hlength, htuples, hcells⟩ := values_eq_ok htable
  simp only [Entries.names, List.length_map, List.getElem_map] at htuples hcells
  have hparams : (Sql.Insert.values ⟨entity.table, entity.columns.map Prod.snd,
      table.map (List.map Expr.value)⟩) = table.flatten := by
    rw [Sql.Insert.values, List.flatMap_map, List.flatMap]
    exact congrArg List.flatten (List.map_id'' listValues_values table)
  refine ⟨entity, hknown, ?text, ?size, ?cell⟩
  case text => rw [text_insertion target.dialect entity htuples, hlength]
  case size =>
    have hlengths : table.map List.length = List.replicate rows.length entity.columns.length :=
      List.eq_replicate_iff.mpr
        ⟨(List.length_map _).trans hlength, List.forall_mem_map.mpr htuples⟩
    rw [Sql.Buffer.ofPieces_eq, Sql.Insert.params_pieces, hparams, List.size_toArray,
      List.length_flatten, hlengths, List.sum_replicate_nat]
  case cell =>
    intro i hi j hj
    obtain ⟨tuple, value, htuple, hvalue, hbinds⟩ := hcells i hi j hj
    refine ⟨value, ?_, hbinds⟩
    rw [Sql.Buffer.ofPieces_eq, Sql.Insert.params_pieces, hparams, List.getElem?_toArray,
      getElem?_flatten htuples i hj, htuple, Option.bind_some, hvalue]

end Row

/-- **Every cell of an insertion stays in its column.**  Rows are refused exactly for the reasons of
`Row.Refused`, of which the first in order is the error; they are inserted if there is none, with
every cell where its row and its column are; and neither what belongs to no column nor the order of
the properties of a row plays a part. -/
theorem cells_keep_their_columns (target : Target) (name : String) (rows : List Row) :
    (∀ error, Row.compileAll target name rows = .error error
      ↔ Row.Refused target name rows error)
    ∧ ((∀ error, ¬ Row.Refused target name rows error) → ∃ buffer,
        Row.compileAll target name rows = .ok buffer)
    ∧ (∀ buffer, Row.compileAll target name rows = .ok buffer →
        ∃ entity, target.graph.entity? name = some entity
          ∧ Row.Inserts target.dialect entity rows buffer)
    ∧ ∀ entity others, target.graph.entity? name = some entity →
        List.Forall₂ (Row.SameCells entity) rows others →
          Row.compileAll target name rows = Row.compileAll target name others := by
  refine ⟨fun error => Row.compileAll_eq_error, fun h => ?_,
    fun buffer => Row.inserts_of_compileAll, fun entity others => Row.compileAll_of_sameCells⟩
  rcases hcompiled : Row.compileAll target name rows with error | buffer
  · exact absurd (Row.compileAll_eq_error.mp hcompiled) (h error)
  · exact ⟨buffer, rfl⟩

/-- Two rows of bio metrics, of which neither gives all columns and one gives more than columns. -/
def sparseRows : List Row :=
  [[("height", .scalar (.int 180)), ("hairColor", .scalar (.text "brown"))],
    [("eyeColor", .scalar (.text "green")), ("notes", .other (.arr [])), ("id", .scalar (.int 2))]]

/-- The same rows with their properties the other way round, without the one that is no column. -/
def sparseRowsReversed : List Row :=
  [[("hairColor", .scalar (.text "brown")), ("height", .scalar (.int 180))],
    [("id", .scalar (.int 2)), ("eyeColor", .scalar (.text "green"))]]

/-- The sparse rows are inserted either way, the color of the second in the last column. -/
theorem sparseRows_inserted : ∃ buffer : Sql.Buffer,
    Row.compileAll ⟨Graph.People.graph, ⟨.numbered, .native⟩⟩ "bioMetrics" sparseRowsReversed
      = .ok buffer
    ∧ buffer.text = Graph.People.bioMetrics.insertionText .numbered 2
    ∧ buffer.params.size = 2 * 4
    ∧ buffer.params[1 * 4 + 3]? = some (.text "green") := by
  obtain ⟨-, -, hinserts, hsame⟩ := cells_keep_their_columns
    ⟨Graph.People.graph, ⟨.numbered, .native⟩⟩ "bioMetrics" sparseRows
  have hentity : Graph.People.graph.entity? "bioMetrics" = some Graph.People.bioMetrics := by
    decide
  have hrows : List.Forall₂ (Row.SameCells Graph.People.bioMetrics) sparseRows
      sparseRowsReversed :=
    .cons ⟨by decide, by decide, .swap _ _ _⟩ (.cons ⟨by decide, by decide, .swap _ _ _⟩ .nil)
  refine ⟨_, (hsame _ _ hentity hrows).symm, ?_⟩
  obtain ⟨entity, hfound, hinserted⟩ := hinserts _ rfl
  obtain rfl := Option.some.inj (hentity.symm.trans hfound)
  refine ⟨hinserted.text, hinserted.size, ?_⟩
  obtain ⟨value, hvalue, hbinds⟩ := hinserted.cell 1 (by decide) 3 (by decide)
  rcases hbinds with hmissing | ⟨hcell, hscalar⟩
  · exact nomatch (hmissing : some _ = none)
  · obtain rfl : Scalar.text "green" = _ := Cell.scalar.inj (Option.some.inj hcell)
    obtain rfl := Except.ok.inj hscalar
    exact hvalue

end EntityQuery
