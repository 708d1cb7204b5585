import EntityQuery.Compile.Select
import EntityQuery.Graph.People
import EntityQuery.Proofs.Filter.Fragment

/-!
# Proofs/Request/Assembly — a selection is assembled around its filter

    SELECT columns FROM table  WHERE filter  ORDER BY order  LIMIT page
    └──────── before ────────┘       └ ofPieces ┘  └──────── after ────────┘

A request compiles to the text of its filter with texts around it: the select list and the table in
front, the order and the page behind, each a clause that is left out when it is empty.  Only the
filter has parameters, so what stands around it changes no placeholder — in every dialect, since the
pieces around it are their script (`Buffer.ofPieces_between`).
-/

namespace EntityQuery

open Sql (Expr Buffer Piece clauseText)

/-! ## Texts of the clauses -/

namespace Sql

/-- A column with its table. -/
def Column.text (column : Column) : String :=
  column.table ++ "." ++ column.name

/-- The columns of a result. -/
def SelectList.text : SelectList → String
  | .columns listed => ", ".intercalate (listed.map Column.text)
  | .star table => table ++ ".*"

theorem Column.script_pieces (column : Column) : Piece.script column.pieces = column.text := by
  simp [pieces, text, String.append_assoc]

theorem SelectList.script_pieces (list : SelectList) : Piece.script list.pieces = list.text := by
  rcases list with listed | table
  · rw [pieces, Piece.script_join, List.map_map, text]
    exact congrArg _ (List.map_congr_left fun column _ => column.script_pieces)
  · simp [pieces, text]

/-- The clause of an order is empty exactly for the empty order. -/
theorem script_orderClause (terms : List SortTerm) :
    Piece.script (if terms.isEmpty then [] else .fixed " " :: orderPieces terms)
      = clauseText " " (Piece.script (orderPieces terms)) := by
  rcases terms with _ | ⟨term, rest⟩
  · rfl
  · have htext : Piece.script (orderPieces (term :: rest)) ≠ "" := fun hempty =>
      absurd (String.append_eq_empty_iff.mp hempty).1 (by decide)
    rw [clauseText, if_neg htext]
    rfl

end Sql

/-- The clause of a page: a limit if the page has a size, and an offset behind the first page. -/
def pageText (page : UInt64) (pageSize : Option UInt64) : String :=
  match pageSize with
  | none => ""
  | some size =>
      if size = 0 then ""
      else " LIMIT " ++ size.toNat.repr
        ++ if page = 0 then ""
          else " OFFSET " ++ (min (page.toNat * size.toNat) (UInt64.size - 1)).repr

/-- Counts are multiplied as numbers, up to the greatest count. -/
theorem toNat_saturatingMul (a b : UInt64) :
    (saturatingMul a b).toNat = min (a.toNat * b.toNat) (UInt64.size - 1) := by
  have hlt : min (a.toNat * b.toNat) (UInt64.size - 1) < UInt64.size := by
    have hsize : 0 < UInt64.size := by decide
    omega
  exact UInt64.toNat_ofNat_of_lt hlt

theorem script_pageLimit (page : UInt64) (pageSize : Option UInt64) :
    Piece.script (if (pageLimit page pageSize).limit.isNone then []
      else .fixed " " :: (pageLimit page pageSize).pieces) = pageText page pageSize := by
  have hlead (rest : String) : " " ++ ("LIMIT " ++ rest) = " LIMIT " ++ rest := by
    rw [← String.append_assoc]
    exact congrArg (· ++ rest) (by decide)
  rcases pageSize with _ | size
  · rfl
  by_cases hsize : size = 0
  · simp [pageLimit, pageText, hsize]
  by_cases hpage : page = 0
  · have hlimit : pageLimit page (some size) = ⟨some size, none⟩ := by
      rw [pageLimit, if_neg hsize, if_pos hpage]
    rw [hlimit, pageText, if_neg hsize, if_pos hpage, String.append_empty, ← hlead]
    simp [Sql.Limit.pieces]
  · have hlimit : pageLimit page (some size) = ⟨some size, some (saturatingMul page size)⟩ := by
      rw [pageLimit, if_neg hsize, if_neg hpage]
    rw [hlimit, pageText, if_neg hsize, if_neg hpage, ← toNat_saturatingMul, String.append_assoc,
      ← hlead]
    simp [Sql.Limit.pieces, String.append_assoc]

/-- A selection on an entity around the text of a condition and the text of an order. -/
def Request.text (entity : Entity) (request : Request) (condition order : String) : String :=
  "SELECT " ++ (request.fields.selectList entity).text ++ " FROM " ++ entity.table
    ++ clauseText " WHERE " condition ++ clauseText " " order
    ++ pageText request.page request.pageSize

/-! ## The assembly -/

/-- **An order compiles to its script**, on every entity of the graph. -/
theorem Order.compile_eq {target : Target} {name : String} {entity : Entity}
    (hentity : target.graph.entity? name = some entity) (order : Order) :
    order.compile target name = .ok (Piece.script (Sql.orderPieces (order.terms entity))) := by
  rw [compile, Target.entity_eq_ok.mpr hentity]
  exact congrArg Except.ok
    (Buffer.text_ofPieces_of_params target.dialect (Sql.params_order _))

/-- What stands in front of the condition of a selection: its list and its table. -/
def Sql.headPieces (list : Sql.SelectList) (table : String) : List Piece :=
  .fixed "SELECT " :: list.pieces ++ [.fixed " ", .fixed "FROM ", .name table]

/-- What stands behind the condition: the order and the page. -/
def Sql.tailPieces (order : List Sql.SortTerm) (limit : Sql.Limit) : List Piece :=
  (if order.isEmpty then [] else .fixed " " :: Sql.orderPieces order)
    ++ if limit.limit.isNone then [] else .fixed " " :: limit.pieces

theorem Sql.params_headPieces (list : Sql.SelectList) (table : String) :
    Piece.params (headPieces list table) = [] := by
  have hlist : Piece.params (.fixed "SELECT " :: list.pieces) = [] := params_selectList list
  rw [headPieces, params_append, hlist]
  rfl

theorem Sql.script_headPieces (list : Sql.SelectList) (table : String) :
    Piece.script (headPieces list table) = "SELECT " ++ list.text ++ " FROM " ++ table := by
  have hfrom : " " ++ ("FROM " ++ table) = " FROM " ++ table := by
    rw [← String.append_assoc]
    exact congrArg (· ++ table) (by decide)
  simp only [headPieces, Piece.script_append, Piece.script_fixed, Piece.script_name,
    Piece.script_nil, list.script_pieces, hfrom, String.append_assoc, String.append_empty]

theorem Sql.params_tailPieces (order : List Sql.SortTerm) (limit : Sql.Limit) :
    Piece.params (tailPieces order limit) = [] := by
  rw [tailPieces, params_append, params_orderClause, params_limitClause]
  rfl

theorem Sql.script_tailPieces (order : List Sql.SortTerm) (page : UInt64)
    (pageSize : Option UInt64) :
    Piece.script (tailPieces order (pageLimit page pageSize))
      = clauseText " " (Piece.script (orderPieces order)) ++ pageText page pageSize := by
  rw [tailPieces, Piece.script_append, script_orderClause, script_pageLimit]

/-- A condition is written behind a lead without parameters, unless it is left out. -/
theorem Sql.exists_conditionLead (dialect : Dialect) {condition : Option Expr}
    (h : ∀ expr ∈ condition, Piece.Shows expr.pieces) : ∃ lead : List Piece,
      conditionPieces condition = lead ++ (condition.map Expr.pieces).getD []
        ∧ Piece.params lead = []
        ∧ ∀ text, text = (Buffer.ofPieces dialect ((condition.map Expr.pieces).getD [])).text →
          Piece.script lead ++ text = clauseText " WHERE " text := by
  rcases condition with _ | condition
  · refine ⟨[], rfl, rfl, ?_⟩
    rintro text rfl
    rfl
  · refine ⟨[.fixed " WHERE "], rfl, rfl, ?_⟩
    intro text htext
    have hne : text ≠ "" := htext ▸ Buffer.text_ne_empty (h condition rfl) dialect
    rw [clauseText, if_neg hne]
    simp

/-- **The pieces of a selection leave the text of its condition with its clauses around.** -/
theorem Request.ofPieces_select (dialect : Dialect) (entity : Entity) (request : Request)
    {condition : Option Expr} (h : ∀ expr ∈ condition, Piece.Shows expr.pieces) :
    Buffer.ofPieces dialect
        (Sql.Select.mk (request.fields.selectList entity) entity.table condition
          (request.order.terms entity) (pageLimit request.page request.pageSize)).pieces
      = { Buffer.ofPieces dialect ((condition.map Expr.pieces).getD []) with
          text := request.text entity
            (Buffer.ofPieces dialect ((condition.map Expr.pieces).getD [])).text
            (Piece.script (Sql.orderPieces (request.order.terms entity))) } := by
  obtain ⟨lead, hpieces, hlead, htext⟩ := Sql.exists_conditionLead dialect h
  have hselect : (Sql.Select.mk (request.fields.selectList entity) entity.table condition
        (request.order.terms entity) (pageLimit request.page request.pageSize)).pieces
      = (Sql.headPieces (request.fields.selectList entity) entity.table ++ lead)
        ++ (condition.map Expr.pieces).getD []
        ++ Sql.tailPieces (request.order.terms entity)
          (pageLimit request.page request.pageSize) := by
    simp [Sql.Select.pieces, hpieces, Sql.headPieces, Sql.tailPieces]
  have hhead : Piece.params
      (Sql.headPieces (request.fields.selectList entity) entity.table ++ lead) = [] := by
    rw [Sql.params_append, Sql.params_headPieces, hlead]
    rfl
  rw [hselect, Buffer.ofPieces_between dialect hhead (Sql.params_tailPieces _ _),
    Piece.script_append, Sql.script_headPieces, Sql.script_tailPieces, text, ← htext _ rfl]
  simp only [String.append_assoc]

/-- A request on an entity compiles as its filter does, to a text around the one of the filter. -/
theorem Request.compile_eq_map {target : Target} {name : String} {entity : Entity}
    (hentity : target.graph.entity? name = some entity) (request : Request) :
    request.compile target name = (request.search.compile target name).map fun condition =>
      { condition with
        text := request.text entity condition.text
          (Piece.script (Sql.orderPieces (request.order.terms entity))) } := by
  rw [compile, Filter.compile, Target.entity_eq_ok.mpr hentity]
  change ((request.search.expr? target entity >>= _) >>= _)
    = Except.map _ (request.search.expr? target entity >>= _)
  rcases hcondition : request.search.expr? target entity with error | condition
  · rfl
  · refine congrArg Except.ok (request.ofPieces_select target.dialect entity ?_)
    rintro expr rfl
    exact Filter.shows_expr? hcondition

/-- **A selection is assembled around its filter.**  A request fails as its filter does; else its
buffer is the one of its filter — the same parameters with the same numbers — with the text of the
selection around what the filter and the order compile to. -/
theorem select_assembled (target : Target) (name : String) (request : Request) :
    (∀ error, request.compile target name = .error error
      ↔ request.search.compile target name = .error error)
    ∧ ∀ condition, request.search.compile target name = .ok condition →
      ∃ entity order, target.graph.entity? name = some entity
        ∧ request.order.compile target name = .ok order
        ∧ request.compile target name
          = .ok { condition with text := request.text entity condition.text order } := by
  rcases hentity : target.graph.entity? name with _ | entity
  · have hunknown : target.entity name = .error (.entityNotFound name) := by
      rw [Target.entity, hentity]
    rw [Request.compile, Filter.compile, hunknown]
    refine ⟨fun error => Iff.rfl, fun condition hcondition => ?_⟩
    contradiction
  · rw [request.compile_eq_map hentity]
    refine ⟨fun error => Except.map_eq_error, fun condition hcondition => ?_⟩
    rw [hcondition]
    exact ⟨entity, _, rfl, request.order.compile_eq hentity, rfl⟩

/-- The third page of the adults whose mother is called neither Ann nor Eve, by age. -/
def thirdPage : Request where
  page := 2
  pageSize := some 10
  order := [("mother", .key ⟨.asc, none, none⟩), ("age", .key ⟨.desc, some .last, none⟩)]
  fields := [("name", .included true), ("age", .included false), ("height", .included true)]
  search := ⟨false, [("age", .condition (.greaterThan (.int 17))),
    ("mother", .nested true [("name", .list [.text "Ann", .text "Eve"])])]⟩

/-- The placeholders are numbered as they are without the clauses around; the key on the mother does
not sort. -/
theorem select_of_thirdPage :
    thirdPage.compile ⟨Graph.People.graph, .postgres⟩ "person"
      = .ok ⟨.numbered, "SELECT person.name, person.height FROM person WHERE person.age > $1 "
          ++ "AND person.motherId IN (SELECT person.id FROM person "
          ++ "WHERE NOT (person.name IN ($2, $3))) ORDER BY person.age DESC NULLS LAST "
          ++ "LIMIT 10 OFFSET 20", #[.int 17, .text "Ann", .text "Eve"], 3⟩ := by
  have hcondition : thirdPage.search.compile ⟨Graph.People.graph, .postgres⟩ "person"
      = .ok ⟨.numbered, "person.age > $1 AND person.motherId IN (SELECT person.id FROM person "
          ++ "WHERE NOT (person.name IN ($2, $3)))",
          #[.int 17, .text "Ann", .text "Eve"], 3⟩ := by
    decide +kernel
  obtain ⟨entity, order, hentity, horder, hselect⟩ :=
    (select_assembled ⟨Graph.People.graph, .postgres⟩ "person" thirdPage).2 _ hcondition
  obtain rfl : Graph.People.person = entity := Option.some.inj hentity
  have hsorted : order = "ORDER BY person.age DESC NULLS LAST" :=
    Except.ok.inj (horder.symm.trans (by decide +kernel))
  rw [hselect, hsorted]
  decide +kernel

end EntityQuery
