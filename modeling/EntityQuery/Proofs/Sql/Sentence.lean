import EntityQuery.Proofs.Sql.Flat
import EntityQuery.Proofs.Sql.Layered

/-!
# Proofs/Sql/Sentence — a statement is a sentence, of its flat form only

The terminals of a tree whose parts are in their places are derived in the grammar
(`Expr.Reads`): below NOT as a negation, below AND and OR as a run of conjuncts, and anywhere as a
run of disjuncts.  With the text of legible pieces and the unambiguity of the grammar this gives
`Select.spells_iff` and `Insert.spells_iff`: the text of a statement is a sentence, and what it
spells is the flat form of the statement.
-/

namespace EntityQuery.Sql

open Grammar

/-! ## The terminals of pieces -/

/-- The terminals of pieces. -/
def terminalsOf (pieces : List Piece) : Terminals :=
  pieces.flatMap Piece.terminals

theorem terminalsOf_append (first second : List Piece) :
    terminalsOf (first ++ second) = terminalsOf first ++ terminalsOf second :=
  List.flatMap_append

theorem terminalsOf_cons (piece : Piece) (rest : List Piece) :
    terminalsOf (piece :: rest) = piece.terminals ++ terminalsOf rest :=
  List.flatMap_cons

theorem terminalsOf_join (separator : String) (first next : List Piece)
    (others : List (List Piece)) :
    terminalsOf (Piece.join separator (first :: next :: others))
      = terminalsOf first ++ ((Piece.fixed separator).terminals
        ++ terminalsOf (Piece.join separator (next :: others))) := by
  rw [Piece.join, terminalsOf_append, terminalsOf_cons]
  exact List.cons_ne_nil _ _

/-! ## Lists and leaves -/

theorem columnRef_pieces (column : Column) (rest : Terminals) :
    ColumnRef (terminalsOf column.pieces ++ rest) column rest :=
  .column

/-- A column or a value is written as an operand. -/
theorem operand_pieces {operand : Expr} (h : operand.IsOperand) (rest : Terminals) :
    Grammar.Operand (terminalsOf operand.pieces ++ rest) operand rest := by
  match operand, h with
  | .column ref, _ => exact .column (columnRef_pieces ref rest)
  | .value given, _ => exact .param

/-- Items with commas between are a list. -/
theorem listed_join {α : Type} {Item : Terminals → α → Terminals → Prop} {pieces : α → List Piece} :
    ∀ {items : List α}, items ≠ [] →
      (∀ a ∈ items, ∀ rest, Item (terminalsOf (pieces a) ++ rest) a rest) → ∀ rest,
      Listed Item (terminalsOf (Piece.join ", " (items.map pieces)) ++ rest) items rest
  | [item], _, hitem, rest => .one (hitem item List.mem_cons_self rest)
  | item :: next :: others, _, hitem, rest => by
      obtain ⟨hfirst, hothers⟩ := List.forall_mem_cons.mp hitem
      have hnext := listed_join (List.cons_ne_nil next others) hothers rest
      rw [List.map_cons, List.map_cons, terminalsOf_join, List.append_assoc, List.append_assoc]
      exact .more (hfirst _) hnext

/-- Operands are written as a list with commas between. -/
theorem operands_pieces {items : List Expr} (hne : items ≠ []) (h : ∀ item ∈ items, item.IsOperand)
    (rest : Terminals) :
    Listed Grammar.Operand (terminalsOf (Piece.join ", " (pieceLists items)) ++ rest) items
      rest := by
  rw [pieceLists_eq_map]
  exact listed_join hne (fun item hitem rest => operand_pieces (h item hitem) rest) rest

/-! ## Clauses -/

/-- A select list is written as one. -/
theorem results_pieces {list : SelectList} (h : list.Fits) (rest : Terminals) :
    Results (terminalsOf list.pieces ++ rest) list rest := by
  cases list with
  | columns listed =>
    exact .columns (listed_join h.1 (fun column _ rest => columnRef_pieces column rest) rest)
  | star table => exact .star

theorem direction_terminals (direction : SortDirection) (rest : Terminals) :
    Grammar.Direction ((Piece.fixed direction.text).terminals ++ rest) direction rest := by
  cases direction
  · exact .asc
  · exact .desc

/-- A place of nulls is written as one, and none as nothing. -/
theorem nulls_terminals (nulls : Option NullsOrder) (rest : Terminals) :
    Nulls (terminalsOf (nulls.toList.map fun place => .fixed place.text) ++ rest) nulls rest := by
  rcases nulls with _ | ⟨⟨⟩⟩
  · exact .absent
  · exact .first
  · exact .last

/-- A sort term is written as one. -/
theorem term_pieces (term : SortTerm) (rest : Terminals) :
    Term (terminalsOf term.pieces ++ rest) term rest := by
  rw [SortTerm.pieces, terminalsOf_append, terminalsOf_cons, List.append_assoc, List.append_assoc]
  exact .term (columnRef_pieces term.column _) (direction_terminals term.direction _)
    (nulls_terminals term.nulls rest)

/-- The clause that sorts, with the blank in front. -/
theorem orderClause_pieces (order : List SortTerm) (rest : Terminals) :
    OrderClause
      (terminalsOf (if order.isEmpty then [] else .fixed " " :: orderPieces order) ++ rest)
      order rest := by
  cases order with
  | nil => exact .absent
  | cons term others =>
    have hterms := listed_join (List.cons_ne_nil term others) (fun term _ => term_pieces term) rest
    exact .orderBy hterms

/-- The clause that limits, with the blank in front. -/
theorem limitClause_pieces {limit : Limit} (h : limit.limit = none → limit.offset = none)
    (rest : Terminals) :
    LimitClause
      (terminalsOf (if limit.limit.isNone then [] else .fixed " " :: limit.pieces) ++ rest)
      limit rest := by
  obtain ⟨count, offset⟩ := limit
  match count, offset, h with
  | none, none, _ => exact .absent
  | none, some offset, h => exact nomatch h rfl
  | some count, none, _ =>
    have hlimit : terminalsOf (.fixed " " :: Limit.pieces ⟨some count, none⟩)
        = [.sign .LIMIT, .sign (.number count.toNat)] := by
      rw [Limit.pieces, Option.toList_none, List.map_nil, terminalsOf_cons, terminalsOf_cons,
        Piece.terminals_append_repr (by decide)]
      rfl
    exact hlimit ▸ .limit rfl
  | some count, some offset, _ =>
    have hlimit : terminalsOf (.fixed " " :: Limit.pieces ⟨some count, some offset⟩)
        = [.sign .LIMIT, .sign (.number count.toNat), .sign .OFFSET,
          .sign (.number offset.toNat)] := by
      rw [Limit.pieces, Option.toList_some, List.map_singleton, terminalsOf_cons, terminalsOf_cons,
        terminalsOf_cons, Piece.terminals_append_repr (by decide),
        Piece.terminals_append_repr (by decide)]
      rfl
    exact hlimit ▸ .offset rfl rfl

/-! ## Expressions -/

/-- Conjuncts go on behind AND. -/
theorem Conjuncts.append : ∀ {ts mid rest : Terminals} {first second : List Expr},
    Conjuncts ts first mid → ∀ {next}, mid = .sign .AND :: next → Conjuncts next second rest →
      Conjuncts ts (first ++ second) rest
  | _, _, _, _, _, .one inner, _, rfl, hsecond => .more inner hsecond
  | _, _, _, _, _, .more inner next, _, hmid, hsecond => .more inner (append next hmid hsecond)

/-- How an expression is derived in each of the places where it may stand. -/
structure Expr.Reads (expr : Expr) : Prop where
  negation : expr.Fits .negation → ∀ rest, Negation (terminalsOf expr.pieces ++ rest) expr.flat rest
  conjunction : expr.Fits .conjunction → ∀ rest,
    Conjuncts (terminalsOf expr.pieces ++ rest) expr.conjuncts rest
  disjunction : expr.Fits .disjunction → ∀ rest, ∃ operands,
    Disjuncts (terminalsOf expr.pieces ++ rest) operands rest ∧ .disjunction operands = expr.flat

/-- An expression that fits below AND wherever it fits at all is a single disjunct. -/
theorem Expr.Reads.of_conjuncts {expr : Expr} (hnegation : ¬ expr.Fits .negation)
    (hfits : expr.Fits .disjunction → expr.Fits .conjunction)
    (h : expr.Fits .conjunction → ∀ rest,
      Conjuncts (terminalsOf expr.pieces ++ rest) expr.conjuncts rest) : expr.Reads where
  negation hexpr := absurd hexpr hnegation
  conjunction := h
  disjunction hexpr rest := ⟨_, .one (h (hfits hexpr) rest), rfl⟩

/-- An expression that fits below NOT wherever it fits at all is a single conjunct. -/
theorem Expr.Reads.of_negation {expr : Expr} (hflat : expr.conjuncts = [expr.flat])
    (hfits : ∀ layer, expr.Fits layer → expr.Fits .negation)
    (h : expr.Fits .negation → ∀ rest,
      Negation (terminalsOf expr.pieces ++ rest) expr.flat rest) : expr.Reads where
  negation := h
  conjunction hexpr rest := hflat ▸ .one (h (hfits _ hexpr) rest)
  disjunction hexpr rest :=
    ⟨[.conjunction [expr.flat]], .one (.one (h (hfits _ hexpr) rest)), rfl⟩

/-- Operands of AND are derived one after the other, and nested ones in their place. -/
theorem conjuncts_pieces : ∀ {operands : List Expr}, operands ≠ [] →
    (∀ operand ∈ operands, operand.Reads) → AllFit operands → ∀ rest,
      Conjuncts (terminalsOf (Piece.join " AND " (pieceLists operands)) ++ rest)
        (listConjuncts operands) rest
  | [operand], _, hreads, hfits, rest => by
      rw [listConjuncts, listConjuncts, List.append_nil]
      exact (hreads operand List.mem_cons_self).conjunction hfits.1 rest
  | operand :: next :: others, _, hreads, hfits, rest => by
      obtain ⟨hfirst, hothers⟩ := List.forall_mem_cons.mp hreads
      have hnext := conjuncts_pieces (List.cons_ne_nil next others) hothers hfits.2 rest
      rw [pieceLists, pieceLists, terminalsOf_join, List.append_assoc, List.append_assoc]
      exact Conjuncts.append (hfirst.conjunction hfits.1 _) rfl hnext

/-- Operands of OR are derived one after the other. -/
theorem disjuncts_pieces : ∀ {operands : List Expr}, operands ≠ [] →
    (∀ operand ∈ operands, operand.Reads) → AllFit operands → ∀ rest,
      Disjuncts (terminalsOf (Piece.join " OR " (pieceLists operands)) ++ rest) (flats operands)
        rest
  | [operand], _, hreads, hfits, rest =>
      .one ((hreads operand List.mem_cons_self).conjunction hfits.1 rest)
  | operand :: next :: others, _, hreads, hfits, rest => by
      obtain ⟨hfirst, hothers⟩ := List.forall_mem_cons.mp hreads
      have hnext := disjuncts_pieces (List.cons_ne_nil next others) hothers hfits.2 rest
      rw [pieceLists, pieceLists, terminalsOf_join, List.append_assoc, List.append_assoc]
      exact .more (hfirst.conjunction hfits.1 _) hnext

theorem comparison_terminals (comparison : Comparison) :
    (Piece.fixed comparison.text).terminals = [.sign (.comparison comparison)] := by
  cases comparison <;> rfl

mutual

/-- **An expression is derived as its flat form.** -/
theorem Expr.reads : ∀ expr : Expr, expr.Reads
  | .and operands => by
      refine .of_conjuncts (fun h => h.1 rfl) (fun h => ⟨nofun, h.2⟩) fun h rest => ?_
      rw [Expr.pieces, Expr.conjuncts]
      exact conjuncts_pieces h.2.1 (readsAll operands) h.2.2 rest
  | .or operands =>
      { negation := fun h => nomatch h.1
        conjunction := fun h => nomatch h.1
        disjunction := fun h rest => by
          rw [Expr.pieces]
          exact ⟨_, disjuncts_pieces h.2.1 (readsAll operands) h.2.2 rest,
            (Expr.flat_or operands).symm⟩ }
  | .not operand => by
      refine .of_negation rfl (fun _ h => h) fun h rest => ?_
      exact .not ((Expr.reads operand).negation h rest)
  | .group operand => by
      refine .of_negation rfl (fun _ h => h) fun h rest => .predicate ?_
      obtain ⟨operands, hoperands, hflat⟩ :=
        (Expr.reads operand).disjunction h (.sign .closing :: rest)
      have hgroup := Predicate.group hoperands
      rw [hflat] at hgroup
      rw [Expr.pieces, terminalsOf_append, terminalsOf_cons, List.append_assoc, List.append_assoc]
      exact hgroup
  | .compare left comparison right => by
      refine .of_negation rfl (fun _ h => h) fun h rest => .predicate ?_
      rw [Expr.pieces, terminalsOf_append, terminalsOf_cons, comparison_terminals,
        List.append_assoc, List.append_assoc]
      exact .compare (operand_pieces h.1 _) (operand_pieces h.2 rest)
  | .inList operand items => by
      refine .of_negation rfl (fun _ h => h) fun h rest => .predicate ?_
      have hitems := operands_pieces h.2.1 h.2.2 (.sign .closing :: rest)
      rw [Expr.pieces, terminalsOf_append, terminalsOf_append, terminalsOf_cons,
        List.append_assoc, List.append_assoc, List.append_assoc]
      exact .inList (operand_pieces h.1 _) hitems
  | .inSelect operand select => by
      refine .of_negation rfl (fun _ h => h) fun h rest => .predicate ?_
      have hselect := Select.reads select h.2 (.sign .closing :: rest)
      rw [Expr.pieces, terminalsOf_append, terminalsOf_append, terminalsOf_cons,
        List.append_assoc, List.append_assoc, List.append_assoc]
      exact .inSelect (operand_pieces h.1 _) hselect
  | .column ref => .of_negation rfl (fun _ h => h) nofun
  | .value given => .of_negation rfl (fun _ h => h) nofun

theorem readsAll : ∀ operands : List Expr, ∀ operand ∈ operands, operand.Reads
  | [] => nofun
  | operand :: rest => List.forall_mem_cons.mpr ⟨Expr.reads operand, readsAll rest⟩

/-- A condition is written as one, and none as nothing. -/
theorem condition_pieces : ∀ condition : Option Expr, ConditionFits condition → ∀ rest,
    Grammar.Condition (terminalsOf (conditionPieces condition) ++ rest) (conditionFlat condition)
      rest
  | none, _, _ => .absent
  | some condition, h, rest => by
      obtain ⟨operands, hoperands, hflat⟩ := (Expr.reads condition).disjunction h rest
      have hholds := Grammar.Condition.holds hoperands
      rw [hflat] at hholds
      exact hholds

/-- **A selection is derived as its flat form.** -/
theorem Select.reads : ∀ select : Select, select.Fits → ∀ rest,
    Selection (terminalsOf select.pieces ++ rest) select.flat rest
  | ⟨list, table, condition, order, limit⟩, ⟨hlist, _, hcondition, _, hlimit⟩, rest => by
      have hlimited := limitClause_pieces hlimit rest
      have hsorted := orderClause_pieces order (terminalsOf
        (if limit.limit.isNone then [] else .fixed " " :: limit.pieces) ++ rest)
      have hholds := condition_pieces condition hcondition (terminalsOf
        (if order.isEmpty then [] else .fixed " " :: orderPieces order) ++ (terminalsOf
          (if limit.limit.isNone then [] else .fixed " " :: limit.pieces) ++ rest))
      rw [Select.pieces, terminalsOf_append, terminalsOf_append, terminalsOf_append,
        List.append_assoc, List.append_assoc, List.append_assoc]
      exact .select (results_pieces hlist _) hholds hsorted hlimited

end

/-- A row of operands is written as one. -/
theorem tuple_pieces {row : List Expr} (h : row ≠ [] ∧ ∀ cell ∈ row, cell.IsOperand)
    (rest : Terminals) : Grammar.Tuple (terminalsOf (rowPieces row) ++ rest) row rest := by
  have hcells := operands_pieces h.1 h.2 (.sign .closing :: rest)
  rw [rowPieces, terminalsOf_append, terminalsOf_cons, List.append_assoc, List.append_assoc]
  exact .tuple hcells

/-- **An insertion is written as one**, to the end of the text. -/
theorem Insert.reads {insert : Insert} (h : insert.Fits) :
    Insertion (terminalsOf insert.pieces) insert [] := by
  have htuples : Listed Grammar.Tuple
      (terminalsOf (Piece.join ", " (insert.rows.map rowPieces)) ++ []) insert.rows [] :=
    listed_join h.rows_ne_nil (fun row hrow rest => tuple_pieces (h.rows row hrow) rest) []
  have hname : ∀ (column : String) (rest : Terminals),
      Name (terminalsOf [.name column] ++ rest) column rest := fun _ _ => .name
  have hnames := listed_join h.columns_ne_nil (fun column _ rest => hname column rest)
    (.sign .closing :: .sign .VALUES :: terminalsOf (Piece.join ", " (insert.rows.map rowPieces)))
  rw [List.append_nil] at htuples
  rw [Insert.pieces, terminalsOf_append, terminalsOf_cons]
  exact .insert hnames htuples

/-! ## Sentences -/

/-- Whether the text of a buffer, with its parameters, is a sentence that spells a selection. -/
def Buffer.SpellsSelect (buffer : Buffer) (tree : Select) : Prop :=
  ∃ ts, terminals? buffer.text buffer.params.toList = some ts ∧ Selection ts tree []

/-- Whether the text of a buffer, with its parameters, is a sentence that spells an insertion. -/
def Buffer.SpellsInsert (buffer : Buffer) (tree : Insert) : Prop :=
  ∃ ts, terminals? buffer.text buffer.params.toList = some ts ∧ Insertion ts tree []

/-- **The text of a selection spells its flat form, and nothing else.** -/
theorem Select.spells_iff (dialect : Dialect) {select : Select} (h : select.Fits) {tree : Select} :
    (Buffer.ofPieces dialect select.pieces).SpellsSelect tree ↔ tree = select.flat := by
  have hread := terminals?_ofPieces dialect (Select.legible h)
  have hflat : Selection (terminalsOf select.pieces) select.flat [] :=
    List.append_nil (terminalsOf select.pieces) ▸ Select.reads select h []
  constructor
  · rintro ⟨ts, hts, htree⟩
    obtain rfl := Option.some.inj (hread.symm.trans hts)
    exact (htree.unique hflat trivial trivial).1
  · rintro rfl
    exact ⟨_, hread, hflat⟩

/-- **The text of an insertion spells the insertion, and nothing else.** -/
theorem Insert.spells_iff (dialect : Dialect) {insert : Insert} (h : insert.Fits) {tree : Insert} :
    (Buffer.ofPieces dialect insert.pieces).SpellsInsert tree ↔ tree = insert := by
  have hread := terminals?_ofPieces dialect (Insert.legible h)
  constructor
  · rintro ⟨ts, hts, htree⟩
    obtain rfl := Option.some.inj (hread.symm.trans hts)
    exact htree.unique (Insert.reads h)
  · rintro rfl
    exact ⟨_, hread, Insert.reads h⟩

end EntityQuery.Sql
