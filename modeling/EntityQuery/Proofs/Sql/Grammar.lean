import EntityQuery.Sql.Statement

/-!
# Proofs/Sql/Grammar — the language that statements are written in

    disjunction := conjunction { OR conjunction }
    conjunction := negation { AND negation }
    negation    := NOT negation | predicate
    predicate   := ( disjunction ) | operand comparison operand
                 | operand IN ( operand { , operand } ) | operand IN ( selection )
    selection   := SELECT results FROM name [ WHERE disjunction ]
                   [ ORDER BY term { , term } ] [ LIMIT number [ OFFSET number ] ]
    insertion   := INSERT INTO name ( name { , name } ) VALUES tuple { , tuple }

OR binds weaker than AND, AND weaker than NOT, and NOT weaker than the comparisons.  A nonterminal
is a relation `N ts tree rest`: the terminals `ts` begin with a phrase that spells `tree` and go on
with `rest`.  `Selection.unique` and `Insertion.unique` say that the grammar is unambiguous — of a
selection, given what may follow it.

No phrase is empty: every list of the grammar has a first item.
-/

namespace EntityQuery.Sql

/-! ## Terminals -/

/-- A word, a mark, a name or a number. -/
inductive Sign where
  | SELECT | FROM | WHERE | ORDER | BY | ASC | DESC | NULLS | FIRST | LAST | LIMIT | OFFSET
  | INSERT | INTO | VALUES | AND | OR | NOT | IN
  | opening | closing | comma | dot | star
  | comparison (comparison : Comparison)
  | name (text : String)
  | number (value : Nat)
  deriving DecidableEq, Repr

/-- A terminal: a sign, or a parameter with what is known of it. -/
inductive Terminal (α : Type) where
  | sign (sign : Sign)
  | param (value : α)
  deriving DecidableEq, Repr

/-- Terminals whose parameters have their values. -/
abbrev Terminals : Type := List (Terminal Value)

/-- Operands of AND as one expression: a single one is itself. -/
def Expr.conjunction : List Expr → Expr
  | [operand] => operand
  | operands => .and operands

/-- Operands of OR as one expression: a single one is itself. -/
def Expr.disjunction : List Expr → Expr
  | [operand] => operand
  | operands => .or operands

namespace Grammar

/-! ## Lists and leaves -/

/-- `list := item { , item }` -/
inductive Listed {α : Type} (Item : Terminals → α → Terminals → Prop) :
    Terminals → List α → Terminals → Prop
  | one {ts a rest} (first : Item ts a rest) : Listed Item ts [a] rest
  | more {ts a mid others rest} (first : Item ts a (.sign .comma :: mid))
      (next : Listed Item mid others rest) : Listed Item ts (a :: others) rest

/-- A name. -/
inductive Name : Terminals → String → Terminals → Prop
  | name {text rest} : Name (.sign (.name text) :: rest) text rest

/-- `column := name . name` -/
inductive ColumnRef : Terminals → Column → Terminals → Prop
  | column {table name rest} :
      ColumnRef (.sign (.name table) :: .sign .dot :: .sign (.name name) :: rest) ⟨table, name⟩ rest

/-- `operand := column | parameter` -/
inductive Operand : Terminals → Expr → Terminals → Prop
  | column {ts column rest} (ref : ColumnRef ts column rest) : Operand ts (.column column) rest
  | param {value rest} : Operand (.param value :: rest) (.value value) rest

/-! ## Clauses of a selection -/

/-- `results := column { , column } | name . *` -/
inductive Results : Terminals → SelectList → Terminals → Prop
  | columns {ts columns rest} (list : Listed ColumnRef ts columns rest) :
      Results ts (.columns columns) rest
  | star {table rest} :
      Results (.sign (.name table) :: .sign .dot :: .sign .star :: rest) (.star table) rest

/-- `direction := ASC | DESC` -/
inductive Direction : Terminals → SortDirection → Terminals → Prop
  | asc {rest} : Direction (.sign .ASC :: rest) .asc rest
  | desc {rest} : Direction (.sign .DESC :: rest) .desc rest

/-- `nulls := [ NULLS ( FIRST | LAST ) ]` -/
inductive Nulls : Terminals → Option NullsOrder → Terminals → Prop
  | absent {rest} : Nulls rest none rest
  | first {rest} : Nulls (.sign .NULLS :: .sign .FIRST :: rest) (some .first) rest
  | last {rest} : Nulls (.sign .NULLS :: .sign .LAST :: rest) (some .last) rest

/-- `term := column direction nulls` -/
inductive Term : Terminals → SortTerm → Terminals → Prop
  | term {ts column mid direction mid' nulls rest} (ref : ColumnRef ts column mid)
      (way : Direction mid direction mid') (place : Nulls mid' nulls rest) :
      Term ts ⟨column, direction, nulls⟩ rest

/-- `order := [ ORDER BY term { , term } ]` -/
inductive OrderClause : Terminals → List SortTerm → Terminals → Prop
  | absent {rest} : OrderClause rest [] rest
  | orderBy {ts terms rest} (list : Listed Term ts terms rest) :
      OrderClause (.sign .ORDER :: .sign .BY :: ts) terms rest

/-- `limit := [ LIMIT number [ OFFSET number ] ]` -/
inductive LimitClause : Terminals → Limit → Terminals → Prop
  | absent {rest} : LimitClause rest {} rest
  | limit {number rest} {count : UInt64} (hcount : count.toNat = number) :
      LimitClause (.sign .LIMIT :: .sign (.number number) :: rest) { limit := some count } rest
  | offset {number skipped rest} {count offset : UInt64} (hcount : count.toNat = number)
      (hoffset : offset.toNat = skipped) :
      LimitClause
        (.sign .LIMIT :: .sign (.number number) :: .sign .OFFSET :: .sign (.number skipped) :: rest)
        { limit := some count, offset := some offset } rest

/-! ## Expressions and statements -/

mutual

/-- `disjunction := conjunction { OR conjunction }` -/
inductive Disjuncts : Terminals → List Expr → Terminals → Prop
  | one {ts operands rest} (first : Conjuncts ts operands rest) :
      Disjuncts ts [.conjunction operands] rest
  | more {ts operands mid others rest} (first : Conjuncts ts operands (.sign .OR :: mid))
      (next : Disjuncts mid others rest) : Disjuncts ts (.conjunction operands :: others) rest

/-- `conjunction := negation { AND negation }` -/
inductive Conjuncts : Terminals → List Expr → Terminals → Prop
  | one {ts operand rest} (first : Negation ts operand rest) : Conjuncts ts [operand] rest
  | more {ts operand mid others rest} (first : Negation ts operand (.sign .AND :: mid))
      (next : Conjuncts mid others rest) : Conjuncts ts (operand :: others) rest

/-- `negation := NOT negation | predicate` -/
inductive Negation : Terminals → Expr → Terminals → Prop
  | not {ts operand rest} (inner : Negation ts operand rest) :
      Negation (.sign .NOT :: ts) (.not operand) rest
  | predicate {ts operand rest} (inner : Predicate ts operand rest) : Negation ts operand rest

/-- `predicate := ( disjunction ) | operand comparison operand | operand IN ( operands ) |
operand IN ( selection )` -/
inductive Predicate : Terminals → Expr → Terminals → Prop
  | group {ts operands rest} (inner : Disjuncts ts operands (.sign .closing :: rest)) :
      Predicate (.sign .opening :: ts) (.group (.disjunction operands)) rest
  | compare {ts left comparison mid right rest}
      (first : Operand ts left (.sign (.comparison comparison) :: mid))
      (second : Operand mid right rest) : Predicate ts (.compare left comparison right) rest
  | inList {ts operand mid items rest}
      (first : Operand ts operand (.sign .IN :: .sign .opening :: mid))
      (list : Listed Operand mid items (.sign .closing :: rest)) :
      Predicate ts (.inList operand items) rest
  | inSelect {ts operand mid select rest}
      (first : Operand ts operand (.sign .IN :: .sign .opening :: mid))
      (inner : Selection mid select (.sign .closing :: rest)) :
      Predicate ts (.inSelect operand select) rest

/-- `condition := [ WHERE disjunction ]` -/
inductive Condition : Terminals → Option Expr → Terminals → Prop
  | absent {rest} : Condition rest none rest
  | holds {ts operands rest} (inner : Disjuncts ts operands rest) :
      Condition (.sign .WHERE :: ts) (some (.disjunction operands)) rest

/-- `selection := SELECT results FROM name condition order limit` -/
inductive Selection : Terminals → Select → Terminals → Prop
  | select {ts list table afterTable condition afterCondition order afterOrder limit rest}
      (results : Results ts list (.sign .FROM :: .sign (.name table) :: afterTable))
      (holds : Condition afterTable condition afterCondition)
      (sorted : OrderClause afterCondition order afterOrder)
      (limited : LimitClause afterOrder limit rest) :
      Selection (.sign .SELECT :: ts) ⟨list, table, condition, order, limit⟩ rest

end

/-- `tuple := ( operand { , operand } )` -/
inductive Tuple : Terminals → List Expr → Terminals → Prop
  | tuple {ts cells rest} (list : Listed Operand ts cells (.sign .closing :: rest)) :
      Tuple (.sign .opening :: ts) cells rest

/-- `insertion := INSERT INTO name ( name { , name } ) VALUES tuple { , tuple }` -/
inductive Insertion : Terminals → Insert → Terminals → Prop
  | insert {table ts columns mid rows rest}
      (names : Listed Name ts columns (.sign .closing :: .sign .VALUES :: mid))
      (tuples : Listed Tuple mid rows rest) :
      Insertion
        (.sign .INSERT :: .sign .INTO :: .sign (.name table) :: .sign .opening :: ts)
        ⟨table, columns, rows⟩ rest

/-! ## What comes first -/

/-- A list begins with an item. -/
theorem Listed.first {α : Type} {Item : Terminals → α → Terminals → Prop} {ts rest : Terminals}
    {items : List α} (h : Listed Item ts items rest) : ∃ a mid, Item ts a mid := by
  cases h with
  | one first => exact ⟨_, _, first⟩
  | more first next => exact ⟨_, _, first⟩

/-- Whether terminals begin as an operand does, with a name or a parameter. -/
def BeginsOperand : Terminals → Prop
  | .sign (.name _) :: _ => True
  | .param _ :: _ => True
  | _ => False

/-- An operand begins as operands do. -/
theorem Operand.begins {ts rest : Terminals} {operand : Expr} (h : Operand ts operand rest) :
    BeginsOperand ts := by
  cases h with
  | column ref =>
    cases ref
    trivial
  | param => trivial

/-- A predicate begins with a parenthesis or an operand. -/
theorem Predicate.begins {ts rest : Terminals} {operand : Expr} (h : Predicate ts operand rest) :
    ts.head? = some (.sign .opening) ∨ BeginsOperand ts := by
  cases h with
  | group => exact .inl rfl
  | compare first => exact .inr first.begins
  | inList first => exact .inr first.begins
  | inSelect first => exact .inr first.begins

/-! ## What may follow -/

/-- Terminals that are at an end, or go on with one of some signs. -/
def Follow (signs : List Sign) : Terminals → Prop
  | [] => True
  | .sign sign :: _ => sign ∈ signs
  | .param _ :: _ => False

/-- What may follow a selection. -/
def afterSelection : List Sign := [.closing]

/-- What may follow an order. -/
def afterOrder : List Sign := .LIMIT :: afterSelection

/-- What may follow a condition. -/
def afterCondition : List Sign := .ORDER :: afterOrder

/-- What may follow a conjunction. -/
def afterConjunction : List Sign := .OR :: afterCondition

/-- Terminals that go on with a sign go on with one of those that may follow. -/
theorem Follow.mem {signs : List Sign} {sign : Sign} {rest : Terminals}
    (h : Follow signs (.sign sign :: rest)) : sign ∈ signs := h

theorem Follow.of_mem {signs : List Sign} {sign : Sign} (h : sign ∈ signs) (rest : Terminals) :
    Follow signs (.sign sign :: rest) := h

/-- What follows one of some signs follows one of more. -/
theorem Follow.mono {signs others : List Sign} (h : signs ⊆ others) {rest : Terminals}
    (hrest : Follow signs rest) : Follow others rest := by
  match rest, hrest with
  | [], _ => trivial
  | .sign _ :: _, hrest => exact h hrest

/-- A limit that may be left out is followed by what follows it, or begins with its word. -/
theorem LimitClause.follow {ts rest : Terminals} {limit : Limit} (h : LimitClause ts limit rest)
    (hrest : Follow afterSelection rest) : Follow afterOrder ts := by
  cases h with
  | absent => exact hrest.mono (List.subset_cons_self _ _)
  | limit => exact List.mem_cons_self
  | offset => exact List.mem_cons_self

/-- An order or what may follow it can follow a condition. -/
theorem OrderClause.follow {ts rest : Terminals} {order : List SortTerm}
    (h : OrderClause ts order rest) (hrest : Follow afterOrder rest) :
    Follow afterCondition ts := by
  cases h with
  | absent => exact hrest.mono (List.subset_cons_self _ _)
  | orderBy => exact List.mem_cons_self

/-! ## Unambiguity -/

section Unique

variable {ts rest rest' : Terminals}

theorem Name.unique {a b : String} (h : Name ts a rest) (h' : Name ts b rest') :
    a = b ∧ rest = rest' := by
  cases h
  cases h'
  exact ⟨rfl, rfl⟩

theorem ColumnRef.unique {a b : Column} (h : ColumnRef ts a rest) (h' : ColumnRef ts b rest') :
    a = b ∧ rest = rest' := by
  cases h
  cases h'
  exact ⟨rfl, rfl⟩

theorem Operand.unique {a b : Expr} (h : Operand ts a rest) (h' : Operand ts b rest') :
    a = b ∧ rest = rest' := by
  cases h with
  | param =>
    cases h' with
    | param => exact ⟨rfl, rfl⟩
    | column ref => cases ref
  | column ref =>
    cases h' with
    | param => cases ref
    | column ref' =>
      obtain ⟨rfl, rfl⟩ := ref.unique ref'
      exact ⟨rfl, rfl⟩

theorem Direction.unique {a b : SortDirection} (h : Direction ts a rest)
    (h' : Direction ts b rest') : a = b ∧ rest = rest' := by
  cases h <;> cases h' <;> exact ⟨rfl, rfl⟩

/-- Whether there is a place for nulls shows in what follows. -/
theorem Nulls.unique {a b : Option NullsOrder} (h : Nulls ts a rest) (h' : Nulls ts b rest')
    (hrest : Follow (.comma :: afterOrder) rest) (hrest' : Follow (.comma :: afterOrder) rest') :
    a = b ∧ rest = rest' := by
  cases h <;> cases h'
  case absent.absent => exact ⟨rfl, rfl⟩
  case first.first => exact ⟨rfl, rfl⟩
  case last.last => exact ⟨rfl, rfl⟩
  case absent.first => exact absurd hrest.mem (by decide)
  case absent.last => exact absurd hrest.mem (by decide)
  case first.absent => exact absurd hrest'.mem (by decide)
  case last.absent => exact absurd hrest'.mem (by decide)

theorem Term.unique {a b : SortTerm} (h : Term ts a rest) (h' : Term ts b rest')
    (hrest : Follow (.comma :: afterOrder) rest) (hrest' : Follow (.comma :: afterOrder) rest') :
    a = b ∧ rest = rest' := by
  obtain ⟨ref, way, place⟩ := h
  obtain ⟨ref', way', place'⟩ := h'
  obtain ⟨rfl, rfl⟩ := ref.unique ref'
  obtain ⟨rfl, rfl⟩ := way.unique way'
  obtain ⟨rfl, rfl⟩ := place.unique place' hrest hrest'
  exact ⟨rfl, rfl⟩

/-- **A list of unambiguous items is unambiguous**, where no comma may follow it. -/
theorem Listed.unique {α : Type} {Item : Terminals → α → Terminals → Prop} (signs : List Sign)
    (hitem : ∀ {ts rest rest' a b}, Item ts a rest → Item ts b rest' →
      Follow (.comma :: signs) rest → Follow (.comma :: signs) rest' → a = b ∧ rest = rest')
    (hcomma : .comma ∉ signs) {items others : List α} (h : Listed Item ts items rest)
    (h' : Listed Item ts others rest') (hrest : Follow signs rest) (hrest' : Follow signs rest') :
    items = others ∧ rest = rest' := by
  have hmono : signs ⊆ .comma :: signs := List.subset_cons_self _ _
  induction h generalizing others with
  | one first =>
    cases h' with
    | one first' =>
      obtain ⟨rfl, rfl⟩ := hitem first first' (hrest.mono hmono) (hrest'.mono hmono)
      exact ⟨rfl, rfl⟩
    | more first' next' =>
      obtain ⟨-, rfl⟩ := hitem first first' (hrest.mono hmono) List.mem_cons_self
      exact absurd hrest hcomma
  | more first next ih =>
    cases h' with
    | one first' =>
      obtain ⟨-, rfl⟩ := hitem first first' List.mem_cons_self (hrest'.mono hmono)
      exact absurd hrest' hcomma
    | more first' next' =>
      obtain ⟨rfl, hmid⟩ := hitem first first' List.mem_cons_self List.mem_cons_self
      cases hmid
      obtain ⟨rfl, rfl⟩ := ih next' hrest
      exact ⟨rfl, rfl⟩

/-- A list of unambiguous items ends with the parenthesis that closes it. -/
theorem Listed.unique_closed {α : Type} {Item : Terminals → α → Terminals → Prop}
    (hitem : ∀ {ts rest rest' a b}, Item ts a rest → Item ts b rest' → a = b ∧ rest = rest')
    {items others : List α} (h : Listed Item ts items (.sign .closing :: rest))
    (h' : Listed Item ts others (.sign .closing :: rest')) : items = others ∧ rest = rest' := by
  have hcomma : Sign.comma ∉ [Sign.closing] := by decide
  have hlists : items = others
      ∧ (.sign .closing :: rest : Terminals) = .sign .closing :: rest' := by
    refine Listed.unique [.closing] ?_ hcomma h h' List.mem_cons_self List.mem_cons_self
    exact fun first second _ _ => hitem first second
  exact ⟨hlists.1, (List.cons.inj hlists.2).2⟩

/-- A select list is read in one way, if what follows it is no comma. -/
theorem Results.unique {a b : SelectList} (signs : List Sign) (hcomma : .comma ∉ signs)
    (h : Results ts a rest) (h' : Results ts b rest') (hrest : Follow signs rest)
    (hrest' : Follow signs rest') : a = b ∧ rest = rest' := by
  cases h with
  | columns list =>
    cases h' with
    | columns list' =>
      obtain ⟨rfl, rfl⟩ := Listed.unique signs (fun first second _ _ => first.unique second) hcomma
        list list' hrest hrest'
      exact ⟨rfl, rfl⟩
    | star => exact nomatch list.first
  | star =>
    cases h' with
    | columns list' => exact nomatch list'.first
    | star => exact ⟨rfl, rfl⟩

/-- An order is read in one way, if no other term can follow. -/
theorem OrderClause.unique {a b : List SortTerm} (h : OrderClause ts a rest)
    (h' : OrderClause ts b rest') (hrest : Follow afterOrder rest)
    (hrest' : Follow afterOrder rest') : a = b ∧ rest = rest' := by
  cases h with
  | absent =>
    cases h' with
    | absent => exact ⟨rfl, rfl⟩
    | orderBy => exact absurd hrest.mem (by decide)
  | orderBy list =>
    cases h' with
    | absent => exact absurd hrest'.mem (by decide)
    | orderBy list' =>
      have hcomma : Sign.comma ∉ afterOrder := by decide
      exact Listed.unique afterOrder (fun first second => first.unique second) hcomma list list'
        hrest hrest'

/-- A limit is read in one way, if no other part can follow. -/
theorem LimitClause.unique {a b : Limit} (h : LimitClause ts a rest) (h' : LimitClause ts b rest')
    (hrest : Follow afterSelection rest) (hrest' : Follow afterSelection rest') :
    a = b ∧ rest = rest' := by
  cases h with
  | absent =>
    cases h' with
    | absent => exact ⟨rfl, rfl⟩
    | limit => exact absurd hrest.mem (by decide)
    | offset => exact absurd hrest.mem (by decide)
  | limit hcount =>
    cases h' with
    | absent => exact absurd hrest'.mem (by decide)
    | limit hcount' =>
      obtain rfl := UInt64.toNat_inj.mp (hcount.trans hcount'.symm)
      exact ⟨rfl, rfl⟩
    | offset => exact absurd hrest.mem (by decide)
  | offset hcount hoffset =>
    cases h' with
    | absent => exact absurd hrest'.mem (by decide)
    | limit => exact absurd hrest'.mem (by decide)
    | offset hcount' hoffset' =>
      obtain rfl := UInt64.toNat_inj.mp (hcount.trans hcount'.symm)
      obtain rfl := UInt64.toNat_inj.mp (hoffset.trans hoffset'.symm)
      exact ⟨rfl, rfl⟩

end Unique

mutual

theorem Disjuncts.unique : ∀ {ts rest rest' : Terminals} {a b : List Expr},
    Disjuncts ts a rest → Disjuncts ts b rest' → Follow afterCondition rest →
      Follow afterCondition rest' → a = b ∧ rest = rest'
  | _, _, _, _, _, .one first, .one first', hrest, hrest' => by
      obtain ⟨rfl, rfl⟩ := first.unique first' (hrest.mono (List.subset_cons_self _ _))
        (hrest'.mono (List.subset_cons_self _ _))
      exact ⟨rfl, rfl⟩
  | _, _, _, _, _, .one first, .more first' _, hrest, _ => by
      obtain ⟨-, rfl⟩ := first.unique first' (hrest.mono (List.subset_cons_self _ _))
        List.mem_cons_self
      exact absurd hrest.mem (by decide)
  | _, _, _, _, _, .more first _, .one first', _, hrest' => by
      obtain ⟨-, rfl⟩ := first.unique first' List.mem_cons_self
        (hrest'.mono (List.subset_cons_self _ _))
      exact absurd hrest'.mem (by decide)
  | _, _, _, _, _, .more first next, .more first' next', hrest, hrest' => by
      obtain ⟨rfl, hmid⟩ := first.unique first' List.mem_cons_self List.mem_cons_self
      cases hmid
      obtain ⟨rfl, rfl⟩ := next.unique next' hrest hrest'
      exact ⟨rfl, rfl⟩
termination_by structural _ _ _ _ _ h => h

theorem Conjuncts.unique : ∀ {ts rest rest' : Terminals} {a b : List Expr},
    Conjuncts ts a rest → Conjuncts ts b rest' → Follow afterConjunction rest →
      Follow afterConjunction rest' → a = b ∧ rest = rest'
  | _, _, _, _, _, .one first, .one first', _, _ => by
      obtain ⟨rfl, rfl⟩ := first.unique first'
      exact ⟨rfl, rfl⟩
  | _, _, _, _, _, .one first, .more first' _, hrest, _ => by
      obtain ⟨-, rfl⟩ := first.unique first'
      exact absurd hrest.mem (by decide)
  | _, _, _, _, _, .more first _, .one first', _, hrest' => by
      obtain ⟨-, rfl⟩ := first.unique first'
      exact absurd hrest'.mem (by decide)
  | _, _, _, _, _, .more first next, .more first' next', hrest, hrest' => by
      obtain ⟨rfl, hmid⟩ := first.unique first'
      cases hmid
      obtain ⟨rfl, rfl⟩ := next.unique next' hrest hrest'
      exact ⟨rfl, rfl⟩
termination_by structural _ _ _ _ _ h => h

/-- A negation ends where it ends, whatever follows. -/
theorem Negation.unique : ∀ {ts rest rest' : Terminals} {a b : Expr},
    Negation ts a rest → Negation ts b rest' → a = b ∧ rest = rest'
  | _, _, _, _, _, .not inner, .not inner' => by
      obtain ⟨rfl, rfl⟩ := inner.unique inner'
      exact ⟨rfl, rfl⟩
  | _, _, _, _, _, .predicate inner, .predicate inner' => inner.unique inner'
  | _, _, _, _, _, .not _, .predicate inner => inner.begins.elim nofun nofun
  | _, _, _, _, _, .predicate inner, .not _ => inner.begins.elim nofun nofun
termination_by structural _ _ _ _ _ h => h

theorem Predicate.unique : ∀ {ts rest rest' : Terminals} {a b : Expr},
    Predicate ts a rest → Predicate ts b rest' → a = b ∧ rest = rest'
  | _, _, _, _, _, .group inner, .group inner' => by
      obtain ⟨rfl, htail⟩ := inner.unique inner' (.of_mem (by decide) _) (.of_mem (by decide) _)
      cases htail
      exact ⟨rfl, rfl⟩
  | _, _, _, _, _, .compare first second, .compare first' second' => by
      obtain ⟨rfl, hmid⟩ := first.unique first'
      cases hmid
      obtain ⟨rfl, rfl⟩ := second.unique second'
      exact ⟨rfl, rfl⟩
  | _, _, _, _, _, .inList first list, .inList first' list' => by
      obtain ⟨rfl, hmid⟩ := first.unique first'
      cases hmid
      obtain ⟨rfl, rfl⟩ := Listed.unique_closed (fun first second => first.unique second) list list'
      exact ⟨rfl, rfl⟩
  | _, _, _, _, _, .inSelect first inner, .inSelect first' inner' => by
      obtain ⟨rfl, hmid⟩ := first.unique first'
      cases hmid
      obtain ⟨rfl, htail⟩ := inner.unique inner' (.of_mem (by decide) _) (.of_mem (by decide) _)
      cases htail
      exact ⟨rfl, rfl⟩
  | _, _, _, _, _, .group _, .compare first _ => nomatch first.begins
  | _, _, _, _, _, .group _, .inList first _ => nomatch first.begins
  | _, _, _, _, _, .group _, .inSelect first _ => nomatch first.begins
  | _, _, _, _, _, .compare first _, .group _ => nomatch first.begins
  | _, _, _, _, _, .inList first _, .group _ => nomatch first.begins
  | _, _, _, _, _, .inSelect first _, .group _ => nomatch first.begins
  | _, _, _, _, _, .compare first _, .inList first' _ => nomatch (first.unique first').2
  | _, _, _, _, _, .compare first _, .inSelect first' _ => nomatch (first.unique first').2
  | _, _, _, _, _, .inList first _, .compare first' _ => nomatch (first.unique first').2
  | _, _, _, _, _, .inSelect first _, .compare first' _ => nomatch (first.unique first').2
  | _, _, _, _, _, .inList first list, .inSelect first' inner => by
      obtain ⟨-, hmid⟩ := first.unique first'
      cases hmid
      cases inner
      obtain ⟨_, _, item⟩ := list.first
      exact nomatch item.begins
  | _, _, _, _, _, .inSelect first inner, .inList first' list => by
      obtain ⟨-, hmid⟩ := first.unique first'
      cases hmid
      cases inner
      obtain ⟨_, _, item⟩ := list.first
      exact nomatch item.begins
termination_by structural _ _ _ _ _ h => h

/-- A condition is read in one way. -/
theorem Condition.unique : ∀ {ts rest rest' : Terminals} {a b : Option Expr},
    Condition ts a rest → Condition ts b rest' → Follow afterCondition rest →
      Follow afterCondition rest' → a = b ∧ rest = rest'
  | _, _, _, _, _, .absent, .absent, _, _ => ⟨rfl, rfl⟩
  | _, _, _, _, _, .holds inner, .holds inner', hrest, hrest' => by
      obtain ⟨rfl, rfl⟩ := inner.unique inner' hrest hrest'
      exact ⟨rfl, rfl⟩
  | _, _, _, _, _, .absent, .holds _, hrest, _ => absurd hrest.mem (by decide)
  | _, _, _, _, _, .holds _, .absent, _, hrest' => absurd hrest'.mem (by decide)
termination_by structural _ _ _ _ _ h => h

/-- **Selections are unambiguous** — a text spells at most one, where it ends or its parenthesis
closes. -/
theorem Selection.unique : ∀ {ts rest rest' : Terminals} {a b : Select},
    Selection ts a rest → Selection ts b rest' → Follow afterSelection rest →
      Follow afterSelection rest' → a = b ∧ rest = rest'
  | _, _, _, _, _, .select results holds sorted limited, .select results' holds' sorted' limited',
    hrest, hrest' => by
      obtain ⟨rfl, hmid⟩ := Results.unique [.FROM] (by decide) results results'
        List.mem_cons_self List.mem_cons_self
      cases hmid
      have hsorted := sorted.follow (limited.follow hrest)
      have hsorted' := sorted'.follow (limited'.follow hrest')
      obtain ⟨rfl, rfl⟩ := holds.unique holds' hsorted hsorted'
      obtain ⟨rfl, rfl⟩ := sorted.unique sorted' (limited.follow hrest) (limited'.follow hrest')
      obtain ⟨rfl, rfl⟩ := limited.unique limited' hrest hrest'
      exact ⟨rfl, rfl⟩
termination_by structural _ _ _ _ _ h => h

end

theorem Tuple.unique {ts rest rest' : Terminals} {a b : List Expr} (h : Tuple ts a rest)
    (h' : Tuple ts b rest') : a = b ∧ rest = rest' := by
  obtain ⟨list⟩ := h
  obtain ⟨list'⟩ := h'
  exact Listed.unique_closed (fun first second => first.unique second) list list'

/-- **Insertions are unambiguous.** -/
theorem Insertion.unique {ts : Terminals} {a b : Insert} (h : Insertion ts a [])
    (h' : Insertion ts b []) : a = b := by
  obtain ⟨names, tuples⟩ := h
  obtain ⟨names', tuples'⟩ := h'
  obtain ⟨rfl, hmid⟩ := Listed.unique_closed (fun first second => first.unique second) names
    names'
  cases hmid
  have hcomma : Sign.comma ∉ ([] : List Sign) := List.not_mem_nil
  obtain ⟨rfl, -⟩ := Listed.unique [] (fun first second _ _ => first.unique second) hcomma
    tuples tuples' trivial trivial
  rfl

end Grammar

end EntityQuery.Sql
