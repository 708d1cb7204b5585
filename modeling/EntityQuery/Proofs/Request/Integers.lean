import EntityQuery.Proofs.Filter.Sites
import EntityQuery.Proofs.Json.Integer
import EntityQuery.Request

/-!
# Proofs/Request/Integers — integers are read exactly, or refused

A literal of a document is an integer of 64 bits where it fits, with a sign below zero and without
one above (`IntegerLiteral.value_iff_of_fits`).  A scalar has 64 bits with a sign, so what is left
are the integers that need the sixty-fourth bit: they are refused wherever a scalar is read.

`integers_read_exactly` says so of scalars by themselves, and of filters and rows at every site.
Two inputs.  What a text spells is settled: integers fit, and merging leaves no key twice
(`Json.Grammar.isSettled_of_value`).  And filters and rows hold the scalars of their sites, one for
one (`Filter.reads_sites`, `Row.reads_sites`).

Literals that do not fit are doubles, if one holds them (`IntegerLiteral.value?_of_not_fits`), so by
themselves they are taken as they should exactly where none does (`IntegerLiteral.isTaken_iff`).
-/

namespace EntityQuery

open Json (ReadsAs)
open Json.Grammar (Value ValueAs Spells)

/-! ## Texts are settled -/

namespace Json.Grammar

mutual

/-- **What a text spells is settled** once its repeated keys are merged. -/
theorem isSettled_of_value : ∀ {cs rest : List Char} {value : Json}, Value cs value rest →
    value.settle.IsSettled
  | _, _, _, .blank _ inner => isSettled_of_value inner
  | _, _, _, .text _ => trivial
  | _, _, value, .scalar ⟨_, _, _, hscan⟩ rfl => by
      have hnode := Token.isScalarNode_of_scan hscan
      cases value with
      | null | bool _ | str _ => trivial
      | num number =>
        cases hnode with
        | real => trivial
        | integer hfits => exact hfits
      | arr items => exact nomatch hnode
      | obj members => exact nomatch hnode
  | _, _, _, .emptyArr _ => trivial
  | _, _, _, .arr inner => settledItems_of_items inner
  | _, _, _, .emptyObj _ => ⟨List.nodup_nil, trivial⟩
  | _, _, .obj members, .obj inner => by
      have hmembers := isSettled_of_members inner
      exact ⟨Entries.nodup_names_ofList (settleMembers members), settledMembers_iff.mpr
        fun member hmember => hmembers member (Entries.mem_of_mem_ofList hmember)⟩
termination_by structural _ _ _ h => h

theorem settledItems_of_items : ∀ {cs rest : List Char} {items : List Json}, Items cs items rest →
    SettledItems (settleItems items)
  | _, _, _, .one first _ => ⟨isSettled_of_value first, trivial⟩
  | _, _, _, .more first _ next => ⟨isSettled_of_value first, settledItems_of_items next⟩
termination_by structural _ _ _ h => h

/-- Repeated keys among the members are not merged yet. -/
theorem isSettled_of_members : ∀ {cs rest : List Char} {members : List (String × Json)},
    Members cs members rest → ∀ member ∈ settleMembers members, member.2.IsSettled
  | _, _, _, .one _ first _ => List.forall_mem_singleton.mpr (isSettled_of_value first)
  | _, _, _, .more _ first _ others =>
      List.forall_mem_cons.mpr ⟨isSettled_of_value first, isSettled_of_members others⟩
termination_by structural _ _ _ h => h

end

theorem exists_value_of_items : ∀ {cs rest : List Char} {items : List Json}, Items cs items rest →
    ∀ item ∈ items, ∃ start after, Value start item after
  | _, _, _, .one first _ => List.forall_mem_singleton.mpr ⟨_, _, first⟩
  | _, _, _, .more first _ next =>
      List.forall_mem_cons.mpr ⟨⟨_, _, first⟩, exists_value_of_items next⟩
termination_by structural _ _ _ h => h

/-- The members of an object are settled one by one, before they are merged. -/
theorem settled_of_obj : ∀ {cs rest : List Char} {value : Json}, Value cs value rest →
    ∀ {members : List (String × Json)}, value = .obj members →
      ∀ member ∈ settleMembers members, member.2.IsSettled
  | _, _, _, .blank _ inner, _, heq => settled_of_obj inner heq
  | _, _, _, .scalar ⟨_, _, _, hscan⟩ rfl, _, heq => by
      subst heq
      exact nomatch Token.isScalarNode_of_scan hscan
  | _, _, _, .emptyObj _, _, heq => by
      cases heq
      exact nofun
  | _, _, _, .obj inner, _, heq => by
      cases heq
      exact isSettled_of_members inner
termination_by structural _ _ _ h => h

/-- The items of an array are values of the text. -/
theorem exists_value_of_arr : ∀ {cs rest : List Char} {value : Json}, Value cs value rest →
    ∀ {items : List Json}, value = .arr items →
      ∀ item ∈ items, ∃ start after, Value start item after
  | _, _, _, .blank _ inner, _, heq => exists_value_of_arr inner heq
  | _, _, _, .scalar ⟨_, _, _, hscan⟩ rfl, _, heq => by
      subst heq
      exact nomatch Token.isScalarNode_of_scan hscan
  | _, _, _, .emptyArr _, _, heq => by
      cases heq
      exact nofun
  | _, _, _, .arr inner, _, heq => by
      cases heq
      exact exists_value_of_items inner
termination_by structural _ _ _ h => h

end Json.Grammar

/-! ## Rows -/

/-- The scalar of a cell, unless it is something else. -/
def Json.cellSites : Json → List Json
  | .arr _ => []
  | .obj members => if Key.marksScalar members then [.obj members] else []
  | scalar => [scalar]

/-- The scalars that are written in a row, those of repeated keys included. -/
def Json.writtenCells : Json → List Json
  | .obj members => (settleMembers members).flatMap fun member => member.2.cellSites
  | _ => []

/-- The scalars of a row once its repeated keys are merged. -/
def Json.rowSites : Json → List Json
  | .obj members =>
      (Entries.ofList (settleMembers members)).flatMap fun member => member.2.cellSites
  | _ => []

/-- The scalar of a cell. -/
def Cell.leaves : Cell → List Scalar
  | .scalar value => [value]
  | .other _ => []

/-- The scalars of a row. -/
def Row.leaves (row : Row) : List Scalar :=
  row.flatMap fun entry => entry.2.leaves

namespace Cell

/-- A cell is read off the tree of a value as off the value, its repeated keys merged. -/
theorem ofNode_ofJson (value : Json) : ofNode (Node.ofJson value) = ofJson value.settle := by
  rw [ofNode, Node.value_ofJson]
  rfl

/-- A scalar is read off its own site. -/
theorem reads_scalar {value : Json} (hsites : value.cellSites = [value])
    (hsettled : value.IsSettled) {cell : Cell}
    (h : (Scalar.ofJson value).map Cell.scalar = .ok cell) :
    List.Forall₂ ReadsAs value.cellSites cell.leaves := by
  obtain ⟨scalar, hread, rfl⟩ := Except.map_eq_ok.mp h
  rw [hsites]
  exact Scalar.reads_singleton ⟨hsettled, hread⟩

/-- A cell holds what stands at its site. -/
theorem reads_sites {value : Json} (hsettled : value.IsSettled) {cell : Cell}
    (h : ofJson value = .ok cell) : List.Forall₂ ReadsAs value.cellSites cell.leaves := by
  cases value with
  | arr items =>
    obtain rfl := Except.ok.inj h
    exact .nil
  | obj members =>
    by_cases hscalar : Key.marksScalar members = true
    · have hsites : (Json.obj members).cellSites = [.obj members] := if_pos hscalar
      rw [ofJson, if_pos hscalar] at h
      exact reads_scalar hsites hsettled h
    · have hsites : (Json.obj members).cellSites = [] := if_neg hscalar
      rw [ofJson, if_neg hscalar] at h
      obtain rfl := Except.ok.inj h
      rw [hsites]
      exact .nil
  | _ => exact reads_scalar rfl hsettled h

/-- A cell is read if its site spells a scalar. -/
theorem exists_ofJson_eq_ok {value : Json} (hsettled : value.IsSettled) :
    (∃ cell, ofJson value = .ok cell)
      ↔ ∀ site ∈ value.cellSites, Filter.Grammar.IsScalar site := by
  have hscalar : (∃ cell, (Scalar.ofJson value).map Cell.scalar = .ok cell)
      ↔ ∀ site ∈ [value], Filter.Grammar.IsScalar site := by
    rw [List.forall_mem_singleton, Except.exists_map_eq_ok]
    exact Scalar.exists_ofJson_eq_ok hsettled
  cases value with
  | arr items => exact iff_of_true ⟨_, rfl⟩ (List.forall_mem_nil _)
  | obj members =>
    rw [ofJson, Json.cellSites]
    split
    · exact hscalar
    · exact iff_of_true ⟨_, rfl⟩ (List.forall_mem_nil _)
  | _ => exact hscalar

end Cell

namespace Row

/-- A row is read cell by cell, and then its repeated keys are merged. -/
theorem ofNode_ofJson (members : List (String × Json)) :
    ofNode (Node.ofJson (.obj members))
      = (Entries.traverse (fun _ => Cell.ofJson) (Json.settleMembers members)).map
          Entries.ofList := by
  rw [ofNode, Node.readEntries_ofJson, Entries.traverse_eq_mapM, Json.settleMembers_eq_mapValues,
    Entries.mapValues, List.mapM_map]
  simp only [Cell.ofNode_ofJson]
  rfl

/-- Only objects are rows. -/
theorem isObj_of_ofNode {value : Json} {row : Row} (h : ofNode (Node.ofJson value) = .ok row) :
    ∃ members, value = .obj members := by
  cases value with
  | obj members => exact ⟨members, rfl⟩
  | _ => exact nomatch h

/-- Cells hold what stands at the sites of their members. -/
theorem reads_cells {members : List (String × Json)}
    (hsettled : ∀ member ∈ members, member.2.IsSettled) {cells : Entries Cell}
    (h : Entries.Related (fun json cell => Cell.ofJson json = .ok cell) members cells) :
    List.Forall₂ ReadsAs (members.flatMap fun member => member.2.cellSites) (Row.leaves cells) :=
  List.rel_flatMap ((List.forall₂_and_left members cells).mpr ⟨hsettled, h⟩)
    fun _ _ hcell => Cell.reads_sites hcell.1 hcell.2.2

variable {members : List (String × Json)}
  (hsettled : ∀ member ∈ Json.settleMembers members, member.2.IsSettled)

include hsettled

/-- **A row that is read holds what stands at its sites**, in order and one for one. -/
theorem reads_sites {row : Row} (h : ofNode (Node.ofJson (.obj members)) = .ok row) :
    List.Forall₂ ReadsAs (Json.obj members).rowSites row.leaves := by
  rw [ofNode_ofJson] at h
  obtain ⟨cells, hcells, rfl⟩ := Except.map_eq_ok.mp h
  exact reads_cells (fun member hmember => hsettled member (Entries.mem_of_mem_ofList hmember))
    (Entries.Related.ofList (Entries.traverse_eq_ok.mp hcells))

/-- What is merged away is read as well. -/
theorem reads_written {row : Row} (h : ofNode (Node.ofJson (.obj members)) = .ok row) :
    ∃ scalars, List.Forall₂ ReadsAs (Json.obj members).writtenCells scalars := by
  rw [ofNode_ofJson] at h
  obtain ⟨cells, hcells, -⟩ := Except.map_eq_ok.mp h
  exact ⟨Row.leaves cells, reads_cells hsettled (Entries.traverse_eq_ok.mp hcells)⟩

/-- A row is read if all its cells are. -/
theorem exists_ofNode_eq_ok : (∃ row, ofNode (Node.ofJson (.obj members)) = .ok row)
    ↔ ∀ site ∈ (Json.obj members).writtenCells, Filter.Grammar.IsScalar site := by
  rw [ofNode_ofJson, Except.exists_map_eq_ok, Entries.traverse_eq_mapM, Except.exists_mapM_eq_ok,
    Json.writtenCells, List.forall_mem_flatMap]
  exact forall₂_congr fun member hmember =>
    Except.exists_map_eq_ok.trans (Cell.exists_ofJson_eq_ok (hsettled member hmember))

end Row

/-! ## Integers among the sites -/

/-- A scalar is the integer of its site, and is bound as that integer. -/
def Json.IsExact (site : Json) (scalar : Scalar) : Prop :=
  ∀ n, site = .num (.integer n) → ∃ m : Int64, m.toInt = n ∧ scalar = .int m
    ∧ ∀ dialect, scalar.toValue dialect = .ok (.int m)

/-- A reading takes integers exactly or refuses them: what is read holds the integers of the sites
that are `kept`, and nothing is read where one that is `written` needs the sixty-fourth bit. -/
structure TakesIntegers {ε α : Type} (reading : Except ε α) (written kept : List Json)
    (leaves : α → List Scalar) : Prop where
  exact : ∀ value, reading = .ok value → List.Forall₂ Json.IsExact kept (leaves value)
  refused : ∀ n, .num (.integer n) ∈ written → Number.signedLimit ≤ n →
    ∀ value, reading ≠ .ok value

/-- An integer that fits in 64 signed bits is read as it is. -/
theorem Scalar.ofJson_integer {n : Int} (h : n < Number.signedLimit) :
    ofJson (.num (.integer n)) = .ok (.int (Int64.ofInt n)) :=
  if_pos h

/-- An integer that does not fit in 64 signed bits is refused. -/
theorem Scalar.ofJson_integer_of_le {n : Int} (h : Number.signedLimit ≤ n) :
    ofJson (.num (.integer n)) = .error (.integerOutOfRange n) :=
  if_neg (Int.not_lt.mpr h)

/-- An integer that does not need the sixty-fourth bit is a scalar without loss. -/
theorem Scalar.toInt_ofInt {n : Int} (hlow : -Number.signedLimit ≤ n)
    (hhigh : n < Number.signedLimit) : (Int64.ofInt n).toInt = n :=
  Int64.toInt_ofInt_of_le hlow hhigh

/-- An integer that is read fits in 64 signed bits. -/
theorem Json.ReadsAs.lt {n : Int} {scalar : Scalar} (h : ReadsAs (.num (.integer n)) scalar) :
    n < Number.signedLimit := by
  by_contra hlarge
  have hrefused := Scalar.ofJson_integer_of_le (Int.not_lt.mp hlarge)
  exact nomatch hrefused.symm.trans h.2

/-- An integer that is read is read exactly. -/
theorem Json.ReadsAs.isExact {site : Json} {scalar : Scalar} (h : site.ReadsAs scalar) :
    site.IsExact scalar := by
  rintro n rfl
  obtain rfl := Except.ok.inj ((Scalar.ofJson_integer h.lt).symm.trans h.2)
  exact ⟨Int64.ofInt n, Scalar.toInt_ofInt h.1.1 h.lt, rfl, fun _ => rfl⟩

theorem Json.exists_readsAs {sites : List Json} {scalars : List Scalar}
    (h : List.Forall₂ ReadsAs sites scalars) : ∀ site ∈ sites, ∃ scalar, site.ReadsAs scalar := by
  intro site hsite
  obtain ⟨scalar, -, hread⟩ := exists_of_mem_forall₂ h site hsite
  exact ⟨scalar, hread⟩

/-- Reading takes integers exactly where it reads the sites. -/
theorem TakesIntegers.of_reads {ε α : Type} {reading : Except ε α} {written kept : List Json}
    {leaves : α → List Scalar}
    (hkept : ∀ value, reading = .ok value → List.Forall₂ ReadsAs kept (leaves value))
    (hwritten : ∀ value, reading = .ok value → ∀ site ∈ written, ∃ scalar, site.ReadsAs scalar) :
    TakesIntegers reading written kept leaves where
  exact value hvalue := (hkept value hvalue).imp fun _ _ => Json.ReadsAs.isExact
  refused n hsite hlarge value hvalue := by
    obtain ⟨scalar, hread⟩ := hwritten value hvalue _ hsite
    exact absurd hread.lt (Int.not_lt.mpr hlarge)

/-- Readings with the same results take integers alike. -/
theorem TakesIntegers.congr {ε ε' α : Type} {reading : Except ε α} {other : Except ε' α}
    {written kept : List Json} {leaves : α → List Scalar}
    (h : TakesIntegers reading written kept leaves)
    (heq : ∀ value, other = .ok value ↔ reading = .ok value) :
    TakesIntegers other written kept leaves where
  exact value hvalue := h.exact value ((heq value).mp hvalue)
  refused n hsite hlarge value hvalue := h.refused n hsite hlarge value ((heq value).mp hvalue)

/-- **A filter takes the integers of its sites exactly**, or is refused, wherever it stands in a
text. -/
theorem Filter.takesIntegers {start rest : List Char} {members : List (String × Json)}
    (h : Value start (.obj members) rest) :
    TakesIntegers (ofNode (Node.ofJson (.obj members)))
      (Json.writtenClauses members) (Json.filterSites members) leaves := by
  refine .of_reads (fun filter hfilter => ?_) fun filter hfilter => ?_
  · exact reads_sites (Json.Grammar.isSettled_of_value h) hfilter
  · obtain ⟨scalars, hscalars⟩ := reads_written (Json.Grammar.settled_of_obj h rfl) hfilter
    exact Json.exists_readsAs hscalars

/-! ## Documents -/

/-- A scalar by itself is read as its value is, and refused as a whole. -/
theorem Scalar.read_document (value : Json) :
    (⟨Node.ofJson value, none⟩ : Document).read reader
      = (ofJson value).mapError Refusal.ofWhole := by
  change ((Node.faulty (Node.ofJson value).content).mapError Refusal.atPlace >>= _) = _
  rw [Node.content_ofJson]
  change ((ofJson value).mapError Refusal.ofWhole >>= _) = _
  cases ofJson value <;> rfl

section

variable {text : String} {members : List (String × Json)} (h : Spells text (.obj members))
  (hdepth : (Json.obj members).nesting ≤ maxDepth)

include h hdepth

/-- A document is read as a filter off its members. -/
theorem Filter.read_document {filter : Filter} : (Document.ofText text).read reader = .ok filter
    ↔ ofNode (Node.ofJson (.obj members)) = .ok filter := by
  rw [Document.ofText_eq_ofJson h hdepth, Document.read_eq_ok]
  rfl

/-- Filters take integers at the sites of their document. -/
theorem Filter.takesIntegers_document : TakesIntegers ((Document.ofText text).read reader)
    (Json.writtenClauses members) (Json.filterSites members) leaves := by
  obtain ⟨rest, hvalue, -⟩ := id h
  exact (takesIntegers hvalue).congr fun _ => read_document h hdepth

/-- A filter document is accepted exactly by the grammar of filters. -/
theorem Filter.exists_read_eq_ok : (∃ filter, (Document.ofText text).read reader = .ok filter)
    ↔ (∀ member ∈ Json.settleMembers members, Grammar.IsClause member.2)
      ∧ Grammar.IsGroup (Entries.ofList (Json.settleMembers members)) := by
  obtain ⟨rest, hvalue, -⟩ := id h
  simp only [read_document h hdepth]
  exact exists_ofNode_eq_ok (Json.Grammar.settled_of_obj hvalue rfl)

end

section

variable {text : String} {items : List Json} (h : Spells text (.arr items))
  (hdepth : (Json.arr items).nesting ≤ maxDepth)

include h hdepth

/-- A document is read as rows off its items. -/
theorem Row.read_document {rows : List Row} :
    (Document.ofText text).read (.ofNode readAll) = .ok rows
      ↔ (items.mapM fun item => ofNode (Node.ofJson item)) = .ok rows := by
  rw [Document.ofText_eq_ofJson h hdepth, Document.read_eq_ok, Reader.read_ofNode, readAll,
    Node.readItems_ofJson]

/-- **Rows take the integers of their sites exactly, or are refused.** -/
theorem Row.takesIntegers : TakesIntegers ((Document.ofText text).read (.ofNode readAll))
    (items.flatMap Json.writtenCells) (items.flatMap Json.rowSites) (·.flatMap leaves) := by
  obtain ⟨rest, hvalue, -⟩ := id h
  have hitems := Json.Grammar.exists_value_of_arr hvalue rfl
  refine .of_reads (fun rows hrows => ?_) fun rows hrows site hsite => ?_
  · rw [read_document h hdepth, Except.mapM_eq_ok_iff] at hrows
    refine List.rel_flatMap ((List.forall₂_and_left items rows).mpr ⟨hitems, hrows⟩) ?_
    rintro item row ⟨⟨start, after, hitem⟩, hrow⟩
    obtain ⟨members, rfl⟩ := isObj_of_ofNode hrow
    exact reads_sites (Json.Grammar.settled_of_obj hitem rfl) hrow
  · obtain ⟨item, hitem, hsite⟩ := List.mem_flatMap.mp hsite
    obtain ⟨row, hrow⟩ := Except.exists_mapM_eq_ok.mp ⟨rows, (read_document h hdepth).mp hrows⟩
      item hitem
    obtain ⟨members, rfl⟩ := isObj_of_ofNode hrow
    obtain ⟨start, after, hvalue⟩ := hitems _ hitem
    obtain ⟨scalars, hscalars⟩ := reads_written (Json.Grammar.settled_of_obj hvalue rfl) hrow
    exact Json.exists_readsAs hscalars site hsite

/-- Rows are read if they are objects whose scalars are. -/
theorem Row.exists_read_eq_ok :
    (∃ rows, (Document.ofText text).read (.ofNode readAll) = .ok rows)
      ↔ ∀ item ∈ items, item.isObj = true
        ∧ ∀ site ∈ item.writtenCells, Filter.Grammar.IsScalar site := by
  obtain ⟨rest, hvalue, -⟩ := id h
  simp only [read_document h hdepth, Except.exists_mapM_eq_ok]
  refine forall₂_congr fun item hitem => ?_
  obtain ⟨start, after, hitem⟩ := Json.Grammar.exists_value_of_arr hvalue rfl item hitem
  by_cases hobj : item.isObj = true
  · cases item with
    | obj members =>
      rw [exists_ofNode_eq_ok (Json.Grammar.settled_of_obj hitem rfl)]
      exact (and_iff_right hobj).symm
    | _ => contradiction
  · refine iff_of_false (fun ⟨row, hrow⟩ => ?_) fun h => hobj h.1
    obtain ⟨members, rfl⟩ := isObj_of_ofNode hrow
    exact hobj rfl

end

/-- Reading takes a literal as it should: exactly where 64 bits with a sign hold its integer, and
not at all otherwise. -/
def IntegerLiteral.IsTaken {ε : Type} (literal : IntegerLiteral) (reading : Except ε Scalar) :
    Prop :=
  if -Number.signedLimit ≤ literal.value ∧ literal.value < Number.signedLimit then
    ∃ m : Int64, m.toInt = literal.value ∧ reading = .ok (.int m)
      ∧ ∀ dialect, (Scalar.int m).toValue dialect = .ok (.int m)
  else ∃ error, reading = .error error

namespace IntegerLiteral

variable (literal : IntegerLiteral)

/-- A literal that fits is taken as it should. -/
theorem isTaken_of_fits (hzero : ¬literal.IsMinusZero) (hfits : literal.Fits) (after : List Char) :
    literal.IsTaken ((⟨literal.node after, none⟩ : Document).read Scalar.reader) := by
  have hnode : literal.node after = Node.ofJson (.num (.integer literal.value)) := by
    rw [node, Numeral.node, literal.value?_of_fits hzero hfits]
    rfl
  rw [hnode, Scalar.read_document, IsTaken]
  split
  · next hrange =>
    rw [Scalar.ofJson_integer hrange.2]
    exact ⟨_, Scalar.toInt_ofInt hrange.1 hrange.2, rfl, fun _ => rfl⟩
  · next hrange =>
    have hlarge : Number.signedLimit ≤ literal.value :=
      Int.not_lt.mp fun hsmall => hrange ⟨hfits.1, hsmall⟩
    rw [Scalar.ofJson_integer_of_le hlarge]
    exact ⟨_, rfl⟩

/-- A literal that does not fit ought to be refused, and is if no double holds it. -/
theorem isTaken_of_not_fits (hfits : ¬literal.Fits) (after : List Char) :
    literal.IsTaken ((⟨literal.node after, none⟩ : Document).read Scalar.reader)
      ↔ literal.numeral.real? = none := by
  have hrange : ¬(-Number.signedLimit ≤ literal.value ∧ literal.value < Number.signedLimit) := by
    rintro ⟨hlow, hhigh⟩
    have hlimit : Number.signedLimit ≤ Number.unsignedLimit := by decide
    exact hfits ⟨hlow, Int.lt_of_lt_of_le hhigh hlimit⟩
  rw [IsTaken, if_neg hrange, node, Numeral.node,
    literal.value?_of_not_fits hfits]
  rcases hreal : literal.numeral.real? with _ | number
  · exact iff_of_true ⟨_, rfl⟩ rfl
  · obtain ⟨double, -, rfl⟩ := Option.map_eq_some_iff.mp hreal
    refine iff_of_false ?_ (Option.some_ne_none _)
    rintro ⟨error, herror⟩
    contradiction

/-- **A literal by itself is taken as it should**, unless it does not fit and is a double. -/
theorem isTaken_iff (hzero : ¬literal.IsMinusZero) (after : List Char) :
    literal.IsTaken ((⟨literal.node after, none⟩ : Document).read Scalar.reader)
      ↔ literal.Fits ∨ literal.numeral.real? = none := by
  by_cases hfits : literal.Fits
  · exact iff_of_true (literal.isTaken_of_fits hzero hfits after) (.inl hfits)
  · rw [literal.isTaken_of_not_fits hfits after, or_iff_right hfits]

end IntegerLiteral

/-- **Integers are read exactly, or refused.**

* By itself, a literal other than minus zero is taken as it should exactly if it fits 64 bits, with
  a sign below zero and without one above, or if no double holds it.
* Within a text, a literal that fits is its integer and nothing else.
* Filters, wherever they stand in a text, and rows hold the integers of their sites exactly, one for
  one and at every depth, and are refused where an integer among them needs the sixty-fourth bit.
* No other integer is a reason to refuse a document. -/
theorem integers_read_exactly (text : String) :
    (∀ literal : IntegerLiteral, ¬literal.IsMinusZero →
      (∀ before after : List Char, (∀ c ∈ before, Token.isBlank c = true) →
        (∀ c ∈ after, Token.isBlank c = true) →
        text.toList = before ++ (literal.chars ++ after) →
          (literal.IsTaken ((Document.ofText text).read Scalar.reader)
            ↔ literal.Fits ∨ literal.numeral.real? = none))
      ∧ (literal.Fits → ∀ before rest : List Char, Numeral.EndsInteger rest →
        text.toList = before ++ (literal.chars ++ rest) →
          ∀ value last, Value (literal.chars ++ rest) value last
            ↔ value = .num (.integer literal.value) ∧ last = rest))
    ∧ (∀ before start rest members, text.toList = before ++ start →
      Value start (.obj members) rest →
        TakesIntegers (Filter.ofNode (Node.ofJson (.obj members)))
          (Json.writtenClauses members) (Json.filterSites members) Filter.leaves)
    ∧ (∀ members, Spells text (.obj members) → (Json.obj members).nesting ≤ maxDepth →
      TakesIntegers ((Document.ofText text).read Filter.reader)
        (Json.writtenClauses members) (Json.filterSites members) Filter.leaves
      ∧ ((∃ filter, (Document.ofText text).read Filter.reader = .ok filter)
        ↔ (∀ member ∈ Json.settleMembers members, Filter.Grammar.IsClause member.2)
          ∧ Filter.Grammar.IsGroup (Entries.ofList (Json.settleMembers members))))
    ∧ ∀ items, Spells text (.arr items) → (Json.arr items).nesting ≤ maxDepth →
      TakesIntegers ((Document.ofText text).read (.ofNode Row.readAll))
        (items.flatMap Json.writtenCells) (items.flatMap Json.rowSites) (·.flatMap Row.leaves)
      ∧ ((∃ rows, (Document.ofText text).read (.ofNode Row.readAll) = .ok rows)
        ↔ ∀ item ∈ items, item.isObj = true
          ∧ ∀ site ∈ item.writtenCells, Filter.Grammar.IsScalar site) := by
  refine ⟨fun literal hzero => ⟨fun before after hbefore hafter htext => ?_, ?_⟩, ?_, ?_, ?_⟩
  · rw [literal.ofText_eq hbefore hafter htext]
    exact literal.isTaken_iff hzero after
  · intro hfits before rest hrest htext value last
    exact literal.value_iff_of_fits hzero hfits hrest
  · intro before start rest members hstart hvalue
    exact Filter.takesIntegers hvalue
  · intro members h hdepth
    exact ⟨Filter.takesIntegers_document h hdepth, Filter.exists_read_eq_ok h hdepth⟩
  · intro items h hdepth
    exact ⟨Row.takesIntegers h hdepth, Row.exists_read_eq_ok h hdepth⟩

/-! ### The least and the greatest integer, and one beyond -/

/-- The least integer that is a scalar. -/
def leastInteger : IntegerLiteral where
  negative := true
  digits := ['9', '2', '2', '3', '3', '7', '2', '0', '3', '6', '8', '5', '4', '7', '7', '5', '8',
    '0', '8']
  isDigit := List.all_eq_true.mp rfl
  ne_nil := nofun
  leading := by decide

/-- The greatest integer that is a scalar. -/
def greatestInteger : IntegerLiteral where
  negative := false
  digits := ['9', '2', '2', '3', '3', '7', '2', '0', '3', '6', '8', '5', '4', '7', '7', '5', '8',
    '0', '7']
  isDigit := List.all_eq_true.mp rfl
  ne_nil := nofun
  leading := by decide

/-- An object of one member, without blanks. -/
def oneMember (name : String) (value : List Char) : List Char :=
  '\x7b' :: (Quoted.chars name ++ ':' :: (value ++ ['\x7d']))

/-- A member in braces is an object. -/
theorem value_oneMember {name : String} {chars rest : List Char} {value : Json}
    (h : Value (chars ++ '\x7d' :: rest) value ('\x7d' :: rest)) :
    Value (oneMember name chars ++ rest) (.obj [(name, value)]) rest := by
  have hkey : Json.Grammar.Key (Quoted.chars name ++ ':' :: (chars ++ '\x7d' :: rest)) name
      (chars ++ '\x7d' :: rest) :=
    ⟨_, _, .refl _, Json.Grammar.lexed_quoted name _, .refl _⟩
  simpa [oneMember] using ValueAs.obj (.one hkey h (.refl _))

/-- An age is asked for that is the least or the greatest integer. -/
def extremeAges : List (String × Json) :=
  [("age", .arr [.num (.integer (-9223372036854775808)), .num (.integer 9223372036854775807)])]

/-- The ages as they are written. -/
def extremeAgesChars : List Char :=
  oneMember "age" ('[' :: (leastInteger.chars ++ ',' :: (greatestInteger.chars ++ [']'])))

/-- A row whose only cell is the greatest integer, as it is written. -/
def greatestRowChars : List Char :=
  '[' :: (oneMember "id" greatestInteger.chars ++ [']'])

theorem value_greatestInteger {rest : List Char} (hrest : Numeral.EndsInteger rest) :
    Value (greatestInteger.chars ++ rest) (.num (.integer 9223372036854775807)) rest :=
  (greatestInteger.value_iff_of_fits (by decide) (by decide) hrest).mpr ⟨rfl, rfl⟩

theorem value_extremeAges (rest : List Char) :
    Value (extremeAgesChars ++ rest) (.obj extremeAges) rest := by
  have hgreatest : Value (greatestInteger.chars ++ ']' :: '\x7d' :: rest) _ _ :=
    value_greatestInteger (Numeral.endsInteger_cons.mpr (by decide))
  have hleast : Value
      (leastInteger.chars ++ ',' :: (greatestInteger.chars ++ ']' :: '\x7d' :: rest))
      (.num (.integer (-9223372036854775808)))
      (',' :: (greatestInteger.chars ++ ']' :: '\x7d' :: rest)) :=
    (leastInteger.value_iff_of_fits (by decide) (by decide)
      (Numeral.endsInteger_cons.mpr (by decide))).mpr ⟨rfl, rfl⟩
  have hages := ValueAs.arr (.more hleast (.refl _) (.one hgreatest (.refl _)))
  exact value_oneMember (by simpa using hages)

/-- Both ends of the range are spelled. -/
theorem spells_extremeAges : Spells (.ofList extremeAgesChars) (.obj extremeAges) := by
  refine ⟨[], ?_, .refl _⟩
  rw [String.toList_ofList, ← List.append_nil extremeAgesChars]
  exact value_extremeAges []

theorem spells_greatestRow : Spells (.ofList greatestRowChars)
    (.arr [.obj [("id", .num (.integer 9223372036854775807))]]) := by
  have hends : Numeral.EndsInteger ['\x7d', ']'] := Numeral.endsInteger_cons.mpr (by decide)
  refine ⟨[], ?_, .refl _⟩
  rw [String.toList_ofList]
  exact .arr (.one (value_oneMember (value_greatestInteger hends)) (.refl _))

theorem extremeIntegers_read :
    (∃ m : Int64, m.toInt = 9223372036854775807
      ∧ (Document.ofText (.ofList greatestInteger.chars)).read Scalar.reader = .ok (.int m))
    ∧ (∃ filter, (Document.ofText (.ofList extremeAgesChars)).read Filter.reader = .ok filter
      ∧ List.Forall₂ Json.IsExact
        [.num (.integer (-9223372036854775808)), .num (.integer 9223372036854775807)]
        filter.leaves)
    ∧ (∃ rows, (Document.ofText (.ofList greatestRowChars)).read (.ofNode Row.readAll) = .ok rows
      ∧ List.Forall₂ Json.IsExact [.num (.integer 9223372036854775807)]
        (rows.flatMap Row.leaves))
    ∧ TakesIntegers (Filter.ofNode (Node.ofJson (.obj extremeAges)))
        (Json.writtenClauses extremeAges) (Json.filterSites extremeAges) Filter.leaves := by
  obtain ⟨hliterals, -, -, -⟩ := integers_read_exactly (.ofList greatestInteger.chars)
  obtain ⟨halone, -⟩ := hliterals greatestInteger (by decide)
  have htext : (String.ofList greatestInteger.chars).toList
      = [] ++ (greatestInteger.chars ++ []) := by
    rw [String.toList_ofList]
    rfl
  obtain ⟨m, hm, hscalar, -⟩ := (halone [] [] nofun nofun htext).mpr (.inl (by decide))
  obtain ⟨-, -, hfilters, -⟩ := integers_read_exactly (.ofList extremeAgesChars)
  obtain ⟨hfilter, hfilterAccepted⟩ := hfilters _ spells_extremeAges (by decide)
  obtain ⟨filter, hfilterRead⟩ := hfilterAccepted.mpr (by
    simp [extremeAges, Json.settleMembers, Json.settle, Json.settleItems,
      Filter.Grammar.IsClause, Filter.Grammar.IsGroup, Filter.Grammar.IsScalar, Entries.ofList,
      Entries.put, Key.negation])
  obtain ⟨-, -, -, hrows⟩ := integers_read_exactly (.ofList greatestRowChars)
  obtain ⟨hrows, hrowsAccepted⟩ := hrows _ spells_greatestRow (by decide)
  obtain ⟨rows, hrowsRead⟩ := hrowsAccepted.mpr (by
    simp [Json.isObj, Json.writtenCells, Json.settleMembers, Json.settle, Json.cellSites,
      Filter.Grammar.IsScalar])
  -- the same ages as the search of a request
  obtain ⟨-, hwithin, -, -⟩ :=
    integers_read_exactly (.ofList (oneMember "search" extremeAgesChars))
  have hsearch : (String.ofList (oneMember "search" extremeAgesChars)).toList
      = '\x7b' :: (Quoted.chars "search" ++ [':']) ++ (extremeAgesChars ++ ['\x7d']) := by
    simp [String.toList_ofList, oneMember]
  exact ⟨⟨m, hm, hscalar⟩, ⟨filter, hfilterRead, hfilter.exact filter hfilterRead⟩,
    ⟨rows, hrowsRead, hrows.exact rows hrowsRead⟩,
    hwithin _ _ _ _ hsearch (value_extremeAges ['\x7d'])⟩

/-- An integer beyond 64 bits. -/
def wideInteger : IntegerLiteral where
  negative := false
  digits := ['1', '8', '4', '4', '6', '7', '4', '4', '0', '7', '3', '7', '0', '9', '5', '5', '1',
    '6', '1', '7']
  isDigit := List.all_eq_true.mp rfl
  ne_nil := nofun
  leading := by decide

/-- The double is smaller than the integer by one. -/
theorem wideInteger_rounded : ¬wideInteger.IsMinusZero
    ∧ "18446744073709551617".toList = wideInteger.chars
    ∧ (Document.ofText "18446744073709551617").read Scalar.reader
      = .ok (.float ⟨0x43f0000000000000⟩)
    ∧ ¬wideInteger.IsTaken ((Document.ofText "18446744073709551617").read Scalar.reader) := by
  have hread : (Document.ofText "18446744073709551617").read Scalar.reader
      = .ok (.float ⟨0x43f0000000000000⟩) := by decide +kernel
  refine ⟨by decide, rfl, hread, ?_⟩
  rw [hread, IntegerLiteral.IsTaken, if_neg (by decide)]
  exact nofun

end EntityQuery
