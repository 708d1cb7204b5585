import EntityQuery.Proofs.Request.Assembly

/-!
# Proofs/Request/Sorting — an order is the stable priority sort of what sorts in it

    position   0            1           2            3
    entry      name DESC 1  mother {…}  age ASC      city DESC 1
    priority   1            —           0            1
                     ──▸  ORDER BY age ASC, name DESC, city DESC

An entry sorts if it is a sort key of a field that is no relation (`SortsAs`).  Ranked by priority
and then by position, what sorts is in one order only, and a stable sort by priority alone finds it
(`pairwise_mergeSort_of_pairwise`): so the result has each entry that sorts once, in its place.  A
list that is sorted by priority is known by what it has of each priority (`eq_of_filter_priority`),
and a stable sort keeps that (`filter_mergeSort_priority`): so an order may be rearranged, and what
does not sort left out of it, without a change of the text — `order_sorted_stably`.
-/

namespace EntityQuery

open Sql (Piece SortTerm)

/-! ## Stable sorting -/

section Stable

variable {α : Type*}

/-- A stable sort keeps a relation of a list, between those that it does not tell apart. -/
theorem pairwise_mergeSort_of_pairwise {le : α → α → Bool}
    (trans : ∀ a b c, le a b = true → le b c = true → le a c = true)
    (total : ∀ a b, (le a b || le b a) = true) {R : α → α → Prop} {l : List α}
    (h : l.Pairwise R) :
    (l.mergeSort le).Pairwise fun a b => le a b = true ∧ (le b a = true → R a b) := by
  have hsorted : (l.zipIdx.mergeSort (List.zipIdxLE le)).Pairwise
      fun a b => List.zipIdxLE le a b = true :=
    List.pairwise_mergeSort (List.zipIdxLE_trans trans) (List.zipIdxLE_total total) _
  have hdistinct : (l.zipIdx.mergeSort (List.zipIdxLE le)).Pairwise fun a b => a.2 ≠ b.2 := by
    have hindices : (l.zipIdx.map Prod.snd).Nodup := by
      rw [List.zipIdx_map_snd]
      exact List.nodup_range'
    rw [← List.pairwise_map]
    exact ((List.mergeSort_perm _ _).map Prod.snd).nodup_iff.mpr hindices
  rw [← List.mergeSort_zipIdx, List.pairwise_map]
  refine (hsorted.and hdistinct).imp_of_mem fun {a b} ha hb ⟨hle, hne⟩ => ?_
  have hfirst : l[a.2]? = some a.1 :=
    List.mem_zipIdx_iff_getElem?.mp ((List.mergeSort_perm _ _).mem_iff.mp ha)
  have hsecond : l[b.2]? = some b.1 :=
    List.mem_zipIdx_iff_getElem?.mp ((List.mergeSort_perm _ _).mem_iff.mp hb)
  obtain ⟨ha', hfirst⟩ := List.getElem?_eq_some_iff.mp hfirst
  obtain ⟨hb', hsecond⟩ := List.getElem?_eq_some_iff.mp hsecond
  rw [List.zipIdxLE] at hle
  split at hle
  · rename_i hab
    refine ⟨hab, fun hba => ?_⟩
    rw [if_pos hba] at hle
    have hlt : a.2 < b.2 := Nat.lt_of_le_of_ne (of_decide_eq_true hle) hne
    exact hfirst ▸ hsecond ▸ List.pairwise_iff_getElem.mp h _ _ ha' hb' hlt
  · contradiction

/-- Whether a value may stand in front of another by the priorities that they come with. -/
def mayPrecede (a b : Int64 × α) : Bool :=
  decide (a.1 ≤ b.1)

theorem mayPrecede_iff {a b : Int64 × α} : mayPrecede a b = true ↔ a.1 ≤ b.1 :=
  decide_eq_true_iff

theorem mayPrecede_trans (a b c : Int64 × α) (hab : mayPrecede a b = true)
    (hbc : mayPrecede b c = true) : mayPrecede a c = true :=
  mayPrecede_iff.mpr (Int64.le_trans (mayPrecede_iff.mp hab) (mayPrecede_iff.mp hbc))

theorem mayPrecede_total (a b : Int64 × α) : (mayPrecede a b || mayPrecede b a) = true := by
  rw [Bool.or_eq_true, mayPrecede_iff, mayPrecede_iff]
  exact Int64.le_total a.1 b.1

/-- A stable sort by priority keeps what is of one priority as it is. -/
theorem filter_mergeSort_priority (l : List (Int64 × α)) (priority : Int64) :
    (l.mergeSort mayPrecede).filter (·.1 == priority) = l.filter (·.1 == priority) := by
  have hlevel : (l.filter (·.1 == priority)).Pairwise fun a b => mayPrecede a b = true := by
    refine List.pairwise_iff_forall_sublist.mpr fun {a b} hab => ?_
    have heq : ∀ c ∈ [a, b], c.1 = priority := fun c hc =>
      eq_of_beq (List.mem_filter.mp (hab.subset hc)).2
    rw [mayPrecede_iff, heq a (by simp), heq b (by simp)]
    exact Int64.le_refl _
  have hkept : (l.filter (·.1 == priority)).Sublist (l.mergeSort mayPrecede) :=
    List.sublist_mergeSort mayPrecede_trans mayPrecede_total hlevel List.filter_sublist
  have hsublist := hkept.filter (·.1 == priority)
  rw [List.filter_filter] at hsublist
  simp only [Bool.and_self] at hsublist
  exact (hsublist.eq_of_length
    ((List.mergeSort_perm l mayPrecede).filter _).length_eq.symm).symm

/-- Lists that are equal on every priority have the same members. -/
theorem mem_iff_of_filter_priority {l l' : List (Int64 × α)}
    (h : ∀ priority, l.filter (·.1 == priority) = l'.filter (·.1 == priority)) (a : Int64 × α) :
    a ∈ l ↔ a ∈ l' := by
  have hlevel (list : List (Int64 × α)) : a ∈ list ↔ a ∈ list.filter (·.1 == a.1) := by
    rw [List.mem_filter, beq_self_eq_true, and_iff_left rfl]
  rw [hlevel l, h a.1, ← hlevel l']

/-- **Lists that are sorted by priority are equal if they are on every priority.** -/
theorem eq_of_filter_priority {l l' : List (Int64 × α)}
    (hl : l.Pairwise fun a b => a.1 ≤ b.1) (hl' : l'.Pairwise fun a b => a.1 ≤ b.1)
    (h : ∀ priority, l.filter (·.1 == priority) = l'.filter (·.1 == priority)) : l = l' := by
  have hmem := mem_iff_of_filter_priority h
  induction hl generalizing l' with
  | nil => exact (List.eq_nil_iff_forall_not_mem.mpr fun a ha => nomatch (hmem a).mpr ha).symm
  | @cons a rest ha hrest ih =>
    cases hl' with
    | nil => exact nomatch (hmem a).mp List.mem_cons_self
    | @cons b rest' hb hrest' =>
      -- each head is in the other list, so neither priority is the smaller one
      have hle : a.1 ≤ b.1 := by
        rcases List.mem_cons.mp ((hmem b).mpr List.mem_cons_self) with rfl | hmem
        · exact Int64.le_refl _
        · exact ha b hmem
      have hge : b.1 ≤ a.1 := by
        rcases List.mem_cons.mp ((hmem a).mp List.mem_cons_self) with rfl | hmem
        · exact Int64.le_refl _
        · exact hb a hmem
      have hpriority : a.1 = b.1 := Int64.le_antisymm hle hge
      have hhead := h a.1
      rw [List.filter_cons, List.filter_cons, if_pos (beq_self_eq_true _),
        if_pos (beq_iff_eq.mpr hpriority.symm)] at hhead
      obtain ⟨rfl, -⟩ := List.cons.inj hhead
      have hlevels (priority : Int64) :
          rest.filter (·.1 == priority) = rest'.filter (·.1 == priority) := by
        have hlevel := h priority
        rw [List.filter_cons, List.filter_cons] at hlevel
        split at hlevel
        · exact (List.cons.inj hlevel).2
        · exact hlevel
      rw [ih hrest' hlevels (mem_iff_of_filter_priority hlevels)]

/-- **A stable sort by priority gives the same for lists that are equal on every priority.** -/
theorem mergeSort_eq_of_filter_priority {l l' : List (Int64 × α)}
    (h : ∀ priority, l.filter (·.1 == priority) = l'.filter (·.1 == priority)) :
    l.mergeSort mayPrecede = l'.mergeSort mayPrecede := by
  have hsorted (list : List (Int64 × α)) :
      (list.mergeSort mayPrecede).Pairwise fun a b => a.1 ≤ b.1 :=
    (List.pairwise_mergeSort mayPrecede_trans mayPrecede_total list).imp mayPrecede_iff.mp
  refine eq_of_filter_priority (hsorted l) (hsorted l') fun priority => ?_
  rw [filter_mergeSort_priority, filter_mergeSort_priority, h]

end Stable

/-! ## What sorts -/

/-- The priority of a sort key: zero if it has none; nothing else has a priority. -/
def SortEntry.priority? : SortEntry → Option Int64
  | .key sortKey => some (sortKey.priority.getD 0)
  | _ => none

/-- The text of a term: the column, the direction and the place of the nulls. -/
def Sql.SortTerm.text (term : SortTerm) : String :=
  term.column.text ++ term.direction.text ++ term.nulls.elim "" NullsOrder.text

/-- The text of a clause that sorts, empty for no terms. -/
def Sql.orderText (terms : List SortTerm) : String :=
  if terms.isEmpty then "" else "ORDER BY " ++ ", ".intercalate (terms.map SortTerm.text)

theorem Sql.SortTerm.script_pieces (term : SortTerm) : Piece.script term.pieces = term.text := by
  rcases hnulls : term.nulls with _ | nulls <;>
    simp [pieces, text, hnulls, Column.script_pieces, String.append_assoc]

theorem Sql.script_orderPieces (terms : List SortTerm) :
    Piece.script (orderPieces terms) = orderText terms := by
  cases terms with
  | nil => rfl
  | cons term rest =>
    rw [orderPieces, Piece.script_fixed, Piece.script_join, List.map_map]
    · exact congrArg (fun texts => "ORDER BY " ++ ", ".intercalate texts)
        (List.map_congr_left fun term _ => term.script_pieces)
    · exact List.cons_ne_nil _ _

/-- Only the empty list of terms has no text. -/
theorem Sql.orderText_eq_empty_iff {terms : List SortTerm} :
    orderText terms = "" ↔ terms = [] := by
  cases terms with
  | nil => simp [orderText]
  | cons term rest =>
    have hne : orderText (term :: rest) ≠ "" := fun hempty =>
      absurd (String.append_eq_empty_iff.mp hempty).1 (by decide)
    simp [hne]

namespace Order

/-- What an entry of an order sorts by: the sort key of a field that is mapped to a column, or of
one that is not mapped at all. -/
inductive SortsAs (entity : Entity) : String × SortEntry → Int64 → SortTerm → Prop
  | mapped {field column : String} {key : SortKey}
      (hfield : entity.field? field = some (.column column)) :
      SortsAs entity (field, .key key) (key.priority.getD 0)
        ⟨⟨entity.table, column⟩, key.direction.toSql, key.nulls.map (·.toSql)⟩
  | own {field : String} {key : SortKey} (hfield : entity.field? field = none) :
      SortsAs entity (field, .key key) (key.priority.getD 0)
        ⟨⟨entity.table, field⟩, key.direction.toSql, key.nulls.map (·.toSql)⟩

/-- Whether an entry of an order sorts. -/
def Sorts (entity : Entity) (entry : String × SortEntry) : Prop :=
  ∃ priority term, SortsAs entity entry priority term

/-- The priority and the term of an entry are those that it sorts by. -/
theorem prioritized?_eq_some_iff {entity : Entity} {entry : String × SortEntry} {priority : Int64}
    {term : SortTerm} :
    prioritized? entity entry.1 entry.2 = some (priority, term)
      ↔ SortsAs entity entry priority term := by
  obtain ⟨field, entry⟩ := entry
  constructor
  · intro h
    cases entry with
    | key key =>
      obtain ⟨column, hcolumn, hterm⟩ := Option.map_eq_some_iff.mp h
      obtain ⟨rfl, rfl⟩ := Prod.mk.inj hterm
      rw [Entity.columnOf?] at hcolumn
      split at hcolumn
      · next hfield => exact Option.some.inj hcolumn ▸ .own hfield
      · next hfield => exact Option.some.inj hcolumn ▸ .mapped hfield
      · contradiction
    | nested entries => contradiction
    | other value => contradiction
  · intro h
    cases h with
    | mapped hfield => simp [prioritized?, Entity.columnOf?, hfield]
    | own hfield => simp [prioritized?, Entity.columnOf?, hfield]

/-- An entry that does not sort has no priority and no term. -/
theorem prioritized?_eq_none_iff {entity : Entity} {entry : String × SortEntry} :
    prioritized? entity entry.1 entry.2 = none ↔ ¬Sorts entity entry := by
  rw [Option.eq_none_iff_forall_ne_some]
  constructor
  · rintro h ⟨priority, term, hsorts⟩
    exact h _ (prioritized?_eq_some_iff.mpr hsorts)
  · rintro h ⟨priority, term⟩ hentry
    exact h ⟨priority, term, prioritized?_eq_some_iff.mp hentry⟩

/-- What sorts has its priority. -/
theorem SortsAs.priority {entity : Entity} {entry : String × SortEntry} {priority : Int64}
    {term : SortTerm} (h : SortsAs entity entry priority term) :
    entry.2.priority? = some priority := by
  cases h <;> rfl

/-- The entries that sort, with their priorities, in the order in which they are given. -/
def keys (entity : Entity) (order : Order) : List (Int64 × SortTerm) :=
  order.filterMap fun (field, entry) => prioritized? entity field entry

theorem terms_eq (entity : Entity) (order : Order) :
    order.terms entity = ((order.keys entity).mergeSort mayPrecede).map Prod.snd :=
  rfl

/-- The terms are those of the entries that sort. -/
theorem terms_eq_nil_iff {entity : Entity} {order : Order} :
    order.terms entity = [] ↔ ∀ entry ∈ order, ¬Sorts entity entry := by
  have hlength : (order.terms entity).length = (order.keys entity).length := by
    rw [terms_eq, List.length_map, List.length_mergeSort]
  rw [← List.length_eq_zero_iff, hlength, List.length_eq_zero_iff, keys, List.filterMap_eq_nil_iff]
  exact forall₂_congr fun entry _ => prioritized?_eq_none_iff

/-! ## Ranks -/

/-- A term in its rank. -/
structure Ranked where
  /-- The position of the entry among those of the order. -/
  position : Nat
  /-- The priority of the entry. -/
  priority : Int64
  /-- What the entry sorts by. -/
  term : SortTerm

/-- The term with its priority. -/
def Ranked.key (ranked : Ranked) : Int64 × SortTerm :=
  (ranked.priority, ranked.term)

/-- A smaller priority comes first, and of one priority what is given first. -/
def Ranked.Before (a b : Ranked) : Prop :=
  a.priority < b.priority ∨ a.priority = b.priority ∧ a.position < b.position

/-- Whether a term may stand in front of another by priority. -/
def Ranked.le (a b : Ranked) : Bool :=
  mayPrecede a.key b.key

theorem Ranked.le_trans (a b c : Ranked) : a.le b = true → b.le c = true → a.le c = true :=
  mayPrecede_trans a.key b.key c.key

theorem Ranked.le_total (a b : Ranked) : (a.le b || b.le a) = true :=
  mayPrecede_total a.key b.key

/-- The entries that sort, with their positions and priorities. -/
def ranks (entity : Entity) (order : Order) : List Ranked :=
  order.zipIdx.filterMap fun ((field, entry), position) =>
    (prioritized? entity field entry).map fun (priority, term) => ⟨position, priority, term⟩

/-- A rank is the position of an entry with what that entry sorts by. -/
theorem mem_ranks {entity : Entity} {order : Order} {ranked : Ranked} :
    ranked ∈ order.ranks entity ↔ ∃ entry, order[ranked.position]? = some entry
      ∧ SortsAs entity entry ranked.priority ranked.term := by
  rw [ranks, List.mem_filterMap]
  constructor
  · rintro ⟨⟨entry, position⟩, hentry, hranked⟩
    obtain ⟨⟨priority, term⟩, hsorts, rfl⟩ := Option.map_eq_some_iff.mp hranked
    exact ⟨entry, List.mem_zipIdx_iff_getElem?.mp hentry, prioritized?_eq_some_iff.mp hsorts⟩
  · rintro ⟨entry, hentry, hsorts⟩
    refine ⟨(entry, ranked.position), List.mem_zipIdx_iff_getElem?.mpr hentry, ?_⟩
    exact Option.map_eq_some_iff.mpr ⟨_, prioritized?_eq_some_iff.mpr hsorts, rfl⟩

/-- The ranks are given in the order of their positions. -/
theorem pairwise_ranks (entity : Entity) (order : Order) :
    (order.ranks entity).Pairwise fun a b => a.position < b.position := by
  have hpositions : order.zipIdx.Pairwise fun a b => a.2 < b.2 := by
    rw [← List.pairwise_map, List.zipIdx_map_snd]
    exact List.pairwise_lt_range'
  rw [ranks, List.pairwise_filterMap]
  refine hpositions.imp fun {a b} hlt first hfirst second hsecond => ?_
  obtain ⟨_, -, rfl⟩ := Option.map_eq_some_iff.mp hfirst
  obtain ⟨_, -, rfl⟩ := Option.map_eq_some_iff.mp hsecond
  exact hlt

/-- Without their positions the ranks are the keys. -/
theorem map_ranks (entity : Entity) (order : Order) :
    (order.ranks entity).map Ranked.key = order.keys entity := by
  have hentries : (order.zipIdx.map Prod.fst).filterMap
      (fun (field, entry) => prioritized? entity field entry) = order.keys entity := by
    rw [List.zipIdx_map_fst]
    rfl
  rw [← hentries, List.filterMap_map, ranks, List.map_filterMap]
  refine List.filterMap_congr fun entry _ => ?_
  rw [Option.map_map]
  exact Option.map_id'

/-- **What sorts is sorted by priority, and within a priority by position.** -/
theorem exists_ranked (entity : Entity) (order : Order) : ∃ sorted : List Ranked,
    sorted.Pairwise Ranked.Before
    ∧ (∀ ranked, ranked ∈ sorted ↔ ∃ entry, order[ranked.position]? = some entry
      ∧ SortsAs entity entry ranked.priority ranked.term)
    ∧ order.terms entity = sorted.map Ranked.term := by
  have hstable := pairwise_mergeSort_of_pairwise Ranked.le_trans Ranked.le_total
    (order.pairwise_ranks entity)
  refine ⟨(order.ranks entity).mergeSort Ranked.le, hstable.imp ?_, fun ranked => ?_, ?_⟩
  · rintro a b ⟨hab, hpositions⟩
    rcases Int64.lt_or_eq_of_le (mayPrecede_iff.mp hab) with hlt | heq
    · exact .inl hlt
    · have hba : Ranked.le b a = true := mayPrecede_iff.mpr (Int64.le_of_eq heq.symm)
      exact .inr ⟨heq, hpositions hba⟩
  · rw [(List.mergeSort_perm _ _).mem_iff, mem_ranks]
  · have hsorted : ((order.ranks entity).mergeSort Ranked.le).map Ranked.key
        = (order.keys entity).mergeSort mayPrecede := by
      rw [← map_ranks]
      exact List.map_mergeSort fun _ _ _ _ => rfl
    rw [terms_eq, ← hsorted, List.map_map]
    rfl

/-! ## Rearranging and leaving out -/

/-- The keys of a priority are those of the entries of that priority. -/
theorem filter_keys (entity : Entity) (order : Order) (priority : Int64) :
    (order.keys entity).filter (·.1 == priority)
      = keys entity (order.filter (·.2.priority? == some priority)) := by
  rw [keys, keys, List.filter_filterMap, List.filterMap_filter]
  refine List.filterMap_congr fun entry _ => ?_
  rcases hentry : prioritized? entity entry.1 entry.2 with _ | ⟨level, term⟩
  · simp [hentry]
  · have hpriority := (prioritized?_eq_some_iff.mp hentry).priority
    simp [hentry, hpriority, Option.filter]

/-- **The terms do not change when entries of different priorities change places.** -/
theorem terms_eq_of_filter {order other : Order}
    (h : ∀ priority, order.filter (·.2.priority? == some priority)
      = other.filter (·.2.priority? == some priority)) (entity : Entity) :
    order.terms entity = other.terms entity := by
  rw [terms_eq, terms_eq, mergeSort_eq_of_filter_priority fun priority => ?_]
  rw [filter_keys, filter_keys, h]

/-- **The terms do not change when entries that do not sort are left out.** -/
theorem terms_filter {entity : Entity} {order : Order} {keep : String × SortEntry → Bool}
    (h : ∀ entry ∈ order, Sorts entity entry → keep entry = true) :
    terms entity (order.filter keep) = order.terms entity := by
  have hkeys : keys entity (order.filter keep) = order.keys entity := by
    rw [keys, keys, List.filterMap_filter]
    refine List.filterMap_congr fun entry hentry => ?_
    split
    · rfl
    · next hkeep =>
      exact (prioritized?_eq_none_iff.mpr fun hsorts => hkeep (h entry hentry hsorts)).symm
  rw [terms_eq, terms_eq, hkeys]

/-- Orders with the same terms on the entity that is meant compile to the same. -/
theorem compile_eq_of_terms {target : Target} {name : String} {order other : Order}
    (h : ∀ entity, target.graph.entity? name = some entity →
      order.terms entity = other.terms entity) :
    order.compile target name = other.compile target name := by
  rcases hentity : target.graph.entity? name with _ | entity
  · rw [compile, compile, Target.entity, hentity]
    rfl
  · rw [compile_eq hentity, compile_eq hentity, h entity hentity]

end Order

/-- **An order is the stable priority sort of what sorts in it.**

* On every entity, the terms are those of the entries that sort — each once, with its column,
  direction and place of the nulls — and of two of them the one with the smaller priority comes
  first, or with one priority the one that is given first.
* An order with the same entries of each priority, in the same order, compiles to the same.
* So does an order without any entries that do not sort.
* On an entity of the graph the terms are what is written, and nothing is written exactly if nothing
  sorts. -/
theorem order_sorted_stably (target : Target) (name : String) (order : Order) :
    (∀ entity, ∃ sorted : List Order.Ranked,
      sorted.Pairwise Order.Ranked.Before
      ∧ (∀ ranked, ranked ∈ sorted ↔ ∃ entry, order[ranked.position]? = some entry
        ∧ Order.SortsAs entity entry ranked.priority ranked.term)
      ∧ order.terms entity = sorted.map Order.Ranked.term)
    ∧ (∀ other : Order,
      (∀ priority, order.filter (·.2.priority? == some priority)
        = other.filter (·.2.priority? == some priority)) →
      other.compile target name = order.compile target name)
    ∧ (∀ keep : String × SortEntry → Bool,
      (∀ entity, target.graph.entity? name = some entity →
        ∀ entry ∈ order, Order.Sorts entity entry → keep entry = true) →
      Order.compile target name (order.filter keep) = order.compile target name)
    ∧ ∀ entity, target.graph.entity? name = some entity →
      order.compile target name = .ok (Sql.orderText (order.terms entity))
      ∧ (order.compile target name = .ok "" ↔ ∀ entry ∈ order, ¬Order.Sorts entity entry) := by
  refine ⟨fun entity => order.exists_ranked entity, fun other hlevels => ?_, fun keep hkeep => ?_,
    fun entity hentity => ?_⟩
  · exact Order.compile_eq_of_terms fun entity _ => (Order.terms_eq_of_filter hlevels entity).symm
  · exact Order.compile_eq_of_terms fun entity hentity => Order.terms_filter (hkeep entity hentity)
  · have hcompile : order.compile target name = .ok (Sql.orderText (order.terms entity)) := by
      rw [Order.compile_eq hentity, Sql.script_orderPieces]
    refine ⟨hcompile, ?_⟩
    rw [hcompile, Except.ok.injEq, Sql.orderText_eq_empty_iff, Order.terms_eq_nil_iff]

/-- By age, then by name and by height, both downwards; a mother does not sort. -/
def byAge : Order :=
  [("name", .key ⟨.desc, none, some 1⟩), ("mother", .key ⟨.asc, none, some 1⟩),
    ("age", .key ⟨.asc, some .first, none⟩), ("height", .key ⟨.desc, none, some 1⟩)]

/-- The age may be put in front, and the mother may be left out. -/
theorem order_byAge :
    byAge.compile ⟨Graph.People.graph, .postgres⟩ "person"
      = .ok "ORDER BY person.age ASC NULLS FIRST, person.name DESC, person.height DESC"
    ∧ Order.compile ⟨Graph.People.graph, .postgres⟩ "person"
        [("age", .key ⟨.asc, some .first, none⟩), ("name", .key ⟨.desc, none, some 1⟩),
          ("mother", .key ⟨.asc, none, some 1⟩), ("height", .key ⟨.desc, none, some 1⟩)]
      = byAge.compile ⟨Graph.People.graph, .postgres⟩ "person"
    ∧ Order.compile ⟨Graph.People.graph, .postgres⟩ "person" (byAge.filter (·.1 != "mother"))
      = byAge.compile ⟨Graph.People.graph, .postgres⟩ "person" := by
  obtain ⟨-, hrearranged, hfiltered, hwritten⟩ :=
    order_sorted_stably ⟨Graph.People.graph, .postgres⟩ "person" byAge
  refine ⟨?_, hrearranged _ fun priority => ?_, hfiltered _ fun entity hentity => ?_⟩
  · have hkeys : Order.keys Graph.People.person byAge
        = [(1, ⟨⟨"person", "name"⟩, .desc, none⟩), (0, ⟨⟨"person", "age"⟩, .asc, some .first⟩),
          (1, ⟨⟨"person", "height"⟩, .desc, none⟩)] := by decide +kernel
    have hsorted : (Order.keys Graph.People.person byAge).mergeSort mayPrecede
        = [(0, ⟨⟨"person", "age"⟩, .asc, some .first⟩), (1, ⟨⟨"person", "name"⟩, .desc, none⟩),
          (1, ⟨⟨"person", "height"⟩, .desc, none⟩)] := by
      rw [hkeys]
      simp [List.mergeSort, List.MergeSort.Internal.splitInTwo, mayPrecede]
    rw [(hwritten Graph.People.person rfl).1, Order.terms_eq, hsorted]
    decide +kernel
  · by_cases hzero : priority = 0
    · subst hzero
      rfl
    · simp [byAge, SortEntry.priority?, List.filter_cons, Ne.symm hzero]
  · obtain rfl : Graph.People.person = entity := Option.some.inj hentity
    have hkept : ∀ entry ∈ byAge,
        (Order.prioritized? Graph.People.person entry.1 entry.2).isSome = true →
        (entry.1 != "mother") = true := by decide
    rintro entry hentry ⟨priority, term, hsorts⟩
    exact hkept entry hentry (Option.isSome_of_mem (Order.prioritized?_eq_some_iff.mpr hsorts))

end EntityQuery
