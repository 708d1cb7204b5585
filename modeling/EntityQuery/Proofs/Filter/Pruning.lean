import EntityQuery.Proofs.Filter.Refusal

/-!
# Proofs/Filter/Pruning — what asks nothing is invisible, and nothing else is

    NOT { name: null, nickname: { … }, mother: { age: [], name: "Ann" }, tags: { name: null } }
    NOT {                              mother: {          name: "Ann" }, tags: {            } }

A clause is void if it names no value to compare with, and a place is free if its clause is void
and its field is no link.  A place compiles to nothing exactly if it is free
(`Place.expr?_eq_none_iff`): on a column because a void clause has no criterion, and on a link
because even an empty filter asks for a row at the other end.  So free places may be left out at
every depth (`Filter.prune`), and each of the others leaves one expression or an error —
`free_places_vanish`.
-/

namespace EntityQuery

open Sql (Expr Buffer)

/-! ## Void clauses and free places -/

/-- A test that names no value: a null, an empty list, no bound but nulls, or no operator. -/
def Test.IsVoid : Test → Prop
  | .equal (.one scalar) => scalar = .null
  | .equal (.oneOf scalars) => scalars = []
  | .like pattern => pattern = .null
  | .range above below => (∀ bound ∈ above, bound = .null) ∧ ∀ bound ∈ below, bound = .null
  | .unspecified => True

/-- A clause that asks nothing of a column: a null, an empty list, a void condition or a filter. -/
def Clause.IsVoid : Clause → Prop
  | .value scalar => scalar = .null
  | .list scalars => scalars = []
  | .condition asked => asked.test.IsVoid
  | .nested _ _ => True

/-- A field that is no link, with a void clause. -/
def Place.IsFree (place : Place) : Prop :=
  place.entity.link? place.field = none ∧ place.clause.IsVoid

instance : DecidablePred Test.IsVoid
  | .equal (.one scalar) => inferInstanceAs (Decidable (scalar = .null))
  | .equal (.oneOf scalars) => inferInstanceAs (Decidable (scalars = []))
  | .like pattern => inferInstanceAs (Decidable (pattern = .null))
  | .range above below => inferInstanceAs
      (Decidable ((∀ bound ∈ above, bound = .null) ∧ ∀ bound ∈ below, bound = .null))
  | .unspecified => inferInstanceAs (Decidable True)

instance : DecidablePred Clause.IsVoid
  | .value scalar => inferInstanceAs (Decidable (scalar = .null))
  | .list scalars => inferInstanceAs (Decidable (scalars = []))
  | .condition asked => inferInstanceAs (Decidable asked.test.IsVoid)
  | .nested _ _ => inferInstanceAs (Decidable True)

instance : DecidablePred Place.IsFree := fun place =>
  inferInstanceAs (Decidable (place.entity.link? place.field = none ∧ place.clause.IsVoid))

/-! ## A place compiles to nothing exactly if it is free -/

/-- Only a null is not present. -/
theorem Scalar.present?_eq_none_iff {scalar : Option Scalar} :
    present? scalar = none ↔ ∀ given ∈ scalar, given = .null := by
  rcases scalar with _ | scalar
  · simp [present?]
  · cases scalar <;> simp [present?, isNull]

/-- A condition asks nothing exactly if its test is void. -/
theorem Condition.criterion?_eq_none_iff {condition : Condition} :
    condition.criterion? = none ↔ condition.test.IsVoid := by
  rcases condition with ⟨(scalar | ⟨_ | ⟨scalar, rest⟩⟩) | pattern | ⟨above, below⟩ | _, negated⟩
  · rw [criterion?, Option.map_eq_none_iff, Scalar.present?_eq_none_iff]
    simp [Test.IsVoid]
  · exact iff_of_true rfl rfl
  · exact iff_of_false (Option.some_ne_none _) (List.cons_ne_nil scalar rest)
  · rw [criterion?, Option.map_eq_none_iff, Scalar.present?_eq_none_iff]
    simp [Test.IsVoid]
  · rw [Test.IsVoid, ← Scalar.present?_eq_none_iff, ← Scalar.present?_eq_none_iff, criterion?]
    rcases Scalar.present? above with _ | lower <;> rcases Scalar.present? below with _ | upper <;>
      simp
  · exact iff_of_true rfl trivial

/-- **A clause asks nothing of a column exactly if it is void.** -/
theorem Clause.criterion?_eq_none_iff {clause : Clause} :
    clause.criterion? = none ↔ clause.IsVoid := by
  cases clause with
  | value scalar => exact (Condition.equal scalar).criterion?_eq_none_iff
  | list scalars => exact (Condition.oneOf scalars).criterion?_eq_none_iff
  | condition asked => exact asked.criterion?_eq_none_iff
  | nested negated clauses => exact iff_of_true rfl trivial

/-- The expression of a place. -/
def Place.expr? (target : Target) (place : Place) : Except CompileError (Option Expr) :=
  place.clause.expr? target place.entity place.field

/-- **A place compiles to nothing exactly if it is free.** -/
theorem Place.expr?_eq_none_iff (target : Target) {place : Place} :
    place.expr? target = .ok none ↔ place.IsFree := by
  obtain ⟨entity, field, clause⟩ := place
  rcases hlink : entity.link? field with _ | link
  · rw [IsFree, expr?, Clause.expr?_of_column target hlink, and_iff_right hlink,
      ← Clause.criterion?_eq_none_iff]
    rcases clause.criterion? with _ | criterion
    · exact iff_of_true rfl rfl
    · refine iff_of_false (fun h => ?_) nofun
      obtain ⟨_, -, hsome⟩ := Except.map_eq_ok.mp h
      contradiction
  · have hfilled : Place.expr? target ⟨entity, field, clause⟩ ≠ .ok none := by
      intro h
      rw [expr?, Clause.expr?_of_link target hlink] at h
      split at h
      · obtain ⟨other, -, hoperands⟩ := Except.bind_eq_ok.mp h
        obtain ⟨operands, -, hsome⟩ := Except.bind_eq_ok.mp hoperands
        exact Option.some_ne_none _ (Except.ok.inj hsome)
      · contradiction
    refine iff_of_false hfilled fun hfree => ?_
    exact Option.some_ne_none link (hlink.symm.trans hfree.1)

/-! ## Pruning -/

mutual

/-- Leaves the free places of the filter in a clause out, if its field is a link. -/
def Clause.prune (graph : Graph) (entity : Entity) (field : String) : Clause → Clause
  | .nested negated clauses => .nested negated
      (match (entity.link? field).bind fun link => graph.entity? link.target with
        | some other => pruneClauses graph other clauses
        | none => clauses)
  | asked => asked

/-- Leaves the free places of clauses out, at every depth. -/
def pruneClauses (graph : Graph) (entity : Entity) : List (String × Clause) → List (String × Clause)
  | [] => []
  | (field, clause) :: rest =>
      if (Place.mk entity field clause).IsFree then pruneClauses graph entity rest
      else (field, clause.prune graph entity field) :: pruneClauses graph entity rest

end

/-- Leaves the free places of a filter on an entity out, at every depth. -/
def Filter.prune (graph : Graph) (entity : Entity) (filter : Filter) : Filter :=
  ⟨filter.negated, pruneClauses graph entity filter.clauses⟩

/-- A place with its clause pruned. -/
def Place.prune (graph : Graph) (place : Place) : Place :=
  { place with clause := place.clause.prune graph place.entity place.field }

/-- On a column there is nothing to prune. -/
theorem Clause.prune_of_column (graph : Graph) {entity : Entity} {field : String}
    (h : entity.link? field = none) (clause : Clause) :
    clause.prune graph entity field = clause := by
  cases clause with
  | nested negated clauses => rw [prune, h, Option.bind_none]
  | _ => rfl

/-- **Pruned clauses compile as before**, for the entity that they are pruned for. -/
theorem Clause.exprs_pruneClauses (target : Target) (clauses : List (String × Clause)) :
    ∀ entity, exprs target entity (pruneClauses target.graph entity clauses)
      = exprs target entity clauses := by
  refine induction_on_clauses
    (R := fun clause => ∀ entity field,
      expr? target entity field (clause.prune target.graph entity field)
        = expr? target entity field clause)
    (S := fun clauses => ∀ entity,
      exprs target entity (pruneClauses target.graph entity clauses)
        = exprs target entity clauses) ?_ ?_ ?_ clauses
  · intro clause ih entity field
    rcases hlink : entity.link? field with _ | link
    · rw [clause.prune_of_column target.graph hlink]
    · rw [expr?_of_link target hlink, expr?_of_link target hlink]
      cases clause with
      | nested negated inner =>
        simp only [prune, hlink, Option.bind_some]
        rcases hother : target.graph.entity? link.target with _ | other
        · rfl
        · rw [Target.entity_eq_ok.mpr hother]
          change (exprs target other (pruneClauses target.graph other inner) >>= _)
            = (exprs target other inner >>= _)
          rw [ih negated inner rfl other]
      | _ => rfl
  · exact fun _ => rfl
  · intro field clause rest hclause hrest entity
    rw [pruneClauses]
    split
    · next hfree =>
      have hnone : expr? target entity field clause = .ok none :=
        (Place.expr?_eq_none_iff target).mpr hfree
      rw [exprs, hnone, hrest]
      cases exprs target entity rest <;> rfl
    · rw [exprs, exprs, hclause, hrest]

/-- A pruned filter is as good as before, for the entity that it is pruned for. -/
theorem Filter.expr?_prune (target : Target) (entity : Entity) (filter : Filter) :
    (filter.prune target.graph entity).expr? target entity = filter.expr? target entity := by
  rw [expr?, expr?, prune, Clause.exprs_pruneClauses]

/-- A clause on a column is its only place. -/
theorem Clause.places_of_column (graph : Graph) {entity : Entity} {field : String}
    (h : entity.link? field = none) (clause : Clause) :
    clause.places graph entity field = [⟨entity, field, clause⟩] := by
  cases clause with
  | nested negated clauses => rw [places, h, Option.bind_none]
  | _ => rfl

/-- The places that are left by pruning. -/
def Place.left (graph : Graph) (places : List Place) : List Place :=
  (places.filter fun place => ¬place.IsFree).map (prune graph)

namespace Place

variable {graph : Graph} {place : Place}

theorem left_cons_of_free (h : place.IsFree) (rest : List Place) :
    left graph (place :: rest) = left graph rest := by
  rw [left, List.filter_cons, if_neg (by simpa using h), left]

theorem left_cons_of_filled (h : ¬place.IsFree) (rest : List Place) :
    left graph (place :: rest) = place.prune graph :: left graph rest := by
  rw [left, List.filter_cons, if_pos (decide_eq_true h), List.map_cons, left]

theorem left_append (first second : List Place) :
    left graph (first ++ second) = left graph first ++ left graph second := by
  rw [left, List.filter_append, List.map_append, left, left]

/-- Pruning frees no place: on a column nothing is pruned, and a link is never free. -/
theorem not_isFree_prune (h : ¬place.IsFree) : ¬(place.prune graph).IsFree := by
  rintro ⟨hlink, hvoid⟩
  have hcolumn : place.entity.link? place.field = none := hlink
  have hsame := Clause.prune_of_column graph hcolumn place.clause
  exact h ⟨hcolumn, hsame ▸ hvoid⟩

theorem not_isFree_of_mem_left {places : List Place} (h : place ∈ left graph places) :
    ¬place.IsFree := by
  obtain ⟨original, horiginal, rfl⟩ := List.mem_map.mp h
  exact not_isFree_prune (of_decide_eq_true (List.mem_filter.mp horiginal).2)

end Place

/-- **Pruning leaves out exactly the free places**, and prunes the clauses of the others. -/
theorem clausePlaces_pruneClauses (graph : Graph) (clauses : List (String × Clause)) :
    ∀ entity, clausePlaces graph entity (pruneClauses graph entity clauses)
      = Place.left graph (clausePlaces graph entity clauses) := by
  refine Clause.induction_on_clauses
    (R := fun clause => ∀ entity field, ¬(Place.mk entity field clause).IsFree →
      (clause.prune graph entity field).places graph entity field
        = Place.left graph (clause.places graph entity field))
    (S := fun clauses => ∀ entity, clausePlaces graph entity (pruneClauses graph entity clauses)
      = Place.left graph (clausePlaces graph entity clauses)) ?_ ?_ ?_ clauses
  · intro clause ih entity field hfilled
    cases clause with
    | nested negated inner =>
      rw [Clause.places, Place.left_cons_of_filled hfilled, Place.prune, Clause.prune,
        Clause.places]
      congr 1
      rcases (entity.link? field).bind fun link => graph.entity? link.target with _ | other
      · rfl
      · exact ih negated inner rfl other
    | _ => exact (Place.left_cons_of_filled hfilled []).symm
  · exact fun _ => rfl
  · intro field clause rest hclause hrest entity
    rw [pruneClauses, clausePlaces, Place.left_append, ← hrest]
    split
    · next hfree =>
      rw [clause.places_of_column graph hfree.1, Place.left_cons_of_free hfree]
      rfl
    · next hfilled => rw [clausePlaces, hclause entity field hfilled]

/-! ## Each other place contributes once -/

/-- What clauses contribute to a group: one expression for each place that is not free, in order. -/
def Contributes (target : Target) (entity : Entity) (clauses : List (String × Clause))
    (operands : List Expr) : Prop :=
  List.Forall₂ (fun place operand => place.expr? target = .ok (some operand))
    ((clauses.map fun (field, clause) => Place.mk entity field clause).filter
      fun place => ¬place.IsFree) operands

/-- **Clauses that compile contribute one expression each**, unless they are free. -/
theorem contributes_exprs {target : Target} {entity : Entity} :
    ∀ {clauses : List (String × Clause)} {operands : List Expr},
      Clause.exprs target entity clauses = .ok operands →
      Contributes target entity clauses operands
  | [], _, h => by
      cases h
      exact .nil
  | (field, clause) :: rest, _, h => by
      rw [Clause.exprs] at h
      obtain ⟨operand, hoperand, h⟩ := Except.bind_eq_ok.mp h
      obtain ⟨operands, hoperands, h⟩ := Except.bind_eq_ok.mp h
      obtain rfl := Except.ok.inj h
      have hrest := contributes_exprs hoperands
      have hplace : Place.expr? target ⟨entity, field, clause⟩ = .ok operand := hoperand
      rw [Contributes, List.map_cons, List.filter_cons]
      cases operand with
      | none =>
        have hfree := (Place.expr?_eq_none_iff target).mp hplace
        rw [if_neg (by simpa using hfree)]
        exact hrest
      | some operand =>
        have hfilled : ¬(Place.mk entity field clause).IsFree := fun hfree => by
          rw [(Place.expr?_eq_none_iff target).mpr hfree] at hplace
          exact absurd (Except.ok.inj hplace).symm (Option.some_ne_none operand)
        rw [if_pos (decide_eq_true hfilled)]
        exact .cons hplace hrest

/-- Clauses compile to nothing exactly if all of them are free. -/
theorem Clause.exprs_eq_nil_iff {target : Target} {entity : Entity}
    {clauses : List (String × Clause)} :
    exprs target entity clauses = .ok [] ↔ ∀ entry ∈ clauses,
      (Place.mk entity entry.1 entry.2).IsFree := by
  constructor
  · intro h entry hentry
    have hnone := List.forall₂_nil_right_iff.mp (contributes_exprs h)
    by_contra hfilled
    have hmem : Place.mk entity entry.1 entry.2 ∈ clauses.map fun (field, clause) =>
        Place.mk entity field clause :=
      List.mem_map_of_mem hentry
    exact List.filter_eq_nil_iff.mp hnone _ hmem (decide_eq_true hfilled)
  · intro h
    induction clauses with
    | nil => rfl
    | cons entry rest ih =>
      obtain ⟨hfree, hrest⟩ := List.forall_mem_cons.mp h
      have hnone : expr? target entity entry.1 entry.2 = .ok none :=
        (Place.expr?_eq_none_iff target).mpr hfree
      rw [exprs, hnone, ih hrest]
      rfl

/-! ## The filter -/

/-- Only the empty group leaves nothing. -/
theorem joinGroup_eq_none_iff {negated : Bool} {operands : List Expr} :
    joinGroup negated operands = none ↔ operands = [] := by
  cases negated <;> rcases operands with _ | ⟨operand, _ | ⟨next, rest⟩⟩ <;>
    simp [joinGroup, Expr.none?, Expr.all?]

/-- A filter that compiles joins what its clauses contribute. -/
theorem Filter.exists_contributes {target : Target} {name : String} {filter : Filter}
    {buffer : Buffer} (h : filter.compile target name = .ok buffer) :
    ∃ entity operands, target.graph.entity? name = some entity
      ∧ Clause.exprs target entity filter.clauses = .ok operands
      ∧ buffer = .ofPieces target.dialect
        (((joinGroup filter.negated operands).map Expr.pieces).getD []) := by
  obtain ⟨entity, hentity, h⟩ := Except.bind_eq_ok.mp h
  obtain ⟨condition, hcondition, h⟩ := Except.bind_eq_ok.mp h
  obtain ⟨operands, hoperands, hjoined⟩ := Except.bind_eq_ok.mp hcondition
  obtain rfl := Except.ok.inj hjoined
  exact ⟨entity, operands, Target.entity_eq_ok.mp hentity, hoperands, (Except.ok.inj h).symm⟩

/-- **A filter compiles to the empty text exactly if all of its clauses are free.** -/
theorem Filter.compile_eq_empty_iff {target : Target} {name : String} {filter : Filter} :
    (∃ buffer, filter.compile target name = .ok buffer ∧ buffer.text = "")
      ↔ ∃ entity, target.graph.entity? name = some entity
        ∧ ∀ entry ∈ filter.clauses, (Place.mk entity entry.1 entry.2).IsFree := by
  constructor
  · rintro ⟨buffer, hbuffer, htext⟩
    obtain ⟨entity, operands, hentity, hoperands, rfl⟩ := exists_contributes hbuffer
    have hnone : joinGroup filter.negated operands = none ↔ operands = [] := joinGroup_eq_none_iff
    refine ⟨entity, hentity, (@Clause.exprs_eq_nil_iff target entity filter.clauses).mp ?_⟩
    rw [hoperands, Except.ok.injEq, ← hnone]
    rcases hjoined : joinGroup filter.negated operands with _ | condition
    · rfl
    · rw [hjoined] at htext
      have hshows : Sql.Piece.Shows condition.pieces :=
        shows_joinGroup filter.negated hjoined (shows_exprs target hoperands)
      exact absurd htext (Buffer.text_ne_empty hshows target.dialect)
  · rintro ⟨entity, hentity, hfree⟩
    have hexpr : filter.expr? target entity = .ok none := by
      rw [expr?, Clause.exprs_eq_nil_iff.mpr hfree]
      exact congrArg Except.ok (joinGroup_eq_none_iff.mpr rfl)
    refine ⟨.ofPieces target.dialect [], ?_, rfl⟩
    rw [compile, Target.entity_eq_ok.mpr hentity]
    change (filter.expr? target entity >>= _) = _
    rw [hexpr]
    rfl

/-- A pruned filter compiles as before, for the entity that it is pruned for. -/
theorem Filter.compile_prune {target : Target} {name : String} {entity : Entity}
    (hentity : target.graph.entity? name = some entity) (filter : Filter) :
    (filter.prune target.graph entity).compile target name = filter.compile target name := by
  rw [compile, compile, Target.entity_eq_ok.mpr hentity]
  change ((filter.prune target.graph entity).expr? target entity >>= _)
    = (filter.expr? target entity >>= _)
  rw [expr?_prune]

/-- A filter on a link joins what its clauses contribute at the other end. -/
theorem Place.exists_contributes_of_link {target : Target} {entity : Entity} {field : String}
    {link : Link} (hlink : entity.link? field = some link) {negated : Bool}
    {clauses : List (String × Clause)} {operand : Expr}
    (h : Place.expr? target ⟨entity, field, .nested negated clauses⟩ = .ok (some operand)) :
    ∃ other operands, target.graph.entity? link.target = some other
      ∧ Contributes target other clauses operands
      ∧ operand = link.expr entity other (joinGroup negated operands) := by
  rw [expr?, Clause.expr?_of_link target hlink] at h
  obtain ⟨other, hother, h⟩ := Except.bind_eq_ok.mp h
  obtain ⟨operands, hoperands, h⟩ := Except.bind_eq_ok.mp h
  exact ⟨other, operands, Target.entity_eq_ok.mp hother, contributes_exprs hoperands,
    (Option.some.inj (Except.ok.inj h)).symm⟩

/-- **Free places vanish, and nothing else does.**

* A place compiles to nothing exactly if it is free; so each other place contributes one expression
  or an error — to the filter, and below a link to what the link reaches.
* A filter compiles to the empty text exactly if its entity is known and its clauses are all free.
* Without its free places, at every depth, a filter compiles to the same; exactly those are gone.
* A comparison with a value other than null, and anything on a link, leaves no empty text. -/
theorem free_places_vanish (target : Target) (name : String) (filter : Filter) :
    (∀ place : Place, place.expr? target = .ok none ↔ place.IsFree)
    ∧ (∀ buffer, filter.compile target name = .ok buffer →
      ∃ entity operands, target.graph.entity? name = some entity
        ∧ Contributes target entity filter.clauses operands
        ∧ buffer = .ofPieces target.dialect
          (((joinGroup filter.negated operands).map Expr.pieces).getD []))
    ∧ (∀ entity field link negated clauses operand, entity.link? field = some link →
      Place.expr? target ⟨entity, field, .nested negated clauses⟩ = .ok (some operand) →
      ∃ other operands, target.graph.entity? link.target = some other
        ∧ Contributes target other clauses operands
        ∧ operand = link.expr entity other (joinGroup negated operands))
    ∧ ((∃ buffer, filter.compile target name = .ok buffer ∧ buffer.text = "")
      ↔ ∃ entity, target.graph.entity? name = some entity
        ∧ ∀ entry ∈ filter.clauses, (Place.mk entity entry.1 entry.2).IsFree)
    ∧ ∀ entity, target.graph.entity? name = some entity →
      (filter.prune target.graph entity).compile target name = filter.compile target name
      ∧ (filter.prune target.graph entity).places target.graph entity
        = Place.left target.graph (filter.places target.graph entity)
      ∧ (∀ place ∈ (filter.prune target.graph entity).places target.graph entity, ¬place.IsFree)
      ∧ ∀ entry ∈ filter.clauses,
        (∃ scalar, entry.2 = .value scalar ∧ scalar ≠ .null) ∨ (entity.link? entry.1).isSome →
        ∀ buffer, filter.compile target name = .ok buffer → buffer.text ≠ "" := by
  refine ⟨fun place => place.expr?_eq_none_iff target, fun buffer hbuffer => ?_, ?_,
    Filter.compile_eq_empty_iff, fun entity hentity => ?_⟩
  · obtain ⟨entity, operands, hentity, hoperands, hjoined⟩ := Filter.exists_contributes hbuffer
    exact ⟨entity, operands, hentity, contributes_exprs hoperands, hjoined⟩
  · intro entity field link negated clauses operand hlink hoperand
    exact Place.exists_contributes_of_link hlink hoperand
  have hplaces : (filter.prune target.graph entity).places target.graph entity
      = Place.left target.graph (filter.places target.graph entity) :=
    clausePlaces_pruneClauses target.graph filter.clauses entity
  refine ⟨filter.compile_prune hentity, hplaces, fun place hplace => ?_, ?_⟩
  · exact Place.not_isFree_of_mem_left (hplaces ▸ hplace)
  · intro entry hentry hasks buffer hbuffer htext
    obtain ⟨found, hfound, hfree⟩ := Filter.compile_eq_empty_iff.mp ⟨buffer, hbuffer, htext⟩
    obtain rfl := Option.some.inj (hentity.symm.trans hfound)
    obtain ⟨hcolumn, hvoid⟩ := hfree entry hentry
    rcases hasks with ⟨scalar, hscalar, hnull⟩ | hlink
    · have hvalue : (Clause.value scalar).IsVoid := hscalar ▸ hvoid
      exact hnull hvalue
    · have hcolumn : entity.link? entry.1 = none := hcolumn
      rw [hcolumn] at hlink
      contradiction

/-- None of: a name that is null, a nickname, a mother called Ann, a tag, an age of zero. -/
def sparse : Filter :=
  ⟨true, [
    ("name", .value .null),
    ("nickname", .nested false [("name", .value (.text "Ann"))]),
    ("mother", .nested false [("age", .list []), ("name", .value (.text "Ann"))]),
    ("tags", .nested true [("name", .condition (.between .null .null))]),
    ("age", .value (.int 0))]⟩

/-- The mother, the tags and the age ask something: none of them is left out. -/
theorem pruning_of_sparse :
    sparse.prune Graph.People.graph Graph.People.person
      = ⟨true, [("mother", .nested false [("name", .value (.text "Ann"))]),
        ("tags", .nested true []), ("age", .value (.int 0))]⟩
    ∧ (sparse.prune Graph.People.graph Graph.People.person).compile ⟨Graph.People.graph, .postgres⟩
        "person"
      = .ok ⟨.numbered, "NOT (person.motherId IN (SELECT person.id FROM person "
          ++ "WHERE person.name = $1) OR person.id IN (SELECT person_tags.person_id "
          ++ "FROM person_tags WHERE person_tags.tag_id IN (SELECT tags.id FROM tags)) "
          ++ "OR person.age = $2)", #[.text "Ann", .int 0], 2⟩
    ∧ (∀ place ∈ (sparse.prune Graph.People.graph Graph.People.person).places Graph.People.graph
        Graph.People.person, ¬place.IsFree)
    ∧ ∃ other operands, Graph.People.graph.entity? "person" = some other
      ∧ Contributes ⟨Graph.People.graph, .postgres⟩ other
        [("age", .list []), ("name", .value (.text "Ann"))] operands
      ∧ operands.length = 1 := by
  have hsparse : sparse.compile ⟨Graph.People.graph, .postgres⟩ "person"
      = .ok ⟨.numbered, "NOT (person.motherId IN (SELECT person.id FROM person "
          ++ "WHERE person.name = $1) OR person.id IN (SELECT person_tags.person_id "
          ++ "FROM person_tags WHERE person_tags.tag_id IN (SELECT tags.id FROM tags)) "
          ++ "OR person.age = $2)", #[.text "Ann", .int 0], 2⟩ := by decide +kernel
  obtain ⟨-, -, hlinked, -, hpruned⟩ :=
    free_places_vanish ⟨Graph.People.graph, .postgres⟩ "person" sparse
  obtain ⟨hcompile, -, hplaces, -⟩ := hpruned Graph.People.person rfl
  obtain ⟨other, operands, hother, hinner, -⟩ := hlinked Graph.People.person "mother" _ false
    [("age", .list []), ("name", .value (.text "Ann"))] _ rfl rfl
  refine ⟨by rfl, hcompile.trans hsparse, hplaces, other, operands, hother, hinner, ?_⟩
  obtain rfl := Option.some.inj hother
  exact hinner.length_eq.symm

end EntityQuery
