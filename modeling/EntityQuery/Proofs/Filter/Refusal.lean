import EntityQuery.Graph.People
import EntityQuery.Proofs.Graph.Building
import EntityQuery.Proofs.Request.Assembly

/-!
# Proofs/Filter/Refusal — which filters are refused, and where

A filter is walked depth first: `Filter.places` lists the fields it reaches, those at the other end
of a link included, each with what is asked of it.  A place is refused when it compares a link with
a value, or when it compares a column with a value that is still to come (`Place.error?`).

Two inputs.  In a graph that passes its own check no link dangles (`Graph.exists_target`), so what
is walked are entities of the graph.  And a traversal fails as its first item that fails
(`Except.failure?_mapM`), so the first place that is refused is the error: `failure?_exprs`.
-/

namespace EntityQuery

open Sql (Expr)

/-! ## Places -/

/-- A field of an entity, with what is asked of it. -/
structure Place where
  entity : Entity
  field : String
  clause : Clause

mutual

/-- The field of a clause, and behind it what a filter on a link reaches at the other end. -/
def Clause.places (graph : Graph) (entity : Entity) (field : String) : Clause → List Place
  | .nested negated clauses =>
      ⟨entity, field, .nested negated clauses⟩
        :: match (entity.link? field).bind fun link => graph.entity? link.target with
          | some other => clausePlaces graph other clauses
          | none => []
  | asked => [⟨entity, field, asked⟩]

/-- What clauses reach, one clause after the other. -/
def clausePlaces (graph : Graph) (entity : Entity) : List (String × Clause) → List Place
  | [] => []
  | (field, clause) :: rest =>
      clause.places graph entity field ++ clausePlaces graph entity rest

end

/-- The places that a filter reaches, depth first. -/
def Filter.places (graph : Graph) (entity : Entity) (filter : Filter) : List Place :=
  clausePlaces graph entity filter.clauses

/-! ## Refused places -/

/-- The scalars of a test; of a range, what the column is greater than comes first. -/
def Test.scalars : Test → List Scalar
  | .equal (.one scalar) => [scalar]
  | .equal (.oneOf scalars) => scalars
  | .like pattern => [pattern]
  | .range above below => above.toList ++ below.toList
  | .unspecified => []

/-- The scalars that a clause compares with by itself; those of a filter are further down. -/
def Clause.held : Clause → List Scalar
  | .value scalar => [scalar]
  | .list scalars => scalars
  | .condition asked => asked.test.scalars
  | .nested _ _ => []

/-- Why a scalar cannot be bound. -/
def Scalar.error? : Scalar → Option CompileError
  | .pending reference => some (.pendingValue reference)
  | _ => none

namespace Place

/-- Whether a link is compared with a value, a list or a condition. -/
def ComparesLink (place : Place) : Prop :=
  (place.entity.link? place.field).isSome
    ∧ ∀ negated clauses, place.clause ≠ .nested negated clauses

/-- Whether a field that is no link is compared with a value that is still to come. -/
def Awaits (place : Place) (reference : String) : Prop :=
  place.entity.link? place.field = none ∧ .pending reference ∈ place.clause.held

/-- Why a place is refused, if it is. -/
def error? (place : Place) : Option CompileError :=
  match place.entity.link? place.field with
  | none => place.clause.held.findSome? Scalar.error?
  | some _ =>
      match place.clause with
      | .nested _ _ => none
      | _ => some (.linkComparedByValue place.field)

end Place

theorem Scalar.error?_isSome {scalar : Scalar} :
    scalar.error?.isSome ↔ ∃ reference, scalar = .pending reference := by
  rcases scalar <;> simp [error?]

theorem Place.error?_isSome {place : Place} :
    place.error?.isSome ↔ place.ComparesLink ∨ ∃ reference, place.Awaits reference := by
  obtain ⟨entity, field, clause⟩ := place
  rcases hlink : entity.link? field with _ | link
  · simp [error?, ComparesLink, Awaits, hlink, List.findSome?_isSome_iff, Scalar.error?_isSome]
  · rcases clause with scalar | scalars | asked | ⟨negated, clauses⟩ <;>
      simp [error?, ComparesLink, Awaits, hlink]

/-- No place is refused for an entity that is missing. -/
theorem Place.error?_ne_entityNotFound (place : Place) (missing : String) :
    place.error? ≠ some (.entityNotFound missing) := by
  have hscalar (scalar : Scalar) : scalar.error? ≠ some (.entityNotFound missing) := by
    rcases scalar <;> nofun
  intro h
  rw [error?] at h
  split at h
  · obtain ⟨scalar, -, hfound⟩ := List.exists_of_findSome?_eq_some h
    exact hscalar scalar hfound
  · split at h <;> exact nomatch h

/-! ## Graphs without loose ends -/

/-- **No link dangles in a graph that passes its check.** -/
theorem Graph.exists_target {graph : Graph} (hvalid : graph.validate = .ok ()) {name : String}
    {entity : Entity} (hentity : graph.entity? name = some entity) {field : String} {link : Link}
    (hlink : entity.link? field = some link) : ∃ other, graph.entity? link.target = some other := by
  have hfield : (field, Field.link link) ∈ entity.fields.entries :=
    Entries.mem_of_get? (entity.field_of_link hlink)
  have hmem : (name, field, link) ∈ graph.links :=
    List.mem_flatMap.mpr ⟨(name, entity), Entries.mem_of_get? hentity,
      List.mem_filterMap.mpr ⟨_, hfield, rfl⟩⟩
  rw [Graph.validate] at hvalid
  split at hvalid
  · next hfind =>
    have hknown := List.find?_eq_none.mp hfind (name, field, link) hmem
    rcases hother : graph.entity? link.target with _ | other
    · exact absurd (Option.isNone_iff_eq_none.mpr hother) hknown
    · exact ⟨other, rfl⟩
  · contradiction

/-- A graph that is built has passed its check. -/
theorem Graph.validate_of_build {declarations : Declarations} {graph : Graph}
    (h : Graph.build declarations = .ok graph) : graph.validate = .ok () :=
  (Graph.build_eq_ok.mp h).2

/-! ## The first refused place is the error -/

theorem Scalar.failure?_toValue (dialect : Dialect) (scalar : Scalar) :
    Except.failure? (scalar.toValue dialect) = scalar.error? := by
  rcases scalar <;> rfl

/-- A criterion fails as its first operand that does. -/
theorem Criterion.failure?_traverse {α β ε : Type} (f : α → Except ε β) (criterion : Criterion α) :
    Except.failure? (criterion.traverse f)
      = criterion.operands.findSome? fun a => Except.failure? (f a) := by
  rcases criterion with ⟨negated, comparison, operand⟩ | ⟨negated, operands⟩ | ⟨negated, bounds⟩
  · rw [traverse, Except.failure?_map, Criterion.operands, List.findSome?_singleton]
  · rw [traverse, Except.failure?_map, Except.failure?_mapM, Criterion.operands]
  · rw [traverse, Except.failure?_map, Criterion.operands, ← Except.failure?_mapM, mapM_bounds,
      Except.failure?_map]

/-- Leaving the nulls out of what is asked leaves no error out. -/
theorem Condition.findSome?_operands (asked : Condition) :
    ((asked.criterion?.map Criterion.operands).getD []).findSome? Scalar.error?
      = asked.test.scalars.findSome? Scalar.error? := by
  have hpresent (scalar : Option Scalar) :
      (Scalar.present? scalar).toList.findSome? Scalar.error?
        = scalar.toList.findSome? Scalar.error? := by
    rcases scalar with _ | scalar
    · rfl
    · rcases scalar <;> rfl
  rcases asked with ⟨(scalar | ⟨_ | ⟨scalar, rest⟩⟩) | pattern | ⟨above, below⟩ | _, negated⟩
  · rw [criterion?, Test.scalars, ← Option.toList_some, ← hpresent]
    rcases Scalar.present? scalar <;> rfl
  · rfl
  · rfl
  · rw [criterion?, Test.scalars, ← Option.toList_some, ← hpresent]
    rcases Scalar.present? pattern <;> rfl
  · rw [criterion?, Test.scalars, List.findSome?_append, ← hpresent above,
      ← hpresent below, ← List.findSome?_append]
    rcases Scalar.present? above <;> rcases Scalar.present? below <;> rfl
  · rfl

theorem Clause.findSome?_operands (clause : Clause) :
    ((clause.criterion?.map Criterion.operands).getD []).findSome? Scalar.error?
      = clause.held.findSome? Scalar.error? := by
  rcases clause with scalar | scalars | asked | ⟨negated, clauses⟩
  · rw [criterion?]
    exact (Condition.equal scalar).findSome?_operands
  · rw [criterion?]
    exact (Condition.oneOf scalars).findSome?_operands
  · rw [criterion?]
    exact asked.findSome?_operands
  · rfl

/-- What is asked of a column fails as the first scalar that is still to come. -/
theorem Clause.failure?_of_column (target : Target) {entity : Entity} {field : String}
    (h : entity.link? field = none) (clause : Clause) :
    Except.failure? (clause.expr? target entity field)
      = (clause.places target.graph entity field).findSome? Place.error? := by
  have hplaces : clause.places target.graph entity field = [⟨entity, field, clause⟩] := by
    rcases clause with scalar | scalars | asked | ⟨negated, clauses⟩ <;> rw [places]
    · rintro _ _ ⟨⟩
    · rintro _ _ ⟨⟩
    · rintro _ _ ⟨⟩
    · rw [h]
      rfl
  have herror : Place.error? ⟨entity, field, clause⟩ = clause.held.findSome? Scalar.error? := by
    rw [Place.error?, h]
  rw [hplaces, List.findSome?_singleton, herror, ← clause.findSome?_operands,
    expr?_of_column target h]
  rcases clause.criterion? with _ | criterion
  · rfl
  · rw [Criterion.compiled?, Except.failure?_map, Criterion.failure?_traverse, Option.map_some,
      Option.getD_some]
    simp only [Scalar.failure?_toValue]

/-- What is asked of a link fails unless it is a filter, and then as the filter does at the other
end. -/
theorem Clause.failure?_of_link (target : Target) {entity other : Entity} {field : String}
    {link : Link} (h : entity.link? field = some link)
    (hother : target.graph.entity? link.target = some other) {clause : Clause}
    (ih : ∀ negated inner, clause = .nested negated inner →
      Except.failure? (exprs target other inner)
        = (clausePlaces target.graph other inner).findSome? Place.error?) :
    Except.failure? (clause.expr? target entity field)
      = (clause.places target.graph entity field).findSome? Place.error? := by
  have hasked (asked : Clause) (hne : ∀ negated inner, asked ≠ .nested negated inner) :
      (asked.places target.graph entity field).findSome? Place.error?
        = some (.linkComparedByValue field) := by
    have herror : Place.error? ⟨entity, field, asked⟩ = some (.linkComparedByValue field) := by
      rw [Place.error?, h]
      rcases asked with scalar | scalars | condition | ⟨negated, inner⟩
      · rfl
      · rfl
      · rfl
      · exact absurd rfl (hne negated inner)
    rw [places, List.findSome?_singleton, herror]
    exact hne
  rw [expr?_of_link target h]
  rcases clause with scalar | scalars | asked | ⟨negated, clauses⟩
  · exact (hasked (.value scalar) nofun).symm
  · exact (hasked (.list scalars) nofun).symm
  · exact (hasked (.condition asked) nofun).symm
  · have herror : Place.error? ⟨entity, field, .nested negated clauses⟩ = none := by
      rw [Place.error?, h]
    have hoperands : Except.failure? (exprs target other clauses >>= fun operands =>
        .ok (some (link.expr entity other (joinGroup negated operands))))
        = Except.failure? (exprs target other clauses) := by
      rcases exprs target other clauses <;> rfl
    rw [places, h, Option.bind_some, hother, List.findSome?_cons, herror, ← ih negated clauses rfl,
      ← hoperands, Target.entity_eq_ok.mpr hother]
    rfl

/-- **Clauses fail as the first of their places that is refused.** -/
theorem failure?_exprs {target : Target} (hvalid : target.graph.validate = .ok ()) {name : String}
    {entity : Entity} (hentity : target.graph.entity? name = some entity)
    (clauses : List (String × Clause)) :
    Except.failure? (Clause.exprs target entity clauses)
      = (clausePlaces target.graph entity clauses).findSome? Place.error? := by
  refine Clause.induction_on_clauses
    (R := fun clause => ∀ name entity field, target.graph.entity? name = some entity →
      Except.failure? (clause.expr? target entity field)
        = (clause.places target.graph entity field).findSome? Place.error?)
    (S := fun clauses => ∀ name entity, target.graph.entity? name = some entity →
      Except.failure? (Clause.exprs target entity clauses)
        = (clausePlaces target.graph entity clauses).findSome? Place.error?)
    ?clause ?nil ?cons clauses name entity hentity
  case clause =>
    intro clause ih name entity field hentity
    rcases hlink : entity.link? field with _ | link
    · exact clause.failure?_of_column target hlink
    · obtain ⟨other, hother⟩ := Graph.exists_target hvalid hentity hlink
      exact clause.failure?_of_link target hlink hother fun negated inner hclause =>
        ih negated inner hclause link.target other hother
  case nil =>
    intro name entity hentity
    rw [Clause.exprs, clausePlaces]
    rfl
  case cons =>
    intro field clause rest hclause hrest name entity hentity
    have hboth := Except.failure?_both (clause.expr? target entity field)
      (Clause.exprs target entity rest) fun operand operands => operand.toList ++ operands
    rw [Clause.exprs, clausePlaces, List.findSome?_append, ← hclause name entity field hentity,
      ← hrest name entity hentity, ← hboth]
    rfl

/-- A filter on an entity of the graph fails as the first of its places that is refused. -/
theorem Filter.failure?_compile {target : Target} (hvalid : target.graph.validate = .ok ())
    {name : String} {entity : Entity} (hentity : target.graph.entity? name = some entity)
    (filter : Filter) :
    Except.failure? (filter.compile target name)
      = (filter.places target.graph entity).findSome? Place.error? := by
  rw [places, ← failure?_exprs hvalid hentity, compile, Target.entity_eq_ok.mpr hentity]
  change Except.failure? ((Clause.exprs target entity filter.clauses >>= _) >>= _) = _
  rcases Clause.exprs target entity filter.clauses <;> rfl

/-- **Refusals are characterised.**  Every graph that is built passes its check.  On an entity of a
graph that does, in every dialect, a filter fails exactly if one of the places it reaches compares a
link or awaits a value; the error is that of the first such place, and so it is for every request
with this filter; and no entity is ever missing. -/
theorem refused_iff :
    (∀ (declarations : Declarations) (graph : Graph), Graph.build declarations = .ok graph →
      graph.validate = .ok ())
    ∧ ∀ target : Target, target.graph.validate = .ok () → ∀ (name : String) (entity : Entity),
      target.graph.entity? name = some entity → ∀ request : Request,
        ((∃ error, request.search.compile target name = .error error)
          ↔ ∃ place ∈ request.search.places target.graph entity,
            place.ComparesLink ∨ ∃ reference, place.Awaits reference)
        ∧ (∀ error, request.search.compile target name = .error error
          ↔ (request.search.places target.graph entity).findSome? Place.error? = some error)
        ∧ (∀ error, request.compile target name = .error error
          ↔ request.search.compile target name = .error error)
        ∧ ∀ missing, request.search.compile target name ≠ .error (.entityNotFound missing) := by
  refine ⟨fun declarations graph => Graph.validate_of_build, ?_⟩
  intro target hvalid name entity hentity request
  have hfirst (error : CompileError) : request.search.compile target name = .error error
      ↔ (request.search.places target.graph entity).findSome? Place.error? = some error := by
    rw [← Filter.failure?_compile hvalid hentity, Except.failure?_eq_some]
  refine ⟨?_, hfirst, fun error => ?_, fun missing hmissing => ?_⟩
  · simp only [hfirst, ← Option.isSome_iff_exists, List.findSome?_isSome_iff, Place.error?_isSome]
  · rw [request.compile_eq_map hentity, Except.map_eq_error]
  · obtain ⟨place, -, hplace⟩ := List.exists_of_findSome?_eq_some ((hfirst _).mp hmissing)
    exact place.error?_ne_entityNotFound missing hplace

/-! ### Values that are still to come -/

/-- A declaration of people by their mothers, who are people again. -/
def mothers : Declarations :=
  .ofList [("person", ⟨"person", .ofList [("mother",
    .relation { target := "person", sourceForeignKey := "motherId", targetRefKey := "id" })]⟩)]

/-- Three values are still to come.  The first stands under a field that is no link, so the lower
bound of the years is the first that is reached; an owner that is null is refused, but later. -/
def undecided : Request where
  search := ⟨true, [
    ("nickname", .nested false [("name", .value (.pending "nickname"))]),
    ("vehicles", .nested false [
      ("year", .condition (.between (.pending "since") (.pending "until"))),
      ("owner", .value .null)])]⟩

theorem refusal_of_undecided :
    (∃ graph, Graph.build mothers = .ok graph ∧ graph.validate = .ok ())
      ∧ undecided.search.compile ⟨Graph.People.graph, .sqlite⟩ "person"
        = .error (.pendingValue "since")
      ∧ undecided.compile ⟨Graph.People.graph, .sqlite⟩ "person"
        = .error (.pendingValue "since") := by
  obtain ⟨hbuild, hrefused⟩ := refused_iff
  obtain ⟨-, hfirst, hrequest, -⟩ := hrefused ⟨Graph.People.graph, .sqlite⟩ (by decide) "person"
    Graph.People.person rfl undecided
  have hsearch := (hfirst (.pendingValue "since")).mpr rfl
  exact ⟨⟨_, rfl, hbuild mothers _ rfl⟩, hsearch, (hrequest _).mpr hsearch⟩

end EntityQuery
