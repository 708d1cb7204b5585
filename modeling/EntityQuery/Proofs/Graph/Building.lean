import EntityQuery.Graph.Declaration
import EntityQuery.Proofs.Entries

/-!
# Proofs/Graph/Building — which declarations make a graph, and which graph they make

    relations of the declarations ──keys──▸ links of the graph ──targets──▸ entities

The keys of a relation describe at most one link (`RelationDecl.Describes`), and they describe one
exactly if those of the kind that they start are complete (`RelationDecl.IsComplete`).  Building
goes over the relations twice, once for their keys and once for their targets, so a relation whose
keys make no link is the error before any that leads nowhere: `failure?_build`.
-/

namespace EntityQuery

/-! ## Keys and kinds -/

namespace RelationDecl

variable {relation : RelationDecl}

/-- The link that the keys of a relation describe.  The bridge table decides for a bridge, then the
near foreign key for an outgoing link, then the far one for an incoming link, and what other keys
the relation carries does not matter. -/
inductive Describes (relation : RelationDecl) : Link → Prop where
  | bridge {table sourceRefKey targetRefKey sourceForeignKey targetForeignKey : String}
      (htable : relation.bridgeTable = some table)
      (hsource : relation.sourceRefKey = some sourceRefKey)
      (htarget : relation.targetRefKey = some targetRefKey)
      (hnear : relation.bridgeSourceForeignKey = some sourceForeignKey)
      (hfar : relation.bridgeTargetForeignKey = some targetForeignKey) :
      relation.Describes (.bridge ⟨relation.target, table, sourceRefKey, targetRefKey,
        sourceForeignKey, targetForeignKey⟩)
  | outgoing {sourceForeignKey targetRefKey : String}
      (htable : relation.bridgeTable = none)
      (hnear : relation.sourceForeignKey = some sourceForeignKey)
      (htarget : relation.targetRefKey = some targetRefKey) :
      relation.Describes (.outgoing ⟨relation.target, sourceForeignKey, targetRefKey⟩)
  | incoming {sourceRefKey targetForeignKey : String}
      (htable : relation.bridgeTable = none)
      (hnear : relation.sourceForeignKey = none)
      (hfar : relation.targetForeignKey = some targetForeignKey)
      (hsource : relation.sourceRefKey = some sourceRefKey) :
      relation.Describes (.incoming ⟨relation.target, sourceRefKey, targetForeignKey⟩)

/-- The kind that the keys of a relation start has all of its keys. -/
def IsComplete (relation : RelationDecl) : Prop :=
  (relation.bridgeTable.isSome ∧ relation.sourceRefKey.isSome ∧ relation.targetRefKey.isSome
      ∧ relation.bridgeSourceForeignKey.isSome ∧ relation.bridgeTargetForeignKey.isSome)
    ∨ (relation.bridgeTable.isNone ∧ relation.sourceForeignKey.isSome
      ∧ relation.targetRefKey.isSome)
    ∨ (relation.bridgeTable.isNone ∧ relation.sourceForeignKey.isNone
      ∧ relation.targetForeignKey.isSome ∧ relation.sourceRefKey.isSome)

instance (relation : RelationDecl) : Decidable relation.IsComplete :=
  inferInstanceAs (Decidable (_ ∨ _ ∨ _))

/-- **A relation is classified by what its keys describe.** -/
theorem link?_eq_some {link : Link} : relation.link? = some link ↔ relation.Describes link := by
  constructor
  · intro h
    unfold link? at h
    split at h
    · rename_i table _ _ htable
      obtain ⟨sourceRefKey, hsource, h⟩ := Option.bind_eq_some_iff.mp h
      obtain ⟨targetRefKey, htarget, h⟩ := Option.bind_eq_some_iff.mp h
      obtain ⟨sourceForeignKey, hnear, h⟩ := Option.bind_eq_some_iff.mp h
      obtain ⟨targetForeignKey, hfar, h⟩ := Option.bind_eq_some_iff.mp h
      obtain rfl := Option.some.inj h
      exact .bridge htable hsource htarget hnear hfar
    · rename_i htable hnear
      obtain ⟨targetRefKey, htarget, h⟩ := Option.bind_eq_some_iff.mp h
      obtain rfl := Option.some.inj h
      exact .outgoing htable hnear htarget
    · rename_i htable hnear hfar
      obtain ⟨sourceRefKey, hsource, h⟩ := Option.bind_eq_some_iff.mp h
      obtain rfl := Option.some.inj h
      exact .incoming htable hnear hfar hsource
    · exact nomatch h
  · intro h
    cases h with
    | bridge htable hsource htarget hnear hfar =>
      simp only [link?, htable, hsource, htarget, hnear, hfar, Option.bind_eq_bind,
        Option.bind_some]
    | outgoing htable hnear htarget =>
      simp only [link?, htable, hnear, htarget, Option.bind_eq_bind, Option.bind_some]
    | incoming htable hnear hfar hsource =>
      simp only [link?, htable, hnear, hfar, hsource, Option.bind_eq_bind, Option.bind_some]

/-- Complete keys are those that describe a link. -/
theorem isComplete_iff : relation.IsComplete ↔ ∃ link, relation.Describes link := by
  simp only [IsComplete, Option.isSome_iff_exists, Option.isNone_iff_eq_none]
  constructor
  · rintro (⟨⟨_, htable⟩, ⟨_, hsource⟩, ⟨_, htarget⟩, ⟨_, hnear⟩, _, hfar⟩
      | ⟨htable, ⟨_, hnear⟩, _, htarget⟩ | ⟨htable, hnear, ⟨_, hfar⟩, _, hsource⟩)
    · exact ⟨_, .bridge htable hsource htarget hnear hfar⟩
    · exact ⟨_, .outgoing htable hnear htarget⟩
    · exact ⟨_, .incoming htable hnear hfar hsource⟩
  · rintro ⟨_, ⟨htable, hsource, htarget, hnear, hfar⟩ | ⟨htable, hnear, htarget⟩
      | ⟨htable, hnear, hfar, hsource⟩⟩
    · exact .inl ⟨⟨_, htable⟩, ⟨_, hsource⟩, ⟨_, htarget⟩, ⟨_, hnear⟩, _, hfar⟩
    · exact .inr (.inl ⟨htable, ⟨_, hnear⟩, _, htarget⟩)
    · exact .inr (.inr ⟨htable, hnear, ⟨_, hfar⟩, _, hsource⟩)

/-- A link that a relation describes leads to the relation's target. -/
theorem Describes.target {link : Link} (h : relation.Describes link) :
    link.target = relation.target := by
  cases h <;> rfl

end RelationDecl

/-! ## What declarations make -/

/-- What a declared field makes: a column of the same name, or the link of a relation. -/
inductive FieldDecl.Makes : FieldDecl → Field → Prop where
  | column (name : String) : Makes (.column name) (.column name)
  | relation {declared : RelationDecl} {link : Link} (h : declared.Describes link) :
      Makes (.relation declared) (.link link)

/-- What a declared entity makes: an entity with the same table and the same fields in order. -/
structure EntityDecl.Makes (declared : EntityDecl) (entity : Entity) : Prop where
  table : entity.table = declared.table
  fields : Entries.Related FieldDecl.Makes declared.fields.entries entity.fields.entries

namespace Declarations

/-- What declarations make: a graph of the same entities. -/
def Make (declarations : Declarations) (graph : Graph) : Prop :=
  Entries.Related EntityDecl.Makes declarations.entries graph.entities.entries

/-- The declared relations with their entities and fields: entities by name, and the fields of each
in the order of their declaration. -/
def relations (declarations : Declarations) : List (String × String × RelationDecl) :=
  declarations.entries.flatMap fun (name, declared) =>
    declared.fields.entries.filterMap fun (field, meaning) =>
      match meaning with
      | .column _ => none
      | .relation relation => some (name, field, relation)

/-- A relation that leads to a declared entity. -/
def Leads (declarations : Declarations) (relation : RelationDecl) : Prop :=
  relation.target ∈ declarations.names

instance (declarations : Declarations) (relation : RelationDecl) :
    Decidable (declarations.Leads relation) :=
  inferInstanceAs (Decidable (_ ∈ _))

/-- What is wrong with declarations: the first relation whose keys make no link, and only if there
is none the first relation that leads nowhere. -/
inductive FirstFault (declarations : Declarations) : GraphError → Prop where
  | unsupportedLink {before after : List (String × String × RelationDecl)} {entity field : String}
      {relation : RelationDecl}
      (hrelations : declarations.relations = before ++ (entity, field, relation) :: after)
      (hbefore : ∀ earlier ∈ before, earlier.2.2.IsComplete) (h : ¬ relation.IsComplete) :
      declarations.FirstFault (.unsupportedLink entity field)
  | unknownTarget {before after : List (String × String × RelationDecl)} {entity field : String}
      {relation : RelationDecl}
      (hcomplete : ∀ declared ∈ declarations.relations, declared.2.2.IsComplete)
      (hrelations : declarations.relations = before ++ (entity, field, relation) :: after)
      (hbefore : ∀ earlier ∈ before, declarations.Leads earlier.2.2)
      (h : ¬ declarations.Leads relation) :
      declarations.FirstFault (.unknownTarget entity field relation.target)

end Declarations

/-! ## Building -/

theorem FieldDecl.build_eq_ok {entity field : String} {declared : FieldDecl} {meaning : Field} :
    declared.build entity field = .ok meaning ↔ declared.Makes meaning := by
  cases declared with
  | column name =>
    constructor
    · intro h
      obtain rfl := Except.ok.inj h
      exact .column name
    · rintro ⟨⟩
      rfl
  | relation declared =>
    rw [build]
    constructor
    · intro h
      split at h
      · obtain rfl := Except.ok.inj h
        exact .relation (RelationDecl.link?_eq_some.mp ‹_›)
      · exact nomatch h
    · rintro (_ | hlink)
      rw [RelationDecl.link?_eq_some.mpr hlink]

theorem EntityDecl.build_eq_ok {name : String} {declared : EntityDecl} {entity : Entity} :
    declared.build name = .ok entity ↔ declared.Makes entity := by
  have hfields (fields : OrderedMap Field) :
      declared.fields.traverse (FieldDecl.build name) = .ok fields
        ↔ Entries.Related FieldDecl.Makes declared.fields.entries fields.entries := by
    simp only [OrderedMap.traverse_eq_ok, Entries.traverse_eq_ok, FieldDecl.build_eq_ok]
  rw [build, Except.bind_eq_ok]
  simp only [hfields]
  constructor
  · rintro ⟨fields, hmakes, h⟩
    obtain rfl := Except.ok.inj h
    exact ⟨rfl, hmakes⟩
  · rintro ⟨htable, hmakes⟩
    exact ⟨entity.fields, hmakes, by rw [← htable]⟩

theorem Declarations.traverse_eq_ok (declarations : Declarations) {entities : SortedMap Entity} :
    declarations.traverse EntityDecl.build = .ok entities ↔ declarations.Make ⟨entities⟩ := by
  simp only [SortedMap.traverse_eq_ok, Entries.traverse_eq_ok, EntityDecl.build_eq_ok]
  rfl

namespace Graph

variable {declarations : Declarations} {graph : Graph}

/-- **A graph is built exactly if the declarations make it and its links lead somewhere.** -/
theorem build_eq_ok :
    build declarations = .ok graph ↔ declarations.Make graph ∧ graph.validate = .ok () := by
  rw [build, Except.bind_eq_ok]
  simp only [declarations.traverse_eq_ok]
  constructor
  · rintro ⟨entities, hmakes, h⟩
    obtain ⟨⟨⟩, hvalid, h⟩ := Except.bind_eq_ok.mp h
    obtain rfl := Except.ok.inj h
    exact ⟨hmakes, hvalid⟩
  · rintro ⟨hmakes, hvalid⟩
    exact ⟨graph.entities, hmakes, Except.bind_eq_ok.mpr ⟨(), hvalid, rfl⟩⟩

end Graph

/-! ## What goes wrong first -/

/-- What is wrong with the keys of a relation in its place. -/
def RelationDecl.keyFault? (declared : String × String × RelationDecl) : Option GraphError :=
  if declared.2.2.IsComplete then none else some (.unsupportedLink declared.1 declared.2.1)

/-- What is wrong with where a relation in its place leads. -/
def Declarations.targetFault? (declarations : Declarations)
    (declared : String × String × RelationDecl) : Option GraphError :=
  if declarations.Leads declared.2.2 then none
  else some (.unknownTarget declared.1 declared.2.1 declared.2.2.target)

theorem RelationDecl.link?_eq_none {relation : RelationDecl} :
    relation.link? = none ↔ ¬ relation.IsComplete := by
  rw [isComplete_iff, Option.eq_none_iff_forall_ne_some, not_exists]
  simp only [ne_eq, link?_eq_some]

theorem FieldDecl.failure?_build (entity field : String) (relation : RelationDecl) :
    Except.failure? ((FieldDecl.relation relation).build entity field)
      = RelationDecl.keyFault? (entity, field, relation) := by
  rw [FieldDecl.build, RelationDecl.keyFault?]
  rcases hlink : relation.link? with _ | link
  · rw [if_neg (RelationDecl.link?_eq_none.mp hlink)]
    rfl
  · rw [if_pos (RelationDecl.isComplete_iff.mpr ⟨link, RelationDecl.link?_eq_some.mp hlink⟩)]
    rfl

/-- Making the entities fails as the first relation whose keys make no link. -/
theorem Declarations.failure?_traverse (declarations : Declarations) :
    Except.failure? (declarations.traverse EntityDecl.build)
      = declarations.relations.findSome? RelationDecl.keyFault? := by
  rw [SortedMap.failure?_traverse, relations, Except.findSome?_flatMap]
  refine congrArg (List.findSome? · declarations.entries) (funext fun (name, declared) => ?_)
  have hentity : Except.failure? (declared.build name)
      = Except.failure? (declared.fields.traverse (FieldDecl.build name)) := by
    rw [EntityDecl.build]
    cases declared.fields.traverse (FieldDecl.build name) <;> rfl
  rw [hentity, OrderedMap.failure?_traverse, Except.findSome?_filterMap]
  refine congrArg (List.findSome? · declared.fields.entries) (funext fun (field, meaning) => ?_)
  cases meaning with
  | column column => rfl
  | relation relation => exact FieldDecl.failure?_build name field relation

namespace Graph

variable {declarations : Declarations} {graph : Graph}

/-- The links of a graph stand where the relations of its declarations do, and are described by
them. -/
theorem links_of_make (h : declarations.Make graph) :
    List.Forall₂ (fun declared link => declared.1 = link.1 ∧ declared.2.1 = link.2.1
      ∧ declared.2.2.Describes link.2.2) declarations.relations graph.links := by
  refine List.rel_flatMap h fun declared entity hentry => ?_
  obtain ⟨name, declared⟩ := declared
  obtain ⟨name', entity⟩ := entity
  obtain ⟨rfl, hentity⟩ : name = name' ∧ declared.Makes entity := hentry
  refine List.rel_filterMap (fun field meaning hentry => ?_) hentity.fields
  obtain ⟨field, declared⟩ := field
  obtain ⟨field', meaning⟩ := meaning
  obtain ⟨rfl, hmakes⟩ : field = field' ∧ declared.Makes meaning := hentry
  cases hmakes with
  | column name => exact .none
  | relation hdescribes => exact .some ⟨rfl, rfl, hdescribes⟩

/-- So they lead where the relations lead. -/
theorem map_links_of_make (h : declarations.Make graph) :
    graph.links.map (fun link => (link.1, link.2.1, link.2.2.target))
      = declarations.relations.map fun declared =>
          (declared.1, declared.2.1, declared.2.2.target) := by
  rw [← List.forall₂_eq_eq_eq, List.forall₂_map_left_iff, List.forall₂_map_right_iff]
  refine (links_of_make h).flip.imp fun link declared hlink => ?_
  obtain ⟨hentity, hfield, hdescribes⟩ := hlink
  rw [hentity, hfield, hdescribes.target]

/-- Checking a graph fails as the first relation of its declarations that leads nowhere. -/
theorem failure?_validate (h : declarations.Make graph) :
    Except.failure? graph.validate
      = declarations.relations.findSome? declarations.targetFault? := by
  have hknown (name : String) :
      (graph.entity? name).isNone = decide (name ∉ declarations.names) := by
    rw [Bool.eq_iff_iff, Option.isNone_iff_eq_none, decide_eq_true_eq]
    exact Entries.get?_eq_none.trans (not_congr (iff_of_eq (congrArg (name ∈ ·) h.names.symm)))
  have hfirst : Except.failure? graph.validate
      = (graph.links.map fun link => (link.1, link.2.1, link.2.2.target)).findSome? fun link =>
          if link.2.2 ∈ declarations.names then none
          else some (.unknownTarget link.1 link.2.1 link.2.2) := by
    have herror : Except.failure? graph.validate
        = (graph.links.find? fun link => (graph.entity? link.2.2.target).isNone).map fun link =>
            .unknownTarget link.1 link.2.1 link.2.2.target := by
      rw [validate]
      cases graph.links.find? fun link => (graph.entity? link.2.2.target).isNone <;> rfl
    rw [herror, List.find?_eq_findSome?_guard, List.map_findSome?, List.findSome?_map]
    refine congrArg (List.findSome? · graph.links) (funext fun link => ?_)
    simp only [Function.comp_apply, Option.guard_def, hknown, decide_eq_true_eq]
    by_cases hlink : link.2.2.target ∈ declarations.names
    · rw [if_pos hlink, if_neg (not_not_intro hlink)]
      rfl
    · rw [if_neg hlink, if_pos hlink]
      rfl
  rw [hfirst, map_links_of_make h, List.findSome?_map]
  rfl

/-- **Building fails as the first relation whose keys make no link, and otherwise as the first that
leads nowhere.** -/
theorem failure?_build (declarations : Declarations) :
    Except.failure? (build declarations)
      = (declarations.relations.findSome? RelationDecl.keyFault?).or
          (declarations.relations.findSome? declarations.targetFault?) := by
  have hkeys := declarations.failure?_traverse
  rw [build, ← hkeys]
  rcases htraverse : declarations.traverse EntityDecl.build with error | entities
  · rfl
  · rw [← failure?_validate (declarations.traverse_eq_ok.mp htraverse)]
    change Except.failure? (validate ⟨entities⟩ >>= fun _ => _) = _
    rcases validate ⟨entities⟩ <;> rfl

end Graph

theorem RelationDecl.keyFault?_eq_none {declared : String × String × RelationDecl} :
    keyFault? declared = none ↔ declared.2.2.IsComplete := by
  rw [keyFault?]
  split <;> simp [*]

theorem Declarations.targetFault?_eq_none {declarations : Declarations}
    {declared : String × String × RelationDecl} :
    declarations.targetFault? declared = none ↔ declarations.Leads declared.2.2 := by
  rw [targetFault?]
  split <;> simp [*]

/-- The first fault of declarations, looked for among the keys and then among the targets. -/
theorem Declarations.firstFault_iff {declarations : Declarations} {error : GraphError} :
    declarations.FirstFault error
      ↔ (declarations.relations.findSome? RelationDecl.keyFault?).or
          (declarations.relations.findSome? declarations.targetFault?) = some error := by
  rw [Option.or_eq_some_iff, List.findSome?_eq_some_iff, List.findSome?_eq_some_iff,
    List.findSome?_eq_none_iff]
  simp only [RelationDecl.keyFault?_eq_none, targetFault?_eq_none]
  constructor
  · rintro (⟨hrelations, hbefore, h⟩ | ⟨hcomplete, hrelations, hbefore, h⟩)
    · exact .inl ⟨_, _, _, hrelations, if_neg h, hbefore⟩
    · exact .inr ⟨hcomplete, _, _, _, hrelations, if_neg h, hbefore⟩
  · rintro (⟨_, ⟨entity, field, relation⟩, _, hrelations, herror, hbefore⟩
      | ⟨hcomplete, _, ⟨entity, field, relation⟩, _, hrelations, herror, hbefore⟩)
    · obtain ⟨h, herror⟩ := Option.ite_none_left_eq_some.mp herror
      obtain rfl := Option.some.inj herror
      exact .unsupportedLink hrelations hbefore h
    · obtain ⟨h, herror⟩ := Option.ite_none_left_eq_some.mp herror
      obtain rfl := Option.some.inj herror
      exact .unknownTarget hcomplete hrelations hbefore h

/-- **Declarations are built exactly if they are well formed, and as they stand.**  There is a graph
exactly if every relation has the keys of its kind and leads to a declared entity.  The graph has
the declared entities with their tables and their fields in order, each column as it is and each
relation as the link that its keys describe, and it passes its check.  The error is the first
relation without the keys of its kind, and only if there is none the first that leads nowhere. -/
theorem declarations_built (declarations : Declarations) :
    ((∃ graph, Graph.build declarations = .ok graph)
        ↔ ∀ declared ∈ declarations.relations,
          declared.2.2.IsComplete ∧ declarations.Leads declared.2.2)
      ∧ (∀ graph, Graph.build declarations = .ok graph
        ↔ declarations.Make graph ∧ graph.validate = .ok ())
      ∧ ∀ error, Graph.build declarations = .error error ↔ declarations.FirstFault error := by
  refine ⟨?_, fun graph => Graph.build_eq_ok, fun error => ?_⟩
  · rw [← Except.failure?_eq_none, Graph.failure?_build, Option.or_eq_none_iff,
      List.findSome?_eq_none_iff, List.findSome?_eq_none_iff, ← forall₂_and]
    simp only [RelationDecl.keyFault?_eq_none, Declarations.targetFault?_eq_none]
  · rw [← Except.failure?_eq_some, Graph.failure?_build, Declarations.firstFault_iff]

/-- People have cars that are not declared, and vehicles have a bridge table without the keys of a
bridge, beside all keys of an outgoing link. -/
def adrift : Declarations :=
  .ofList [
    ("vehicle", ⟨"vehicles", .ofList [
      ("owner", .column "owner"),
      ("tags", .relation
        { target := "person"
          bridgeTable := some "vehicle_tags"
          sourceForeignKey := some "tagId"
          targetRefKey := some "id" })]⟩),
    ("person", ⟨"person", .ofList [
      ("car", .relation
        { target := "car", sourceForeignKey := some "carId", targetRefKey := some "id" })]⟩)]

/-- The bridge is the error, although people come before vehicles: keys are looked at first, and a
bridge without its keys is no outgoing link. -/
theorem adrift_not_built :
    (¬ ∃ graph, Graph.build adrift = .ok graph)
      ∧ Graph.build adrift = .error (.unsupportedLink "vehicle" "tags") := by
  obtain ⟨hbuilt, -, herror⟩ := declarations_built adrift
  have hcar : ("person", "car", _) ∈ adrift.relations := List.mem_cons_self
  refine ⟨fun h => absurd (hbuilt.mp h _ hcar).2 (by decide), (herror _).mpr ?_⟩
  have hrelations : adrift.relations = [_] ++ ("vehicle", "tags", _) :: [] := rfl
  exact .unsupportedLink hrelations (by decide) (by decide)

end EntityQuery
