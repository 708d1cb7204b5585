import EntityQuery.Proofs.Filter.Refusal

/-!
# Proofs/Filter/Visited — a filter depends on the entities that it visits, and on no others

    { mother: { vehicles: { brand: … } } }        person ──mother──▸ person ──vehicles──▸ vehicle

From the entity at its root, a filter visits the target of each link along which it nests, however
often a cycle comes back (`Visits`).  A target that is missing is visited as well: that it is
missing is what the filter depends on.

Two graphs that agree on the visited names compile the filter alike (`exprs_congr`), so it does not
matter what stands under other names.  In a graph that passes its check, what is visited from an
entity are entities (`Visits.exists_entity`), so new names are never visited.
-/

namespace EntityQuery

/-- The names that clauses visit from an entity: its own, and what a filter on a link visits from
the other end. -/
inductive Visits (graph : Graph) : String → List (String × Clause) → String → Prop
  | root {name clauses} : Visits graph name clauses name
  | link {name entity clauses field negated inner link visited}
      (known : graph.entity? name = some entity) (mem : (field, .nested negated inner) ∈ clauses)
      (leads : entity.link? field = some link) (behind : Visits graph link.target inner visited) :
      Visits graph name clauses visited

/-- Two graphs have the same entities under the names that clauses visit, or lack the same. -/
def AgreeOnVisited (first second : Graph) (name : String) (clauses : List (String × Clause)) :
    Prop :=
  ∀ visited, Visits first name clauses visited → first.entity? visited = second.entity? visited

namespace AgreeOnVisited

variable {first second : Graph} {name : String} {clauses : List (String × Clause)}

theorem root (h : AgreeOnVisited first second name clauses) :
    first.entity? name = second.entity? name :=
  h name .root

/-- Graphs that agree on what is visited agree on what is visited behind a link. -/
theorem behind (h : AgreeOnVisited first second name clauses) {entity : Entity}
    (known : first.entity? name = some entity) {field : String} {negated : Bool}
    {inner : List (String × Clause)} (mem : (field, .nested negated inner) ∈ clauses) {link : Link}
    (leads : entity.link? field = some link) : AgreeOnVisited first second link.target inner :=
  fun visited hvisited => h visited (.link known mem leads hvisited)

end AgreeOnVisited

/-! ## Two graphs -/

/-- An entity is looked up alike where the graphs agree. -/
theorem Target.entity_congr {first second : Graph} (dialect : Dialect) {name : String}
    (h : first.entity? name = second.entity? name) :
    Target.entity ⟨first, dialect⟩ name = Target.entity ⟨second, dialect⟩ name := by
  rw [Target.entity, Target.entity, h]

/-- A clause compiles alike where the graphs agree on what its filter visits behind its link. -/
theorem Clause.expr?_congr {first second : Graph} (dialect : Dialect) {entity : Entity}
    {field : String} {clause : Clause}
    (hagree : ∀ negated inner link, clause = .nested negated inner →
      entity.link? field = some link → AgreeOnVisited first second link.target inner)
    (hinner : ∀ negated inner, clause = .nested negated inner → ∀ name other,
      first.entity? name = some other → AgreeOnVisited first second name inner →
        exprs ⟨first, dialect⟩ other inner = exprs ⟨second, dialect⟩ other inner) :
    clause.expr? ⟨first, dialect⟩ entity field = clause.expr? ⟨second, dialect⟩ entity field := by
  cases hlink : entity.link? field with
  | none => rw [expr?_of_column _ hlink, expr?_of_column _ hlink]
  | some link =>
    rw [expr?_of_link _ hlink, expr?_of_link _ hlink]
    cases clause with
    | nested negated inner =>
      have hagree := hagree negated inner link rfl hlink
      have hentity := Target.entity_congr dialect hagree.root
      cases hother : Target.entity ⟨first, dialect⟩ link.target with
      | error error =>
        rw [hother] at hentity
        simp only [← hentity, bind, Except.bind]
      | ok other =>
        rw [hother] at hentity
        have hknown := Target.entity_eq_ok.mp hother
        simp only [← hentity, hinner negated inner rfl link.target other hknown hagree,
          bind, Except.bind]
    | value scalar => rfl
    | list scalars => rfl
    | condition asked => rfl

/-- **Clauses compile alike in graphs that agree on what they visit.** -/
theorem exprs_congr {first second : Graph} (dialect : Dialect) {name : String} {entity : Entity}
    {clauses : List (String × Clause)} (hentity : first.entity? name = some entity)
    (hagree : AgreeOnVisited first second name clauses) :
    Clause.exprs ⟨first, dialect⟩ entity clauses
      = Clause.exprs ⟨second, dialect⟩ entity clauses := by
  refine Clause.induction_on_clauses
    (R := fun clause => ∀ negated inner, clause = .nested negated inner → ∀ name entity,
      first.entity? name = some entity → AgreeOnVisited first second name inner →
        Clause.exprs ⟨first, dialect⟩ entity inner = Clause.exprs ⟨second, dialect⟩ entity inner)
    (S := fun clauses => ∀ name entity, first.entity? name = some entity →
      AgreeOnVisited first second name clauses →
        Clause.exprs ⟨first, dialect⟩ entity clauses
          = Clause.exprs ⟨second, dialect⟩ entity clauses)
    ?clause ?nil ?cons clauses name entity hentity hagree
  case clause => exact fun clause ih => ih
  case nil =>
    intro name entity _ _
    rw [Clause.exprs, Clause.exprs]
  case cons =>
    intro field clause rest hclause hrest name entity hentity hagree
    have hfirst : clause.expr? ⟨first, dialect⟩ entity field
        = clause.expr? ⟨second, dialect⟩ entity field := by
      refine Clause.expr?_congr dialect (fun negated inner link heq hlink => ?_) hclause
      subst heq
      exact hagree.behind hentity List.mem_cons_self hlink
    have hothers : AgreeOnVisited first second name rest := by
      intro visited hvisited
      cases hvisited with
      | root => exact hagree.root
      | link known mem leads behind =>
        exact hagree _ (.link known (List.mem_cons_of_mem _ mem) leads behind)
    rw [Clause.exprs, Clause.exprs, hfirst, hrest name entity hentity hothers]

namespace AgreeOnVisited

variable {first second : Graph} {name : String}

/-- A filter compiles alike in graphs that agree on what it visits. -/
theorem compile_filter {filter : Filter} (h : AgreeOnVisited first second name filter.clauses)
    (dialect : Dialect) :
    filter.compile ⟨first, dialect⟩ name = filter.compile ⟨second, dialect⟩ name := by
  have hroot := Target.entity_congr dialect h.root
  rw [Filter.compile, Filter.compile, ← hroot]
  cases hentity : Target.entity ⟨first, dialect⟩ name with
  | error error => rfl
  | ok entity =>
    have hexprs := exprs_congr dialect (Target.entity_eq_ok.mp hentity) h
    change (filter.expr? _ entity >>= _) = (filter.expr? _ entity >>= _)
    rw [Filter.expr?, Filter.expr?, hexprs]

/-- So does a request with this filter: its other parts depend on the root only. -/
theorem compile_request {request : Request}
    (h : AgreeOnVisited first second name request.search.clauses) (dialect : Dialect) :
    request.compile ⟨first, dialect⟩ name = request.compile ⟨second, dialect⟩ name := by
  cases hentity : first.entity? name with
  | none =>
    have hunknown : Target.entity ⟨first, dialect⟩ name = .error (.entityNotFound name) := by
      rw [Target.entity, hentity]
    rw [Request.compile, Request.compile, ← Target.entity_congr dialect h.root, hunknown]
    rfl
  | some entity =>
    rw [request.compile_eq_map hentity, request.compile_eq_map (h.root ▸ hentity),
      h.compile_filter dialect]

end AgreeOnVisited

/-! ## One graph, with other entities -/

namespace Graph

variable {graph : Graph}

theorem entity?_withEntity_of_ne {name other : String} (h : name ≠ other) (entity : Entity) :
    (graph.withEntity other entity).entity? name = graph.entity? name :=
  graph.entities.get?_insert_of_ne entity h.symm

/-- Adds entities one after the other. -/
def withEntities (graph : Graph) (added : List (String × Entity)) : Graph :=
  added.foldl (fun graph entry => graph.withEntity entry.1 entry.2) graph

/-- Under a name that is not added, the entity stays. -/
theorem entity?_withEntities {added : List (String × Entity)} {name : String}
    (h : ∀ entry ∈ added, name ≠ entry.1) :
    (graph.withEntities added).entity? name = graph.entity? name := by
  induction added generalizing graph with
  | nil => rfl
  | cons entry rest ih =>
    obtain ⟨hentry, hrest⟩ := List.forall_mem_cons.mp h
    exact (ih hrest).trans (entity?_withEntity_of_ne hentry entry.2)

end Graph

/-- **In a graph that passes its check, only entities are visited from an entity.** -/
theorem Visits.exists_entity {graph : Graph} (hvalid : graph.validate = .ok ())
    {name visited : String} {clauses : List (String × Clause)}
    (hvisits : Visits graph name clauses visited)
    (hname : ∃ entity, graph.entity? name = some entity) :
    ∃ entity, graph.entity? visited = some entity := by
  induction hvisits with
  | root => exact hname
  | link known _ leads _ ih => exact ih (Graph.exists_target hvalid known leads)

/-- **Results depend on the visited entities only.**

* Graphs that agree on what a filter visits from an entity give the same result for the filter, and
  for every request with this filter.
* In particular, an entity under a name that is not visited can be replaced.
* And entities under new names can be added to a graph that passes its check, whatever their own
  links lead to: the results on all entities that were there stay. -/
theorem results_depend_on_visited (dialect : Dialect) :
    (∀ (first second : Graph) (name : String) (filter : Filter),
      AgreeOnVisited first second name filter.clauses →
        filter.compile ⟨first, dialect⟩ name = filter.compile ⟨second, dialect⟩ name)
    ∧ (∀ (first second : Graph) (name : String) (request : Request),
      AgreeOnVisited first second name request.search.clauses →
        request.compile ⟨first, dialect⟩ name = request.compile ⟨second, dialect⟩ name)
    ∧ (∀ (graph : Graph) (name other : String) (entity : Entity) (request : Request),
      ¬Visits graph name request.search.clauses other →
        request.search.compile ⟨graph.withEntity other entity, dialect⟩ name
            = request.search.compile ⟨graph, dialect⟩ name
          ∧ request.compile ⟨graph.withEntity other entity, dialect⟩ name
            = request.compile ⟨graph, dialect⟩ name)
    ∧ ∀ graph : Graph, graph.validate = .ok () → ∀ added : List (String × Entity),
      (∀ entry ∈ added, graph.entity? entry.1 = none) → ∀ (name : String) (entity : Entity),
        graph.entity? name = some entity → ∀ request : Request,
          request.search.compile ⟨graph.withEntities added, dialect⟩ name
              = request.search.compile ⟨graph, dialect⟩ name
            ∧ request.compile ⟨graph.withEntities added, dialect⟩ name
              = request.compile ⟨graph, dialect⟩ name := by
  refine ⟨fun first second name filter h => h.compile_filter dialect,
    fun first second name request h => h.compile_request dialect, ?_, ?_⟩
  · intro graph name other entity request hother
    have hagree : AgreeOnVisited graph (graph.withEntity other entity) name
        request.search.clauses := by
      intro visited hvisited
      have hne : visited ≠ other := fun heq => hother (heq ▸ hvisited)
      exact (Graph.entity?_withEntity_of_ne hne entity).symm
    exact ⟨(hagree.compile_filter dialect).symm, (hagree.compile_request dialect).symm⟩
  · intro graph hvalid added hnew name entity hentity request
    have hagree : AgreeOnVisited graph (graph.withEntities added) name request.search.clauses := by
      intro visited hvisited
      obtain ⟨found, hfound⟩ := hvisited.exists_entity hvalid ⟨entity, hentity⟩
      refine (Graph.entity?_withEntities fun entry hentry heq => ?_).symm
      rw [heq, hnew entry hentry] at hfound
      contradiction
    exact ⟨(hagree.compile_filter dialect).symm, (hagree.compile_request dialect).symm⟩

/-! ### A cycle through the same entity -/

/-- Those who have a grandfather called Tom on their mother's side. -/
def tomsGrandchildren : Filter :=
  ⟨false, [("mother", .nested false [("father", .nested false [("name", .value (.text "Tom"))])])]⟩

/-- Pets, whose owners are missing from the graph. -/
def strayPet : Entity :=
  (Entity.ofTable "pets").withField "owner" (Graph.People.refersTo "keeper" "keeperId")

/-- Only people are visited, though three times. -/
theorem eq_person_of_visits {visited : String}
    (h : Visits Graph.People.graph "person" tomsGrandchildren.clauses visited) :
    visited = "person" := by
  have hperson {entity : Entity} (h : Graph.People.graph.entity? "person" = some entity) :
      entity = Graph.People.person := (Option.some.inj h).symm
  -- from people along a link to people, with one clause under it
  have hlink {field : String} {link : Link} (hfield : field = "mother" ∨ field = "father")
      (h : Graph.People.person.link? field = some link) : link.target = "person" := by
    rcases hfield with rfl | rfl <;> cases h <;> rfl
  cases h with
  | root => rfl
  | link known mem leads behind =>
    obtain ⟨rfl, heq⟩ := Prod.mk.inj (List.mem_singleton.mp mem)
    cases heq
    rw [hlink (.inl rfl) (hperson known ▸ leads)] at behind
    cases behind with
    | root => rfl
    | link known mem leads behind =>
      obtain ⟨rfl, heq⟩ := Prod.mk.inj (List.mem_singleton.mp mem)
      cases heq
      rw [hlink (.inr rfl) (hperson known ▸ leads)] at behind
      cases behind with
      | root => rfl
      | link _ mem _ _ =>
        obtain ⟨-, heq⟩ := Prod.mk.inj (List.mem_singleton.mp mem)
        contradiction

/-- The other entities of the graph can be missing or be replaced, and stray pets can be added. -/
theorem results_of_tomsGrandchildren :
    tomsGrandchildren.compile ⟨Graph.People.graph, .generic⟩ "person"
        = tomsGrandchildren.compile
          ⟨Graph.empty.withEntity "person" Graph.People.person, .generic⟩ "person"
      ∧ Request.compile ⟨Graph.People.graph.withEntity "tag" strayPet, .generic⟩ "person"
          { search := tomsGrandchildren }
        = Request.compile ⟨Graph.People.graph, .generic⟩ "person" { search := tomsGrandchildren }
      ∧ tomsGrandchildren.compile
          ⟨Graph.People.graph.withEntities [("pet", strayPet), ("cat", strayPet)], .generic⟩
          "person"
        = tomsGrandchildren.compile ⟨Graph.People.graph, .generic⟩ "person"
      ∧ (Graph.People.graph.withEntities [("pet", strayPet), ("cat", strayPet)]).validate
        ≠ .ok () := by
  obtain ⟨hfilters, -, hreplaced, hadded⟩ := results_depend_on_visited .generic
  refine ⟨hfilters _ _ _ _ fun visited h => ?_,
    (hreplaced Graph.People.graph "person" "tag" strayPet
      { search := tomsGrandchildren } fun h => ?_).2,
    (hadded Graph.People.graph (by decide) [("pet", strayPet), ("cat", strayPet)] (by decide)
      "person" Graph.People.person rfl { search := tomsGrandchildren }).1,
    by decide⟩
  · rw [eq_person_of_visits h]
    rfl
  · exact absurd (eq_person_of_visits h) (by decide)

end EntityQuery
